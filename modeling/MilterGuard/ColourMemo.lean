import MilterGuard.ByteStrings

/-!
The colour of text over a stack of paint layers, and the walk over a document that keeps
the last answer. A layer that cannot change colours leaves the answer valid; all others,
and the body whose background moves to the root, start a new generation. Colour numbers
are those of an ordered field. A stack has its innermost layer in front.
-/
namespace MilterGuard.ColourMemo

open ByteStrings

variable {K : Type} [Field K] [LinearOrder K]

structure RGBA (K : Type) where
  r : K
  g : K
  b : K
  a : K
  deriving DecidableEq

structure Value (K : Type) where
  text : Bytes
  number : K
  known : Bool
  rgba : RGBA K
  deriving DecidableEq

structure PaintLayer (K : Type) where
  background : RGBA K
  backgroundKnown : Bool
  imageKnown : Bool
  opacity : K
  opacityKnown : Bool
  compositionKnown : Bool
  enhancementKnown : Bool
  glyphKnown : Bool
  shadowKnown : Bool
  displayNone : Bool

inductive Uncertainty where
  | foreground
  | glyphEffect
  | compositionEffect
  | groupOpacity
  | backgroundOrImage
  | backgroundImage
  | imageOrComposition
  | visitedLink

inductive ColourResult (K : Type) where
  | known (foreground background : RGBA K) (distance : K)
  | uncertain (reason : Uncertainty)

/-- How far two colours are apart, and which distance conceals a text. -/
structure Metric (K : Type) where
  distance : RGBA K → RGBA K → K
  concealed : K → Bool

def clear : RGBA K := ⟨0, 0, 0, 0⟩

def white : RGBA K := ⟨1, 1, 1, 1⟩

def «over» (src dst : RGBA K) : RGBA K :=
  let a := src.a + dst.a * (1 - src.a)
  if a = 0 then clear
  else ⟨(src.r * src.a + dst.r * dst.a * (1 - src.a)) / a,
    (src.g * src.a + dst.g * dst.a * (1 - src.a)) / a,
    (src.b * src.a + dst.b * dst.a * (1 - src.a)) / a, a⟩

def PaintLayer.colourNeutral (p : PaintLayer K) : Prop :=
  p.backgroundKnown ∧ p.background.a = 0 ∧ p.imageKnown ∧ p.opacityKnown ∧ p.opacity = 1 ∧
    p.compositionKnown ∧ p.enhancementKnown

instance (p : PaintLayer K) : Decidable p.colourNeutral := by
  unfold PaintLayer.colourNeutral
  infer_instance

/-- One colour through a paint group. -/
def PaintLayer.through (p : PaintLayer K) (colour : RGBA K) : RGBA K :=
  let painted := if colour.a < 1 then «over» colour p.background else colour
  { painted with a := painted.a * p.opacity }

/-- The loop of evaluateColour from the inside to the outside. -/
def composite (m : Metric K) :
    List (PaintLayer K) → RGBA K → RGBA K → Bool → Bool → ColourResult K
  | [], ink, ground, enhancement, image =>
    let ink := «over» ink white
    let ground := «over» ground white
    let distance := m.distance ink ground
    if image then .uncertain .backgroundImage
    else if enhancement && m.concealed distance then .uncertain .imageOrComposition
    else .known ink ground distance
  | p :: outer, ink, ground, enhancement, image =>
    if !p.compositionKnown then .uncertain .compositionEffect
    else if !p.opacityKnown then .uncertain .groupOpacity
    else if (!p.backgroundKnown || !p.imageKnown) && (ink.a < 1 || ground.a < 1) then
      if p.backgroundKnown && !p.imageKnown then
        composite m outer (p.through ink) (p.through ground)
          (enhancement || !p.enhancementKnown) true
      else .uncertain .backgroundOrImage
    else composite m outer (p.through ink) (p.through ground)
      (enhancement || !p.enhancementKnown) image

def evaluateColour (m : Metric K) (foreground : Value K) (layers : List (PaintLayer K)) :
    ColourResult K :=
  if !foreground.known then .uncertain .foreground
  else match layers with
    | [] => composite m [] foreground.rgba clear false false
    | owner :: outer =>
      if !owner.glyphKnown then .uncertain .glyphEffect
      else composite m (owner :: outer) foreground.rgba clear (!owner.shadowKnown) false

/-- The colour of a visited link. -/
def visitedColour : RGBA K := ⟨85 / 255, 26 / 255, 139 / 255, 1⟩

/-- The answer without the memo. A link must look alike visited and unvisited. -/
def freshColour (m : Metric K) (foreground : Value K) (layers : List (PaintLayer K)) :
    ColourResult K :=
  match evaluateColour m foreground layers with
  | .uncertain reason => .uncertain reason
  | .known ink ground distance =>
    if foreground.text = ascii "link-default" then
      match evaluateColour m { foreground with rgba := visitedColour } layers with
      | .uncertain _ => .uncertain .visitedLink
      | .known _ _ alternate =>
        if m.concealed distance = m.concealed alternate then .known ink ground distance
        else .uncertain .visitedLink
    else .known ink ground distance

structure Memo (K : Type) where
  foreground : Value K
  result : ColourResult K
  generation : ℕ

structure Runner (K : Type) where
  layers : List (PaintLayer K)
  layerGeneration : ℕ
  colourMemo : Option (Memo K)

section Walk

variable (m : Metric K) (r : Runner K)

def Runner.evaluateColour (foreground : Value K) : ColourResult K × Runner K :=
  let fresh := freshColour m foreground r.layers
  let kept := (fresh, { r with colourMemo := some ⟨foreground, fresh, r.layerGeneration⟩ })
  match r.colourMemo with
  | some memo =>
    if memo.generation = r.layerGeneration ∧ memo.foreground = foreground then (memo.result, r)
    else kept
  | none => kept

def propagateHTMLBodyBackground : List (PaintLayer K) → List (PaintLayer K)
  | body :: root :: outer =>
    if root.displayNone || body.displayNone || !root.backgroundKnown || root.background.a ≠ 0 ||
        !root.imageKnown then body :: root :: outer
    else { body with background := clear, backgroundKnown := true, imageKnown := true } ::
      { root with background := body.background, backgroundKnown := body.backgroundKnown,
                  imageKnown := body.imageKnown } :: outer
  | layers => layers

/-- The elements that the canvas rule tells apart, both without a namespace. -/
inductive Tag where
  | html
  | body
  | other
  deriving DecidableEq

/-- Whether the layer, put on this stack, can change colours. -/
def changes (paint : PaintLayer K) : List (PaintLayer K) → Bool
  | [] => !decide paint.colourNeutral
  | parent :: _ => !decide paint.colourNeutral || parent.glyphKnown != paint.glyphKnown ||
      parent.shadowKnown != paint.shadowKnown

def Runner.enterPaintLayer (parent : Option Tag) (tag : Tag) (paint : PaintLayer K) :
    Bool × Runner K :=
  if tag = .body ∧ parent = some .html then
    (true, { r with layers := propagateHTMLBodyBackground (paint :: r.layers),
                    layerGeneration := r.layerGeneration + 1 })
  else if changes paint r.layers then
    (true, { r with layers := paint :: r.layers, layerGeneration := r.layerGeneration + 1 })
  else (false, { r with layers := paint :: r.layers })

def Runner.leavePaintLayer (changed : Bool) : Runner K :=
  { r with layers := r.layers.tail,
           layerGeneration := if changed then r.layerGeneration + 1 else r.layerGeneration }

/-- What the walk meets: a text or control whose colour is asked for, or an element. -/
inductive Item (K : Type) where
  | colour (foreground : Value K)
  | element (tag : Tag) (paint : PaintLayer K) (items : List (Item K))

/-- An answer of the walk with the layers it was given for. -/
structure Answer (K : Type) where
  foreground : Value K
  layers : List (PaintLayer K)
  result : ColourResult K

mutual

def walkItem (parent : Option Tag) : Item K → Runner K → List (Answer K) × Runner K
  | .colour foreground, r =>
    let found := r.evaluateColour m foreground
    ([⟨foreground, r.layers, found.1⟩], found.2)
  | .element tag paint items, r =>
    let entered := r.enterPaintLayer parent tag paint
    let inner := walkItems (some tag) items entered.2
    (inner.1, inner.2.leavePaintLayer entered.1)

def walkItems (parent : Option Tag) : List (Item K) → Runner K → List (Answer K) × Runner K
  | [], r => ([], r)
  | item :: items, r =>
    let first := walkItem parent item r
    let later := walkItems parent items first.2
    (first.1 ++ later.1, later.2)

end

mutual

/-- The parser makes no html element but the root. -/
def Item.inner : Item K → Bool
  | .colour _ => true
  | .element tag _ items => tag ≠ .html && innerItems items

def innerItems : List (Item K) → Bool
  | [] => true
  | item :: items => item.inner && innerItems items

end

/-- A parsed document is its root element. -/
structure Document (K : Type) where
  tag : Tag
  paint : PaintLayer K
  items : List (Item K)
  inner : innerItems items = true

/-- A viewing case starts without layers and without a memo. -/
def walk (d : Document K) : List (Answer K) :=
  (walkItem m none (.element d.tag d.paint d.items) ⟨[], 0, none⟩).1

end Walk

section Neutral

theorem over_of_clear {src : RGBA K} (h : src.a = 0) (dst : RGBA K) :
    «over» src dst = «over» clear dst := by
  simp [«over», clear, h]

theorem over_transparent {dst : RGBA K} (h : dst.a = 0) (src : RGBA K) :
    «over» src dst = if src.a = 0 then clear else src := by
  by_cases hsrc : src.a = 0
  · simp [«over», h, hsrc]
  · simp [«over», h, hsrc]

variable [IsStrictOrderedRing K]

theorem through_of_clear (p : PaintLayer K) {colour : RGBA K} (h : colour.a = 0) :
    p.through colour = p.through clear := by
  have hlow : colour.a < 1 := h ▸ zero_lt_one
  have hclear : (clear : RGBA K).a < 1 := zero_lt_one
  rw [PaintLayer.through, PaintLayer.through, if_pos hlow, if_pos hclear, over_of_clear h]

/-- The channels of a colour without alpha have no part in the result. -/
theorem composite_of_clear (m : Metric K) (layers : List (PaintLayer K)) {ink : RGBA K}
    (h : ink.a = 0) (ground : RGBA K) (enhancement image : Bool) :
    composite m layers ink ground enhancement image =
      composite m layers clear ground enhancement image := by
  have hclear : (clear : RGBA K).a = ink.a := h.symm
  cases layers with
  | nil => simp only [composite, over_of_clear h]
  | cons p outer => simp only [composite, through_of_clear p h, hclear]

theorem through_neutral {p : PaintLayer K} (h : p.colourNeutral) (colour : RGBA K) :
    p.through colour = if colour.a = 0 then clear else colour := by
  obtain ⟨-, htransparent, -, -, hopacity, -⟩ := h
  rw [PaintLayer.through, over_transparent htransparent, hopacity]
  by_cases hzero : colour.a = 0
  · simp [hzero]
  · by_cases hlow : colour.a < 1 <;> simp [hzero, hlow]

theorem composite_neutral (m : Metric K) {p : PaintLayer K} (h : p.colourNeutral)
    (layers : List (PaintLayer K)) (ink : RGBA K) (enhancement image : Bool) :
    composite m (p :: layers) ink clear enhancement image =
      composite m layers ink clear enhancement image := by
  have hground : p.through clear = clear := by rw [through_neutral h, ite_self]
  have hink := through_neutral h ink
  obtain ⟨hbackground, -, himage, hopacityKnown, -, hcomposition, henhancement⟩ := h
  simp only [composite, hbackground, himage, hopacityKnown, hcomposition, henhancement, hground,
    hink, Bool.not_true, Bool.or_false, Bool.false_and, Bool.false_eq_true, if_false]
  split
  · rename_i hzero
    exact (composite_of_clear m layers hzero clear enhancement image).symm
  · rfl

/-- A layer that changes nothing on its stack leaves every answer as it is. -/
theorem freshColour_unchanged (m : Metric K) (foreground : Value K) {paint : PaintLayer K}
    {layers : List (PaintLayer K)} (hlayers : layers ≠ []) (h : changes paint layers = false) :
    freshColour m foreground (paint :: layers) = freshColour m foreground layers := by
  cases layers with
  | nil => exact absurd rfl hlayers
  | cons parent outer =>
    obtain ⟨⟨hneutral, hglyph⟩, hshadow⟩ : (paint.colourNeutral ∧
        parent.glyphKnown = paint.glyphKnown) ∧ parent.shadowKnown = paint.shadowKnown := by
      simpa [changes] using h
    have hevaluate : ∀ foreground : Value K,
        evaluateColour m foreground (paint :: parent :: outer) =
          evaluateColour m foreground (parent :: outer) := by
      intro foreground
      simp only [evaluateColour, hglyph, hshadow, composite_neutral m hneutral]
    simp only [freshColour, hevaluate]

end Neutral

section Sound

variable (m : Metric K)

/-- A memo of the current generation is the answer for the current layers. -/
def Fresh (r : Runner K) : Prop :=
  ∀ memo ∈ r.colourMemo, memo.generation ≤ r.layerGeneration ∧
    (memo.generation = r.layerGeneration → memo.result = freshColour m memo.foreground r.layers)

def Answer.Right (answer : Answer K) : Prop :=
  answer.result = freshColour m answer.foreground answer.layers

/-- A new generation needs no memo. -/
theorem Fresh.renewed {r : Runner K} (h : Fresh m r) (layers : List (PaintLayer K)) :
    Fresh m ⟨layers, r.layerGeneration + 1, r.colourMemo⟩ := by
  intro memo hmemo
  have hle := (h memo hmemo).1
  exact ⟨Nat.le_succ_of_le hle, fun heq => absurd heq (by simp only; omega)⟩

theorem Fresh.relayered {r : Runner K} (h : Fresh m r) {layers : List (PaintLayer K)}
    (hlayers : ∀ foreground, freshColour m foreground layers = freshColour m foreground r.layers) :
    Fresh m ⟨layers, r.layerGeneration, r.colourMemo⟩ := by
  intro memo hmemo
  obtain ⟨hle, hresult⟩ := h memo hmemo
  exact ⟨hle, fun heq => (hresult heq).trans (hlayers memo.foreground).symm⟩

theorem evaluateColour_sound {r : Runner K} (h : Fresh m r) (foreground : Value K) :
    (r.evaluateColour m foreground).1 = freshColour m foreground r.layers ∧
      Fresh m (r.evaluateColour m foreground).2 ∧
      (r.evaluateColour m foreground).2.layers = r.layers := by
  have hkept : Fresh m ⟨r.layers, r.layerGeneration,
      some ⟨foreground, freshColour m foreground r.layers, r.layerGeneration⟩⟩ := by
    intro memo hmemo
    obtain rfl := Option.some.inj hmemo
    exact ⟨Nat.le_refl _, fun _ => rfl⟩
  unfold Runner.evaluateColour
  cases hmemo : r.colourMemo with
  | none => exact ⟨rfl, hkept, rfl⟩
  | some memo =>
    dsimp only
    split
    · rename_i hvalid
      obtain ⟨hgeneration, rfl⟩ := hvalid
      exact ⟨(h memo (by simp [hmemo])).2 hgeneration, h, rfl⟩
    · exact ⟨rfl, hkept, rfl⟩

theorem propagate_tail (paint : PaintLayer K) {layers : List (PaintLayer K)} (h : layers ≠ []) :
    (propagateHTMLBodyBackground (paint :: layers)).tail ≠ [] := by
  cases layers with
  | nil => exact absurd rfl h
  | cons root outer =>
    rw [propagateHTMLBodyBackground]
    split <;> simp

/-- What a part of the walk leaves: right answers, a fresh memo, and layers below. Only
the body of a root changes a layer below. -/
structure Sound (parent : Option Tag) (r : Runner K)
    (done : List (Answer K) × Runner K) : Prop where
  right : ∀ answer ∈ done.1, answer.Right m
  fresh : Fresh m done.2
  layers_ne : done.2.layers ≠ []
  layers_eq : parent ≠ some .html → done.2.layers = r.layers

variable [IsStrictOrderedRing K]

/-- Around items that leave the layers alone, an element leaves a sound walk. -/
theorem element_sound {parent : Option Tag} {tag : Tag} {paint : PaintLayer K}
    {items : List (Item K)} {r : Runner K} (hlayers : r.layers ≠ []) (hfresh : Fresh m r)
    (htag : some tag ≠ some Tag.html)
    (hitems : ∀ s : Runner K, s.layers ≠ [] → Fresh m s →
      Sound m (some tag) s (walkItems m (some tag) items s)) :
    Sound m parent r (walkItem m parent (.element tag paint items) r) := by
  rw [walkItem]
  unfold Runner.enterPaintLayer
  split_ifs with hbody hchanges
  · have hinner := hitems _ (fun hnil => propagate_tail paint hlayers (congrArg List.tail hnil))
      (hfresh.renewed m (propagateHTMLBodyBackground (paint :: r.layers)))
    have heq := hinner.layers_eq htag
    refine ⟨hinner.right, hinner.fresh.renewed m _, ?_, fun hparent => absurd hbody.2 hparent⟩
    simp only [Runner.leavePaintLayer, heq]
    exact propagate_tail paint hlayers
  · have hinner := hitems _ (by simp) (hfresh.renewed m (paint :: r.layers))
    have heq := hinner.layers_eq htag
    refine ⟨hinner.right, hinner.fresh.renewed m _, ?_, fun _ => ?_⟩
    · simpa only [Runner.leavePaintLayer, heq, List.tail_cons] using hlayers
    · simp only [Runner.leavePaintLayer, heq, List.tail_cons]
  · have hsame : ∀ foreground, freshColour m foreground (paint :: r.layers) =
        freshColour m foreground r.layers := fun foreground =>
      freshColour_unchanged m foreground hlayers (by simpa using hchanges)
    have hinner := hitems _ (by simp) (hfresh.relayered m hsame)
    have heq := hinner.layers_eq htag
    have hback : Fresh m ((walkItems m (some tag) items
        { r with layers := paint :: r.layers }).2.leavePaintLayer false) := by
      refine hinner.fresh.relayered m fun foreground => ?_
      rw [heq, List.tail_cons, hsame]
    refine ⟨hinner.right, hback, ?_, fun _ => ?_⟩
    · simpa only [Runner.leavePaintLayer, heq, List.tail_cons] using hlayers
    · simp only [Runner.leavePaintLayer, heq, List.tail_cons]

mutual

theorem walkItem_sound (parent : Option Tag) : ∀ (item : Item K) (r : Runner K),
    item.inner = true → r.layers ≠ [] → Fresh m r → Sound m parent r (walkItem m parent item r)
  | .colour foreground, r, _, hlayers, hfresh => by
    obtain ⟨hresult, hnext, heq⟩ := evaluateColour_sound m hfresh foreground
    rw [walkItem]
    refine ⟨fun answer hanswer => ?_, hnext, heq ▸ hlayers, fun _ => heq⟩
    obtain rfl := List.mem_singleton.mp hanswer
    exact hresult
  | .element tag paint items, r, hinner, hlayers, hfresh => by
    obtain ⟨htag, hitems⟩ : tag ≠ .html ∧ innerItems items = true := by
      simpa [Item.inner] using hinner
    exact element_sound m hlayers hfresh (by simpa using htag)
      fun s hs hsfresh => walkItems_sound (some tag) items s hitems hs hsfresh

theorem walkItems_sound (parent : Option Tag) : ∀ (items : List (Item K)) (r : Runner K),
    innerItems items = true → r.layers ≠ [] → Fresh m r →
    Sound m parent r (walkItems m parent items r)
  | [], r, _, hlayers, hfresh => ⟨by simp [walkItems], hfresh, hlayers, fun _ => rfl⟩
  | item :: items, r, hinner, hlayers, hfresh => by
    obtain ⟨hitem, hitems⟩ : item.inner = true ∧ innerItems items = true := by
      simpa [innerItems] using hinner
    have hfirst := walkItem_sound parent item r hitem hlayers hfresh
    have hlater := walkItems_sound parent items _ hitems hfirst.layers_ne hfirst.fresh
    rw [walkItems]
    refine ⟨fun answer hanswer => ?_, hlater.fresh, hlater.layers_ne, fun hparent => ?_⟩
    · rcases List.mem_append.mp hanswer with hmem | hmem
      · exact hfirst.right answer hmem
      · exact hlater.right answer hmem
    · exact (hlater.layers_eq hparent).trans (hfirst.layers_eq hparent)

end

/-- Every answer of the walk over a document is the one without the memo, for the layers
at that moment. -/
theorem memo_transparent (d : Document K) :
    ∀ answer ∈ walk m d, answer.result = freshColour m answer.foreground answer.layers := by
  obtain ⟨generation, hentered⟩ : ∃ generation,
      (Runner.enterPaintLayer ⟨[], 0, none⟩ none d.tag d.paint).2 =
        ⟨[d.paint], generation, none⟩ := by
    unfold Runner.enterPaintLayer
    rw [if_neg (by simp)]
    split
    · exact ⟨1, rfl⟩
    · exact ⟨0, rfl⟩
  have hfresh : Fresh m (⟨[d.paint], generation, none⟩ : Runner K) := by
    intro memo hmemo
    exact absurd hmemo (by simp)
  intro answer hanswer
  rw [walk, walkItem, hentered] at hanswer
  exact (walkItems_sound m _ d.items _ d.inner (by simp) hfresh).right answer hanswer

end Sound

private def plainLayer : PaintLayer ℚ := ⟨clear, true, true, 1, true, true, true, true, true, false⟩

private def whiteText : Item ℚ := .colour ⟨ascii "white", 0, true, white⟩

/-- White text in the body and in a span of it. -/
private def whitePage : Document ℚ :=
  ⟨.html, plainLayer,
    [.element .body plainLayer [whiteText, .element .other plainLayer [whiteText]]], rfl⟩

private def coarse : Metric ℚ := ⟨fun ink ground => if ink = ground then 0 else 1, (· ≤ 1 / 200)⟩

theorem whitePage_transparent : (walk coarse whitePage).length = 2 ∧
    ∀ answer ∈ walk coarse whitePage,
      answer.result = freshColour coarse answer.foreground answer.layers :=
  ⟨rfl, memo_transparent coarse whitePage⟩

end MilterGuard.ColourMemo
