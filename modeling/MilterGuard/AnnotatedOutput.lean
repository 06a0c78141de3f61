import MilterGuard.HtmlTexts

/-!
The output of an extraction before its visibility markup is written. Every byte
remembers whether an annotation tag brought it in, so that the tags of a rendering
can be taken out again even where a rendered text became part of another output.
What is left is the text of the chunks that are not stripped, in their order.
-/
namespace MilterGuard.AnnotatedOutput

open ByteStrings HtmlTexts AnnotationTags TextRuns

inductive AnnotationKind
  | visible
  | concealed
  | clientDependent
  | unknown
  | stripped
  deriving DecidableEq

structure AnnotationMark where
  kind : AnnotationKind
  reason : Bytes
  value : Bytes
  deriving DecidableEq

def unmarked : AnnotationMark := ⟨.visible, [], []⟩

def strippedMark : AnnotationMark := ⟨.stripped, [], []⟩

/-- Bytes with their origin: `true` for a byte of a generated tag. No decision of
the extraction looks at the origin. -/
abbrev Traced := List (UInt8 × Bool)

variable (text : Traced)

/-- The text as the program has it. -/
def content : Bytes := text.map Prod.fst

/-- The text without the generated tags. -/
def untagged : Bytes := content (text.filter fun glyph => !glyph.2)

variable (value : Bytes)

def typed : Traced := value.map (·, false)

def tag : Traced := value.map (·, true)

@[simp]
theorem content_typed : content (typed value) = value := by
  simp [content, typed, Function.comp_def]

@[simp]
theorem content_append (s t : Traced) : content (s ++ t) = content s ++ content t :=
  List.map_append

@[simp]
theorem untagged_append (s t : Traced) : untagged (s ++ t) = untagged s ++ untagged t := by
  simp [untagged]

@[simp]
theorem untagged_typed : untagged (typed value) = value := by
  have hfilter : (typed value).filter (fun glyph => !glyph.2) = typed value := by
    rw [List.filter_eq_self]
    intro glyph hglyph
    obtain ⟨c, -, rfl⟩ := List.mem_map.mp hglyph
    rfl
  rw [untagged, hfilter, content_typed]

@[simp]
theorem untagged_nil : untagged [] = [] := rfl

@[simp]
theorem untagged_tag : untagged (tag value) = [] := by
  simp [untagged, content, tag]

theorem untagged_subset : untagged text ⊆ content text :=
  List.map_subset _ (List.filter_subset_self ..)

/-- strings.TrimSpace with the origins kept. -/
def trimTraced : Traced :=
  (text.drop (text.length - (trimLeft (content text)).length)).take
    (trimSpace (content text)).length

/-- What a trimmed text lost on both sides. -/
theorem trimTraced_split :
    ∃ left right, text = left ++ trimTraced text ++ right ∧
      content (trimTraced text) = trimSpace (content text) ∧
      (∀ c ∈ content left, idle c = true) ∧ ∀ c ∈ content right, idle c = true := by
  obtain ⟨left, right, hvalue, hleft, hright, htrimmed⟩ := trimSpace_idle (content text)
  have hlength : text.length = left.length + (trimLeft (content text)).length := by
    have hcontent := congrArg List.length hvalue
    simp only [content, List.length_map, List.length_append] at hcontent
    simp only [htrimmed, List.length_append]
    simp only [content]
    omega
  have hdrop : text.length - (trimLeft (content text)).length = left.length := by omega
  have hcontent : content text = left ++ (trimSpace (content text) ++ right) := by
    rw [← List.append_assoc]
    exact hvalue
  have hsplit : content (text.take left.length) = left ∧
      content (text.drop left.length) = trimSpace (content text) ++ right := by
    have hboth : content (text.take left.length) ++ content (text.drop left.length) =
        left ++ (trimSpace (content text) ++ right) := by
      rw [← content_append, List.take_append_drop]
      exact hcontent
    apply List.append_inj hboth
    simp only [content, List.length_map, List.length_take]
    omega
  obtain ⟨htake, hrest⟩ := hsplit
  refine ⟨text.take left.length, (text.drop left.length).drop (trimSpace (content text)).length,
    ?_, ?_, ?_, ?_⟩
  · unfold trimTraced
    rw [hdrop, List.append_assoc, List.take_append_drop, List.take_append_drop]
  · unfold trimTraced
    rw [hdrop]
    change ((text.drop left.length).take _).map Prod.fst = _
    rw [List.map_take]
    change (content (text.drop left.length)).take _ = _
    rw [hrest, List.take_left]
  · rwa [htake]
  · have hlast : content ((text.drop left.length).drop (trimSpace (content text)).length) =
        right := by
      change ((text.drop left.length).drop _).map Prod.fst = _
      rw [List.map_drop]
      change (content (text.drop left.length)).drop _ = _
      rw [hrest, List.drop_left]
    rwa [hlast]

/-- Chunks with their texts. Writing extends the last chunk while the annotation
stays the same. -/
abbrev Output := List (AnnotationMark × Traced)

/-- The chunk consists of white space and formatting padding. -/
def blank : Bool := annotationWhitespaceOnly (content text)

def uniformFrom {A : Type} (isBlank : List A → Bool) :
    Option AnnotationMark → List (AnnotationMark × List A) → Option AnnotationMark
  | found, [] => found
  | found, (mark, text) :: rest =>
    if isBlank text then uniformFrom isBlank found rest
    else match found with
      | none => uniformFrom isBlank (some mark) rest
      | some first => if mark = first then uniformFrom isBlank found rest else none

/-- The annotation that all chunks with content share. -/
def uniformAnnotation (chunks : Output) : Option AnnotationMark := uniformFrom blank none chunks

def closingTag (mark : AnnotationMark) : Bytes :=
  match mark.kind with
  | .concealed => ascii "</invisible>"
  | .clientDependent => ascii "</visibility-varies-by-viewport-size>"
  | .unknown => ascii "</visibility-uncertain>"
  | .visible | .stripped => []

def openingTag (mark : AnnotationMark) : Bytes :=
  match mark.kind with
  | .concealed =>
    ascii "<invisible reason=\"" ++ mark.reason ++ [0x22] ++
      (if mark.value.isEmpty then [] else ascii " value=\"" ++ mark.value ++ [0x22]) ++ [0x3E]
  | .clientDependent => ascii "<visibility-varies-by-viewport-size>"
  | .unknown => ascii "<visibility-uncertain>"
  | .stripped => ascii "<hidden-content-stripped/>"
  | .visible => []

/-- The state of a rendering: white space waits until it is known on which side
of a tag it belongs. -/
structure Rendering where
  out : Traced
  pending : Traced
  active : Option AnnotationMark
  lastWasStripped : Bool

namespace Rendering

variable (r : Rendering)

def closeActive : Rendering :=
  match r.active with
  | none => r
  | some mark => { r with out := r.out ++ tag (closingTag mark), active := none }

def flush : Rendering := { r with out := r.out ++ r.pending, pending := [] }

def put (text : Traced) : Rendering := { r with out := r.out ++ text }

def step (chunk : AnnotationMark × Traced) : Rendering :=
  if blank chunk.2 then { r with pending := r.pending ++ chunk.2 }
  else match chunk.1.kind with
    | .stripped =>
      let closed := r.closeActive.flush
      { (if closed.lastWasStripped then closed else closed.put (tag (openingTag chunk.1))) with
        lastWasStripped := true }
    | .visible => ({ r with lastWasStripped := false }).closeActive.flush.put chunk.2
    | .concealed | .clientDependent | .unknown =>
      let r := { r with lastWasStripped := false }
      if r.active = some chunk.1 then r.flush.put chunk.2
      else
        { (r.closeActive.flush.put (tag (openingTag chunk.1))) with active := some chunk.1 }.put
          chunk.2

end Rendering

def renderAnnotations (chunks : Output) : Traced :=
  let last := chunks.foldl Rendering.step ⟨[], [], none, false⟩
  last.closeActive.flush.out

/-- White space is kept even where hidden content is stripped. -/
def kept {A : Type} (isBlank : List A → Bool) (chunk : AnnotationMark × List A) : Bool :=
  isBlank chunk.2 || decide (chunk.1.kind ≠ .stripped)

variable (r : Rendering)

/-- The text a rendering has so far, without tags and with the waiting white space. -/
private def Rendering.written : Bytes := untagged (r.out ++ r.pending)

private theorem written_closeActive : r.closeActive.written = r.written := by
  unfold Rendering.closeActive
  split
  · rfl
  · simp [Rendering.written]

private theorem written_flush : r.flush.written = r.written := by
  simp [Rendering.written, Rendering.flush]

private theorem written_put_flush (text : Traced) :
    (r.flush.put text).written = r.written ++ untagged text := by
  simp [Rendering.written, Rendering.flush, Rendering.put]

/-- A chunk adds its own text or, when it is stripped, nothing. -/
private theorem written_step (chunk : AnnotationMark × Traced) :
    (r.step chunk).written =
      r.written ++ (if kept blank chunk then untagged chunk.2 else []) := by
  unfold Rendering.step
  by_cases hblank : blank chunk.2 = true
  · simp [hblank, kept, Rendering.written]
  rw [if_neg hblank]
  have hclosed (r : Rendering) (text : Traced) :
      (r.closeActive.flush.put text).written = r.written ++ untagged text := by
    rw [written_put_flush, written_closeActive]
  split
  next hkind =>
    have hkept : kept blank chunk = false := by simp [kept, hkind, hblank]
    rw [hkept, if_neg (by simp)]
    dsimp only
    split_ifs
    · have hflush := written_flush r.closeActive
      rw [written_closeActive] at hflush
      simpa [Rendering.written] using hflush
    · have hput := hclosed r (tag (openingTag chunk.1))
      simpa [Rendering.written] using hput
  next hkind =>
    have hkept : kept blank chunk = true := by simp [kept, hkind]
    rw [hkept, hclosed]
    rfl
  all_goals
    rename_i hkind
    have hkept : kept blank chunk = true := by simp [kept, hkind]
    dsimp only
    split_ifs
    · exact written_put_flush _ _
    · have hput := hclosed { r with lastWasStripped := false } (tag (openingTag chunk.1))
      rw [untagged_tag, List.append_nil] at hput
      have hadd (r : Rendering) (text : Traced) (hpending : r.pending = []) :
          (r.put text).written = r.written ++ untagged text := by
        simp [Rendering.written, Rendering.put, hpending]
      rw [hadd _ _ rfl]
      exact congrArg (· ++ untagged chunk.2) hput

/-- Without its tags a rendering is the text of the chunks that are kept. -/
theorem untagged_renderAnnotations (chunks : Output) :
    untagged (renderAnnotations chunks) =
      (chunks.filter (kept blank)).flatMap fun chunk => untagged chunk.2 := by
  have hrun (r : Rendering) : (chunks.foldl Rendering.step r).written =
      r.written ++ (chunks.filter (kept blank)).flatMap fun chunk => untagged chunk.2 := by
    induction chunks generalizing r with
    | nil => simp
    | cons chunk rest ih =>
      rw [List.foldl_cons, ih, written_step]
      by_cases hkept : kept blank chunk = true
      · simp [hkept]
      · simp [hkept]
  have hlast := hrun ⟨[], [], none, false⟩
  have hclosed := written_closeActive (chunks.foldl Rendering.step ⟨[], [], none, false⟩)
  rw [hlast] at hclosed
  simpa [Rendering.written, renderAnnotations, Rendering.flush] using hclosed

end MilterGuard.AnnotatedOutput
