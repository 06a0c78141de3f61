import MilterGuard.HtmlTexts

/-!
The number of visible characters of a text. It is counted rune by rune, without the
normalised text, and is the number of runes of that text.
-/
namespace MilterGuard.CountedTexts

open ByteStrings HtmlTexts AnnotationTags Utf8 ValidTexts

structure Counting where
  count : ℕ
  trimmed : ℕ
  meaningful : Bool
  space : Bool
  newlines : ℕ

def Counting.read (c : Counting) (r : ℕ) : Counting :=
  if r = 0x20 || r = 0x09 || r = 0x0C then { c with space := true }
  else if r = 0x0D || r = 0x0A then
    if 0 < c.count && c.newlines < 2 then
      { c with space := false, count := c.count + 1, newlines := c.newlines + 1 }
    else { c with space := false }
  else
    let count := (if c.space && 0 < c.count && c.newlines = 0 then c.count + 1 else c.count) + 1
    ⟨count, count, c.meaningful || !preheaderPaddingRune r, false, 0⟩

/-- A run of invalid bytes is read as a single rune. -/
def confidentPreparedTextCharacters (value : Bytes) : ℕ :=
  let last := (repairRunes (runes value)).foldl Counting.read ⟨0, 0, false, false, 0⟩
  if last.meaningful then last.trimmed else 0

/-- A rune that is neither white space of the normalisation nor formatting padding. -/
def meaningfulRune (r : ℕ) : Bool := !formattingSpace r && !preheaderPaddingRune r

private theorem read_meaningful (c : Counting) (r : ℕ) :
    (c.read r).meaningful = (c.meaningful || meaningfulRune r) := by
  unfold Counting.read meaningfulRune formattingSpace
  split_ifs <;> grind

private theorem foldl_meaningful (rs : List ℕ) (c : Counting) :
    (rs.foldl Counting.read c).meaningful = (c.meaningful || rs.any meaningfulRune) := by
  induction rs generalizing c with
  | nil => simp
  | cons r rs ih => rw [List.foldl_cons, ih, read_meaningful, List.any_cons, Bool.or_assoc]

private theorem any_repairRunes (p : ℕ → Bool) (rs : List (Option ℕ)) :
    (repairRunes rs).any p = (rs.map fun r => r.getD replacement).any p := by
  fun_induction repairRunes rs <;> simp_all

/-- The counters while `text` has been written, with line ends behind it. -/
private structure Counted (c : Counting) (text : List ℕ) : Prop where
  scalars : ∀ r ∈ text, scalar r
  trimmed : c.trimmed = text.length
  count : c.count = text.length + c.newlines
  first : ∀ r ∈ text.head?, formattingSpace r = false
  last : ∀ r ∈ text.getLast?, formattingSpace r = false
  newlines : text = [] → c.newlines = 0

variable {c : Counting} {text : List ℕ} {r : ℕ}

/-- The text with its line ends, as the normalisation has it. -/
private def Counting.output (c : Counting) (text : List ℕ) : Bytes :=
  encode (text ++ List.replicate c.newlines 0x0A)

private theorem Counted.output_isEmpty (h : Counted c text) :
    (!(c.output text).isEmpty) = decide (0 < c.count) := by
  have hlines := h.newlines
  rw [h.count, Counting.output]
  cases text with
  | nil => simp [hlines rfl, encode]
  | cons r text =>
    have hne : encode (r :: text ++ List.replicate c.newlines 0x0A) ≠ [] :=
      List.append_ne_nil_of_left_ne_nil (encodeRune_ne_nil r) _
    rw [List.isEmpty_eq_false_iff.mpr hne, List.length_cons]
    simp only [Bool.not_false, true_eq_decide_iff]
    omega

/-- A rune that is not white space ends the text, and the line ends become part of it. -/
private theorem Counted.append (h : Counted c text) (hr : scalar r)
    (hspace : formattingSpace r = false) (gap : List ℕ) (hgap : ∀ g ∈ gap, g = 0x20)
    (hfirst : text = [] → gap = []) {n : ℕ} (hn : n = c.count + gap.length + 1) (m : Bool) :
    Counted ⟨n, n, m, false, 0⟩ (text ++ List.replicate c.newlines 0x0A ++ gap ++ [r]) where
  scalars := by
    intro s hs
    simp only [List.mem_append, List.mem_replicate, List.mem_singleton] at hs
    rcases hs with ((hs | ⟨-, rfl⟩) | hs) | rfl
    · exact h.scalars s hs
    · simp [scalar]
    · simp [hgap s hs, scalar]
    · exact hr
  trimmed := by simp [hn, h.count]; omega
  count := by simp [hn, h.count]; omega
  first := by
    cases text with
    | nil => simpa [h.newlines rfl, hfirst rfl] using hspace
    | cons t text => simpa using h.first
  last := by simpa using hspace
  newlines := by simp

/-- Both loops take a rune in the same way. -/
private theorem Counted.step (h : Counted c text) (hr : scalar r) (rest : List ℕ) :
    ∃ text', Counted (c.read r) text' ∧
      normalizeRunes c.space c.newlines (c.output text) (r :: rest) =
        normalizeRunes (c.read r).space (c.read r).newlines ((c.read r).output text') rest := by
  rw [normalizeRunes, h.output_isEmpty]
  unfold Counting.read
  by_cases hspace : (decide (r = 0x20) || decide (r = 0x09) || decide (r = 0x0C)) = true
  · rw [if_pos hspace, if_pos hspace]
    exact ⟨text, { h with }, rfl⟩
  rw [if_neg hspace, if_neg hspace]
  by_cases hline : (decide (r = 0x0D) || decide (r = 0x0A)) = true
  · rw [if_pos hline, if_pos hline]
    split_ifs with hroom
    · refine ⟨text, { h with count := ?_, newlines := fun hnil => ?_ }, ?_⟩
      · rw [h.count, Nat.add_assoc]
      · simp [h.count, hnil, h.newlines hnil] at hroom
      · simp [Counting.output, List.replicate_succ', encode, encodeRune, ← List.append_assoc]
    · exact ⟨text, { h with }, rfl⟩
  rw [if_neg hline, if_neg hline]
  have hplain : formattingSpace r = false := by
    simp only [formattingSpace, Bool.not_eq_true, Bool.or_eq_false_iff] at hspace hline ⊢
    tauto
  split_ifs with hgap
  · refine ⟨_, h.append hr hplain [0x20] (by simp) (fun hnil => ?_) rfl _, ?_⟩
    · simp [h.count, hnil, h.newlines hnil] at hgap
    · simp [Counting.output, encode, encodeRune]
  · refine ⟨_, h.append hr hplain [] (by simp) (fun _ => rfl) rfl _, ?_⟩
    simp [Counting.output, encode]

private theorem Counted.run (h : Counted c text) (rs : List ℕ) (hrs : ∀ r ∈ rs, scalar r) :
    ∃ text', Counted (rs.foldl Counting.read c) text' ∧
      normalizeRunes c.space c.newlines (c.output text) rs =
        (rs.foldl Counting.read c).output text' := by
  induction rs generalizing c text with
  | nil => exact ⟨text, h, rfl⟩
  | cons r rs ih =>
    obtain ⟨text', hstep, heq⟩ := h.step (hrs r (by simp)) rs
    obtain ⟨text'', hrun, hlast⟩ := ih hstep fun s hs => hrs s (by simp [hs])
    exact ⟨text'', hrun, heq.trans hlast⟩

/-- No byte of such a rune is white space. -/
private theorem encodeRune_visible (hr : scalar r) (hspace : formattingSpace r = false) :
    ∀ b ∈ encodeRune r, annotationSpace b = false := by
  intro b hb
  rw [Bool.eq_false_iff]
  intro hblank
  have hbyte : b.toNat < 0x80 ∧ formattingSpace b.toNat = true := by
    revert hblank
    exact forall_byte (fun b => annotationSpace b = true →
      b.toNat < 0x80 ∧ formattingSpace b.toNat = true) (by decide +kernel) b
  rw [(mem_encodeRune_ascii hr b hbyte.1).mp hb, hbyte.2] at hspace
  cases hspace

private theorem dropWhile_visible {bytes : Bytes} (hne : bytes ≠ [])
    (h : ∀ b ∈ bytes, annotationSpace b = false) (rest : Bytes) :
    (bytes ++ rest).dropWhile annotationSpace = bytes ++ rest := by
  cases bytes with
  | nil => exact absurd rfl hne
  | cons b bytes => simp [h b (by simp)]

/-- Trimming takes away the line ends and nothing else. -/
private theorem Counted.trim (h : Counted c text) :
    trimFormatting (c.output text) = encode text := by
  have hlines : encode (List.replicate c.newlines 0x0A) = List.replicate c.newlines 0x0A := by
    simp [encode, encodeRune, List.flatMap_replicate]
  have hfirst : (encode text ++ List.replicate c.newlines 0x0A).dropWhile annotationSpace =
      encode text ++ List.replicate c.newlines 0x0A := by
    cases text with
    | nil => simp [h.newlines rfl, encode]
    | cons r text =>
      rw [encode_cons, List.append_assoc]
      exact dropWhile_visible (encodeRune_ne_nil r)
        (encodeRune_visible (h.scalars r (by simp)) (h.first r rfl)) _
  have hlast : (encode text).reverse.dropWhile annotationSpace = (encode text).reverse := by
    rcases List.eq_nil_or_concat' text with rfl | ⟨before, r, rfl⟩
    · rfl
    · have hvisible := encodeRune_visible (h.scalars r (by simp)) (h.last r (by simp))
      have hr : encode [r] = encodeRune r := List.append_nil _
      rw [encode_append, hr, List.reverse_append]
      exact dropWhile_visible (by simpa using encodeRune_ne_nil r) (by simpa using hvisible) _
  rw [trimFormatting, Counting.output, encode_append, hlines, hfirst, List.reverse_append,
    List.dropWhile_append_of_pos (by simp [annotationSpace]), hlast, List.reverse_reverse]

/-- The count is the number of runes of the normalised text, or zero when the text has
nothing but white space and padding. -/
theorem counted_normalized (value : Bytes) :
    confidentPreparedTextCharacters value =
      if (decoded value).any meaningfulRune then (runes (normalizeHTMLText value)).length
      else 0 := by
  have hinit : Counted ⟨0, 0, false, false, 0⟩ [] :=
    ⟨nofun, rfl, rfl, nofun, nofun, fun _ => rfl⟩
  obtain ⟨text, hlast, hout⟩ := hinit.run (repairRunes (runes value)) fun r hr =>
    scalar_of_mem_repairRunes (fun _ hsome => scalar_of_mem_runes hsome) hr
  have htext : normalizeHTMLText value = encode text := by
    rw [normalizeHTMLText, ← hlast.trim, ← hout]
    rfl
  rw [confidentPreparedTextCharacters, foldl_meaningful, any_repairRunes, htext,
    runes_encode text hlast.scalars, List.length_map, ← hlast.trimmed]
  rfl

end MilterGuard.CountedTexts
