import MilterGuard.ByteStrings

/-!
Folded texts. A text of several lines is written on one logical line by putting a
blank behind every line end; a reader that trims the lines and joins them with single
blanks gets back a text that is never longer than the folded one.
-/
namespace MilterGuard.FoldedTexts

open ByteStrings

def crlf : Bytes := [0x0D, 0x0A]

/-- A line end with the blank that continues the logical line. -/
def fold : Bytes := [0x0D, 0x0A, 0x20]

def blank (b : UInt8) : Bool := b = 0x20 || b = 0x09

def trimLeftBlanks (text : Bytes) : Bytes := text.dropWhile blank

variable (line : Bytes)

/-- A line without the blanks and tabs around it. -/
def trimBlanks : Bytes := (trimLeftBlanks line).rdropWhile blank

/-- The lines of a text: CRLF, CR and LF each end one. -/
def lines : Bytes → List Bytes
  | [] => [[]]
  | 0x0D :: 0x0A :: rest => [] :: lines rest
  | 0x0D :: rest => [] :: lines rest
  | 0x0A :: rest => [] :: lines rest
  | b :: rest => (lines rest).modifyHead (b :: ·)

/-- The trimmed lines joined with single blanks, without blanks in front. -/
def unfolded (text : Bytes) : Bytes :=
  trimLeftBlanks (join [0x20] ((lines text).map trimBlanks))

/-- No line ends inside. -/
def OneLine : Prop := 0x0D ∉ line ∧ 0x0A ∉ line

theorem OneLine.append {first second : Bytes} (hfirst : OneLine first) (hsecond : OneLine second) :
    OneLine (first ++ second) := by
  simp only [OneLine, List.mem_append, not_or] at *
  exact ⟨⟨hfirst.1, hsecond.1⟩, hfirst.2, hsecond.2⟩

theorem OneLine.of_sublist {line whole : Bytes} (h : OneLine whole) (hsub : line.Sublist whole) :
    OneLine line :=
  ⟨fun hmem => h.1 (hsub.subset hmem), fun hmem => h.2 (hsub.subset hmem)⟩

variable {parts : List Bytes} (sep text : Bytes)

theorem OneLine.flatMap {sep : Bytes} (hsep : OneLine sep) (h : ∀ part ∈ parts, OneLine part) :
    OneLine (parts.flatMap (sep ++ ·)) := by
  induction parts with
  | nil => simp [OneLine]
  | cons part parts ih =>
    exact (hsep.append (h part List.mem_cons_self)).append
      (ih fun later hlater => h later (List.mem_cons_of_mem part hlater))

/-- The parts behind the first one each follow the separator. -/
theorem join_cons (first : Bytes) (more : List Bytes) :
    join sep (first :: more) = first ++ more.flatMap (sep ++ ·) := by
  induction more generalizing first with
  | nil => simp [join]
  | cons second more ih =>
    rw [join, ih, List.flatMap_cons, List.append_assoc, List.append_assoc]
    exact List.cons_ne_nil second more

theorem join_nil_cons (h : parts ≠ []) : join sep ([] :: parts) = sep ++ join sep parts := by
  obtain ⟨first, more, rfl⟩ := List.exists_cons_of_ne_nil h
  rfl

theorem join_modifyHead (b : UInt8) (h : parts ≠ []) :
    join sep (parts.modifyHead (b :: ·)) = b :: join sep parts := by
  obtain ⟨first, more, rfl⟩ := List.exists_cons_of_ne_nil h
  rw [List.modifyHead_cons, join_cons, join_cons, List.cons_append]

theorem lines_ne_nil : lines text ≠ [] := by
  fun_induction lines text with
  | case1 | case2 | case3 | case4 => simp
  | case5 b rest _ _ _ ih =>
    obtain ⟨first, more, hlines⟩ := List.exists_cons_of_ne_nil ih
    simp [hlines]

theorem lines_oneLine : ∀ line ∈ lines text, OneLine line := by
  fun_induction lines text with
  | case1 => simp [OneLine]
  | case2 rest ih | case3 rest _ ih | case4 rest ih => simpa [OneLine] using ih
  | case5 b rest _ hcr hlf ih =>
    obtain ⟨first, more, hlines⟩ := List.exists_cons_of_ne_nil (lines_ne_nil rest)
    rw [hlines] at ih ⊢
    intro line hline
    rcases List.mem_cons.mp hline with rfl | hmore
    · have hfirst := ih first List.mem_cons_self
      refine ⟨?_, ?_⟩
      · simpa using ⟨fun h => hcr h.symm, hfirst.1⟩
      · simpa using ⟨fun h => hlf h.symm, hfirst.2⟩
    · exact ih line (List.mem_cons_of_mem _ hmore)

/-- A text without line ends is its only line. -/
theorem lines_of_oneLine {text : Bytes} (h : OneLine text) : lines text = [text] := by
  induction text with
  | nil => rfl
  | cons b rest ih =>
    simp only [OneLine, List.mem_cons, not_or] at h
    have hrest := ih ⟨h.1.2, h.2.2⟩
    rw [lines, hrest, List.modifyHead_cons]
    · exact fun _ hb => absurd hb.symm h.1.1
    · exact fun hb => h.1.1 hb.symm
    · exact fun hb => h.2.1 hb.symm

theorem trimLeftBlanks_sublist : (trimLeftBlanks text).Sublist text :=
  (List.dropWhile_suffix blank).sublist

theorem trimBlanks_sublist : (trimBlanks line).Sublist line :=
  (List.rdropWhile_prefix blank _).sublist.trans (trimLeftBlanks_sublist line)

/-- Blanks in front may be dropped from the first part before the rest is added. -/
theorem trimLeftBlanks_append (first rest : Bytes) :
    trimLeftBlanks (trimLeftBlanks first ++ rest) = trimLeftBlanks (first ++ rest) := by
  unfold trimLeftBlanks
  induction first with
  | nil => rfl
  | cons b first ih =>
    by_cases hb : blank b
    · rw [List.dropWhile_cons_of_pos hb, ih, List.cons_append, List.dropWhile_cons_of_pos hb]
    · rw [List.dropWhile_cons_of_neg hb]

/-- Trimming from both ends in either order. -/
theorem trimLeftBlanks_rdropWhile : trimLeftBlanks (line.rdropWhile blank) = trimBlanks line := by
  unfold trimBlanks trimLeftBlanks
  induction line using List.reverseRecOn with
  | nil => rfl
  | append_singleton line b ih =>
    by_cases hb : blank b
    · rw [List.rdropWhile_concat_pos _ _ _ hb, ih, List.dropWhile_append]
      split_ifs with hempty
      · rw [List.isEmpty_iff] at hempty
        simp [hempty, hb]
      · rw [List.rdropWhile_concat_pos _ _ _ hb]
    · rw [List.rdropWhile_concat_neg _ _ _ hb, List.dropWhile_append]
      split_ifs with hempty
      · simp [hb, List.rdropWhile_singleton]
      · rw [List.rdropWhile_concat_neg _ _ _ hb]

theorem length_join_trim_le (text : List Bytes) :
    (join [0x20] (text.map trimBlanks)).length ≤ (join fold text).length := by
  cases text with
  | nil => simp [join]
  | cons first more =>
    rw [List.map_cons, join_cons, join_cons, List.length_append, List.length_append]
    have hfirst := (trimBlanks_sublist first).length_le
    have hmore : ((more.map trimBlanks).flatMap ([0x20] ++ ·)).length ≤
        (more.flatMap (fold ++ ·)).length := by
      induction more with
      | nil => simp
      | cons line more ih =>
        have hline := (trimBlanks_sublist line).length_le
        simp only [List.map_cons, List.flatMap_cons, List.length_append, fold,
          List.length_cons] at ih ⊢
        omega
    omega

theorem unfolded_oneLine : OneLine (unfolded text) := by
  refine OneLine.of_sublist ?_ (trimLeftBlanks_sublist _)
  have hlines : ∀ line ∈ (lines text).map trimBlanks, OneLine line := by
    intro line hline
    obtain ⟨whole, hwhole, rfl⟩ := List.mem_map.mp hline
    exact (lines_oneLine text whole hwhole).of_sublist (trimBlanks_sublist whole)
  obtain ⟨first, more, heq⟩ := List.exists_cons_of_ne_nil
    (show (lines text).map trimBlanks ≠ [] by simp [lines_ne_nil])
  rw [heq, join_cons]
  rw [heq] at hlines
  exact (hlines first List.mem_cons_self).append (OneLine.flatMap (by simp [OneLine])
    fun line hline => hlines line (List.mem_cons_of_mem _ hline))

/-- Unfolding does not make a folded text longer. -/
theorem length_unfolded_le : (unfolded text).length ≤ (join fold (lines text)).length :=
  (trimLeftBlanks_sublist _).length_le.trans (length_join_trim_le _)

end MilterGuard.FoldedTexts
