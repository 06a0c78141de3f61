import MilterGuard.ByteStrings

/-!
Runs inside a text. A scan over a class takes a run of it up to the next byte of another
class. A run of ASCII white space separates the words around it, whichever run it is.
-/
namespace MilterGuard.SpacedTexts

open ByteStrings

section Runs

variable {α : Type*}

/-- The list is empty or starts outside the class. -/
def Stops (p : α → Bool) (rest : List α) : Prop := ∀ b ∈ rest.head?, p b = false

theorem stops_nil (p : α → Bool) : Stops p [] := by simp [Stops]

variable {run rest : List α} {p : α → Bool}

theorem stops_cons {b : α} (h : p b = false) (rest : List α) : Stops p (b :: rest) := by
  simpa [Stops] using h

theorem stops_append (hrun : ∀ b ∈ run, p b = false) (hrest : Stops p rest) :
    Stops p (run ++ rest) := by
  cases run with
  | nil => exact hrest
  | cons b run => exact stops_cons (hrun b List.mem_cons_self) _

theorem dropWhile_stops (h : Stops p rest) : rest.dropWhile p = rest := by
  cases rest with
  | nil => rfl
  | cons b rest => exact List.dropWhile_cons_of_neg (by simpa [Stops] using h)

theorem dropWhile_run (hrun : ∀ b ∈ run, p b = true) (hrest : Stops p rest) :
    (run ++ rest).dropWhile p = rest := by
  rw [List.dropWhile_append_of_pos hrun, dropWhile_stops hrest]

theorem takeWhile_run (hrun : ∀ b ∈ run, p b = true) (hrest : Stops p rest) :
    (run ++ rest).takeWhile p = run := by
  rw [List.takeWhile_append_of_pos hrun]
  cases rest with
  | nil => simp
  | cons b rest =>
    have hb : p b = false := by simpa [Stops] using hrest
    simp [hb]

end Runs

theorem asciiSpace_lt {b : UInt8} (h : asciiSpace b = true) : b < 0x80 := by
  have hlow : ∀ b, asciiSpace b = true → b < 0x80 := forall_byte _ (by decide +kernel)
  exact hlow b h

/-- Whether a text starts with white space does not depend on an ASCII byte behind it. -/
theorem spaceWidth_append {s : UInt8} (hs : s < 0x80) {text : Bytes} (htext : text ≠ [])
    (rest : Bytes) : spaceWidth (text ++ s :: rest) = spaceWidth text := by
  obtain ⟨h2, h3⟩ := space_of_lt hs
  match text, htext with
  | [a], _ =>
    cases rest with
    | nil => simp [spaceWidth, h2]
    | cons c rest => simp [spaceWidth, h2, h3]
  | [a, b], _ => simp [spaceWidth, h3]
  | a :: b :: c :: text, _ => simp [spaceWidth]

theorem spaceWidth_le (text : Bytes) : spaceWidth text ≤ text.length := by
  match text with
  | [] => simp [spaceWidth]
  | [a] =>
    simp only [spaceWidth]
    split_ifs <;> simp
  | [a, b] =>
    simp only [spaceWidth]
    split_ifs <;> simp
  | a :: b :: c :: text =>
    simp only [spaceWidth, List.length_cons]
    split_ifs <;> omega

theorem fieldsFrom_append_space {s : UInt8} (hs : asciiSpace s = true) (text rest : Bytes)
    {pending : ℕ} (hpending : pending ≤ text.length) (field : Bytes) :
    fieldsFrom pending field (text ++ s :: rest) =
      fieldsFrom pending field text ++ fieldsFrom 0 [] rest := by
  induction text generalizing pending field with
  | nil =>
    obtain rfl : pending = 0 := Nat.le_zero.mp hpending
    have hwidth : spaceWidth (s :: rest) = 1 := by
      unfold spaceWidth
      split <;> simp_all
    simp only [List.nil_append, fieldsFrom, hwidth]
    split_ifs <;> rfl
  | cons a text ih =>
    cases pending with
    | succ pending =>
      exact ih (Nat.le_of_succ_le_succ hpending) field
    | zero =>
      have hwidth := spaceWidth_append (asciiSpace_lt hs) (List.cons_ne_nil a text) rest
      have hle := spaceWidth_le (a :: text)
      rw [List.cons_append] at hwidth ⊢
      rw [fieldsFrom, fieldsFrom, hwidth]
      cases hspace : spaceWidth (a :: text) with
      | zero => exact ih (Nat.zero_le _) _
      | succ width =>
        rw [hspace] at hle
        have hlater := ih (Nat.le_of_succ_le_succ hle) []
        dsimp only
        rw [hlater]
        split_ifs <;> rfl

/-- White space separates the words before it from those behind it. -/
theorem fields_append_space {s : UInt8} (hs : asciiSpace s = true) (text rest : Bytes) :
    fields (text ++ s :: rest) = fields text ++ fields rest :=
  fieldsFrom_append_space hs text rest (Nat.zero_le _) []

theorem fields_space_append {run : Bytes} (hrun : ∀ s ∈ run, asciiSpace s = true) (rest : Bytes) :
    fields (run ++ rest) = fields rest := by
  induction run with
  | nil => rfl
  | cons s run ih =>
    have hfirst : fields (s :: (run ++ rest)) = fields [] ++ fields (run ++ rest) :=
      fields_append_space (hrun s List.mem_cons_self) [] (run ++ rest)
    rw [List.cons_append, hfirst, ih fun later hlater => hrun later (List.mem_cons_of_mem s hlater)]
    rfl

/-- White space around a single word. -/
theorem fields_around {before after word : Bytes} (hbefore : ∀ s ∈ before, asciiSpace s = true)
    (hafter : ∀ s ∈ after, asciiSpace s = true) (hword : fields word = [word]) :
    fields (before ++ word ++ after) = [word] := by
  rw [List.append_assoc, fields_space_append hbefore]
  cases after with
  | nil => rw [List.append_nil, hword]
  | cons s after =>
    have hlater : ∀ later ∈ after, asciiSpace later = true :=
      fun later hmem => hafter later (List.mem_cons_of_mem s hmem)
    have hnone := fields_space_append hlater []
    rw [List.append_nil] at hnone
    rw [fields_append_space (hafter s List.mem_cons_self), hword, hnone]
    rfl

end MilterGuard.SpacedTexts
