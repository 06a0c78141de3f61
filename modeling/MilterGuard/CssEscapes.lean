import MilterGuard.AttachmentNames

/-!
The decoding of CSS escapes. A round of the loop may write more bytes than it reads, but
never more than half as many again, so the buffer that is reserved in front of the loop
has room for every round.
-/
namespace MilterGuard.CssEscapes

open ByteStrings AttachmentNames

/-- The guard may end the work: while the text is searched, when the buffer is reserved,
and in the loop. The positions are those of the text. -/
structure Guard where
  searches : ℕ → Bool
  admits : ℕ → Bool
  goesOn : ℕ → Bool

def stringWorkChunk : ℕ := 4096

/-- indexByteWithBudget goes on at every chunk up to the one with the first backslash. -/
def searched (g : Guard) (value : Bytes) : Bool :=
  value.length ≤ stringWorkChunk || (List.range (value.idxOf 0x5C + 1)).all fun start =>
    start % stringWorkChunk ≠ 0 || value.length ≤ start || g.searches start

/-- The rune of a hexadecimal escape. Six digits always fit in a code point. -/
def escapedRune (digits : Bytes) : ℕ :=
  let codepoint := digits.foldl (fun n d => 16 * n + ((hexDigit d).getD 0).toNat) 0
  if codepoint = 0 ∨ 0xD800 ≤ codepoint ∧ codepoint ≤ 0xDFFF ∨ 0x10FFFF < codepoint then replacement
  else codepoint

/-- The white space that ends a hexadecimal escape. -/
def skipSpace : Bytes → Bytes
  | 0x0D :: 0x0A :: rest => rest
  | b :: rest =>
    if b = 0x20 ∨ b = 0x09 ∨ b = 0x0A ∨ b = 0x0D ∨ b = 0x0C then rest else b :: rest
  | [] => []

/-- What a round writes and what it leaves to read. -/
def round : Bytes → Bytes × Bytes
  | 0x5C :: b :: rest =>
    if b = 0x0A ∨ b = 0x0C then ([], rest)
    else if b = 0x0D then ([], if rest.head? = some 0x0A then rest.tail else rest)
    else
      let digits := ((b :: rest).take 6).takeWhile fun d => (hexDigit d).isSome
      if digits = [] then ([b], rest)
      else (encodeRune (escapedRune digits), skipSpace ((b :: rest).drop digits.length))
  | b :: rest => ([b], rest)
  | [] => ([], [])

structure State where
  out : Bytes
  rest : Bytes
  sampled : ℕ
  stopped : Bool

variable (g : Guard) (value : Bytes)

/-- A round of the loop, with a checkpoint in front of it once a chunk has been read. -/
def State.next (s : State) : State :=
  let i := value.length - s.rest.length
  let sampled := if stringWorkChunk ≤ i - s.sampled then i else s.sampled
  if s.stopped || s.rest = [] then s
  else if stringWorkChunk ≤ i - s.sampled && !g.goesOn i then { s with stopped := true }
  else ⟨s.out ++ (round s.rest).1, (round s.rest).2, sampled, false⟩

def capacity : ℕ := value.length + value.length / 2

/-- The state after so many rounds. Every round reads something, so the length is enough. -/
def loop (rounds : ℕ) : State := (State.next g value)^[rounds] ⟨[], value, 0, false⟩

def cssUnescapeWithBudget : Option Bytes :=
  if !searched g value then none
  else if 0x5C ∉ value then some value
  else if !g.admits (capacity value) then none
  else if (loop g value value.length).stopped then none
  else some (loop g value value.length).out

theorem length_encodeRune (r : ℕ) :
    (encodeRune r).length ≤ 4 ∧ (r < 0x10000 → (encodeRune r).length ≤ 3) := by
  unfold encodeRune
  split_ifs <;> simp
  omega

/-- Only an escape of several digits stands for a rune of four bytes. -/
theorem length_escaped {digits : Bytes} (h : digits ≠ []) :
    2 * (encodeRune (escapedRune digits)).length ≤ 3 * (digits.length + 1) := by
  obtain ⟨hfour, hthree⟩ := length_encodeRune (escapedRune digits)
  match digits with
  | [d] =>
    have hdigit := ((hexDigit d).getD 0).toNat_lt
    have hlow : escapedRune [d] < 0x10000 := by
      unfold escapedRune
      extract_lets codepoint
      have hsmall : codepoint < 0x100 := by
        simp only [codepoint, List.foldl_cons, List.foldl_nil]
        omega
      split
      · decide
      · omega
    have hlength := hthree hlow
    simp only [List.length_singleton]
    omega
  | d :: e :: more =>
    simp only [List.length_cons]
    omega

theorem length_skipSpace (rest : Bytes) : (skipSpace rest).length ≤ rest.length := by
  fun_cases skipSpace rest <;> simp only [List.length_cons, le_refl] <;> omega

/-- A round reads something, and three bytes that it reads pay for two that it writes. -/
theorem length_round {rest : Bytes} (h : rest ≠ []) : (round rest).2.length < rest.length ∧
    2 * (round rest).1.length + 3 * (round rest).2.length ≤ 3 * rest.length := by
  fun_cases round rest with
  | case1 b rest => simp; omega
  | case2 rest =>
    have htail : (if rest.head? = some 0x0A then rest.tail else rest).length ≤ rest.length := by
      split_ifs <;> simp
    simp only [List.length_nil, List.length_cons]
    omega
  | case3 b rest => simp; omega
  | case4 b rest _ _ digits hdigits =>
    have hread : digits.length ≤ (b :: rest).length :=
      ((List.takeWhile_sublist _).trans (List.take_sublist 6 _)).length_le
    have hpos := List.length_pos_of_ne_nil hdigits
    have hwritten := length_escaped hdigits
    have hleft := length_skipSpace ((b :: rest).drop digits.length)
    rw [List.length_drop] at hleft
    simp only [List.length_cons] at hread hleft ⊢
    omega
  | case5 b rest => simp; omega
  | case6 => exact absurd rfl h

/-- What is written and what may still be written. -/
def State.potential (s : State) : ℕ := 2 * s.out.length + 3 * s.rest.length

theorem next_spec (s : State) : (s.next g value).potential ≤ s.potential ∧
    ((s.next g value).stopped = true ∨ (s.next g value).rest.length ≤ s.rest.length - 1) := by
  unfold State.next
  extract_lets i sampled
  split_ifs with hdone hstop
  · refine ⟨le_rfl, ?_⟩
    rcases Bool.or_eq_true_iff.mp hdone with hstopped | hempty
    · exact Or.inl hstopped
    · simp [of_decide_eq_true hempty]
  · exact ⟨le_rfl, Or.inl rfl⟩
  · have hne : s.rest ≠ [] := by
      intro hempty
      simp [hempty] at hdone
    obtain ⟨hless, hpaid⟩ := length_round hne
    refine ⟨?_, Or.inr (Nat.le_pred_of_lt hless)⟩
    simp only [State.potential, List.length_append]
    omega

theorem loop_spec (rounds : ℕ) : (loop g value rounds).potential ≤ 3 * value.length ∧
    ((loop g value rounds).stopped = true ∨
      (loop g value rounds).rest.length ≤ value.length - rounds) := by
  induction rounds with
  | zero => exact ⟨by simp [loop, State.potential], Or.inr le_rfl⟩
  | succ rounds ih =>
    obtain ⟨hpaid, hread⟩ := ih
    rw [loop, Function.iterate_succ_apply', ← loop]
    obtain ⟨hnext, hless⟩ := next_spec g value (loop g value rounds)
    refine ⟨hnext.trans hpaid, ?_⟩
    rcases hread with hstopped | hread
    · exact Or.inl (by simp [State.next, hstopped])
    · exact hless.imp_right fun hless => by omega

/-- The buffer holds what is written after every round, and the loop ends. -/
theorem unescaped_fits : (∀ rounds, (loop g value rounds).out.length ≤ capacity value) ∧
    ((loop g value value.length).stopped = true ∨ (loop g value value.length).rest = []) ∧
    ∀ out, cssUnescapeWithBudget g value = some out →
      out.length ≤ value.length + value.length / 2 := by
  have hroom : ∀ rounds, (loop g value rounds).out.length ≤ capacity value := by
    intro rounds
    have hpaid := (loop_spec g value rounds).1
    unfold State.potential at hpaid
    unfold capacity
    omega
  refine ⟨hroom, ?_, fun out hout => ?_⟩
  · refine (loop_spec g value value.length).2.imp_right fun hread => ?_
    exact List.eq_nil_of_length_eq_zero (by omega)
  · unfold cssUnescapeWithBudget at hout
    split_ifs at hout
    · obtain rfl := Option.some.inj hout
      exact hroom value.length
    · obtain rfl := Option.some.inj hout
      omega

end MilterGuard.CssEscapes
