import MilterGuard.ValidTexts
import MilterGuard.WireProtocol

/-!
The reply to a rejected command. Percent signs are doubled before the text is cut to its
limit, and the text that is sent is again the doubling of some text: the cut divides at
most one pair, whose first half is then taken off.
-/
namespace MilterGuard.WellFormedReplies

open ByteStrings ValidTexts WireProtocol

variable {value : Bytes} {b : UInt8}

/-- The text with every percent sign doubled. -/
def escaped (value : Bytes) : Bytes := value.flatMap fun b => if b = 0x25 then [b, b] else [b]

private theorem escaped_append (a b : Bytes) : escaped (a ++ b) = escaped a ++ escaped b :=
  List.flatMap_append

private theorem escaped_of_not_mem (h : 0x25 ∉ value) : escaped value = value := by
  unfold escaped
  rw [List.flatMap_congr (g := fun b => [b]), List.flatMap_singleton']
  intro b hb
  rw [if_neg]
  rintro rfl
  exact h hb

/-- A text is repaired between its percent signs, by induction on their number. -/
theorem toValidUTF8_escaped (value : Bytes) :
    toValidUTF8 (escaped value) = escaped (toValidUTF8 value) := by
  induction hcount : value.count 0x25 generalizing value with
  | zero =>
    have hnot : 0x25 ∉ value := List.count_eq_zero.mp hcount
    rw [escaped_of_not_mem hnot,
      escaped_of_not_mem (mt (mem_of_mem_toValidUTF8 (by decide)) hnot)]
  | succ n ih =>
    have hmem : 0x25 ∈ value := List.count_pos_iff.mp (by omega)
    obtain ⟨before, after, rfl, hbefore⟩ := List.eq_append_cons_of_mem hmem
    rw [List.count_append, List.count_eq_zero.mpr hbefore, List.count_cons_self] at hcount
    have hafter := ih after (by omega)
    have hstart := escaped_of_not_mem (mt (mem_of_mem_toValidUTF8 (by decide)) hbefore)
    have hpercent (rest : Bytes) : toValidUTF8 (before ++ 0x25 :: rest) =
        toValidUTF8 before ++ 0x25 :: toValidUTF8 rest := by
      rw [toValidUTF8_append_ascii _ (by decide)]
      exact congrArg _ (toValidUTF8_append_valid (a := [0x25]) (by decide) rest)
    have hsecond := toValidUTF8_append_valid (a := [0x25]) (by decide) (escaped after)
    calc toValidUTF8 (escaped (before ++ 0x25 :: after))
      _ = toValidUTF8 (before ++ 0x25 :: ([0x25] ++ escaped after)) := by
        rw [escaped_append, escaped_of_not_mem hbefore]
        rfl
      _ = escaped (toValidUTF8 before) ++ escaped (0x25 :: toValidUTF8 after) := by
        rw [hpercent, hsecond, hafter, hstart]
        rfl
      _ = escaped (toValidUTF8 (before ++ 0x25 :: after)) := by rw [hpercent, escaped_append]

/-- What stands at the start of a doubled text: whole pairs, or one half of a pair. -/
theorem escaped_start {start rest : Bytes} (h : start ++ rest = escaped value) :
    (∃ whole, start = escaped whole) ∨
      ∃ whole, start = escaped whole ++ [0x25] ∧ rest.head? = some 0x25 := by
  induction value generalizing start with
  | nil =>
    obtain ⟨rfl, -⟩ := List.append_eq_nil_iff.mp h
    exact Or.inl ⟨[], rfl⟩
  | cons a value ih =>
    rcases List.append_eq_append_iff.mp h with ⟨half, hfirst, hrest⟩ | ⟨more, rfl, hmore⟩
    · dsimp only at hfirst
      split_ifs at hfirst with ha
      · subst ha
        rcases start with _ | ⟨c, _ | ⟨d, start⟩⟩
        · exact Or.inl ⟨[], rfl⟩
        · obtain ⟨rfl, rfl⟩ := List.cons.inj hfirst
          exact Or.inr ⟨[], rfl, by rw [hrest]; rfl⟩
        · obtain ⟨rfl, rfl, rfl, -⟩ : 0x25 = c ∧ 0x25 = d ∧ start = [] ∧ half = [] := by
            simpa using hfirst
          exact Or.inl ⟨[0x25], rfl⟩
      · rcases start with _ | ⟨c, start⟩
        · exact Or.inl ⟨[], rfl⟩
        · exact Or.inl ⟨[a], by simp_all [escaped]⟩
    · rcases ih hmore.symm with ⟨whole, rfl⟩ | ⟨whole, rfl, hrest⟩
      · exact Or.inl ⟨a :: whole, rfl⟩
      · exact Or.inr ⟨a :: whole, by rw [← List.append_assoc]; rfl, hrest⟩

/-- The number of percent signs at the end of a text. -/
def trailing (value : Bytes) : ℕ := (value.reverse.takeWhile (· = 0x25)).length

private theorem trailing_append_percent : trailing (value ++ [0x25]) = trailing value + 1 := by
  simp [trailing]

theorem trailing_escaped (value : Bytes) : trailing (escaped value) % 2 = 0 := by
  induction value using List.reverseRecOn with
  | nil => rfl
  | append_singleton value a ih =>
    rw [escaped_append]
    by_cases ha : a = 0x25
    · subst ha
      change trailing (escaped value ++ ([0x25] ++ [0x25])) % 2 = 0
      rw [← List.append_assoc, trailing_append_percent, trailing_append_percent]
      omega
    · simp [trailing, escaped, ha]

/-- Every maximal run of percent signs has even length. -/
def PairedPercents (value : Bytes) : Prop :=
  ∀ before n after, value = before ++ List.replicate n 0x25 ++ after →
    before.getLast? ≠ some 0x25 → after.head? ≠ some 0x25 → n % 2 = 0

theorem pairedPercents_escaped (value : Bytes) : PairedPercents (escaped value) := by
  intro before n after hsplit hbefore hafter
  rcases escaped_start hsplit.symm with ⟨whole, hwhole⟩ | ⟨whole, -, hrest⟩
  · have htrailing : trailing (before ++ List.replicate n 0x25) = n := by
      clear hsplit hwhole
      induction n with
      | zero =>
        rw [← List.head?_reverse] at hbefore
        cases hreverse : before.reverse with
        | nil => simp [trailing, hreverse]
        | cons b rest => simp_all [trailing]
      | succ n ih =>
        rw [List.replicate_succ', ← List.append_assoc, trailing_append_percent, ih]
    rw [← htrailing, hwhole]
    exact trailing_escaped whole
  · exact absurd hrest hafter

theorem cutAtRune_start (value : Bytes) (limit : ℕ) :
    cutAtRune value limit <+: value ∧ (cutAtRune value limit).length ≤ limit := by
  induction limit with
  | zero => exact ⟨List.nil_prefix, le_rfl⟩
  | succ limit ih =>
    rw [cutAtRune]
    split
    · split_ifs
      · exact ⟨ih.1, by omega⟩
      · exact ⟨List.take_prefix _ _, List.length_take_le _ _⟩
    · rename_i hdrop
      exact ⟨List.prefix_rfl, List.drop_eq_nil_iff.mp hdrop⟩

private theorem not_mem_cleanReply (b : UInt8) (hb : b = 0 ∨ b = 0x0D ∨ b = 0x0A) :
    b ∉ cleanReply value := by
  intro h
  obtain ⟨a, ha, rfl⟩ := List.mem_map.mp h
  have hzero : a ≠ 0 := by simpa using (List.mem_filter.mp ha).2
  split_ifs at hb with hline
  · exact absurd hb (by decide)
  · simp_all

/-- Taking off an odd percent sign leaves the whole pairs. -/
private theorem paired_start {start rest : Bytes} (h : start ++ rest = escaped value) :
    ∃ whole, (if trailing start % 2 ≠ 0 then start.dropLast else start) = escaped whole ∧
      (start = escaped whole ∨ start = escaped whole ++ [0x25]) := by
  rcases escaped_start h with ⟨whole, rfl⟩ | ⟨whole, rfl, -⟩
  · exact ⟨whole, by rw [trailing_escaped]; rfl, Or.inl rfl⟩
  · have hodd : trailing (escaped whole ++ [0x25]) % 2 ≠ 0 := by
      have heven := trailing_escaped whole
      rw [trailing_append_percent]
      omega
    exact ⟨whole, by rw [if_pos hodd, List.dropLast_concat], Or.inr rfl⟩

/-- A reply is a line of whole pairs, valid text and bounded length. -/
theorem replyCode_well_formed (code enhanced text : Bytes) :
    ∃ reply, replyCode code enhanced text = responseReply :: reply ++ [0] ∧
      reply.length ≤ 510 ∧ validUTF8 reply = true ∧ 0 ∉ reply ∧ 0x0D ∉ reply ∧ 0x0A ∉ reply ∧
      PairedPercents reply := by
  set raw := cleanReply code ++ 0x20 :: cleanReply enhanced ++ 0x20 :: cleanReply text with hraw
  have hvalid := validUTF8_cutAtRune (validUTF8_toValidUTF8 (escaped raw)) maxSMTPReplyBytes
  obtain ⟨⟨rest, hrest⟩, hlength⟩ := cutAtRune_start (toValidUTF8 (escaped raw)) maxSMTPReplyBytes
  obtain ⟨whole, hreply, hstart⟩ := paired_start (hrest.trans (toValidUTF8_escaped raw))
  have hsub : escaped whole ⊆ toValidUTF8 (escaped raw) := by
    intro b hb
    rw [← hrest]
    rcases hstart with hstart | hstart <;> simp [hstart, hb]
  have hclean (b : UInt8) (hb : b = 0 ∨ b = 0x0D ∨ b = 0x0A) : b ∉ escaped whole := by
    intro hmem
    have hlow : b.toNat < 0x80 := by rcases hb with rfl | rfl | rfl <;> decide
    obtain ⟨a, ha, hmem⟩ := List.mem_flatMap.mp (mem_of_mem_toValidUTF8 hlow (hsub hmem))
    obtain rfl : b = a := by split_ifs at hmem <;> simpa using hmem
    simp [hraw, not_mem_cleanReply b hb] at ha
    subst ha
    exact absurd hb (by decide)
  refine ⟨escaped whole, congrArg (responseReply :: · ++ [0]) hreply, ?_, ?_, hclean 0 (by simp),
    hclean 0x0D (by simp), hclean 0x0A (by simp), pairedPercents_escaped whole⟩
  · rcases hstart with hstart | hstart
    · rwa [hstart] at hlength
    · rw [hstart, List.length_append] at hlength
      exact (Nat.le_add_right _ _).trans hlength
  · rcases hstart with hstart | hstart
    · rwa [hstart] at hvalid
    · rw [hstart] at hvalid
      exact validUTF8_append_ascii (by decide) hvalid

end MilterGuard.WellFormedReplies
