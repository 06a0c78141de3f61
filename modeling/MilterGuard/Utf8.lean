import MilterGuard.ByteStrings

/-!
Runes and their UTF-8 encoding. Decoding an encoded list of runes gives the list
back, and valid text is the encoding of its runes. White space at the ends of an
encoded list is trimmed rune by rune.
-/
namespace MilterGuard.Utf8

open ByteStrings

/-- A Unicode scalar value. -/
def scalar (r : ℕ) : Prop := r < 0xD800 ∨ 0xDFFF < r ∧ r ≤ 0x10FFFF

def encode (rs : List ℕ) : Bytes := rs.flatMap encodeRune

private theorem toNat_byte {n : ℕ} (h : n < 256) : (UInt8.ofNat n).toNat = n :=
  UInt8.toNat_ofNat_of_lt' h

variable {b a : UInt8} {bytes : Bytes} {r : ℕ} (rs : List ℕ)

private theorem eq_byte {n : ℕ} (h : a.toNat = n) : a = UInt8.ofNat n := by
  rw [← h, UInt8.ofNat_toNat]

/-- A rune and its bytes, in each of the four widths. -/
inductive Encodes : ℕ → Bytes → Prop
  | one {r : ℕ} {a : UInt8} (h : r < 0x80) (ha : a.toNat = r) : Encodes r [a]
  | two {r : ℕ} {a b : UInt8} (h : 0x80 ≤ r) (h' : r < 0x800) (ha : a.toNat = 0xC0 + r / 64)
      (hb : b.toNat = 0x80 + r % 64) : Encodes r [a, b]
  | three {r : ℕ} {a b c : UInt8} (h : 0x800 ≤ r) (h' : r < 0x10000) (hs : scalar r)
      (ha : a.toNat = 0xE0 + r / 4096) (hb : b.toNat = 0x80 + r / 64 % 64)
      (hc : c.toNat = 0x80 + r % 64) : Encodes r [a, b, c]
  | four {r : ℕ} {a b c d : UInt8} (h : 0x10000 ≤ r) (h' : r ≤ 0x10FFFF)
      (ha : a.toNat = 0xF0 + r / 262144) (hb : b.toNat = 0x80 + r / 4096 % 64)
      (hc : c.toNat = 0x80 + r / 64 % 64) (hd : d.toNat = 0x80 + r % 64) : Encodes r [a, b, c, d]

theorem encodes_encodeRune (h : scalar r) : Encodes r (encodeRune r) := by
  unfold encodeRune
  unfold scalar at h
  split_ifs with h1 h2 h3 h4
  · exact .one h1 (toNat_byte (by omega))
  · exact .two (by omega) h2 (toNat_byte (by omega)) (toNat_byte (by omega))
  · omega
  · exact .three (by omega) h4 h (toNat_byte (by omega)) (toNat_byte (by omega))
      (toNat_byte (by omega))
  · exact .four (by omega) (by omega) (toNat_byte (by omega)) (toNat_byte (by omega))
      (toNat_byte (by omega)) (toNat_byte (by omega))

theorem encodes_unique (h : Encodes r bytes) : bytes = encodeRune r := by
  cases h with
  | one h ha => rw [encodeRune, if_pos h, eq_byte ha]
  | two h h' ha hb => rw [encodeRune, if_neg (by omega), if_pos h', eq_byte ha, eq_byte hb]
  | three h h' hs ha hb hc =>
    unfold scalar at hs
    rw [encodeRune, if_neg (by omega), if_neg (by omega), if_neg (by omega), if_pos h',
      eq_byte ha, eq_byte hb, eq_byte hc]
  | four h h' ha hb hc hd =>
    rw [encodeRune, if_neg (by omega), if_neg (by omega), if_neg (by omega), if_neg (by omega),
      eq_byte ha, eq_byte hb, eq_byte hc, eq_byte hd]

theorem Encodes.length_pos (h : Encodes r bytes) : 0 < bytes.length := by
  cases h <;> simp

theorem scalar_of_encodes (h : Encodes r bytes) : scalar r := by
  unfold scalar
  cases h with
  | one h | two h h' | four h h' => omega
  | three h h' hs => exact hs

theorem continuation_iff (b : UInt8) : continuation b = true ↔ 0x80 ≤ b.toNat ∧ b.toNat ≤ 0xBF := by
  simp only [continuation, Bool.and_eq_true, decide_eq_true_eq]
  exact Iff.rfl

theorem secondByte_iff (lead b : UInt8) :
    secondByte lead b = true ↔
      0x80 ≤ b.toNat ∧ b.toNat ≤ 0xBF ∧ (lead.toNat = 0xE0 → 0xA0 ≤ b.toNat) ∧
        (lead.toNat = 0xED → b.toNat ≤ 0x9F) ∧ (lead.toNat = 0xF0 → 0x90 ≤ b.toNat) ∧
        (lead.toNat = 0xF4 → b.toNat ≤ 0x8F) := by
  simp only [secondByte, secondRange, ← UInt8.toNat_inj, UInt8.le_iff_toNat_le]
  split_ifs <;> simp_all <;> omega

private theorem in_range_iff (a lo hi : UInt8) :
    (decide (lo ≤ a) && decide (a ≤ hi)) = true ↔ lo.toNat ≤ a.toNat ∧ a.toNat ≤ hi.toNat := by
  simp [UInt8.le_iff_toNat_le]

private theorem not_ascii (h : 0x80 ≤ a.toNat) : ¬ a < 0x80 :=
  UInt8.not_lt.mpr (UInt8.le_iff_toNat_le.mpr h)

/-- The lead byte decides the width. -/
private theorem decodeRune_two (a b : UInt8) (rest : Bytes) (ha : 0xC2 ≤ a.toNat)
    (ha' : a.toNat ≤ 0xDF) (hb : continuation b = true) :
    decodeRune (a :: b :: rest) = some ((a.toNat - 0xC0) * 64 + (b.toNat - 0x80), 2) := by
  have h1 : ¬ a < 0x80 := not_ascii (by omega)
  have h2 : (0xC2 ≤ a && a ≤ 0xDF) = true := (in_range_iff a _ _).mpr ⟨ha, ha'⟩
  simp only [decodeRune, if_neg h1, if_pos h2, if_pos hb]

private theorem decodeRune_three (a b c : UInt8) (rest : Bytes) (ha : 0xE0 ≤ a.toNat)
    (ha' : a.toNat ≤ 0xEF) (hb : secondByte a b = true) (hc : continuation c = true) :
    decodeRune (a :: b :: c :: rest) =
      some (((a.toNat - 0xE0) * 64 + (b.toNat - 0x80)) * 64 + (c.toNat - 0x80), 3) := by
  have h1 : ¬ a < 0x80 := not_ascii (by omega)
  have h2 : ¬ (0xC2 ≤ a && a ≤ 0xDF) = true := by
    rw [in_range_iff]
    exact fun h => absurd (ha.trans h.2) (by decide)
  have h3 : (0xE0 ≤ a && a ≤ 0xEF) = true := (in_range_iff a _ _).mpr ⟨ha, ha'⟩
  simp only [decodeRune, if_neg h1, if_neg h2, if_pos h3, hb, hc, Bool.and_self, if_true]

private theorem decodeRune_four (a b c d : UInt8) (rest : Bytes) (ha : 0xF0 ≤ a.toNat)
    (ha' : a.toNat ≤ 0xF4) (hb : secondByte a b = true) (hc : continuation c = true)
    (hd : continuation d = true) :
    decodeRune (a :: b :: c :: d :: rest) =
      some ((((a.toNat - 0xF0) * 64 + (b.toNat - 0x80)) * 64 + (c.toNat - 0x80)) * 64 +
        (d.toNat - 0x80), 4) := by
  have h1 : ¬ a < 0x80 := not_ascii (by omega)
  have h2 : ¬ (0xC2 ≤ a && a ≤ 0xDF) = true := by
    rw [in_range_iff]
    exact fun h => absurd (ha.trans h.2) (by decide)
  have h3 : ¬ (0xE0 ≤ a && a ≤ 0xEF) = true := by
    rw [in_range_iff]
    exact fun h => absurd (ha.trans h.2) (by decide)
  have h4 : (0xF0 ≤ a && a ≤ 0xF4) = true := (in_range_iff a _ _).mpr ⟨ha, ha'⟩
  simp only [decodeRune, if_neg h1, if_neg h2, if_neg h3, if_pos h4, hb, hc, hd, Bool.and_self,
    if_true]

theorem decodeRune_of_encodes (h : Encodes r bytes) (rest : Bytes) :
    decodeRune (bytes ++ rest) = some (r, bytes.length) := by
  cases h with
  | one h ha =>
    rw [List.singleton_append, decodeRune_ascii _ rest (UInt8.lt_iff_toNat_lt.mpr (ha ▸ h)), ha]
    rfl
  | @two a b h h' ha hb =>
    have hdecode := decodeRune_two a b rest (by omega) (by omega)
      ((continuation_iff b).mpr (by omega))
    have hvalue : (a.toNat - 0xC0) * 64 + (b.toNat - 0x80) = r := by omega
    rw [List.cons_append, List.singleton_append, hdecode, hvalue]
    rfl
  | @three a b c h h' hs ha hb hc =>
    unfold scalar at hs
    have hdecode := decodeRune_three a b c rest (by omega) (by omega)
      ((secondByte_iff a b).mpr (by omega)) ((continuation_iff c).mpr (by omega))
    have hvalue : ((a.toNat - 0xE0) * 64 + (b.toNat - 0x80)) * 64 + (c.toNat - 0x80) = r := by omega
    rw [List.cons_append, List.cons_append, List.singleton_append, hdecode, hvalue]
    rfl
  | @four a b c d h h' ha hb hc hd =>
    have hdecode := decodeRune_four a b c d rest (by omega) (by omega)
      ((secondByte_iff a b).mpr (by omega)) ((continuation_iff c).mpr (by omega))
      ((continuation_iff d).mpr (by omega))
    have hvalue : (((a.toNat - 0xF0) * 64 + (b.toNat - 0x80)) * 64 + (c.toNat - 0x80)) * 64 +
        (d.toNat - 0x80) = r := by omega
    rw [List.cons_append, List.cons_append, List.cons_append, List.singleton_append, hdecode,
      hvalue]
    rfl

/-- What is decoded is the encoding of a rune. -/
theorem encodes_of_decodeRune {v : Bytes} {width : ℕ} (h : decodeRune v = some (r, width)) :
    ∃ bytes rest, Encodes r bytes ∧ v = bytes ++ rest ∧ width = bytes.length := by
  cases v with
  | nil => simp [decodeRune] at h
  | cons a rest =>
    simp only [decodeRune] at h
    split at h
    · rename_i ha
      obtain ⟨rfl, rfl⟩ : a.toNat = r ∧ 1 = width := by simpa using h
      have hlow : a.toNat < 0x80 := UInt8.lt_iff_toNat_lt.mp ha
      exact ⟨[a], rest, .one hlow rfl, rfl, rfl⟩
    split at h
    · rename_i ha
      obtain ⟨ha1, ha2⟩ : 0xC2 ≤ a.toNat ∧ a.toNat ≤ 0xDF := (in_range_iff a _ _).mp ha
      split at h
      · rename_i b rest
        split at h
        · rename_i hb
          obtain ⟨hb1, hb2⟩ := (continuation_iff b).mp hb
          obtain ⟨rfl, rfl⟩ : (a.toNat - 0xC0) * 64 + (b.toNat - 0x80) = r ∧ 2 = width := by
            simpa using h
          exact ⟨[a, b], rest, .two (by omega) (by omega) (by omega) (by omega), rfl, rfl⟩
        · simp at h
      · simp at h
    split at h
    · rename_i ha
      obtain ⟨ha1, ha2⟩ : 0xE0 ≤ a.toNat ∧ a.toNat ≤ 0xEF := (in_range_iff a _ _).mp ha
      split at h
      · rename_i b c rest
        split at h
        · rename_i hbc
          obtain ⟨hb, hc⟩ := Bool.and_eq_true_iff.mp hbc
          obtain ⟨hb1, hb2, hb3, hb4, -, -⟩ := (secondByte_iff a b).mp hb
          obtain ⟨hc1, hc2⟩ := (continuation_iff c).mp hc
          obtain ⟨rfl, rfl⟩ :
              ((a.toNat - 0xE0) * 64 + (b.toNat - 0x80)) * 64 + (c.toNat - 0x80) = r ∧
              3 = width := by simpa using h
          exact ⟨[a, b, c], rest, .three (by omega) (by omega) (by unfold scalar; omega)
            (by omega) (by omega) (by omega), rfl, rfl⟩
        · simp at h
      · simp at h
    split at h
    · rename_i ha
      obtain ⟨ha1, ha2⟩ : 0xF0 ≤ a.toNat ∧ a.toNat ≤ 0xF4 := (in_range_iff a _ _).mp ha
      split at h
      · rename_i b c d rest
        split at h
        · rename_i hbcd
          obtain ⟨hbc, hd⟩ := Bool.and_eq_true_iff.mp hbcd
          obtain ⟨hb, hc⟩ := Bool.and_eq_true_iff.mp hbc
          obtain ⟨hb1, hb2, -, -, hb3, hb4⟩ := (secondByte_iff a b).mp hb
          obtain ⟨hc1, hc2⟩ := (continuation_iff c).mp hc
          obtain ⟨hd1, hd2⟩ := (continuation_iff d).mp hd
          obtain ⟨rfl, rfl⟩ : (((a.toNat - 0xF0) * 64 + (b.toNat - 0x80)) * 64 +
              (c.toNat - 0x80)) * 64 + (d.toNat - 0x80) = r ∧ 4 = width := by simpa using h
          exact ⟨[a, b, c, d], rest, .four (by omega) (by omega) (by omega) (by omega)
            (by omega) (by omega), rfl, rfl⟩
        · simp at h
      · simp at h
    · simp at h

theorem encode_cons (r : ℕ) (rs : List ℕ) : encode (r :: rs) = encodeRune r ++ encode rs := rfl

theorem encode_append (ts : List ℕ) : encode (rs ++ ts) = encode rs ++ encode ts :=
  List.flatMap_append

theorem encodeRune_ne_nil (r : ℕ) : encodeRune r ≠ [] := by
  unfold encodeRune
  split_ifs <;> simp

private theorem runesFrom_fuel (fuel fuel' : ℕ) (v : Bytes) (h : v.length ≤ fuel)
    (h' : v.length ≤ fuel') : runesFrom fuel v = runesFrom fuel' v := by
  induction fuel generalizing fuel' v with
  | zero =>
    rw [List.length_eq_zero_iff.mp (Nat.le_zero.mp h)]
    cases fuel' <;> rfl
  | succ fuel ih =>
    cases v with
    | nil => cases fuel' <;> rfl
    | cons a rest =>
      rw [List.length_cons] at h h'
      obtain ⟨fuel', rfl⟩ : ∃ n, fuel' = n + 1 := ⟨fuel' - 1, by omega⟩
      rcases hdecode : decodeRune (a :: rest) with _ | ⟨r, width⟩
      · simp only [runesFrom, hdecode]
        rw [ih fuel' rest (by omega) (by omega)]
      · obtain ⟨bytes, tail, hbytes, -, rfl⟩ := encodes_of_decodeRune hdecode
        have hpos := hbytes.length_pos
        have hdrop : ((a :: rest).drop bytes.length).length ≤ rest.length := by
          rw [List.length_drop, List.length_cons]
          omega
        simp only [runesFrom, hdecode]
        rw [ih fuel' _ (by omega) (by omega)]

theorem runes_of_encodes (h : Encodes r bytes) (rest : Bytes) :
    runes (bytes ++ rest) = some r :: runes rest := by
  have hdecode := decodeRune_of_encodes h rest
  have hpos := h.length_pos
  unfold runes
  rw [runesFrom_fuel _ (bytes.length - 1 + rest.length + 1) _ le_rfl
    (by rw [List.length_append]; omega)]
  cases hcons : bytes ++ rest with
  | nil =>
    rw [(List.append_eq_nil_iff.mp hcons).1] at hpos
    exact absurd hpos (by decide)
  | cons first others =>
    rw [hcons] at hdecode
    simp only [runesFrom, hdecode]
    rw [← hcons, List.drop_left, runesFrom_fuel _ rest.length _ (by omega) le_rfl]

theorem runes_of_invalid {rest : Bytes} (h : decodeRune (a :: rest) = none) :
    runes (a :: rest) = none :: runes rest := by
  unfold runes
  simp only [List.length_cons, runesFrom, h]

/-- Induction along the runes of a text, with a step for a byte that begins none. -/
theorem rune_induction {P : Bytes → Prop} (nil : P [])
    (invalid : ∀ a rest, decodeRune (a :: rest) = none → P rest → P (a :: rest))
    (rune : ∀ r bytes rest, Encodes r bytes → P rest → P (bytes ++ rest)) (v : Bytes) : P v := by
  induction hlength : v.length using Nat.strong_induction_on generalizing v with
  | _ n ih =>
    cases v with
    | nil => exact nil
    | cons a rest =>
      rcases hdecode : decodeRune (a :: rest) with _ | ⟨r, width⟩
      · exact invalid a rest hdecode (ih rest.length (by simp [← hlength]) rest rfl)
      · obtain ⟨bytes, tail, hbytes, hsplit, -⟩ := encodes_of_decodeRune hdecode
        have hpos := hbytes.length_pos
        rw [hsplit, List.length_append] at hlength
        rw [hsplit]
        exact rune r bytes tail hbytes (ih tail.length (by omega) tail rfl)

/-- Decoding gives the encoded runes back. -/
theorem runes_encode (h : ∀ r ∈ rs, scalar r) : runes (encode rs) = rs.map some := by
  induction rs with
  | nil => rfl
  | cons r rs ih =>
    rw [encode_cons, runes_of_encodes (encodes_encodeRune (h r List.mem_cons_self)),
      ih fun s hs => h s (List.mem_cons_of_mem r hs), List.map_cons]

theorem validUTF8_encode (h : ∀ r ∈ rs, scalar r) : validUTF8 (encode rs) = true := by
  simp [validUTF8, runes_encode rs h]

/-- Valid text is the encoding of scalar values. -/
theorem exists_encode {v : Bytes} (h : validUTF8 v = true) :
    ∃ rs, (∀ r ∈ rs, scalar r) ∧ v = encode rs := by
  induction v using rune_induction with
  | nil => exact ⟨[], by simp, rfl⟩
  | invalid a rest hdecode => simp [validUTF8, runes_of_invalid hdecode] at h
  | rune r bytes rest hbytes ih =>
    obtain ⟨rs, hrs, rfl⟩ := ih (by simpa [validUTF8, runes_of_encodes hbytes] using h)
    refine ⟨r :: rs, ?_, by rw [encode_cons, encodes_unique hbytes]⟩
    simpa using ⟨scalar_of_encodes hbytes, hrs⟩

/-- The white-space runes. -/
def spaceRune (r : ℕ) : Bool :=
  r = 0x20 || 0x09 ≤ r && r ≤ 0x0D || r = 0x85 || r = 0xA0 || r = 0x1680 ||
    0x2000 ≤ r && r ≤ 0x200A || r = 0x2028 || r = 0x2029 || r = 0x202F || r = 0x205F || r = 0x3000

private theorem asciiSpace_iff (b : UInt8) :
    asciiSpace b = true ↔ b.toNat = 0x20 ∨ 0x09 ≤ b.toNat ∧ b.toNat ≤ 0x0D := by
  simp only [asciiSpace, Bool.or_eq_true, Bool.and_eq_true, decide_eq_true_eq, ← UInt8.toNat_inj]
  exact Iff.rfl

private theorem space2_iff (a b : UInt8) :
    space2 a b = true ↔ a.toNat = 0xC2 ∧ (b.toNat = 0x85 ∨ b.toNat = 0xA0) := by
  simp only [space2, Bool.or_eq_true, Bool.and_eq_true, decide_eq_true_eq, ← UInt8.toNat_inj]
  exact Iff.rfl

private theorem space3_iff (a b c : UInt8) :
    space3 a b c = true ↔
      a.toNat = 0xE1 ∧ b.toNat = 0x9A ∧ c.toNat = 0x80 ∨
      a.toNat = 0xE2 ∧ b.toNat = 0x80 ∧ (c.toNat ≤ 0x8A ∧ 0x80 ≤ c.toNat ∨ c.toNat = 0xA8 ∨
        c.toNat = 0xA9 ∨ c.toNat = 0xAF) ∨
      a.toNat = 0xE2 ∧ b.toNat = 0x81 ∧ c.toNat = 0x9F ∨
      a.toNat = 0xE3 ∧ b.toNat = 0x80 ∧ c.toNat = 0x80 := by
  simp only [space3, Bool.or_eq_true, Bool.and_eq_true, decide_eq_true_eq, ← UInt8.toNat_inj,
    or_assoc, and_assoc]
  exact Iff.rfl

private theorem spaceRune_iff (r : ℕ) :
    spaceRune r = true ↔ r = 0x20 ∨ 0x09 ≤ r ∧ r ≤ 0x0D ∨ r = 0x85 ∨ r = 0xA0 ∨ r = 0x1680 ∨
      0x2000 ≤ r ∧ r ≤ 0x200A ∨ r = 0x2028 ∨ r = 0x2029 ∨ r = 0x202F ∨ r = 0x205F ∨
      r = 0x3000 := by
  simp only [spaceRune, Bool.or_eq_true, Bool.and_eq_true, decide_eq_true_eq, or_assoc]

/-- The width of the white-space rune that a reversed text starts with. -/
private def spaceWidthReversed : Bytes → ℕ
  | a :: b :: c :: _ =>
    if asciiSpace a then 1 else if space2 b a then 2 else if space3 c b a then 3 else 0
  | [a, b] => if asciiSpace a then 1 else if space2 b a then 2 else 0
  | [a] => if asciiSpace a then 1 else 0
  | [] => 0

private theorem trimLeft_step (v : Bytes) :
    trimLeft v = if spaceWidth v = 0 then v else trimLeft (v.drop (spaceWidth v)) := by
  rcases v with _ | ⟨a, _ | ⟨b, _ | ⟨c, rest⟩⟩⟩ <;> simp only [spaceWidth] <;>
    split_ifs <;> simp_all [trimLeft]

private theorem trimReversed_step (v : Bytes) :
    trimReversed v =
      if spaceWidthReversed v = 0 then v else trimReversed (v.drop (spaceWidthReversed v)) := by
  rcases v with _ | ⟨a, _ | ⟨b, _ | ⟨c, rest⟩⟩⟩ <;> simp only [spaceWidthReversed] <;>
    split_ifs <;> simp_all [trimReversed]

private theorem asciiSpace_eq_false (h : 0x80 ≤ a.toNat) : asciiSpace a = false := by
  rw [Bool.eq_false_iff, ne_eq, asciiSpace_iff]
  omega

private theorem space2_eq_false (h : a.toNat ≠ 0xC2 ∨ b.toNat < 0x80) : space2 a b = false := by
  rw [Bool.eq_false_iff, ne_eq, space2_iff]
  omega

private theorem space3_eq_false {c : UInt8}
    (h : a.toNat < 0xE1 ∨ 0xE3 < a.toNat ∨ 0xBF < b.toNat ∨ c.toNat < 0x80) :
    space3 a b c = false := by
  rw [Bool.eq_false_iff, ne_eq, space3_iff]
  omega

/-- How the bytes of a rune look from the left and from the right. -/
private theorem spaceWidths_encodes (h : Encodes r bytes) (rest : Bytes) :
    spaceWidth (bytes ++ rest) = (if spaceRune r then bytes.length else 0) ∧
      spaceWidthReversed (bytes.reverse ++ rest) = if spaceRune r then bytes.length else 0 := by
  have hrune := spaceRune_iff r
  cases h with
  | @one a h ha =>
    have h1 : asciiSpace a = spaceRune r := by
      rw [Bool.eq_iff_iff, asciiSpace_iff, hrune]
      omega
    obtain ⟨h2, h3⟩ := space_of_lt (UInt8.lt_iff_toNat_lt.mpr (ha ▸ h) : a < 0x80)
    rcases rest with _ | ⟨b, _ | ⟨c, rest⟩⟩ <;>
      simp [spaceWidth, spaceWidthReversed, h1, h2, h3]
  | @two a b h h' ha hb =>
    have ha1 : asciiSpace a = false := asciiSpace_eq_false (by omega)
    have hb1 : asciiSpace b = false := asciiSpace_eq_false (by omega)
    have h2 : space2 a b = spaceRune r := by
      rw [Bool.eq_iff_iff, space2_iff, hrune]
      omega
    have h3 : ∀ c, space3 a b c = false := fun c => space3_eq_false (by omega)
    have h3' : ∀ c, space3 c a b = false := fun c => space3_eq_false (by omega)
    rcases rest with _ | ⟨c, rest⟩ <;>
      simp [spaceWidth, spaceWidthReversed, ha1, hb1, h2, h3, h3']
  | @three a b c h h' hs ha hb hc =>
    have ha1 : asciiSpace a = false := asciiSpace_eq_false (by omega)
    have hc1 : asciiSpace c = false := asciiSpace_eq_false (by omega)
    have h2 : space2 a b = false := space2_eq_false (by omega)
    have h2' : space2 b c = false := space2_eq_false (by omega)
    have h3 : space3 a b c = spaceRune r := by
      rw [Bool.eq_iff_iff, space3_iff, hrune]
      omega
    simp [spaceWidth, spaceWidthReversed, ha1, hc1, h2, h2', h3]
  | @four a b c d h h' ha hb hc hd =>
    have h0 : spaceRune r = false := by
      rw [Bool.eq_false_iff, ne_eq, hrune]
      omega
    have ha1 : asciiSpace a = false := asciiSpace_eq_false (by omega)
    have hd1 : asciiSpace d = false := asciiSpace_eq_false (by omega)
    have h2 : space2 a b = false := space2_eq_false (by omega)
    have h2' : space2 c d = false := space2_eq_false (by omega)
    have h3 : space3 a b c = false := space3_eq_false (by omega)
    have h3' : space3 b c d = false := space3_eq_false (by omega)
    simp [spaceWidth, spaceWidthReversed, h0, ha1, hd1, h2, h2', h3, h3']

theorem trimLeft_encode (h : ∀ r ∈ rs, scalar r) :
    trimLeft (encode rs) = encode (rs.dropWhile spaceRune) := by
  induction rs with
  | nil => rfl
  | cons r rs ih =>
    have hwidth := (spaceWidths_encodes (encodes_encodeRune (h r List.mem_cons_self))
      (encode rs)).1
    have hlength := List.length_pos_iff.mpr (encodeRune_ne_nil r)
    rw [encode_cons, trimLeft_step, hwidth, List.dropWhile_cons]
    cases spaceRune r with
    | false => rfl
    | true =>
      simp only [if_true, if_neg (Nat.pos_iff_ne_zero.mp hlength), List.drop_left]
      exact ih fun s hs => h s (List.mem_cons_of_mem r hs)

private theorem trimReversed_encode (h : ∀ r ∈ rs, scalar r) :
    trimReversed (rs.flatMap (List.reverse ∘ encodeRune)) =
      (rs.dropWhile spaceRune).flatMap (List.reverse ∘ encodeRune) := by
  induction rs with
  | nil => rfl
  | cons r rs ih =>
    have hwidth := (spaceWidths_encodes (encodes_encodeRune (h r List.mem_cons_self))
      (rs.flatMap (List.reverse ∘ encodeRune))).2
    have hlength := List.length_pos_iff.mpr (encodeRune_ne_nil r)
    have hdrop : ((encodeRune r).reverse ++ rs.flatMap (List.reverse ∘ encodeRune)).drop
        (encodeRune r).length = rs.flatMap (List.reverse ∘ encodeRune) := by
      rw [← List.length_reverse, List.drop_left]
    rw [List.flatMap_cons, Function.comp_apply, trimReversed_step, hwidth, List.dropWhile_cons]
    cases spaceRune r with
    | false => rfl
    | true =>
      simp only [if_true, if_neg (Nat.pos_iff_ne_zero.mp hlength), hdrop]
      exact ih fun s hs => h s (List.mem_cons_of_mem r hs)

theorem trimRight_encode (h : ∀ r ∈ rs, scalar r) :
    trimRight (encode rs) = encode (rs.rdropWhile spaceRune) := by
  have hreverse := trimReversed_encode rs.reverse fun r hr => h r (List.mem_reverse.mp hr)
  rw [trimRight, encode, List.reverse_flatMap, hreverse, List.reverse_flatMap]
  congr 1
  funext r
  exact List.reverse_reverse (encodeRune r)

/-- White space is trimmed rune by rune. -/
theorem trimSpace_encode (h : ∀ r ∈ rs, scalar r) :
    trimSpace (encode rs) = encode ((rs.dropWhile spaceRune).rdropWhile spaceRune) := by
  have hsub : ∀ r ∈ rs.dropWhile spaceRune, scalar r := fun r hr =>
    h r ((List.dropWhile_suffix spaceRune).subset hr)
  rw [trimSpace, trimLeft_encode rs h, trimRight_encode _ hsub]

/-- No white space at either end. -/
def Trimmed : Prop :=
  (∀ r, rs.head? = some r → spaceRune r = false) ∧ ∀ r, rs.getLast? = some r → spaceRune r = false

def trim : List ℕ := (rs.dropWhile spaceRune).rdropWhile spaceRune

theorem trim_subset : trim rs ⊆ rs := by
  intro r hr
  exact (List.dropWhile_suffix spaceRune).subset ((List.rdropWhile_prefix spaceRune _).subset hr)

theorem trimmed_trim : Trimmed (trim rs) := by
  constructor
  · intro r hr
    -- trimming the end keeps the first rune that is left
    obtain ⟨tail, htail⟩ := List.rdropWhile_prefix spaceRune (rs.dropWhile spaceRune)
    have hhead : (rs.dropWhile spaceRune).head? = some r := by
      rw [← htail, List.head?_append, show (List.rdropWhile _ _).head? = some r from hr]
      rfl
    have hnot := List.head?_dropWhile_not spaceRune rs
    rw [hhead] at hnot
    simpa using hnot
  · intro r hr
    obtain ⟨hne, rfl⟩ := List.mem_getLast?_eq_getLast hr
    exact Bool.eq_false_iff.mpr (List.rdropWhile_last_not spaceRune _ hne)

theorem dropWhile_of_trimmed {rs : List ℕ} (h : Trimmed rs) : rs.dropWhile spaceRune = rs := by
  cases rs with
  | nil => rfl
  | cons r rs => simp [h.1 r rfl]

theorem rdropWhile_of_trimmed {rs : List ℕ} (h : Trimmed rs) : rs.rdropWhile spaceRune = rs := by
  rw [List.rdropWhile_eq_self_iff]
  intro hne
  simpa using h.2 _ (List.getLast?_eq_getLast_of_ne_nil hne)

theorem trimLeft_of_trimmed {rs : List ℕ} (hs : ∀ r ∈ rs, scalar r) (h : Trimmed rs) :
    trimLeft (encode rs) = encode rs := by
  rw [trimLeft_encode rs hs, dropWhile_of_trimmed h]

theorem trimSpace_of_trimmed {rs : List ℕ} (hs : ∀ r ∈ rs, scalar r) (h : Trimmed rs) :
    trimSpace (encode rs) = encode rs := by
  rw [trimSpace_encode rs hs, dropWhile_of_trimmed h, rdropWhile_of_trimmed h]

/-- A rune beyond ASCII has no ASCII byte in its encoding. -/
theorem high_of_mem_encodeRune (hs : scalar r) (hr : 0x80 ≤ r) (b : UInt8) (hb : b ∈ encodeRune r) :
    0x80 ≤ b.toNat := by
  generalize hbytes : encodeRune r = bytes at hb
  have h : Encodes r bytes := hbytes ▸ encodes_encodeRune hs
  cases h <;> simp only [List.mem_cons, List.not_mem_nil, or_false] at hb
  case one => omega
  case two => rcases hb with rfl | rfl <;> omega
  case three => rcases hb with rfl | rfl | rfl <;> omega
  case four => rcases hb with rfl | rfl | rfl | rfl <;> omega

theorem encodeRune_low (hr : r < 0x80) : encodeRune r = [UInt8.ofNat r] := by
  rw [encodeRune, if_pos hr]

theorem mem_encodeRune_ascii (hs : scalar r) (b : UInt8) (hb : b.toNat < 0x80) :
    b ∈ encodeRune r ↔ r = b.toNat := by
  by_cases hr : r < 0x80
  · rw [encodeRune_low hr, List.mem_singleton, ← UInt8.toNat_inj, toNat_byte (by omega)]
    exact eq_comm
  · constructor
    · intro hmem
      have := high_of_mem_encodeRune hs (by omega) b hmem
      omega
    · omega

theorem count_encodeRune_ascii (hs : scalar r) (b : UInt8) (hb : b.toNat < 0x80) :
    (encodeRune r).count b = if r = b.toNat then 1 else 0 := by
  by_cases hr : r = b.toNat
  · rw [if_pos hr, encodeRune_low (by omega), hr, UInt8.ofNat_toNat, List.count_singleton_self]
  · rw [if_neg hr, List.count_eq_zero, mem_encodeRune_ascii hs b hb]
    exact hr

/-- An ASCII byte occurs as often as its rune. -/
theorem count_encode (hs : ∀ r ∈ rs, scalar r) (b : UInt8) (hb : b.toNat < 0x80) :
    (encode rs).count b = rs.count b.toNat := by
  induction rs with
  | nil => rfl
  | cons r rs ih =>
    have hrest := ih fun s h => hs s (List.mem_cons_of_mem r h)
    rw [encode_cons, List.count_append, hrest,
      count_encodeRune_ascii (hs r List.mem_cons_self) b hb,
      List.count_cons, Nat.add_comm]
    simp

/-- Cutting encoded text at its first occurrence of an ASCII byte cuts the runes. -/
theorem encode_eq_append {rs : List ℕ} (hs : ∀ r ∈ rs, scalar r) (hb : b.toNat < 0x80)
    {before after : Bytes} (hnot : b ∉ before) (h : encode rs = before ++ b :: after) :
    ∃ ps ts, rs = ps ++ b.toNat :: ts ∧ before = encode ps ∧ after = encode ts := by
  induction rs generalizing before with
  | nil => simp [encode] at h
  | cons r rs ih =>
    have hr := hs r List.mem_cons_self
    rw [encode_cons] at h
    by_cases heq : r = b.toNat
    · rw [encodeRune_low (by omega), heq, UInt8.ofNat_toNat] at h
      cases before with
      | nil =>
        obtain ⟨-, htail⟩ := List.cons.inj h
        exact ⟨[], rs, by rw [heq]; rfl, rfl, htail.symm⟩
      | cons c before =>
        obtain ⟨rfl, -⟩ := List.cons.inj h
        exact absurd List.mem_cons_self hnot
    · have hmem : b ∉ encodeRune r := mt (mem_encodeRune_ascii hr b hb).mp heq
      rcases List.append_eq_append_iff.mp h with ⟨mid, hbefore, hrest⟩ | ⟨mid, hrune, hrest⟩
      · rw [hbefore, List.mem_append, not_or] at hnot
        obtain ⟨ps, ts, rfl, rfl, rfl⟩ :=
          ih (fun s h => hs s (List.mem_cons_of_mem r h)) hnot.2 hrest
        exact ⟨r :: ps, ts, rfl, by rw [hbefore, encode_cons], rfl⟩
      · cases mid with
        | nil =>
          rw [List.append_nil] at hrune
          have hcut : encode rs = [] ++ b :: after := hrest.symm
          obtain ⟨ps, ts, rfl, hps, rfl⟩ :=
            ih (fun s h => hs s (List.mem_cons_of_mem r h)) List.not_mem_nil hcut
          exact ⟨r :: ps, ts, rfl, by rw [encode_cons, ← hps, List.append_nil, hrune], rfl⟩
        | cons c mid =>
          obtain ⟨rfl, -⟩ := List.cons.inj hrest
          exact absurd (by rw [hrune]; simp) hmem

end MilterGuard.Utf8
