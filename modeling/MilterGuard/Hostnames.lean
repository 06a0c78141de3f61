import MilterGuard.ByteStrings

/-!
DNS host names as `netsafety` normalizes them: surrounding white space and one
final dot are dropped, letters are lowered, and every label must be a non-empty
run of letters, digits and inner hyphens. The normal form is a fixed point.
-/
namespace MilterGuard.Hostnames

open ByteStrings

/-- Lower case for every rune. Only the ASCII part is pinned down. -/
structure CaseTable where
  lower : ℕ → ℕ
  lower_ascii : ∀ r, r < 0x80 → lower r = (asciiLowerByte (UInt8.ofNat r)).toNat

variable (table : CaseTable) (value : Bytes)

/-- strings.ToLower. -/
def toLower : Bytes :=
  mapRunes (fun r => some (table.lower r)) value

variable (allowUnderscore : Bool)

def labelByte (b : UInt8) : Bool :=
  0x61 ≤ b && b ≤ 0x7A || 0x30 ≤ b && b ≤ 0x39 || b = 0x2D || allowUnderscore && b = 0x5F

def validLabel (label : Bytes) : Bool :=
  label ≠ [] && label.length ≤ 63 && label.head? ≠ some 0x2D && label.getLast? ≠ some 0x2D &&
    label.all (labelByte allowUnderscore)

def validName (value : Bytes) : Bool :=
  value ≠ [] && value.length ≤ 253 && (split 0x2E value).all (validLabel allowUnderscore)

def normalizeDNSName : Bytes :=
  let value := trimSuffix (toLower table (trimSpace value)) [0x2E]
  if validName allowUnderscore value then value else []

def dnsHostname : Bytes := normalizeDNSName table value false

theorem toLower_ascii (h : ∀ b ∈ value, b < 0x80) :
    toLower table value = value.map asciiLowerByte := by
  unfold toLower mapRunes
  rw [runes_ascii value h]
  induction value with
  | nil => rfl
  | cons a rest ih =>
    have ha : a < 0x80 := h a List.mem_cons_self
    have hlower : asciiLowerByte a < 0x80 := asciiLowerByte_lt a ha
    have hrest := ih fun b hb => h b (List.mem_cons_of_mem a hb)
    simp only [List.flatMap_cons, List.map_cons, Option.getD_some,
      table.lower_ascii a.toNat (UInt8.lt_iff_toNat_lt.mp ha), UInt8.ofNat_toNat,
      encodeRune_toNat _ hlower, List.singleton_append] at hrest ⊢
    rw [hrest]

/-- What is used of a byte that a label admits. -/
theorem labelByte_plain : ∀ b, labelByte allowUnderscore b →
    b < 0x80 ∧ asciiSpace b = false ∧ asciiLowerByte b = b := by
  cases allowUnderscore with
  | false | true => exact forall_byte _ (by decide +kernel)

variable {value allowUnderscore} in
theorem validName_byte (h : validName allowUnderscore value) (b : UInt8) (hb : b ∈ value) :
    b = 0x2E ∨ labelByte allowUnderscore b = true := by
  by_cases hdot : b = 0x2E
  · exact Or.inl hdot
  · obtain ⟨label, hlabel, hmem⟩ := mem_split_of_mem 0x2E b value hb hdot
    simp only [validName, Bool.and_eq_true, List.all_eq_true] at h
    have hvalid := h.2 label hlabel
    simp only [validLabel, Bool.and_eq_true, List.all_eq_true] at hvalid
    exact Or.inr (hvalid.2 b hmem)

private theorem validName_no_final_dot (value : Bytes) (h : validName allowUnderscore value) :
    hasSuffix value [0x2E] = false := by
  rw [Bool.eq_false_iff]
  intro hsuffix
  obtain ⟨start, rfl⟩ := List.isSuffixOf_iff_suffix.mp hsuffix
  simp only [validName, Bool.and_eq_true, List.all_eq_true] at h
  have hempty := h.2 [] (by rw [split_append_sep]; simp [split])
  simp [validLabel] at hempty

/-- A valid name is already trimmed, in lower case and without a final dot. -/
theorem prepared_of_validName (h : validName allowUnderscore value) :
    trimSuffix (toLower table (trimSpace value)) [0x2E] = value := by
  have hbyte : ∀ b ∈ value, b < 0x80 ∧ asciiSpace b = false ∧ asciiLowerByte b = b := by
    intro b hb
    rcases validName_byte h b hb with rfl | hlabel
    · decide
    · exact labelByte_plain allowUnderscore b hlabel
  have htrim : trimSpace value = value := by
    apply trimSpace_eq_self
    · intro b hb
      obtain ⟨hlow, hspace, -⟩ := hbyte b (List.mem_of_head? hb)
      exact ⟨hlow, hspace⟩
    · intro b hb
      obtain ⟨hlow, hspace, -⟩ := hbyte b (List.mem_of_getLast? hb)
      exact ⟨hlow, hspace⟩
  have hlower : toLower table value = value := by
    rw [toLower_ascii table value fun b hb => (hbyte b hb).1]
    exact (List.map_congr_left fun b hb => (hbyte b hb).2.2).trans (List.map_id' value)
  rw [htrim, hlower, trimSuffix, if_neg]
  rw [validName_no_final_dot allowUnderscore value h]
  exact Bool.false_ne_true

theorem normalizeDNSName_of_validName (h : validName allowUnderscore value) :
    normalizeDNSName table value allowUnderscore = value := by
  simp only [normalizeDNSName, prepared_of_validName table value allowUnderscore h, if_pos h]

theorem normalizeDNSName_eq_nil_or_validName :
    normalizeDNSName table value allowUnderscore = [] ∨
      validName allowUnderscore (normalizeDNSName table value allowUnderscore) := by
  simp only [normalizeDNSName]
  split
  · rename_i hvalid
    exact Or.inr hvalid
  · exact Or.inl rfl

theorem at_not_mem_normalizeDNSName : 0x40 ∉ normalizeDNSName table value allowUnderscore := by
  rcases normalizeDNSName_eq_nil_or_validName table value allowUnderscore with hnil | hvalid
  · rw [hnil]
    simp
  · intro hmem
    obtain ⟨label, hlabel, hat⟩ := mem_split_of_mem 0x2E 0x40 _ hmem (by decide)
    simp only [validName, Bool.and_eq_true, List.all_eq_true] at hvalid
    have hlabelValid := hvalid.2 label hlabel
    simp only [validLabel, Bool.and_eq_true, List.all_eq_true] at hlabelValid
    have hbyte := hlabelValid.2 0x40 hat
    cases allowUnderscore <;> exact absurd hbyte (by decide)

/-- Normalizing a name that has been normalized changes nothing. -/
theorem normalizeDNSName_idem :
    normalizeDNSName table (normalizeDNSName table value allowUnderscore) allowUnderscore =
      normalizeDNSName table value allowUnderscore := by
  rcases normalizeDNSName_eq_nil_or_validName table value allowUnderscore with hnil | hvalid
  · rw [hnil]
    rfl
  · exact normalizeDNSName_of_validName table _ allowUnderscore hvalid

end MilterGuard.Hostnames
