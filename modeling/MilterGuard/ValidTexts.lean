import MilterGuard.Utf8

/-!
Operations that keep text valid UTF-8. Repairing a text and mapping its runes make it
valid; joining valid texts, replacing an ASCII character and cutting between runes keep
them so. A text may be repaired piece by piece if it is divided before an ASCII character.
-/
namespace MilterGuard.ValidTexts

open ByteStrings Utf8

variable {v : Bytes}

theorem validUTF8_iff : validUTF8 v = true ↔ ∃ rs, (∀ r ∈ rs, scalar r) ∧ v = encode rs := by
  constructor
  · exact exists_encode
  · rintro ⟨rs, hrs, rfl⟩
    exact validUTF8_encode rs hrs

theorem validUTF8_append {a b : Bytes} (ha : validUTF8 a = true) (hb : validUTF8 b = true) :
    validUTF8 (a ++ b) = true := by
  obtain ⟨rs, hrs, rfl⟩ := validUTF8_iff.mp ha
  obtain ⟨ts, hts, rfl⟩ := validUTF8_iff.mp hb
  rw [← encode_append]
  refine validUTF8_encode _ fun r hr => ?_
  rcases List.mem_append.mp hr with hr | hr
  · exact hrs r hr
  · exact hts r hr

theorem validUTF8_flatMap {α : Type*} {xs : List α} {f : α → Bytes}
    (h : ∀ x ∈ xs, validUTF8 (f x) = true) : validUTF8 (xs.flatMap f) = true := by
  induction xs with
  | nil => rfl
  | cons x xs ih =>
    exact validUTF8_append (h x List.mem_cons_self)
      (ih fun y hy => h y (List.mem_cons_of_mem x hy))

theorem validUTF8_join {sep : Bytes} {texts : List Bytes} (hsep : validUTF8 sep = true)
    (h : ∀ text ∈ texts, validUTF8 text = true) : validUTF8 (join sep texts) = true := by
  induction texts with
  | nil => rfl
  | cons text rest ih =>
    have htext := h text List.mem_cons_self
    have hrest := ih fun t ht => h t (List.mem_cons_of_mem text ht)
    cases rest with
    | nil => exact htext
    | cons next rest => exact validUTF8_append (validUTF8_append htext hsep) hrest

theorem scalar_of_mem_runes {r : ℕ} (h : some r ∈ runes v) : scalar r := by
  induction v using rune_induction with
  | nil => simp [runes, runesFrom] at h
  | invalid a rest hdecode ih => exact ih (by simpa [runes_of_invalid hdecode] using h)
  | rune s bytes rest hbytes ih =>
    rw [runes_of_encodes hbytes, List.mem_cons, Option.some.injEq] at h
    rcases h with rfl | h
    · exact scalar_of_encodes hbytes
    · exact ih h

theorem scalar_replacement : scalar replacement := by
  unfold scalar replacement
  omega

private theorem mem_repairRunes {rs : List (Option ℕ)} {r : ℕ} (h : r ∈ repairRunes rs) :
    r = replacement ∨ some r ∈ rs := by
  fun_induction repairRunes rs <;> grind

theorem scalar_of_mem_repairRunes {rs : List (Option ℕ)} (hrs : ∀ r, some r ∈ rs → scalar r)
    {r : ℕ} (h : r ∈ repairRunes rs) : scalar r := by
  rcases mem_repairRunes h with rfl | h
  · exact scalar_replacement
  · exact hrs r h

theorem mem_of_mem_runes {r : ℕ} (hr : r < 0x80) (h : some r ∈ runes v) : UInt8.ofNat r ∈ v := by
  induction v using rune_induction with
  | nil => simp [runes, runesFrom] at h
  | invalid a rest hdecode ih =>
    exact List.mem_cons_of_mem a (ih (by simpa [runes_of_invalid hdecode] using h))
  | rune s bytes rest hbytes ih =>
    rw [runes_of_encodes hbytes, List.mem_cons, Option.some.injEq] at h
    rw [List.mem_append]
    rcases h with rfl | h
    · rw [encodes_unique hbytes, encodeRune_low hr]
      simp
    · exact Or.inr (ih h)

/-- Repairing a text adds no ASCII character. -/
theorem mem_of_mem_toValidUTF8 {b : UInt8} (hb : b.toNat < 0x80) (h : b ∈ toValidUTF8 v) :
    b ∈ v := by
  obtain ⟨r, hr, hmem⟩ := List.mem_flatMap.mp h
  have hscalar := scalar_of_mem_repairRunes (fun _ hsome => scalar_of_mem_runes hsome) hr
  obtain rfl := (mem_encodeRune_ascii hscalar b hb).mp hmem
  rcases mem_repairRunes hr with hreplaced | hsome
  · rw [hreplaced] at hb
    exact absurd hb (by decide)
  · simpa using mem_of_mem_runes hb hsome

theorem validUTF8_toValidUTF8 (v : Bytes) : validUTF8 (toValidUTF8 v) = true :=
  validUTF8_encode _ fun _ hr =>
    scalar_of_mem_repairRunes (fun _ hsome => scalar_of_mem_runes hsome) hr

theorem validUTF8_encodeRune {r : ℕ} (h : scalar r) : validUTF8 (encodeRune r) = true := by
  have hone := validUTF8_encode [r] (by simpa using h)
  rwa [encode_cons, encode, List.flatMap_nil, List.append_nil] at hone

theorem validUTF8_mapRunes {f : ℕ → Option ℕ} (hf : ∀ r t, scalar r → f r = some t → scalar t)
    (v : Bytes) : validUTF8 (mapRunes f v) = true := by
  refine validUTF8_flatMap fun r hr => ?_
  have hscalar : scalar (r.getD replacement) := by
    cases r with
    | none => exact scalar_replacement
    | some r => exact scalar_of_mem_runes hr
  cases hmapped : f (r.getD replacement) with
  | none => rfl
  | some t => exact validUTF8_encodeRune (hf _ t hscalar hmapped)

theorem replaceAll_singleton (v new : Bytes) (b : UInt8) :
    replaceAll v [b] new = v.flatMap fun x => if x = b then new else [x] := by
  unfold replaceAll
  induction v with
  | nil => rfl
  | cons a rest ih =>
    by_cases h : a = b
    · subst h
      simp [replaceFrom, hasPrefix, ih]
    · simp [replaceFrom, hasPrefix, ih, h, Ne.symm h]

/-- Only the rune itself has an ASCII byte in its encoding. -/
theorem validUTF8_replaceAll {b : UInt8} (new : Bytes) (hb : b.toNat < 0x80)
    (hv : validUTF8 v = true) (hnew : validUTF8 new = true) :
    validUTF8 (replaceAll v [b] new) = true := by
  obtain ⟨rs, hrs, rfl⟩ := validUTF8_iff.mp hv
  rw [replaceAll_singleton, encode, List.flatMap_assoc]
  refine validUTF8_flatMap fun r hr => ?_
  by_cases hmem : b ∈ encodeRune r
  · rw [mem_encodeRune_ascii (hrs r hr) b hb] at hmem
    rw [encodeRune_low (by omega), hmem]
    simpa using hnew
  · have hsame : ((encodeRune r).flatMap fun x => if x = b then new else [x]) = encodeRune r := by
      rw [List.flatMap_congr (g := fun x => [x]), List.flatMap_singleton']
      intro x hx
      rw [if_neg]
      rintro rfl
      exact hmem hx
    rw [hsame]
    exact validUTF8_encodeRune (hrs r hr)

/-- Every byte of a rune but the first continues it. -/
theorem continuation_of_encodeRune {r : ℕ} (h : scalar r) {k : ℕ} (hpos : 0 < k)
    (hk : k < (encodeRune r).length) : continuation ((encodeRune r).get ⟨k, hk⟩) = true := by
  generalize hbytes : encodeRune r = bytes at hk ⊢
  have hencodes : Encodes r bytes := hbytes ▸ encodes_encodeRune h
  rw [continuation_iff]
  cases hencodes with
  | one => simp at hk; omega
  | two h h' ha hb =>
    obtain rfl : k = 1 := by simp at hk; omega
    simp only [List.get_eq_getElem, List.getElem_cons_succ, List.getElem_cons_zero]
    omega
  | three h h' hs ha hb hc =>
    obtain rfl | rfl : k = 1 ∨ k = 2 := by simp at hk; omega
    all_goals
      simp only [List.get_eq_getElem, List.getElem_cons_succ, List.getElem_cons_zero]
      omega
  | four h h' ha hb hc hd =>
    obtain rfl | rfl | rfl : k = 1 ∨ k = 2 ∨ k = 3 := by simp at hk; omega
    all_goals
      simp only [List.get_eq_getElem, List.getElem_cons_succ, List.getElem_cons_zero]
      omega

private theorem validUTF8_take_encode (rs : List ℕ) (hrs : ∀ r ∈ rs, scalar r) (k : ℕ)
    (hcut : ∀ next rest, (encode rs).drop k = next :: rest → continuation next = false) :
    validUTF8 ((encode rs).take k) = true := by
  induction rs generalizing k with
  | nil => simp [encode, validUTF8, runes, runesFrom]
  | cons r rs ih =>
    have hr := hrs r List.mem_cons_self
    rw [encode_cons] at hcut ⊢
    by_cases hzero : k = 0
    · subst hzero
      rfl
    by_cases hk : k < (encodeRune r).length
    · have hcontinues := continuation_of_encodeRune hr (Nat.pos_of_ne_zero hzero) hk
      rw [hcut _ _ (by rw [List.drop_append_of_le_length hk.le, List.drop_eq_getElem_cons hk]
                       rfl)] at hcontinues
      exact absurd hcontinues (by decide)
    · obtain ⟨j, rfl⟩ : ∃ j, k = (encodeRune r).length + j :=
        ⟨k - (encodeRune r).length, by omega⟩
      rw [← List.drop_drop, List.drop_left] at hcut
      rw [List.take_length_add_append]
      exact validUTF8_append (validUTF8_encodeRune hr)
        (ih (fun t ht => hrs t (List.mem_cons_of_mem r ht)) j hcut)

/-- A valid text that is cut before a byte which does not continue a rune is valid. -/
theorem validUTF8_cutAtRune (hv : validUTF8 v = true) (limit : ℕ) :
    validUTF8 (cutAtRune v limit) = true := by
  obtain ⟨rs, hrs, rfl⟩ := validUTF8_iff.mp hv
  induction limit with
  | zero => rfl
  | succ limit ih =>
    rw [cutAtRune]
    cases hdrop : (encode rs).drop (limit + 1) with
    | nil => exact hv
    | cons next rest =>
      dsimp only
      by_cases hnext : continuation next = true
      · rw [if_pos hnext]
        exact ih
      · rw [if_neg hnext]
        refine validUTF8_take_encode rs hrs _ fun next' rest' h => ?_
        rw [hdrop, List.cons.injEq] at h
        rw [← h.1]
        exact Bool.not_eq_true _ ▸ hnext

section Repair

variable {rest a : Bytes} {b : UInt8}

/-- No rune reaches across an ASCII character. -/
theorem decodeRune_append_ascii (ha : a ≠ []) (hb : b.toNat < 0x80) (rest : Bytes) :
    decodeRune (a ++ b :: rest) = decodeRune a := by
  rcases hlong : decodeRune (a ++ b :: rest) with _ | ⟨r, width⟩
  · rcases hshort : decodeRune a with _ | ⟨r, width⟩
    · rfl
    · obtain ⟨bytes, tail, hbytes, rfl, -⟩ := encodes_of_decodeRune hshort
      rw [List.append_assoc, decodeRune_of_encodes hbytes] at hlong
      exact nomatch hlong
  · obtain ⟨bytes, tail, hbytes, hsplit, rfl⟩ := encodes_of_decodeRune hlong
    rcases List.append_eq_append_iff.mp hsplit with ⟨more, hmore, hrest⟩ | ⟨more, rfl, -⟩
    · cases more with
      | nil =>
        rw [List.append_nil] at hmore
        subst hmore
        have h := decodeRune_of_encodes hbytes []
        rw [List.append_nil] at h
        exact h.symm
      | cons first more =>
        -- the rune would hold the ASCII character, which is a rune of its own
        obtain ⟨rfl, -⟩ := List.cons.inj hrest
        have hscalar := scalar_of_encodes hbytes
        have hmem : b ∈ encodeRune r := by
          rw [← encodes_unique hbytes, hmore]
          simp
        rw [mem_encodeRune_ascii hscalar b hb] at hmem
        have hlength := congrArg List.length ((encodes_unique hbytes).symm.trans hmore)
        rw [encodeRune_low (by omega), List.length_singleton, List.length_append,
          List.length_cons] at hlength
        have hpos := List.length_pos_iff.mpr ha
        omega
    · exact (decodeRune_of_encodes hbytes more).symm

theorem runes_append_ascii (a : Bytes) (hb : b.toNat < 0x80) (rest : Bytes) :
    runes (a ++ b :: rest) = runes a ++ runes (b :: rest) := by
  induction a using rune_induction with
  | nil => rfl
  | invalid first others hdecode ih =>
    have hlong := decodeRune_append_ascii (List.cons_ne_nil first others) hb rest
    rw [hdecode, List.cons_append] at hlong
    rw [List.cons_append, runes_of_invalid hlong, runes_of_invalid hdecode, List.cons_append, ih]
  | rune r bytes tail hbytes ih =>
    rw [List.append_assoc, runes_of_encodes hbytes, runes_of_encodes hbytes, List.cons_append, ih]

theorem repairRunes_append (xs : List (Option ℕ)) (r : ℕ) (ys : List (Option ℕ)) :
    repairRunes (xs ++ some r :: ys) = repairRunes xs ++ repairRunes (some r :: ys) := by
  induction xs using repairRunes.induct with
  | case1 => rfl
  | case2 s rest ih => rw [List.cons_append, repairRunes, repairRunes, ih, List.cons_append]
  | case3 rest ih =>
    change repairRunes (none :: rest ++ some r :: ys) = _
    rw [ih]
    rfl
  | case4 rest hrest ih =>
    cases rest with
    | nil => rfl
    | cons first rest =>
      cases first with
      | none => exact absurd rfl (hrest rest)
      | some s =>
        change replacement :: repairRunes (some s :: rest ++ some r :: ys) = _
        rw [ih]
        rfl

/-- A text that is divided before an ASCII character is repaired piece by piece. -/
theorem toValidUTF8_append_ascii (a : Bytes) (hb : b.toNat < 0x80) (rest : Bytes) :
    toValidUTF8 (a ++ b :: rest) = toValidUTF8 a ++ toValidUTF8 (b :: rest) := by
  have hfirst := runes_of_encodes (.one hb rfl : Encodes b.toNat [b]) rest
  rw [List.singleton_append] at hfirst
  unfold toValidUTF8
  rw [runes_append_ascii a hb, hfirst, repairRunes_append, List.flatMap_append]

/-- Repairing begins where the text is no longer valid. -/
theorem toValidUTF8_append_valid (ha : validUTF8 a = true) (rest : Bytes) :
    toValidUTF8 (a ++ rest) = a ++ toValidUTF8 rest := by
  obtain ⟨rs, hrs, rfl⟩ := validUTF8_iff.mp ha
  induction rs with
  | nil => rfl
  | cons r rs ih =>
    have htail : ∀ t ∈ rs, scalar t := fun t ht => hrs t (List.mem_cons_of_mem r ht)
    have hr := hrs r List.mem_cons_self
    have hrest := ih htail (validUTF8_encode rs htail)
    unfold toValidUTF8 at hrest ⊢
    rw [encode_cons, List.append_assoc, runes_of_encodes (encodes_encodeRune hr), repairRunes,
      List.flatMap_cons, hrest, List.append_assoc]

theorem toValidUTF8_of_valid (ha : validUTF8 a = true) : toValidUTF8 a = a := by
  have h := toValidUTF8_append_valid ha []
  rwa [show toValidUTF8 [] = [] from rfl, List.append_nil] at h

theorem validUTF8_append_ascii (hb : b.toNat < 0x80) (h : validUTF8 (a ++ b :: rest) = true) :
    validUTF8 a = true := by
  unfold validUTF8 at h ⊢
  rw [runes_append_ascii a hb, List.all_append, Bool.and_eq_true] at h
  exact h.1

/-- A valid line inside the text that begins with an ASCII character is left as it is. -/
theorem toValidUTF8_around {text : Bytes} {n : ℕ} {line : Bytes} (hb : b.toNat < 0x80)
    (hline : validUTF8 (b :: line) = true) (h : text.drop n = b :: line ++ rest) :
    toValidUTF8 text = toValidUTF8 (text.take n) ++ (b :: line ++ toValidUTF8 rest) := by
  rw [← toValidUTF8_append_valid hline, List.cons_append, ← toValidUTF8_append_ascii _ hb,
    ← List.cons_append, ← h, List.take_append_drop]

theorem validUTF8_take {text : Bytes} {n : ℕ} (hb : b.toNat < 0x80) (h : text.drop n = b :: rest)
    (hvalid : validUTF8 text = true) :
    validUTF8 (text.take n) = true := by
  rw [← List.take_append_drop n text, h] at hvalid
  exact validUTF8_append_ascii hb hvalid

end Repair

end MilterGuard.ValidTexts
