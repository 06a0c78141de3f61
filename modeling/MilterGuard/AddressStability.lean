import MilterGuard.Utf8
import MilterGuard.MailAddresses

/-!
Normalizing a mailbox twice. The canonical form drops the quotes of a quoted local
part, so it can be read again only when the local part is a dot-atom. The argument
is carried out on runes: lowering and trimming act on them one by one.
-/
namespace MilterGuard.AddressStability

open ByteStrings Utf8 Hostnames AddrSpec MailAddresses

/-- What is relied on of the Unicode case table. -/
structure CaseLaws (table : CaseTable) : Prop where
  lower_scalar : ∀ r, scalar r → scalar (table.lower r)
  lower_idem : ∀ r, table.lower (table.lower r) = table.lower r
  /-- A rune that has a lower case has a letter for it. -/
  lower_letter : ∀ r, table.lower r ≠ r →
    0x61 ≤ table.lower r ∧ table.lower r ≤ 0x7A ∨
      0x80 ≤ table.lower r ∧ spaceRune (table.lower r) = false

/-- Beyond `NetMail`: an address has an at sign and is read as UTF-8. -/
structure AddressLaws (p : Platform) : Prop where
  netMail : NetMail p
  parseAddress_at : ∀ value address, p.parseAddress value = some address → 0x40 ∈ value
  parseAddress_valid : ∀ value address, p.parseAddress value = some address →
    validUTF8 address.address
  caseLaws : CaseLaws p.table

/-- Which bytes may stand in an atom. Lowering a byte keeps whether it may. -/
private theorem atextOrDot_class : ∀ b : UInt8,
    (0x80 ≤ b.toNat ∨ 0x61 ≤ b.toNat ∧ b.toNat ≤ 0x7A ∨ labelByte false b = true →
      atextOrDot b = true) ∧ atextOrDot (asciiLowerByte b) = atextOrDot b :=
  forall_byte _ (by decide +kernel)

private theorem encodeRune_high_atext {r : ℕ} (hs : scalar r) (hr : 0x80 ≤ r) :
    (encodeRune r).all atextOrDot = true := by
  rw [List.all_eq_true]
  exact fun b hb => (atextOrDot_class b).1 (Or.inl (high_of_mem_encodeRune hs hr b hb))

private theorem encodeRune_letter_atext {r : ℕ} (hlo : 0x61 ≤ r) (hhi : r ≤ 0x7A) :
    (encodeRune r).all atextOrDot = true := by
  have hbyte : (UInt8.ofNat r).toNat = r :=
    UInt8.toNat_ofNat_of_lt' (Nat.lt_of_le_of_lt hhi (by decide))
  have hatext := (atextOrDot_class (UInt8.ofNat r)).1 (Or.inr (Or.inl ⟨by omega, by omega⟩))
  rw [encodeRune_low (by omega), List.all_cons, hatext]
  rfl

private theorem all_ne_nil (parts : List Bytes) :
    (parts.all (· ≠ [])) = (parts.map List.isEmpty).all (! ·) := by
  rw [List.all_map]
  congr 1
  funext part
  cases part <;> rfl

section Lowering

variable {table : CaseTable}

theorem toLower_encode (rs : List ℕ) (hs : ∀ r ∈ rs, scalar r) :
    toLower table (encode rs) = encode (rs.map table.lower) := by
  rw [toLower, mapRunes, runes_encode rs hs, encode, List.flatMap_map, List.flatMap_map]
  rfl

variable (law : CaseLaws table)

include law

variable (rs : List ℕ)

theorem lower_map_scalar (hs : ∀ r ∈ rs, scalar r) : ∀ r ∈ rs.map table.lower, scalar r := by
  intro r hr
  obtain ⟨s, hmem, rfl⟩ := List.mem_map.mp hr
  exact law.lower_scalar s (hs s hmem)

theorem toLower_lowered (hs : ∀ r ∈ rs, scalar r) :
    toLower table (encode (rs.map table.lower)) = encode (rs.map table.lower) := by
  rw [toLower_encode _ (lower_map_scalar law rs hs), List.map_map]
  congr 1
  exact List.map_congr_left fun r _ => law.lower_idem r

theorem space_of_lower {r : ℕ} (h : spaceRune (table.lower r) = true) : spaceRune r = true := by
  by_cases hsame : table.lower r = r
  · rwa [hsame] at h
  · rcases law.lower_letter r hsame with ⟨hlo, hhi⟩ | ⟨-, hspace⟩
    · have hnot : spaceRune (table.lower r) = false := by
        simp only [spaceRune, Bool.or_eq_false_iff, Bool.and_eq_false_iff, decide_eq_false_iff_not]
        omega
      rw [hnot] at h
      exact absurd h Bool.false_ne_true
    · rw [hspace] at h
      exact absurd h Bool.false_ne_true

theorem trimmed_lower {rs : List ℕ} (h : Trimmed rs) : Trimmed (rs.map table.lower) := by
  have hkeep : ∀ r, spaceRune r = false → spaceRune (table.lower r) = false := by
    intro r hr
    rw [Bool.eq_false_iff] at hr ⊢
    exact mt (space_of_lower law) hr
  constructor
  · intro r hr
    rw [List.head?_map, Option.map_eq_some_iff] at hr
    obtain ⟨s, hs, rfl⟩ := hr
    exact hkeep s (h.1 s hs)
  · intro r hr
    rw [List.getLast?_map, Option.map_eq_some_iff] at hr
    obtain ⟨s, hs, rfl⟩ := hr
    exact hkeep s (h.2 s hs)

/-- Only letters are lowered to something else. -/
theorem lower_eq_symbol {r s : ℕ} (hs : s < 0x80) (hletter : ¬ (0x61 ≤ s ∧ s ≤ 0x7A))
    (h : table.lower r = s) : r = s := by
  by_contra hne
  have hchanged : table.lower r ≠ r := fun hsame => hne (hsame ▸ h)
  have := law.lower_letter r hchanged
  omega

/-- Lowering adds no symbol. -/
theorem count_lower_le {s : ℕ} (hs : s < 0x80) (hletter : ¬ (0x61 ≤ s ∧ s ≤ 0x7A)) :
    (rs.map table.lower).count s ≤ rs.count s := by
  induction rs with
  | nil => exact le_rfl
  | cons r rs ih =>
    simp only [List.map_cons, List.count_cons, beq_iff_eq]
    by_cases h : table.lower r = s
    · rw [if_pos h, if_pos (lower_eq_symbol law hs hletter h)]
      omega
    · rw [if_neg h]
      omega

/-- Lowering a rune keeps whether it may stand in an atom. -/
theorem atext_lower {r : ℕ} (hs : scalar r) :
    (encodeRune (table.lower r)).all atextOrDot = (encodeRune r).all atextOrDot := by
  by_cases hlow : r < 0x80
  · have hbyte : UInt8.ofNat r < 0x80 := by
      rw [UInt8.lt_iff_toNat_lt, UInt8.toNat_ofNat_of_lt' (show r < UInt8.size by
        unfold UInt8.size; omega)]
      exact hlow
    rw [table.lower_ascii r hlow, encodeRune_toNat _ (asciiLowerByte_lt _ hbyte),
      encodeRune_low hlow]
    simp [fun b => (atextOrDot_class b).2]
  · rw [encodeRune_high_atext hs (by omega)]
    by_cases hsame : table.lower r = r
    · rw [hsame]
      exact encodeRune_high_atext hs (by omega)
    · rcases law.lower_letter r hsame with ⟨hlo, hhi⟩ | ⟨hhigh, -⟩
      · exact encodeRune_letter_atext hlo hhi
      · exact encodeRune_high_atext (law.lower_scalar r hs) hhigh

private theorem lower_dot_iff (r : ℕ) : table.lower r = 0x2E ↔ r = 0x2E := by
  constructor
  · exact lower_eq_symbol law (by omega) (by omega)
  · rintro rfl
    rw [table.lower_ascii 0x2E (by omega)]
    rfl

/-- Lowering keeps where the dots are, hence which parts between them are empty. -/
private theorem split_lower (hs : ∀ r ∈ rs, scalar r) :
    (split 0x2E (encode (rs.map table.lower))).map List.isEmpty =
      (split 0x2E (encode rs)).map List.isEmpty := by
  have hlower : encode (rs.map table.lower) = rs.flatMap fun r => encodeRune (table.lower r) := by
    rw [encode, List.flatMap_map]
  rw [hlower]
  refine split_flatMap_isEmpty 0x2E _ encodeRune rs fun r hr => ?_
  by_cases hdot : r = 0x2E
  · left
    rw [(lower_dot_iff law r).mpr hdot, hdot]
    exact ⟨rfl, rfl⟩
  · right
    refine ⟨encodeRune_ne_nil _, ?_, encodeRune_ne_nil _, ?_⟩
    · rw [mem_encodeRune_ascii (law.lower_scalar r (hs r hr)) 0x2E (by decide)]
      exact mt (lower_dot_iff law r).mp hdot
    · rw [mem_encodeRune_ascii (hs r hr) 0x2E (by decide)]
      exact hdot

theorem dotAtom_lower (hs : ∀ r ∈ rs, scalar r) :
    dotAtom (encode (rs.map table.lower)) = dotAtom (encode rs) := by
  have hall : (encode (rs.map table.lower)).all atextOrDot = (encode rs).all atextOrDot := by
    simp only [encode, List.all_flatMap, List.all_map]
    rw [Bool.eq_iff_iff, List.all_eq_true, List.all_eq_true]
    refine forall₂_congr fun r hr => ?_
    rw [Function.comp_apply, atext_lower law (hs r hr)]
  simp only [dotAtom]
  rw [validUTF8_encode _ (lower_map_scalar law rs hs), validUTF8_encode rs hs, hall, all_ne_nil,
    all_ne_nil, split_lower law rs hs]

end Lowering

/-- The local part of the mailbox that a text denotes, as the parser returns it. -/
def parsedLocal (p : Platform) (value : Bytes) : Bytes :=
  (((mailbox p (trimSpace value)).bind (cut 0x40)).map Prod.fst).getD []

variable (p : Platform) (host : Bytes)

/-- A host name is a domain of an address, and has nothing to trim. -/
private theorem host_domain (h : validName false host = true) :
    addrDomain p host = true ∧ trimRight host = host := by
  have hbyte := validName_byte h
  have hascii : ∀ b ∈ host, b < 0x80 := by
    intro b hb
    rcases hbyte b hb with rfl | hlabel
    · decide
    · exact (labelByte_plain false b hlabel).1
  constructor
  · simp only [addrDomain, dotAtom, Bool.or_eq_true, Bool.and_eq_true, List.all_eq_true]
    refine Or.inl ⟨⟨?_, ?_⟩, ?_⟩
    · simp [validUTF8, runes_ascii host hascii]
    · intro b hb
      rcases hbyte b hb with rfl | hlabel
      · decide
      · exact (atextOrDot_class b).1 (Or.inr (Or.inr hlabel))
    · intro label hlabel
      simp only [validName, Bool.and_eq_true, List.all_eq_true] at h
      have hvalid := h.2 label hlabel
      simp only [validLabel, Bool.and_eq_true] at hvalid
      exact hvalid.1.1.1.1
  · rcases List.eq_nil_or_concat' host with rfl | ⟨start, b, rfl⟩
    · rfl
    · refine trimRight_append_barrier b ⟨hascii b (by simp), ?_⟩ start
      rcases hbyte b (by simp) with rfl | hlabel
      · decide
      · exact (labelByte_plain false b hlabel).2.1

/-- A mailbox is what the parser returned for some text. -/
private theorem mailbox_parsed (value address : Bytes) (h : mailbox p value = some address) :
    ∃ text found, p.parseAddress text = some found ∧ found.address = address := by
  have htolerant : ∀ text found, parseTolerant p text = some found →
      ∃ text', p.parseAddress text' = some found := by
    intro text found hfound
    unfold parseTolerant at hfound
    split at hfound
    · rename_i hparse
      exact ⟨text, hfound ▸ hparse⟩
    · split at hfound
      · exact ⟨_, hfound⟩
      · simp at hfound
  have hangle : ∀ text, angleMailbox p text = some address →
      ∃ text' found, p.parseAddress text' = some found ∧ found.address = address := by
    intro text hfound
    unfold angleMailbox at hfound
    split at hfound
    · simp at hfound
    · split at hfound
      · simp at hfound
      · rename_i found hparse
        split at hfound
        · simp at hfound
        · obtain ⟨text', htext⟩ := htolerant _ _ hparse
          exact ⟨text', found, htext, Option.some.inj hfound⟩
  unfold mailbox at h
  dsimp only at h
  split at h
  · rename_i found hparse
    split at h
    · obtain ⟨text', htext⟩ := htolerant _ _ hparse
      exact ⟨text', found, htext, Option.some.inj h⟩
    · exact hangle _ h
  · exact hangle _ h

private theorem parseTolerant_at (laws : AddressLaws p) (text : Bytes) (h : 0x40 ∉ text) :
    parseTolerant p text = none := by
  have hnone : ∀ text : Bytes, 0x40 ∉ text → p.parseAddress text = none := by
    intro text hat
    by_contra hsome
    obtain ⟨found, hfound⟩ := Option.ne_none_iff_exists'.mp hsome
    exact hat (laws.parseAddress_at text found hfound)
  have hshorter : 0x40 ∉ trimSuffix text [0x2E] := by
    unfold trimSuffix
    split
    · exact fun hmem => h (List.mem_of_mem_take hmem)
    · exact h
  simp only [parseTolerant, hnone text h, hnone _ hshorter, ite_self]

/-- Angle brackets within a local part enclose no address. -/
private theorem angleMailbox_local (laws : AddressLaws p) (l host : Bytes) (hl : 0x40 ∉ l)
    (hhost : validName false host = true) :
    angleMailbox p (l ++ 0x40 :: host) = none := by
  unfold angleMailbox
  rcases henclosed : angleEnclosed (l ++ 0x40 :: host) with _ | inner
  · rfl
  · unfold angleEnclosed at henclosed
    split at henclosed
    · simp at henclosed
    · have hclose : 0x3E ∈ l := by
        have hmem : (0x3E : UInt8) ∈ l ++ 0x40 :: host := List.count_pos_iff.mp (by omega)
        rcases List.mem_append.mp hmem with hl | htail
        · exact hl
        · rcases List.mem_cons.mp htail with hat | hhostMem
          · exact absurd hat (by decide)
          · rcases validName_byte hhost 0x3E hhostMem with hdot | hlabel
            · exact absurd hdot (by decide)
            · exact absurd hlabel (by decide)
      have hstop : (l ++ 0x40 :: host).idxOf 0x3E ≤ l.length := by
        rw [List.idxOf_append_of_mem hclose]
        exact List.idxOf_le_length
      dsimp only at henclosed
      split at henclosed
      · simp at henclosed
      · obtain rfl := Option.some.inj henclosed
        have hinner : 0x40 ∉ ((l ++ 0x40 :: host).drop ((l ++ 0x40 :: host).idxOf 0x3C + 1)).take
            ((l ++ 0x40 :: host).idxOf 0x3E - ((l ++ 0x40 :: host).idxOf 0x3C + 1)) := by
          rw [← List.drop_take, List.take_append_of_le_length hstop]
          exact fun hmem => hl (List.mem_of_mem_take (List.mem_of_mem_drop hmem))
        simp [parseTolerant_at p laws _ fun hmem => hinner ((trimSpace_sublist _).subset hmem)]

/-- Reading a canonical address again depends on its local part alone. -/
private theorem normalize_again (laws : AddressLaws p) (l host : Bytes) (htrim : trimLeft l = l)
    (hat : 0x40 ∉ l) (hhost : validName false host = true)
    (hlength : l.length + host.length + 1 ≤ 254) :
    normalizeAddress p (l ++ 0x40 :: host) =
      ((localPart l).map fun c => canonical p (c ++ 0x40 :: host)).getD [] := by
  obtain ⟨hdomain, hright⟩ := host_domain p host hhost
  have htolerant : tolerantDomain p host = host := by rw [tolerantDomain, if_pos hdomain]
  have hshort : ¬ (l ++ 0x40 :: host).length > 320 := by
    simp only [List.length_append, List.length_cons]
    omega
  rw [normalize_listed p laws.netMail l host hdomain]
  simp only [reread, htrim, hright, htolerant, hdomain, if_neg hshort, if_true]
  cases localPart l with
  | some c => rfl
  | none => rw [angleMailbox_local p laws l host hat hhost]; rfl

/-- A quoted string has one quote more than its content. -/
private theorem count_quote_unquote (text content : Bytes) (h : unquote text = some content) :
    content.count 0x22 + 1 ≤ text.count 0x22 := by
  fun_induction unquote text generalizing content with
  | case1 | case3 | case5 | case7 => simp at h
  | case2 =>
    obtain rfl := Option.some.inj h
    simp
  | case4 b rest hb ih | case6 b rest _ _ hb ih =>
    obtain ⟨tail, htail, rfl⟩ := Option.map_eq_some_iff.mp h
    have := ih tail htail
    simp only [List.count_cons]
    omega

/-- The canonical local part of valid text, rune by rune. -/
private theorem lowered_runes (c : Bytes) (hc : validUTF8 c = true) :
    ∃ ts, (∀ r ∈ ts, scalar r) ∧ Trimmed ts ∧ trimSpace c = encode ts ∧
      toLower p.table (trimSpace c) = encode (ts.map p.table.lower) := by
  obtain ⟨cs, hcs, rfl⟩ := exists_encode hc
  have hts : ∀ r ∈ trim cs, scalar r := fun r hr => hcs r (trim_subset cs hr)
  have htrim : trimSpace (encode cs) = encode (trim cs) := trimSpace_encode cs hcs
  exact ⟨trim cs, hts, trimmed_trim cs, htrim, by rw [htrim, toLower_encode _ hts]⟩

/-- The canonical local part has no symbol more often than the parsed one. -/
private theorem count_lowered_le (laws : AddressLaws p) (c : Bytes) (hc : validUTF8 c = true)
    (b : UInt8) (hb : b.toNat < 0x80) (hletter : ¬ (0x61 ≤ b.toNat ∧ b.toNat ≤ 0x7A)) :
    (toLower p.table (trimSpace c)).count b ≤ c.count b := by
  obtain ⟨ts, hts, -, htrim, hlower⟩ := lowered_runes p c hc
  calc (toLower p.table (trimSpace c)).count b
      = (ts.map p.table.lower).count b.toNat := by
        rw [hlower, count_encode _ (lower_map_scalar laws.caseLaws ts hts) b hb]
    _ ≤ ts.count b.toNat := count_lower_le laws.caseLaws ts hb hletter
    _ = (trimSpace c).count b := by rw [htrim, count_encode ts hts b hb]
    _ ≤ c.count b := (trimSpace_sublist c).count_le b

private theorem validUTF8_before_at {before after : Bytes} (hat : 0x40 ∉ before)
    (h : validUTF8 (before ++ 0x40 :: after) = true) : validUTF8 before = true := by
  obtain ⟨rs, hrs, heq⟩ := exists_encode h
  obtain ⟨ps, ts, rfl, rfl, -⟩ := encode_eq_append hrs (by decide) hat heq.symm
  exact validUTF8_encode ps fun r hr => hrs r (List.mem_append_left _ hr)

/-- A quoted local part does not read back to itself: its quotes are lost. -/
private theorem dotAtom_of_reads_back (laws : AddressLaws p) (l host u : Bytes)
    (htrim : trimLeft l = l) (hhost : validName false host = true) (hu : localPart l = some u)
    (hback : canonical p (u ++ 0x40 :: host) = l ++ 0x40 :: host) : dotAtom l = true := by
  by_contra hatom
  obtain ⟨c, e, haddress, ⟨hc, he, -⟩, -, heq⟩ :=
    canonical_parts p (u ++ 0x40 :: host) (by simp [hback])
  have hat : 0x40 ∉ host := by
    intro hmem
    rcases validName_byte hhost 0x40 hmem with hdot | hlabel
    · exact absurd hdot (by decide)
    · exact absurd hlabel (by decide)
  obtain ⟨rfl, rfl⟩ := append_sep_inj 0x40 _ _ _ _ hat he haddress
  have hlower : toLower p.table (trimSpace u) = l := by
    rw [heq] at hback
    exact (append_sep_inj 0x40 _ _ _ _ (at_not_mem_normalizeDNSName p.table host false) hat hback).1
  have hvalid : validUTF8 u = true := by
    obtain ⟨hdomain, -⟩ := host_domain p host hhost
    have hatext : host.all atextOrDot = true := by
      rw [List.all_eq_true]
      intro b hb
      rcases validName_byte hhost b hb with rfl | hlabel
      · decide
      · exact (atextOrDot_class b).1 (Or.inr (Or.inr hlabel))
    have hparse := laws.netMail.parseAddress_addrSpec l host htrim (Or.inl hatext)
    rw [if_pos hdomain, hu] at hparse
    exact validUTF8_before_at hc (laws.parseAddress_valid _ _ hparse)
  have hcount := count_lowered_le p laws u hvalid 0x22 (by decide) (by decide)
  rw [hlower] at hcount
  unfold localPart at hu
  rw [if_neg hatom] at hu
  split at hu
  · rename_i rest
    split at hu
    · have hquote := count_quote_unquote rest u (Option.filter_eq_some_iff.mp hu).1
      rw [List.count_cons_self] at hcount
      omega
    · simp at hu
  · simp at hu

/-- A mailbox normalizes to a fixed point exactly when its local part is a
dot-atom once white space around it is dropped. -/
theorem normalize_stable_iff (laws : AddressLaws p) (value : Bytes)
    (hne : normalizeAddress p value ≠ []) :
    normalizeAddress p (normalizeAddress p value) = normalizeAddress p value ↔
      dotAtom (trimSpace (parsedLocal p value)) = true := by
  obtain ⟨address, hmailbox, hnormal⟩ : ∃ address, mailbox p (trimSpace value) = some address ∧
      normalizeAddress p value = canonical p address := by
    unfold normalizeAddress at hne ⊢
    dsimp only at hne ⊢
    split at hne
    · exact absurd rfl hne
    · rename_i hlimits
      rw [if_neg hlimits]
      rcases hbox : mailbox p (trimSpace value) with _ | address
      · simp [hbox] at hne
      · exact ⟨address, rfl, rfl⟩
  rw [hnormal] at hne ⊢
  obtain ⟨c, e, rfl, ⟨hc, he, hlocal, -, hlength⟩, hhost, heq⟩ := canonical_parts p address hne
  have hparsed : parsedLocal p value = c := by
    rw [parsedLocal, hmailbox, Option.bind_some, cut_append 0x40 c e hc]
    rfl
  have hvalid : validUTF8 c = true := by
    obtain ⟨text, found, hfound, haddress⟩ := mailbox_parsed p _ _ hmailbox
    have hwhole := laws.parseAddress_valid text found hfound
    rw [haddress] at hwhole
    exact validUTF8_before_at hc hwhole
  have hname : validName false (dnsHostname p.table e) = true :=
    (normalizeDNSName_eq_nil_or_validName p.table e false).resolve_left hhost
  have hfixed : dnsHostname p.table (dnsHostname p.table e) = dnsHostname p.table e :=
    normalizeDNSName_idem p.table e false
  have hatHost : 0x40 ∉ dnsHostname p.table e := at_not_mem_normalizeDNSName p.table e false
  have hat : 0x40 ∉ toLower p.table (trimSpace c) := by
    have hcount := count_lowered_le p laws c hvalid 0x40 (by decide) (by decide)
    rw [List.count_eq_zero.mpr hc] at hcount
    exact List.count_eq_zero.mp (by omega)
  obtain ⟨ts, hts, htrimmed, htrim, hlower⟩ := lowered_runes p c hvalid
  have hls := lower_map_scalar laws.caseLaws ts hts
  have hlsTrimmed := trimmed_lower laws.caseLaws htrimmed
  have hleft : trimLeft (toLower p.table (trimSpace c)) = toLower p.table (trimSpace c) := by
    rw [hlower, trimLeft_of_trimmed hls hlsTrimmed]
  have hsettled : toLower p.table (trimSpace (toLower p.table (trimSpace c))) =
      toLower p.table (trimSpace c) := by
    rw [hlower, trimSpace_of_trimmed hls hlsTrimmed, toLower_lowered laws.caseLaws ts hts]
  have hatom : dotAtom (trimSpace c) = dotAtom (toLower p.table (trimSpace c)) := by
    rw [hlower, htrim, dotAtom_lower laws.caseLaws ts hts]
  rw [hparsed, hatom, heq]
  generalize toLower p.table (trimSpace c) = l at *
  rw [normalize_again p laws l _ hleft hat hname hlength]
  constructor
  · intro hagain
    rcases hread : localPart l with _ | u
    · simp [hread] at hagain
    · rw [hread] at hagain
      exact dotAtom_of_reads_back p laws l _ u hleft hname hread hagain
  · intro hl
    have hread : localPart l = some l := by
      unfold localPart
      rw [if_pos hl]
    rw [hread]
    have hwith : CanonicalWith p l (dnsHostname p.table e) (dnsHostname p.table e) :=
      ⟨hat, hatHost, by rwa [hsettled], hfixed, by rwa [hsettled]⟩
    rw [Option.map_some, Option.getD_some, canonical_of_parts p l _ _ hwith hhost, hsettled]

private theorem unquote_high (start rest : Bytes) (h : ∀ b ∈ start, 0x80 ≤ b.toNat) :
    unquote (start ++ rest) = (unquote rest).map (start ++ ·) := by
  have hplain : ∀ b : UInt8, 0x80 ≤ b.toNat → b ≠ 0x22 ∧ b ≠ 0x5C ∧ vchar b = true :=
    forall_byte _ (by decide +kernel)
  induction start with
  | nil => simp
  | cons b start ih =>
    obtain ⟨hquote, hescape, hvchar⟩ := hplain b (h b List.mem_cons_self)
    have hrest := ih fun a ha => h a (List.mem_cons_of_mem b ha)
    rw [List.cons_append, unquote.eq_4 _ _ hquote (fun _ _ heq _ => hescape heq), hrest, hvchar]
    simp [hescape, Function.comp_def]

/-- An escape passes on the rune after it, whatever its width. -/
private theorem unquote_escape {s : ℕ} (hs : scalar s) (rest content : Bytes)
    (h : unquote (0x5C :: (encodeRune s ++ rest)) = some content) :
    ∃ tail, unquote rest = some tail ∧ content = encodeRune s ++ tail := by
  rcases hbytes : encodeRune s with _ | ⟨a, more⟩
  · exact absurd hbytes (encodeRune_ne_nil s)
  · have hmore : ∀ b ∈ more, 0x80 ≤ b.toNat := by
      intro b hb
      by_cases hlow : s < 0x80
      · rw [encodeRune_low hlow, List.cons.injEq] at hbytes
        rw [← hbytes.2] at hb
        simp at hb
      · exact high_of_mem_encodeRune hs (by omega) b (by simp [hbytes, hb])
    rw [hbytes, List.cons_append, unquote, unquote_high more rest hmore] at h
    split at h
    · obtain ⟨inner, hinner, rfl⟩ := Option.map_eq_some_iff.mp h
      obtain ⟨tail, htail, rfl⟩ := Option.map_eq_some_iff.mp hinner
      exact ⟨tail, htail, rfl⟩
    · simp at h

/-- The content of a quoted string in valid text is made of some of its runes. -/
private theorem unquote_runes : ∀ rs : List ℕ, (∀ r ∈ rs, scalar r) → ∀ content,
    unquote (encode rs) = some content → ∃ us, us ⊆ rs ∧ content = encode us
  | [], _, content, h => by simp [encode, unquote] at h
  | r :: rs, hs, content, h => by
    rw [encode_cons] at h
    have hrest := unquote_runes rs fun s hmem => hs s (List.mem_cons_of_mem r hmem)
    by_cases hhigh : 0x80 ≤ r
    · rw [unquote_high _ _ (high_of_mem_encodeRune (hs r List.mem_cons_self) hhigh)] at h
      obtain ⟨tail, htail, rfl⟩ := Option.map_eq_some_iff.mp h
      obtain ⟨us, hus, rfl⟩ := hrest tail htail
      exact ⟨r :: us, List.cons_subset_cons r hus, rfl⟩
    · rw [encodeRune_low (by omega), List.singleton_append] at h
      by_cases hquote : UInt8.ofNat r = 0x22
      · rw [hquote, unquote] at h
        split at h
        · exact ⟨[], List.nil_subset _, (Option.some.inj h).symm⟩
        · simp at h
      · by_cases hescape : UInt8.ofNat r = 0x5C
        · cases rs with
          | nil => simp [hescape, encode, unquote] at h
          | cons s rs =>
            rw [hescape, encode_cons] at h
            obtain ⟨tail, htail, rfl⟩ := unquote_escape (hs s (by simp)) _ _ h
            obtain ⟨us, hus, rfl⟩ :=
              unquote_runes rs (fun u hmem => hs u (by simp [hmem])) tail htail
            refine ⟨s :: us, ?_, rfl⟩
            exact List.Subset.trans (List.cons_subset_cons s hus) (List.subset_cons_self r _)
        · rw [unquote.eq_4 _ _ hquote fun _ _ heq _ => hescape heq] at h
          split at h
          · obtain ⟨tail, htail, rfl⟩ := Option.map_eq_some_iff.mp h
            obtain ⟨us, hus, rfl⟩ := hrest tail htail
            refine ⟨r :: us, List.cons_subset_cons r hus, ?_⟩
            rw [encode_cons, encodeRune_low (by omega)]
            rfl
          · simp at h

private theorem localPart_valid (text u : Bytes) (h : localPart text = some u) :
    validUTF8 u = true := by
  unfold localPart at h
  split at h
  · rename_i hatom
    obtain rfl := Option.some.inj h
    simp only [dotAtom, Bool.and_eq_true] at hatom
    exact hatom.1.1
  · split at h
    · rename_i rest
      split at h
      · rename_i hvalid
        obtain ⟨rs, hrs, rfl⟩ := exists_encode hvalid
        obtain ⟨us, hus, rfl⟩ := unquote_runes rs hrs u (Option.filter_eq_some_iff.mp h).1
        exact validUTF8_encode us fun r hr => hrs r (hus hr)
      · simp at h
    · simp at h

private theorem validUTF8_at {before after : Bytes} (hbefore : validUTF8 before = true)
    (hafter : validUTF8 after = true) : validUTF8 (before ++ 0x40 :: after) = true := by
  obtain ⟨ps, hps, rfl⟩ := exists_encode hbefore
  obtain ⟨ts, hts, rfl⟩ := exists_encode hafter
  have hwhole : encode ps ++ 0x40 :: encode ts = encode (ps ++ 0x40 :: ts) := by
    rw [encode_append, encode_cons]
    rfl
  rw [hwhole]
  refine validUTF8_encode _ fun r hr => ?_
  rcases List.mem_append.mp hr with hmem | hmem
  · exact hps r hmem
  · rcases List.mem_cons.mp hmem with rfl | hmem
    · exact Or.inl (by decide)
    · exact hts r hmem

private theorem asciiLowerByte_facts : ∀ b : UInt8, b.toNat < 0x80 →
    (asciiLowerByte b).toNat < 0x80 ∧ asciiLowerByte (asciiLowerByte b) = asciiLowerByte b ∧
      (asciiLowerByte b ≠ b → 0x61 ≤ (asciiLowerByte b).toNat ∧ (asciiLowerByte b).toNat ≤ 0x7A) :=
  forall_byte _ (by decide +kernel)

private theorem asciiTable_laws : CaseLaws asciiTable := by
  have hbyte : ∀ r, r < 0x80 → (UInt8.ofNat r).toNat = r := fun r hr =>
    UInt8.toNat_ofNat_of_lt' (Nat.lt_trans hr (by decide))
  have hlow : ∀ r, r < 0x80 → asciiTable.lower r = (asciiLowerByte (UInt8.ofNat r)).toNat :=
    fun r hr => if_pos hr
  have hhigh : ∀ r, ¬ r < 0x80 → asciiTable.lower r = r := fun r hr => if_neg hr
  have hfacts (r : ℕ) (h : r < 0x80) :=
    asciiLowerByte_facts (UInt8.ofNat r) (by rw [hbyte r h]; exact h)
  constructor
  · intro r hr
    by_cases h : r < 0x80
    · rw [hlow r h]
      exact Or.inl (Nat.lt_trans (hfacts r h).1 (by decide))
    · rwa [hhigh r h]
  · intro r
    by_cases h : r < 0x80
    · rw [hlow r h, hlow _ (hfacts r h).1, UInt8.ofNat_toNat, (hfacts r h).2.1]
    · rw [hhigh r h, hhigh r h]
  · intro r hr
    by_cases h : r < 0x80
    · rw [hlow r h] at hr ⊢
      refine Or.inl ((hfacts r h).2.2 fun hsame => hr ?_)
      rw [hsame, hbyte r h]
    · exact absurd (hhigh r h) hr

theorem bareAddresses_laws : AddressLaws bareAddresses where
  netMail := bareAddresses_netMail
  parseAddress_at value address h := by
    simp only [bareAddresses, readAddrSpec] at h
    split at h
    · simp at h
    · rename_i d l hcut
      obtain ⟨hreverse, -⟩ := eq_append_of_cut 0x40 _ _ _ hcut
      have hmem : (0x40 : UInt8) ∈ value.reverse := by rw [hreverse]; simp
      exact List.mem_reverse.mp hmem
  parseAddress_valid value address h := by
    simp only [bareAddresses, readAddrSpec] at h
    split at h
    · simp at h
    · split at h
      · rename_i hatom
        obtain ⟨u, hu, rfl⟩ := Option.map_eq_some_iff.mp h
        simp only [dotAtom, Bool.and_eq_true] at hatom
        exact validUTF8_at (localPart_valid _ u hu) hatom.1.1
      · simp at h
  caseLaws := asciiTable_laws

theorem normalize_stable_plain :
    normalizeAddress bareAddresses (ascii " Alice@Example.com. ") = ascii "alice@example.com" ∧
      (normalizeAddress bareAddresses
          (normalizeAddress bareAddresses (ascii " Alice@Example.com. ")) =
        normalizeAddress bareAddresses (ascii " Alice@Example.com. ") ↔
        dotAtom (trimSpace (parsedLocal bareAddresses (ascii " Alice@Example.com. "))) = true) :=
  ⟨by decide +kernel, normalize_stable_iff bareAddresses bareAddresses_laws _ (by decide +kernel)⟩

/-- The quotes are lost, and without them the space ends the local part. -/
theorem quoted_space_not_stable :
    normalizeAddress bareAddresses (ascii "\"a b\"@example.com") = ascii "a b@example.com" ∧
      normalizeAddress bareAddresses (ascii "a b@example.com") = [] := by
  decide +kernel

end MilterGuard.AddressStability
