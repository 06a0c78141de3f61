import MilterGuard.Hostnames
import MilterGuard.AddrSpec

/-!
Mailbox parsing and the canonical mailbox form shared by policies, commands and
stores. The address parser itself belongs to the Go library and is a parameter;
`NetMail` says what is relied on. The canonical form of an address is given in
terms of that grammar, since the parser is run again on its own output.
-/
namespace MilterGuard.MailAddresses

open ByteStrings Hostnames AddrSpec

structure MailAddress where
  name : Bytes
  address : Bytes
  deriving DecidableEq

/-- net/mail with the address literals it takes for a domain, and the case
table of the strings package. -/
structure Platform where
  parseAddress : Bytes → Option MailAddress
  parseAddressList : Bytes → Option (List MailAddress)
  domainLiteral : Bytes → Bool
  table : CaseTable

variable (p : Platform)

/-- A final dot that the parser rejects is dropped once. -/
def parseTolerant (candidate : Bytes) : Option MailAddress :=
  match p.parseAddress candidate with
  | some address => some address
  | none =>
    if hasSuffix candidate [0x2E] then p.parseAddress (trimSuffix candidate [0x2E]) else none

variable (value : Bytes)

/-- The text between the only `<` and the only `>`. -/
def angleEnclosed : Option Bytes :=
  if value.count 0x3C ≠ 1 ∨ value.count 0x3E ≠ 1 then none
  else
    let start := value.idxOf 0x3C
    let stop := value.idxOf 0x3E
    if stop ≤ start + 1 then none else some ((value.drop (start + 1)).take (stop - (start + 1)))

def angleMailbox : Option Bytes :=
  match angleEnclosed value with
  | none => none
  | some inner =>
    match parseTolerant p (trimSpace inner) with
    | none => none
    | some address =>
      if address.address = [] ∨ address.name ≠ [] then none else some address.address

def mailbox : Option Bytes :=
  let value := trimSpace value
  match parseTolerant p value with
  | some address => if address.address ≠ [] then some address.address else angleMailbox p value
  | none => angleMailbox p value

/-- Both parts of a parsed address in canonical form, or the empty string. -/
def canonical (address : Bytes) : Bytes :=
  if address.count 0x40 ≠ 1 then []
  else match cut 0x40 address with
    | none => []
    | some (before, after) =>
      let localPart := toLower p.table (trimSpace before)
      let domain := dnsHostname p.table after
      if localPart = [] ∨ domain = [] ∨ localPart.length + domain.length + 1 > 254 then []
      else localPart ++ 0x40 :: domain

/-- The canonical mailbox, or the empty string. -/
def normalizeAddress : Bytes :=
  let value := trimSpace value
  if value = [] ∨ value.length > 320 then []
  else match mailbox p value with
    | none => []
    | some address => canonical p address

/-- The canonical domain of a mailbox, without the length limits. -/
def domain : Bytes :=
  match mailbox p value with
  | none => []
  | some address =>
    if address.count 0x40 ≠ 1 then []
    else match cut 0x40 address with
      | none => []
      | some (_, after) => dnsHostname p.table after

/-- A byte of an IP address in text form. -/
def literalByte (b : UInt8) : Bool := (ascii "0123456789abcdefABCDEF:.").contains b

def addrDomain (d : Bytes) : Bool := dotAtom d || p.domainLiteral d

variable (address : Bytes)

theorem canonical_eq_nil_or_parts :
    canonical p address = [] ∨ ∃ before host, canonical p address = before ++ 0x40 :: host := by
  unfold canonical
  by_cases hcount : address.count 0x40 ≠ 1
  · exact Or.inl (if_pos hcount)
  · rw [if_neg hcount]
    rcases cut 0x40 address with _ | ⟨before, after⟩
    · exact Or.inl rfl
    · dsimp only
      split_ifs
      · exact Or.inl rfl
      · exact Or.inr ⟨_, _, rfl⟩

theorem normalizeAddress_parts (value : Bytes) (h : normalizeAddress p value ≠ []) :
    ∃ before host, normalizeAddress p value = before ++ 0x40 :: host := by
  have hcases : normalizeAddress p value = [] ∨
      ∃ address, normalizeAddress p value = canonical p address := by
    unfold normalizeAddress
    dsimp only
    split_ifs
    · exact Or.inl rfl
    · rcases mailbox p (trimSpace value) with _ | address
      · exact Or.inl rfl
      · exact Or.inr ⟨address, rfl⟩
  obtain ⟨address, haddress⟩ := hcases.resolve_left h
  rw [haddress] at h ⊢
  exact (canonical_eq_nil_or_parts p address).resolve_left h

/-- A text with an at sign is trimmed once and for all. -/
theorem mailbox_trimSpace (u d : Bytes) :
    mailbox p (trimSpace (u ++ 0x40 :: d)) = mailbox p (u ++ 0x40 :: d) := by
  have hbarrier : barrier 0x40 := by constructor <;> decide
  simp only [mailbox, trimSpace_around_barrier 0x40 hbarrier, trimLeft_idem, trimRight_idem]

/-- A canonical address has a domain. -/
theorem domain_ne_nil {address : Bytes} (h : normalizeAddress p address = address)
    (hne : address ≠ []) : domain p address ≠ [] := by
  obtain ⟨u, d, hparts⟩ := normalizeAddress_parts p address (h.trans_ne hne)
  have hmailbox : mailbox p (trimSpace address) = mailbox p address := by
    rw [h] at hparts
    rw [hparts, mailbox_trimSpace]
  unfold normalizeAddress at h
  dsimp only at h
  rw [hmailbox] at h
  unfold domain
  split_ifs at h
  · exact absurd h.symm hne
  · cases hfound : mailbox p address with
    | none => exact absurd (by simpa [hfound] using h) hne.symm
    | some found =>
      simp only [hfound, canonical] at h
      dsimp only
      split_ifs at h ⊢ with hcount
      · exact absurd h.symm hne
      · cases hcut : cut 0x40 found with
        | none => exact absurd (by simpa [hcut] using h) hne.symm
        | some parts =>
          simp only [hcut] at h
          split_ifs at h with hempty
          · exact absurd h.symm hne
          · exact fun hnil => hempty (Or.inr (Or.inl hnil))

/-- What is relied on of net/mail. A single address that ends in an at sign and
the characters of a domain is an addr-spec or nothing; every listed mailbox is
an unquoted local part, an at sign and a domain; an address literal is an IP
address in brackets. -/
structure NetMail (p : Platform) : Prop where
  parseAddress_addrSpec : ∀ l d, trimLeft l = l → (d.all atextOrDot ∨ p.domainLiteral d) →
    p.parseAddress (l ++ 0x40 :: d) =
      if addrDomain p d then (localPart l).map fun u => ⟨[], u ++ 0x40 :: d⟩ else none
  parseAddressList_mailbox : ∀ value addresses, p.parseAddressList value = some addresses →
    ∀ a ∈ addresses, ∃ u d, a.address = u ++ 0x40 :: d ∧ addrDomain p d
  domainLiteral_bytes : ∀ d, p.domainLiteral d →
    ∃ body : Bytes, d = 0x5B :: body ++ [0x5D] ∧ body.all literalByte

/-- A domain as the tolerant parser reads it: a final dot goes if the domain is
not one with it. -/
def tolerantDomain (d : Bytes) : Bytes :=
  if addrDomain p d then d else trimSuffix d [0x2E]

private theorem at_barrier : barrier 0x40 := by
  constructor <;> decide

private theorem getLast?_append_at (before after : Bytes) :
    (before ++ 0x40 :: after).getLast? = some 0x2E ↔ after.getLast? = some 0x2E := by
  cases after with
  | nil => simp
  | cons a rest => simp [List.getLast?_append]

private theorem trimSuffix_append_at (before after : Bytes) (h : hasSuffix after [0x2E]) :
    trimSuffix (before ++ 0x40 :: after) [0x2E] = before ++ 0x40 :: trimSuffix after [0x2E] := by
  obtain ⟨start, rfl⟩ := List.isSuffixOf_iff_suffix.mp h
  have hassoc : before ++ 0x40 :: (start ++ [0x2E]) = (before ++ 0x40 :: start) ++ [0x2E] := by
    simp
  rw [hassoc, trimSuffix_append, trimSuffix_append]

private theorem all_of_prefixed (f : UInt8 → Bool) (part whole : Bytes) (h : part <+: whole)
    (hall : whole.all f) : part.all f := by
  rw [List.all_eq_true] at hall ⊢
  exact fun b hb => hall b (h.subset hb)

private theorem trimSuffix_dot_all (f : UInt8 → Bool) (d : Bytes) (hall : d.all f) :
    (trimSuffix d [0x2E]).all f := by
  unfold trimSuffix
  split
  · exact all_of_prefixed f _ d (List.take_prefix _ d) hall
  · exact hall

private theorem addrDomain_no_final_dot (law : NetMail p) (d : Bytes) (h : addrDomain p d) :
    ¬ hasSuffix d [0x2E] := by
  intro hdot
  simp only [addrDomain, Bool.or_eq_true] at h
  rcases h with hatom | hliteral
  · obtain ⟨start, rfl⟩ := List.isSuffixOf_iff_suffix.mp hdot
    simp only [dotAtom, Bool.and_eq_true, List.all_eq_true] at hatom
    have hempty := hatom.2 [] (by rw [split_append_sep]; simp [split])
    simp at hempty
  · obtain ⟨body, rfl, -⟩ := law.domainLiteral_bytes d hliteral
    rw [hasSuffix_singleton, List.getLast?_concat] at hdot
    simp at hdot

private theorem addrDomain_bytes (d : Bytes) (h : addrDomain p d) :
    d.all atextOrDot ∨ p.domainLiteral d := by
  simp only [addrDomain, Bool.or_eq_true] at h
  rcases h with hatom | hliteral
  · simp only [dotAtom, Bool.and_eq_true] at hatom
    exact Or.inl hatom.1.2
  · exact Or.inr hliteral

/-- Trimming the end of a domain leaves domain characters. -/
private theorem trimRight_bytes (law : NetMail p) (d : Bytes) (h : addrDomain p d) :
    (trimRight d).all atextOrDot ∨ p.domainLiteral (trimRight d) := by
  rcases addrDomain_bytes p d h with hatext | hliteral
  · exact Or.inl (all_of_prefixed _ _ d (trimRight_prefix_of d) hatext)
  · obtain ⟨body, hd, -⟩ := law.domainLiteral_bytes d hliteral
    have hkeep : trimRight d = d := by
      rw [hd]
      exact trimRight_append_barrier 0x5D (by constructor <;> decide) _
    rw [hkeep]
    exact Or.inr hliteral

/-- The tolerant parser on a trimmed local part and domain characters. -/
private theorem parseTolerant_addrSpec (law : NetMail p) (l d : Bytes) (hl : trimLeft l = l)
    (hd : d.all atextOrDot ∨ p.domainLiteral d) :
    parseTolerant p (l ++ 0x40 :: d) =
      if addrDomain p (tolerantDomain p d) then
        (localPart l).map fun u => ⟨[], u ++ 0x40 :: tolerantDomain p d⟩
      else none := by
  have hsuffix : hasSuffix (l ++ 0x40 :: d) [0x2E] ↔ hasSuffix d [0x2E] := by
    rw [hasSuffix_singleton, hasSuffix_singleton, getLast?_append_at]
  have hparse := law.parseAddress_addrSpec l d hl hd
  unfold parseTolerant tolerantDomain
  by_cases haddr : addrDomain p d
  · have hnodot := mt hsuffix.mp (addrDomain_no_final_dot p law d haddr)
    rw [if_pos haddr] at hparse
    rw [if_pos haddr, if_pos haddr, hparse]
    cases localPart l with
    | none => simp [hnodot]
    | some u => rfl
  · rw [if_neg haddr] at hparse
    rw [if_neg haddr, hparse]
    by_cases hdot : hasSuffix d [0x2E]
    · have hatext : d.all atextOrDot := by
        rcases hd with hatext | hliteral
        · exact hatext
        · exact absurd (by simp [addrDomain, hliteral]) haddr
      simp only [if_pos (hsuffix.mpr hdot)]
      rw [trimSuffix_append_at l d hdot]
      exact law.parseAddress_addrSpec l _ hl (Or.inl (trimSuffix_dot_all _ d hatext))
    · have hsame : trimSuffix d [0x2E] = d := by rw [trimSuffix, if_neg hdot]
      simp only [if_neg (mt hsuffix.mp hdot), hsame, if_neg haddr]

/-- The text that is parsed when a listed address is read again. -/
def reread (u d : Bytes) : Bytes := trimLeft u ++ 0x40 :: trimRight d

/-- What a listed address normalizes to. The local part is read again although
it has lost its quotes, so it may denote nothing; an address enclosed in it is
then taken instead. -/
theorem normalize_listed (law : NetMail p) (u d : Bytes) (hd : addrDomain p d) :
    normalizeAddress p (u ++ 0x40 :: d) =
      if (reread u d).length > 320 then []
      else
        let e := tolerantDomain p (trimRight d)
        match if addrDomain p e then localPart (trimLeft u) else none with
        | some c => canonical p (c ++ 0x40 :: e)
        | none => ((angleMailbox p (reread u d)).map (canonical p)).getD [] := by
  have htrim : trimSpace (u ++ 0x40 :: d) = reread u d :=
    trimSpace_around_barrier 0x40 at_barrier u d
  have htwice : trimSpace (reread u d) = reread u d := by
    rw [reread, trimSpace_around_barrier 0x40 at_barrier, trimLeft_idem, trimRight_idem]
  have hne : reread u d ≠ [] := by simp [reread]
  have hparse := parseTolerant_addrSpec p law (trimLeft u) (trimRight d) (trimLeft_idem u)
    (trimRight_bytes p law d hd)
  simp only [normalizeAddress, htrim, hne, false_or]
  split
  · rfl
  · simp only [mailbox, htwice]
    rw [show parseTolerant p (reread u d) = _ from hparse]
    by_cases haddr : addrDomain p (tolerantDomain p (trimRight d))
    · simp only [if_pos haddr]
      cases localPart (trimLeft u) with
      | none => cases angleMailbox p (reread u d) <;> rfl
      | some c => simp
    · simp only [if_neg haddr]
      cases angleMailbox p (reread u d) <;> rfl

/-- The two parts have a canonical form whose domain is the given host. -/
def CanonicalWith (c e host : Bytes) : Prop :=
  0x40 ∉ c ∧ 0x40 ∉ e ∧ toLower p.table (trimSpace c) ≠ [] ∧ dnsHostname p.table e = host ∧
    (toLower p.table (trimSpace c)).length + host.length + 1 ≤ 254

/-- The parts of an address that has a canonical form. -/
theorem canonical_parts (h : canonical p address ≠ []) :
    ∃ c e, address = c ++ 0x40 :: e ∧ CanonicalWith p c e (dnsHostname p.table e) ∧
      dnsHostname p.table e ≠ [] ∧
      canonical p address = toLower p.table (trimSpace c) ++ 0x40 :: dnsHostname p.table e := by
  unfold canonical at h ⊢
  split at h
  · exact absurd rfl h
  · rename_i hcount
    rw [if_neg hcount]
    rcases hcut : cut 0x40 address with _ | ⟨c, e⟩
    · simp [hcut] at h
    · obtain ⟨rfl, hc⟩ := eq_append_of_cut 0x40 address c e hcut
      have he : 0x40 ∉ e := by
        simp only [List.count_append, List.count_cons_self] at hcount
        exact List.count_eq_zero.mp (by omega)
      simp only [hcut] at h ⊢
      split at h
      · exact absurd rfl h
      · rename_i hlimits
        rw [if_neg hlimits]
        simp only [not_or] at hlimits
        obtain ⟨hlocal, hdomain, hlength⟩ := hlimits
        exact ⟨c, e, rfl, ⟨hc, he, hlocal, rfl, Nat.not_lt.mp hlength⟩, hdomain, rfl⟩

theorem canonical_of_parts (c e host : Bytes) (h : CanonicalWith p c e host) (hhost : host ≠ []) :
    canonical p (c ++ 0x40 :: e) = toLower p.table (trimSpace c) ++ 0x40 :: host := by
  obtain ⟨hc, he, hlocal, hdomain, hlength⟩ := h
  have hcount : (c ++ 0x40 :: e).count 0x40 = 1 := by
    simp [List.count_eq_zero.mpr hc, List.count_eq_zero.mpr he]
  simp only [canonical, hcount, ne_eq, not_true_eq_false, if_false, cut_append 0x40 c e hc, hdomain]
  rw [if_neg]
  simp only [not_or]
  exact ⟨hlocal, hhost, Nat.not_lt.mpr hlength⟩

def HasDomain (host : Bytes) : Prop := ∃ before, address = before ++ 0x40 :: host

theorem canonical_hasDomain_iff (host : Bytes) (hhost : host ≠ []) (hat : 0x40 ∉ host) :
    HasDomain (canonical p address) host ↔
      ∃ c e, address = c ++ 0x40 :: e ∧ CanonicalWith p c e host := by
  constructor
  · rintro ⟨before, h⟩
    obtain ⟨c, e, haddress, hwith, -, heq⟩ := canonical_parts p address (by simp [h])
    rw [heq] at h
    obtain ⟨-, hdomain⟩ := append_sep_inj 0x40 _ _ _ _
      (at_not_mem_normalizeDNSName p.table e false) hat h
    exact ⟨c, e, haddress, hdomain ▸ hwith⟩
  · rintro ⟨c, e, rfl, hwith⟩
    exact ⟨_, canonical_of_parts p c e host hwith hhost⟩

def asciiTable : CaseTable where
  lower r := if r < 0x80 then (asciiLowerByte (UInt8.ofNat r)).toNat else r
  lower_ascii r hr := if_pos hr

/-- The addr-spec that ends a text at its last at sign. -/
def readAddrSpec : Option MailAddress :=
  match cut 0x40 value.reverse with
  | none => none
  | some (d, l) =>
    if dotAtom d.reverse then
      (localPart (trimLeft l.reverse)).map fun u => ⟨[], u ++ 0x40 :: d.reverse⟩
    else none

/-- A parser of bare addresses, without display names, lists and literals. -/
def bareAddresses : Platform where
  parseAddress := readAddrSpec
  parseAddressList value := (readAddrSpec value).map ([·])
  domainLiteral _ := false
  table := asciiTable

theorem bareAddresses_netMail : NetMail bareAddresses where
  parseAddress_addrSpec l d hl hd := by
    have hatext : d.all atextOrDot := by simpa [bareAddresses] using hd
    have hat : 0x40 ∉ d.reverse := by
      intro hmem
      exact absurd (List.all_eq_true.mp hatext 0x40 (List.mem_reverse.mp hmem)) (by decide)
    have hreverse : (l ++ 0x40 :: d).reverse = d.reverse ++ 0x40 :: l.reverse := by simp
    simp only [bareAddresses, readAddrSpec, hreverse, cut_append 0x40 _ _ hat,
      List.reverse_reverse, hl, addrDomain, Bool.or_false]
  parseAddressList_mailbox value addresses hlist a ha := by
    simp only [bareAddresses, Option.map_eq_some_iff] at hlist
    obtain ⟨found, hread, rfl⟩ := hlist
    obtain rfl := List.mem_singleton.mp ha
    unfold readAddrSpec at hread
    split at hread
    · simp at hread
    · rename_i d l _
      split at hread
      · rename_i hatom
        obtain ⟨u, -, rfl⟩ := Option.map_eq_some_iff.mp hread
        exact ⟨u, d.reverse, rfl, by simp [addrDomain, hatom]⟩
      · simp at hread
  domainLiteral_bytes d hd := by simp [bareAddresses] at hd

end MilterGuard.MailAddresses
