import MilterGuard.MailAddresses

/-!
The two policies that read the mailboxes of a From header: domains reserved for
authenticated submissions, and the mailboxes offered to the sender blocklist.
Both parse the listed addresses a second time. A listed mailbox is covered
exactly when some listed mailbox of its domain survives that second parse.
-/
namespace MilterGuard.SenderPolicies

open ByteStrings Hostnames AddrSpec MailAddresses

/-- The host is the domain itself or lies under it. -/
def domainMatches (hostname domain : Bytes) : Bool :=
  hostname = domain || hasSuffix hostname (0x2E :: domain)

def allowedSenderDomain (table : CaseTable) (fromDomain : Bytes) (allowedDomains : List Bytes) :
    Bytes :=
  let fromDomain := dnsHostname table fromDomain
  if fromDomain = [] then []
  else if allowedDomains.any fun allowed => domainMatches fromDomain (dnsHostname table allowed)
  then fromDomain
  else []

/-- strings.FieldsFunc at commas and semicolons. -/
def fragments (value : Bytes) : List Bytes :=
  (split 0x2C (value.map fun b => if b = 0x3B then 0x2C else b)).filter (· ≠ [])

variable (p : Platform)

def recoverFromAddresses (value : Bytes) : List MailAddress :=
  (fragments value).filterMap fun fragment =>
    let fragment := trimSpace fragment
    if fragment = [] then none
    else match p.parseAddress fragment with
      | some address =>
        if address.address ≠ [] then some address
        else (mailbox p fragment).map fun found => ⟨[], found⟩
      | none => (mailbox p fragment).map fun found => ⟨[], found⟩

def authenticatedOnlyFromValue (value : Bytes) (configured : List Bytes) : Bytes :=
  let addresses := (p.parseAddressList value).getD (recoverFromAddresses p value)
  ((addresses.map fun address =>
    allowedSenderDomain p.table (domain p address.address) configured).find? (· ≠ [])).getD []

def strictVisibleFromMailboxes (values : List Bytes) : List Bytes :=
  sortedSet ((values.flatMap fun value => (p.parseAddressList value).getD []).filterMap
    fun address =>
      let normalized := normalizeAddress p address.address
      if normalized ≠ [] then some normalized else none)

def normalizedRecipients (values : List Bytes) : List Bytes :=
  sortedSet ((values.map (normalizeAddress p)).filter (· ≠ []))

/-- Reading a listed address again gives a mailbox of the host. The local part
has lost its quotes: it must be a dot-atom or look quoted once more. Failing
that, the only address enclosed in angle brackets within it is taken. -/
def ReadsBack (u d host : Bytes) : Prop :=
  (reread u d).length ≤ 320 ∧
    match
      if addrDomain p (tolerantDomain p (trimRight d)) then localPart (trimLeft u) else none
    with
    | some c => CanonicalWith p c (tolerantDomain p (trimRight d)) host
    | none => ∃ c e, angleMailbox p (reread u d) = some (c ++ 0x40 :: e) ∧ CanonicalWith p c e host

private theorem at_not_mem_addrDomain (law : NetMail p) (d : Bytes) (hd : addrDomain p d) :
    0x40 ∉ d := by
  intro hmem
  simp only [addrDomain, Bool.or_eq_true] at hd
  rcases hd with hatom | hliteral
  · simp only [dotAtom, Bool.and_eq_true, List.all_eq_true] at hatom
    exact absurd (hatom.1.2 0x40 hmem) (by decide)
  · obtain ⟨body, rfl, hbody⟩ := law.domainLiteral_bytes d hliteral
    rw [List.all_eq_true] at hbody
    simp only [List.cons_append, List.mem_cons, List.mem_append] at hmem
    rcases hmem with h | h | h
    · exact absurd h (by decide)
    · exact absurd (hbody 0x40 h) (by decide)
    · exact absurd h (by decide)

private theorem normalize_hasDomain_iff (law : NetMail p) (u d host : Bytes) (hd : addrDomain p d)
    (hhost : host ≠ []) (hat : 0x40 ∉ host) :
    HasDomain (normalizeAddress p (u ++ 0x40 :: d)) host ↔ ReadsBack p u d host := by
  have hnil : ¬ HasDomain [] host := by
    rintro ⟨before, h⟩
    simp at h
  rw [normalize_listed p law u d hd, ReadsBack]
  by_cases hlength : (reread u d).length > 320
  · simp only [if_pos hlength, hnil, false_iff, not_and]
    intro hle
    exact absurd hle (Nat.not_le.mpr hlength)
  · simp only [if_neg hlength, Nat.not_lt.mp hlength, true_and]
    cases hread : (if addrDomain p (tolerantDomain p (trimRight d)) then
        localPart (trimLeft u) else none) with
    | some c =>
      simp only [canonical_hasDomain_iff p _ host hhost hat]
      constructor
      · rintro ⟨c', e, heq, hc⟩
        have he : 0x40 ∉ tolerantDomain p (trimRight d) := by
          split at hread
          · exact at_not_mem_addrDomain p law _ (by assumption)
          · simp at hread
        obtain ⟨rfl, rfl⟩ := append_sep_inj 0x40 _ _ _ _ he hc.2.1 heq
        exact hc
      · intro hc
        exact ⟨c, _, rfl, hc⟩
    | none =>
      cases angleMailbox p (reread u d) with
      | none => simp [hnil]
      | some address =>
        simp [canonical_hasDomain_iff p address host hhost hat]

private theorem domain_of_normalize (u d host : Bytes) (hhost : host ≠ []) (hat : 0x40 ∉ host)
    (h : HasDomain (normalizeAddress p (u ++ 0x40 :: d)) host) :
    domain p (u ++ 0x40 :: d) = host := by
  obtain ⟨before, h⟩ := h
  simp only [normalizeAddress, mailbox_trimSpace] at h
  cases hmailbox : mailbox p (u ++ 0x40 :: d) with
  | none => simp [hmailbox] at h
  | some address =>
    have hcanonical : HasDomain (canonical p address) host := by
      simp only [hmailbox] at h
      split at h
      · simp at h
      · exact ⟨before, h⟩
    obtain ⟨c, e, rfl, hc, he, -, hdomain, -⟩ :=
      (canonical_hasDomain_iff p address host hhost hat).mp hcanonical
    have hcount : (c ++ 0x40 :: e).count 0x40 = 1 := by
      simp [List.count_eq_zero.mpr hc, List.count_eq_zero.mpr he]
    simp [domain, hmailbox, hcount, cut_append 0x40 c e hc, hdomain]

theorem allowedSenderDomain_cases (table : CaseTable) (fromDomain : Bytes)
    (allowed : List Bytes) (h : allowedSenderDomain table fromDomain allowed ≠ []) :
    ∃ c ∈ allowed, domainMatches (allowedSenderDomain table fromDomain allowed)
      (dnsHostname table c) := by
  unfold allowedSenderDomain at h ⊢
  dsimp only at h ⊢
  split at h
  · exact absurd rfl h
  · rename_i hne
    split at h
    · rename_i hany
      rw [if_neg hne, if_pos hany]
      exact List.any_eq_true.mp hany
    · exact absurd rfl h

/-- A non-empty answer is a From domain at or under a configured domain, and
there is one as soon as one listed address reads back to such a domain. -/
theorem authenticatedOnlyFromValue_spec (value : Bytes) (configured : List Bytes)
    (addresses : List MailAddress) (hlist : p.parseAddressList value = some addresses)
    (a : MailAddress) (ha : a ∈ addresses)
    (hallowed : allowedSenderDomain p.table (domain p a.address) configured ≠ []) :
    authenticatedOnlyFromValue p value configured ≠ [] ∧
      ∃ c ∈ configured, domainMatches (authenticatedOnlyFromValue p value configured)
        (dnsHostname p.table c) := by
  simp only [authenticatedOnlyFromValue, hlist, Option.getD_some]
  cases hfind : (addresses.map fun address =>
      allowedSenderDomain p.table (domain p address.address) configured).find? (· ≠ []) with
  | none =>
    have hall := List.find?_eq_none.mp hfind _ (List.mem_map_of_mem ha)
    simp [hallowed] at hall
  | some found =>
    have hne : found ≠ [] := by simpa using List.find?_some hfind
    obtain ⟨b, -, rfl⟩ := List.mem_map.mp (List.mem_of_find?_eq_some hfind)
    exact ⟨hne, allowedSenderDomain_cases p.table _ configured hne⟩

theorem mem_strictVisibleFromMailboxes (value m : Bytes) (addresses : List MailAddress)
    (hlist : p.parseAddressList value = some addresses) :
    m ∈ strictVisibleFromMailboxes p [value] ↔
      m ≠ [] ∧ ∃ a ∈ addresses, normalizeAddress p a.address = m := by
  simp only [strictVisibleFromMailboxes, mem_sortedSet, List.mem_filterMap, List.flatMap_cons,
    List.flatMap_nil, List.append_nil, hlist]
  constructor
  · rintro ⟨a, ha, h⟩
    split at h
    · rename_i hne
      obtain rfl := Option.some.inj h
      exact ⟨hne, a, ha, rfl⟩
    · simp at h
  · rintro ⟨hne, a, ha, rfl⟩
    exact ⟨a, ha, by rw [if_pos hne]⟩

/-- Both policies see the domain of a listed mailbox exactly when some listed
mailbox reads back to that domain. -/
theorem from_mailbox_covered_iff (law : NetMail p) (value : Bytes) (addresses : List MailAddress)
    (hlist : p.parseAddressList value = some addresses) (a : MailAddress) (_ha : a ∈ addresses)
    (u d : Bytes) (_haddress : a.address = u ++ 0x40 :: d) (hhost : dnsHostname p.table d ≠ [])
    (configured : List Bytes) :
    (((∃ c ∈ configured, domainMatches (dnsHostname p.table d) (dnsHostname p.table c)) →
        authenticatedOnlyFromValue p value configured ≠ [] ∧
          ∃ c ∈ configured, domainMatches (authenticatedOnlyFromValue p value configured)
            (dnsHostname p.table c)) ∧
      ∃ m ∈ strictVisibleFromMailboxes p [value], HasDomain m (dnsHostname p.table d)) ↔
    ∃ b ∈ addresses, ∃ v e, b.address = v ++ 0x40 :: e ∧ addrDomain p e ∧
      ReadsBack p v e (dnsHostname p.table d) := by
  have hat : 0x40 ∉ dnsHostname p.table d := at_not_mem_normalizeDNSName p.table d false
  constructor
  · rintro ⟨-, m, hm, hdomain⟩
    obtain ⟨-, b, hb, rfl⟩ := (mem_strictVisibleFromMailboxes p value m addresses hlist).mp hm
    obtain ⟨v, e, haddr, he⟩ := law.parseAddressList_mailbox value addresses hlist b hb
    rw [haddr] at hdomain
    exact ⟨b, hb, v, e, haddr, he, (normalize_hasDomain_iff p law v e _ he hhost hat).mp hdomain⟩
  · rintro ⟨b, hb, v, e, haddr, he, hread⟩
    have hdomain := (normalize_hasDomain_iff p law v e _ he hhost hat).mpr hread
    refine ⟨?_, normalizeAddress p b.address, ?_, by rw [haddr]; exact hdomain⟩
    · rintro ⟨c, hc, hmatch⟩
      refine authenticatedOnlyFromValue_spec p value configured addresses hlist b hb ?_
      have hfrom : domain p b.address = dnsHostname p.table d := by
        rw [haddr]
        exact domain_of_normalize p v e _ hhost hat hdomain
      have hfixed : dnsHostname p.table (dnsHostname p.table d) = dnsHostname p.table d :=
        normalizeDNSName_idem p.table d false
      have hany : configured.any fun allowed =>
          domainMatches (dnsHostname p.table d) (dnsHostname p.table allowed) :=
        List.any_eq_true.mpr ⟨c, hc, hmatch⟩
      simp only [allowedSenderDomain, hfrom, hfixed, if_neg hhost, if_pos hany]
      exact hhost
    · refine (mem_strictVisibleFromMailboxes p value _ addresses hlist).mpr ⟨?_, b, hb, rfl⟩
      obtain ⟨before, hbefore⟩ := hdomain
      rw [haddr, hbefore]
      simp

/-- A plain mailbox of a reserved domain is seen by both policies. -/
theorem from_mailbox_covered_plain :
    ((∃ c ∈ [ascii "invades.net"],
        domainMatches (dnsHostname bareAddresses.table (ascii "invades.net"))
          (dnsHostname bareAddresses.table c)) →
        authenticatedOnlyFromValue bareAddresses (ascii "alice@invades.net")
            [ascii "invades.net"] ≠ [] ∧
          ∃ c ∈ [ascii "invades.net"], domainMatches
            (authenticatedOnlyFromValue bareAddresses (ascii "alice@invades.net")
              [ascii "invades.net"]) (dnsHostname bareAddresses.table c)) ∧
      ∃ m ∈ strictVisibleFromMailboxes bareAddresses [ascii "alice@invades.net"],
        HasDomain m (dnsHostname bareAddresses.table (ascii "invades.net")) := by
  refine (from_mailbox_covered_iff bareAddresses bareAddresses_netMail (ascii "alice@invades.net")
    [⟨[], ascii "alice@invades.net"⟩] (by decide) ⟨[], ascii "alice@invades.net"⟩ (by simp)
    (ascii "alice") (ascii "invades.net") (by decide) (by decide) [ascii "invades.net"]).mpr ?_
  refine ⟨⟨[], ascii "alice@invades.net"⟩, by simp, ascii "alice", ascii "invades.net", by decide,
    by decide, by decide, ?_⟩
  refine ⟨?_, ?_, ?_, ?_, ?_⟩ <;> decide

/-- A quoted local part with a space loses its quotes in the first parse and is
refused by the second, so neither policy sees the reserved domain. -/
theorem quoted_from_mailbox_escapes :
    bareAddresses.parseAddressList (ascii "\"a b\"@invades.net") =
        some [⟨[], ascii "a b@invades.net"⟩] ∧
      domainMatches (dnsHostname bareAddresses.table (ascii "invades.net"))
        (dnsHostname bareAddresses.table (ascii "invades.net")) ∧
      authenticatedOnlyFromValue bareAddresses (ascii "\"a b\"@invades.net")
        [ascii "invades.net"] = [] ∧
      strictVisibleFromMailboxes bareAddresses [ascii "\"a b\"@invades.net"] = [] := by
  refine ⟨?_, ?_, ?_, ?_⟩ <;> decide

end MilterGuard.SenderPolicies
