import MilterGuard.BlocklistTable

/-!
Which recipients a message is blocked for. The query asks for the senders, their domains
and the texts behind the dots of these; a row is found exactly when it names a sender or
a domain above one, and every row that is found has a sender to report.
-/
namespace MilterGuard.SenderMatching

open ByteStrings MailAddresses BlocklistTable

/-- A query, with the table and the time at which it is made. -/
structure Query where
  p : Platform
  table : Table
  now : ℕ
  visibleSenders : List Bytes
  recipients : List Bytes
  includeSubdomains : Bool

def ParentDomain (value child : Bytes) : Prop := value ≠ [] ∧ (0x2E :: value) <:+ child

variable (q : Query)

/-- The sender's domain, or a domain above it if those are included. -/
def DomainOf (value sender : Bytes) : Prop :=
  domain q.p sender = value ∨
    q.includeSubdomains = true ∧ ParentDomain value (domain q.p sender)

/-- The entry is for one of the senders, or for a domain of one. -/
def Names (senders : List Bytes) (row : Row) : Prop :=
  row.senderKind = .exactMailbox ∧ row.senderValue ∈ senders ∨
    row.senderKind = .domain ∧ ∃ sender ∈ senders, DomainOf q row.senderValue sender

/-- An unexpired entry that blocks the visible senders for the recipient. -/
structure Blocks (recipient : Bytes) (row : Row) : Prop where
  stored : row ∈ q.table.rows
  unexpired : q.now < row.expiresAt
  scope : row.recipient = everyone ∨ row.recipient = recipient
  names : Names q q.visibleSenders row

def BlocksQueried (row : Row) : Prop :=
  ∃ recipient ∈ q.recipients, Blocks q recipient row

/-- What a match has to say. The sender that it reports is a visible one, it reports one
exactly when a recipient is blocked, and it prefers an entry for a mailbox. -/
structure MatchesExactly (found : SenderBlockMatch) : Prop where
  blocked : ∀ recipient, recipient ∈ found.blockedRecipients ↔
    recipient ∈ q.recipients ∧ ∃ row, Blocks q recipient row
  visible : found.matchedSender ≠ [] → found.matchedSender ∈ q.visibleSenders
  reported : found.matchedSender ≠ [] ↔ found.blockedRecipients ≠ []
  preferred : (∃ row, row.senderKind = .exactMailbox ∧ BlocksQueried q row) →
    found.matchedKind = .exactMailbox ∧ ∃ row, row.senderKind = .exactMailbox ∧
      row.senderValue = found.matchedSender ∧ BlocksQueried q row

/-- Addresses as the store keeps them, not more of them than one query takes. -/
structure Settled (p : Platform) (addresses : List Bytes) : Prop where
  room : addresses.dedup.length ≤ maxSenderBlockAddresses
  ne_nil : ∀ address ∈ addresses, address ≠ []
  fixed : ∀ address ∈ addresses, normalizeAddress p address = address

def addressSet (addresses : List Bytes) : List Bytes :=
  normalizedAddressSet q.p addresses maxSenderBlockAddresses

/-- The rows that the query returns. -/
def queriedRows : List Row :=
  matchingRows q.table q.now (addressSet q q.recipients) (sortedSet (addressSet q q.visibleSenders))
    (senderDomainCandidates q.p (addressSet q q.visibleSenders) q.includeSubdomains)

def reportedSender (senders : List Bytes) (row : Row) : Bytes :=
  matchedVisibleSender q.p row.senderKind row.senderValue senders q.includeSubdomains

variable {q : Query} {senders : List Bytes} {row : Row}

theorem Settled.mem_addressSet {addresses : List Bytes} (h : Settled q.p addresses)
    (address : Bytes) : address ∈ addressSet q addresses ↔ address ∈ addresses := by
  have hmap : addresses.map (normalizeAddress q.p) = addresses :=
    (List.map_congr_left h.fixed).trans (List.map_id' _)
  rw [addressSet, mem_normalizedAddressSet q.p addresses address (hmap.symm ▸ h.room)]
  constructor
  · rintro ⟨-, value, hvalue, rfl⟩
    rwa [h.fixed value hvalue]
  · intro hmem
    exact ⟨h.ne_nil address hmem, address, hmem, h.fixed address hmem⟩

theorem mem_parentDomains (value child : Bytes) :
    value ∈ parentDomains child ↔ ParentDomain value child := by
  induction child with
  | nil => simp [parentDomains, ParentDomain]
  | cons b rest ih =>
    have hstep : ParentDomain value (b :: rest) ↔
        b = 0x2E ∧ value = rest ∧ value ≠ [] ∨ ParentDomain value rest := by
      unfold ParentDomain
      rw [List.suffix_cons_iff, List.cons.injEq]
      tauto
    rw [hstep, ← ih, parentDomains]
    by_cases hb : b = 0x2E
    · by_cases hrest : rest = []
      · simp +contextual [hb, hrest]
      · simp only [hb, hrest, if_true, if_false, true_and, List.singleton_append, List.mem_cons]
        constructor
        · rintro (rfl | hmem)
          · exact Or.inl ⟨rfl, hrest⟩
          · exact Or.inr hmem
        · exact Or.imp_left And.left
    · simp [hb]

theorem mem_senderDomainCandidates (hdomain : ∀ sender ∈ senders, domain q.p sender ≠ [])
    (value : Bytes) : value ∈ senderDomainCandidates q.p senders q.includeSubdomains ↔
      ∃ sender ∈ senders, DomainOf q value sender := by
  have hall : (senders.map (domain q.p)).filter (· ≠ []) = senders.map (domain q.p) :=
    List.filter_eq_self.mpr fun found hfound => by
      obtain ⟨sender, hsender, rfl⟩ := List.mem_map.mp hfound
      simpa using hdomain sender hsender
  rw [senderDomainCandidates, mem_sortedSet, hall]
  unfold DomainOf
  cases q.includeSubdomains <;> simp [mem_parentDomains, eq_comm]

theorem Names.mono {others : List Bytes} (h : Names q senders row)
    (hsub : ∀ sender ∈ senders, sender ∈ others) : Names q others row := by
  rcases h with ⟨hkind, hmem⟩ | ⟨hkind, sender, hmem, hdomain⟩
  · exact Or.inl ⟨hkind, hsub _ hmem⟩
  · exact Or.inr ⟨hkind, sender, hsub _ hmem, hdomain⟩

/-- Every entry that names a sender has one to report. -/
theorem reportedSender_mem (h : Names q senders row) : reportedSender q senders row ∈ senders := by
  unfold reportedSender
  rcases h with ⟨hkind, hmem⟩ | ⟨hkind, sender, hsender, hdomain⟩
  · rwa [hkind]
  · rw [hkind, matchedVisibleSender]
    cases hfound : senders.find? fun sender => domain q.p sender = row.senderValue ||
        q.includeSubdomains && hasSuffix (domain q.p sender) (0x2E :: row.senderValue) with
    | some found => exact List.mem_of_find?_eq_some hfound
    | none =>
      have hnone := List.find?_eq_none.mp hfound sender hsender
      simp only [Bool.or_eq_true, Bool.and_eq_true, decide_eq_true_eq, hasSuffix,
        List.isSuffixOf_iff_suffix] at hnone
      exact absurd (hdomain.imp_right fun h => ⟨h.1, h.2.2⟩) hnone

/-- Entries for mailboxes come before those for domains. -/
theorem exact_first {first : Row} {rest : List Row} (h : queriedRows q = first :: rest)
    (hrow : row ∈ queriedRows q) (hexact : row.senderKind = .exactMailbox) :
    first.senderKind = .exactMailbox := by
  unfold queriedRows matchingRows at h hrow
  dsimp only at h hrow
  generalize (q.table.rows.filter fun row => q.now < row.expiresAt &&
    (row.recipient = everyone || row.recipient ∈ addressSet q q.recipients)) = live at h hrow
  cases hmailboxes : live.filter fun row => row.senderKind = .exactMailbox &&
      row.senderValue ∈ sortedSet (addressSet q q.visibleSenders) with
  | nil =>
    rw [hmailboxes] at hrow
    simp [hexact] at hrow
  | cons mailbox more =>
    rw [hmailboxes, List.cons_append, List.cons.injEq] at h
    have hmem : mailbox ∈ mailbox :: more := List.mem_cons_self
    rw [← hmailboxes, List.mem_filter, Bool.and_eq_true, decide_eq_true_eq] at hmem
    rw [← h.1]
    exact hmem.2.1

theorem Blocks.forRecipient {other recipient : Bytes} (h : Blocks q other row)
    (hscope : row.recipient = everyone ∨ row.recipient = recipient) : Blocks q recipient row :=
  ⟨h.stored, h.unexpired, hscope, h.names⟩

/-- The rows of the query are the entries that block some queried recipient. -/
theorem mem_queriedRows (hsenders : Settled q.p q.visibleSenders)
    (hrecipients : Settled q.p q.recipients) (hne : q.recipients ≠ []) :
    row ∈ queriedRows q ↔ BlocksQueried q row := by
  have hdomain : ∀ sender ∈ addressSet q q.visibleSenders, domain q.p sender ≠ [] := by
    intro sender hsender
    have hmem := (hsenders.mem_addressSet sender).mp hsender
    exact domain_ne_nil q.p (hsenders.fixed sender hmem) (hsenders.ne_nil sender hmem)
  rw [queriedRows, mem_matchingRows, mem_sortedSet, mem_senderDomainCandidates hdomain]
  simp only [hsenders.mem_addressSet, hrecipients.mem_addressSet]
  constructor
  · rintro ⟨hstored, hlive, heveryone | hmem, hnames⟩
    · obtain ⟨recipient, hrecipient⟩ := List.exists_mem_of_ne_nil _ hne
      exact ⟨recipient, hrecipient, hstored, hlive, Or.inl heveryone, hnames⟩
    · exact ⟨row.recipient, hmem, hstored, hlive, Or.inr rfl, hnames⟩
  · rintro ⟨recipient, hrecipient, hblocks⟩
    refine ⟨hblocks.stored, hblocks.unexpired, hblocks.scope.imp_right fun heq => ?_, hblocks.names⟩
    rwa [heq]

theorem matchesExactly_of_none (hnone : ∀ row, ¬ BlocksQueried q row) (kind : SenderBlockKind) :
    MatchesExactly q ⟨[], [], kind⟩ where
  blocked recipient := by
    refine ⟨fun h => (List.not_mem_nil h).elim, ?_⟩
    rintro ⟨hrecipient, row, hblocks⟩
    exact (hnone row ⟨recipient, hrecipient, hblocks⟩).elim
  visible h := absurd rfl h
  reported := by simp
  preferred := by
    rintro ⟨row, -, hblocks⟩
    exact (hnone row hblocks).elim

/-- The match of a query with recipients, in terms of its rows. -/
theorem matchesExactly_of_rows (hsenders : Settled q.p q.visibleSenders)
    (hrecipients : Settled q.p q.recipients) (hne : q.recipients ≠ [])
    {reported : Bytes × SenderBlockKind}
    (hreported : reported = reportedMatch q.p (queriedRows q)
      (sortedSet (addressSet q q.visibleSenders)) q.includeSubdomains) :
    MatchesExactly q ⟨sortedSet (blockedBy (queriedRows q) (addressSet q q.recipients)),
      reported.1, reported.2⟩ := by
  have hrow : ∀ row, row ∈ queriedRows q ↔ BlocksQueried q row := fun _ =>
    mem_queriedRows hsenders hrecipients hne
  have hblocked : ∀ recipient, recipient ∈ sortedSet (blockedBy (queriedRows q)
      (addressSet q q.recipients)) ↔ recipient ∈ q.recipients ∧ ∃ row, Blocks q recipient row := by
    intro recipient
    rw [mem_sortedSet, mem_blockedBy, hrecipients.mem_addressSet]
    refine and_congr_right fun hrecipient => exists_congr fun row => ?_
    rw [hrow]
    constructor
    · rintro ⟨⟨other, -, hblocks⟩, hscope⟩
      exact hblocks.forRecipient hscope
    · exact fun hblocks => ⟨⟨recipient, hrecipient, hblocks⟩, hblocks.scope⟩
  cases hrows : queriedRows q with
  | nil =>
    rw [hrows] at hreported
    obtain rfl : reported = ([], .exactMailbox) := hreported
    have hnil : sortedSet (blockedBy [] (addressSet q q.recipients)) = [] := by
      simp [blockedBy, sortedSet]
    rw [hnil]
    refine matchesExactly_of_none (fun row hblocks => ?_) _
    have hmem := (hrow row).mpr hblocks
    rw [hrows] at hmem
    exact List.not_mem_nil hmem
  | cons first rest =>
    have hblocks := (hrow first).mp (hrows ▸ List.mem_cons_self)
    obtain ⟨recipient, hrecipient, happlies⟩ := hblocks
    have hsender := reportedSender_mem (happlies.names.mono fun sender hmem =>
      (mem_sortedSet _ sender).mpr ((hsenders.mem_addressSet sender).mpr hmem))
    rw [mem_sortedSet, hsenders.mem_addressSet] at hsender
    have hsender_ne := hsenders.ne_nil _ hsender
    rw [hrows, reportedMatch,
      List.find?_cons_of_pos (by simpa [reportedSender] using hsender_ne)] at hreported
    obtain rfl : reported = (_, _) := hreported
    rw [← hrows]
    refine ⟨hblocked, fun _ => hsender, iff_of_true hsender_ne (List.ne_nil_of_mem
      ((hblocked recipient).mpr ⟨hrecipient, first, happlies⟩)), ?_⟩
    rintro ⟨row, hexact, hqueried⟩
    have hkind := exact_first hrows ((hrow row).mpr hqueried) hexact
    refine ⟨hkind, first, hkind, ?_, recipient, hrecipient, happlies⟩
    rw [hkind]
    rfl

theorem sender_blocks_exact (q : Query) (hsenders : Settled q.p q.visibleSenders)
    (hrecipients : Settled q.p q.recipients) :
    MatchesExactly q (matchSenderBlocks q.p q.table q.now q.visibleSenders q.recipients
      q.includeSubdomains) := by
  unfold matchSenderBlocks
  dsimp only
  split_ifs with hempty
  · refine matchesExactly_of_none (fun row => ?_) _
    rintro ⟨recipient, hrecipient, hblocks⟩
    change addressSet q q.visibleSenders = [] ∨ addressSet q q.recipients = [] at hempty
    rcases hempty with hnone | hnone
    · have hsender : ∀ sender, sender ∉ q.visibleSenders := fun sender hmem =>
        List.not_mem_nil (hnone ▸ (hsenders.mem_addressSet sender).mpr hmem)
      rcases hblocks.names with ⟨-, hmem⟩ | ⟨-, sender, hmem, -⟩
      · exact hsender _ hmem
      · exact hsender sender hmem
    · exact List.not_mem_nil (hnone ▸ (hrecipients.mem_addressSet recipient).mpr hrecipient)
  · refine matchesExactly_of_rows hsenders hrecipients (fun hnil => hempty (Or.inr ?_)) rfl
    rw [hnil]
    rfl

/-- The only entry blocks a domain above the sender's for everyone. -/
def parentBlocked (recipients : List Bytes) : Query where
  p := bareAddresses
  table := ⟨[⟨1, everyone, .domain, ascii "example.com", 10⟩], by decide⟩
  now := 5
  visibleSenders := [ascii "a@mail.example.com"]
  recipients := recipients
  includeSubdomains := true

theorem sender_blocks_exact_parent :
    MatchesExactly (parentBlocked [ascii "b@x.org"])
      ⟨[ascii "b@x.org"], ascii "a@mail.example.com", .domain⟩ := by
  exact sender_blocks_exact (parentBlocked [ascii "b@x.org"])
    ⟨by decide, by decide, by decide +kernel⟩ ⟨by decide, by decide, by decide +kernel⟩

/-- The empty text is its own normal form, but no recipient that can be blocked. -/
theorem empty_recipient_not_blocked :
    normalizeAddress bareAddresses [] = [] ∧ (∃ row, Blocks (parentBlocked [[]]) [] row) ∧
      (matchSenderBlocks bareAddresses (parentBlocked [[]]).table 5
        [ascii "a@mail.example.com"] [[]] true).blockedRecipients = [] := by
  refine ⟨by decide +kernel, ⟨⟨1, everyone, .domain, ascii "example.com", 10⟩,
    List.mem_cons_self, by decide, Or.inl rfl, Or.inr ⟨rfl, _, List.mem_cons_self, Or.inr
      ⟨rfl, by decide, ?_⟩⟩⟩, by decide +kernel⟩
  exact ⟨ascii "mail", by decide +kernel⟩

end MilterGuard.SenderMatching
