import MilterGuard.MailAddresses

/-!
The sender_blocklist table and the two statements that change it. The unique
constraint on recipient, kind and value is part of the table. Keys are
normalized again on their way into a statement, whatever the caller did.
-/
namespace MilterGuard.BlocklistTable

open ByteStrings Hostnames MailAddresses

inductive SenderBlockKind
  | exactMailbox
  | domain
  deriving DecidableEq

structure Row where
  id : ℕ
  recipient : Bytes
  senderKind : SenderBlockKind
  senderValue : Bytes
  expiresAt : ℕ
  deriving DecidableEq

def Row.key (row : Row) : Bytes × SenderBlockKind × Bytes :=
  (row.recipient, row.senderKind, row.senderValue)

instance : LawfulBEq (Bytes × SenderBlockKind × Bytes) := inferInstance

structure Table where
  rows : List Row
  unique : (rows.map Row.key).Nodup

/-- The server-wide recipient. -/
def everyone : Bytes := [0x2A]

structure RecipientScope where
  all : Bool
  address : Bytes
  deriving DecidableEq

def RecipientScope.validate (scope : RecipientScope) : Except String Unit :=
  if scope.all ∧ trimSpace scope.address ≠ [] then
    .error "recipient scope cannot contain both all recipients and an address"
  else if ¬ scope.all ∧ trimSpace scope.address = [] then
    .error "recipient scope requires an address"
  else .ok ()

variable (p : Platform)

def normalizeBlockRecipient (recipient : Bytes) : Except String Bytes :=
  if trimSpace recipient = everyone then .ok everyone
  else if normalizeAddress p recipient = [] then
    .error "sender block recipient must be a valid email address or *"
  else .ok (normalizeAddress p recipient)

variable (kind : SenderBlockKind) (value : Bytes)

def normalizeBlockSender : Except String Bytes :=
  match kind with
  | .exactMailbox =>
    if normalizeAddress p value = [] then .error "sender block must contain a valid email address"
    else .ok (normalizeAddress p value)
  | .domain =>
    let value := trimSuffix (toLower p.table (trimSpace value)) [0x2E]
    if domain p (0x78 :: 0x40 :: value) ≠ value then
      .error "sender block must contain a valid domain"
    else .ok value

/-- The recipient condition of the delete statement; `none` selects every row. -/
def deleteRecipient (scope : RecipientScope) : Except String (Option Bytes) :=
  if scope.all then .ok none
  else if trimSpace scope.address = everyone then .ok (some scope.address)
  else if normalizeAddress p scope.address = [] then
    .error "sender block recipient must be a valid email address or *"
  else .ok (some (normalizeAddress p scope.address))

def selects (recipient : Option Bytes) (row : Row) : Bool :=
  row.senderKind = kind && row.senderValue = value && recipient.all (row.recipient = ·)

def Table.delete (table : Table) (chosen : Row → Bool) : Table where
  rows := table.rows.filter fun row => !chosen row
  unique := (List.filter_sublist.map Row.key).nodup table.unique

/-- The number of rows removed and the table left. -/
def deleteSenderBlocks (scope : RecipientScope) (table : Table) : Except String (ℕ × Table) := do
  scope.validate.mapError ("invalid sender block deletion: " ++ ·)
  let value ← normalizeBlockSender p kind value
  let recipient ← deleteRecipient p scope
  return (table.rows.countP (selects kind value recipient),
    table.delete (selects kind value recipient))

/-- Refreshes the row of the key, or appends a row for it. -/
def upsertRows (rows : List Row) (row : Row) : List Row :=
  if row.key ∈ rows.map Row.key then
    rows.map fun old => if old.key = row.key then { old with expiresAt := row.expiresAt } else old
  else rows ++ [row]

theorem upsertRows_keys (rows : List Row) (row : Row) :
    (upsertRows rows row).map Row.key =
      if row.key ∈ rows.map Row.key then rows.map Row.key else rows.map Row.key ++ [row.key] := by
  unfold upsertRows
  split
  · rw [List.map_map]
    apply List.map_congr_left
    intro old _
    simp only [Function.comp_apply]
    split <;> rfl
  · rw [List.map_append]
    rfl

def Table.upsert (table : Table) (row : Row) : Table where
  rows := upsertRows table.rows row
  unique := by
    rw [upsertRows_keys]
    split
    · exact table.unique
    · rename_i hnew
      rw [List.nodup_append]
      refine ⟨table.unique, by simp, ?_⟩
      intro key hkey other hother heq
      obtain rfl := List.mem_singleton.mp hother
      exact hnew (heq ▸ hkey)

/-- Whether the row is new, and the table with it. -/
def addSenderBlock (recipient : Bytes) (kind : SenderBlockKind) (value : Bytes) (id expiresAt : ℕ)
    (table : Table) : Except String (Bool × Table) := do
  let recipient ← normalizeBlockRecipient p recipient
  let value ← normalizeBlockSender p kind value
  let row : Row := ⟨id, recipient, kind, value, expiresAt⟩
  return (row.key ∉ table.rows.map Row.key, table.upsert row)

variable (table : Table) (now : ℕ) (chosen : Row → Bool) (row : Row)
  (recipient : Bytes)

/-- Adding a row leaves the rows of other recipients as they are. -/
theorem upsert_filter_other (h : row.recipient = recipient) :
    (table.upsert row).rows.filter (fun old => old.recipient ≠ recipient) =
      table.rows.filter fun old => old.recipient ≠ recipient := by
  change (upsertRows table.rows row).filter _ = _
  unfold upsertRows
  split
  · rw [List.filter_map]
    have hsame : ((fun old : Row => decide (old.recipient ≠ recipient)) ∘ fun old =>
        if old.key = row.key then { old with expiresAt := row.expiresAt } else old) =
        fun old => decide (old.recipient ≠ recipient) := by
      funext old
      simp only [Function.comp_apply]
      split <;> rfl
    rw [hsame]
    apply (List.map_congr_left ?_).trans (List.map_id' _)
    intro old hold
    have hne : old.recipient ≠ recipient := by simpa using (List.mem_filter.mp hold).2
    rw [if_neg]
    intro hkey
    exact hne ((congrArg Prod.fst hkey).trans h)
  · simp [h]

theorem mem_delete : row ∈ (table.delete chosen).rows ↔ row ∈ table.rows ∧ chosen row = false := by
  simp [Table.delete]

theorem selects_some_iff (row : Row) :
    selects kind value (some recipient) row ↔ row.key = (recipient, kind, value) := by
  simp only [selects, Option.all_some, Bool.and_eq_true, decide_eq_true_eq, Row.key, Prod.mk.injEq]
  tauto

theorem selects_none_iff :
    selects kind value none row ↔ row.senderKind = kind ∧ row.senderValue = value := by
  simp [selects]

/-- Two deletions leave the same rows exactly when they choose the same rows. -/
theorem delete_rows_eq_iff (chosen' : Row → Bool) :
    (table.delete chosen).rows = (table.delete chosen').rows ↔
      ∀ row ∈ table.rows, chosen row = chosen' row := by
  constructor
  · intro h row hrow
    have hleft := mem_delete table chosen row
    have hright := mem_delete table chosen' row
    cases hc : chosen row <;> cases hc' : chosen' row <;> simp_all
  · intro h
    exact List.filter_congr fun row hrow => by rw [h row hrow]

/-- A deletion that chooses no row of another recipient keeps those rows. -/
theorem delete_filter_other
    (h : ∀ row ∈ table.rows, row.recipient ≠ recipient → chosen row = false) :
    (table.delete chosen).rows.filter (fun row => row.recipient ≠ recipient) =
      table.rows.filter fun row => row.recipient ≠ recipient := by
  simp only [Table.delete, List.filter_filter]
  apply List.filter_congr
  intro row hrow
  by_cases hrecipient : row.recipient = recipient
  · simp [hrecipient]
  · simp [h row hrow hrecipient]

/-- Deleting a row that was just added leaves the table as it was. -/
theorem delete_upsert_new (hnew : ∀ old ∈ table.rows, old.key ≠ row.key) :
    ((table.upsert row).delete (selects row.senderKind row.senderValue (some row.recipient))).rows =
      table.rows := by
  have habsent : row.key ∉ table.rows.map Row.key := by
    intro hmem
    obtain ⟨old, hold, hkey⟩ := List.mem_map.mp hmem
    exact hnew old hold hkey
  have hself : selects row.senderKind row.senderValue (some row.recipient) row :=
    (selects_some_iff _ _ _ row).mpr rfl
  have hkeep : ∀ old ∈ table.rows,
      (!selects row.senderKind row.senderValue (some row.recipient) old) = true := by
    intro old hold
    rw [Bool.not_eq_true', ← Bool.not_eq_true, selects_some_iff]
    exact hnew old hold
  simp only [Table.delete, Table.upsert, upsertRows, if_neg habsent, List.filter_append]
  rw [List.filter_eq_self.mpr hkeep]
  simp [hself]

theorem mem_upsert_other (old : Row) (h : old ∈ (table.upsert row).rows)
    (hrecipient : old.recipient ≠ row.recipient) : old ∈ table.rows := by
  have hfilter : old ∈ (table.upsert row).rows.filter fun r => r.recipient ≠ row.recipient :=
    List.mem_filter.mpr ⟨h, by simpa using hrecipient⟩
  rw [upsert_filter_other table row row.recipient rfl] at hfilter
  exact (List.mem_filter.mp hfilter).1

/-- The distinct normalized addresses, up to a number of them. -/
def collectAddresses (p : Platform) (maximum : ℕ) : List Bytes → List Bytes → List Bytes
  | found, [] => found
  | found, value :: rest =>
    if found.length ≥ maximum then found
    else if normalizeAddress p value = [] ∨ normalizeAddress p value ∈ found then
      collectAddresses p maximum found rest
    else collectAddresses p maximum (found ++ [normalizeAddress p value]) rest

def normalizedAddressSet (values : List Bytes) (maximum : ℕ) : List Bytes :=
  collectAddresses p maximum [] values

def maxSenderBlockAddresses : ℕ := 100

/-- The texts after each dot, which is how parent domains are found. -/
def parentDomains : Bytes → List Bytes
  | [] => []
  | b :: rest =>
    if b = 0x2E then (if rest = [] then [] else [rest]) ++ parentDomains rest
    else parentDomains rest

def senderDomainCandidates (senders : List Bytes) (includeSubdomains : Bool) : List Bytes :=
  sortedSet ((senders.map (domain p)).filter (· ≠ []) |>.flatMap fun found =>
    found :: if includeSubdomains then parentDomains found else [])

structure SenderBlockMatch where
  blockedRecipients : List Bytes
  matchedSender : Bytes
  matchedKind : SenderBlockKind
  deriving DecidableEq

def matchedVisibleSender (kind : SenderBlockKind) (value : Bytes) (visibleSenders : List Bytes)
    (includeSubdomains : Bool) : Bytes :=
  match kind with
  | .exactMailbox => value
  | .domain => (visibleSenders.find? fun sender =>
      domain p sender = value ||
        includeSubdomains && hasSuffix (domain p sender) (0x2E :: value)).getD []

/-- The rows of the query, mailboxes before domains. Rows are kept in the order
of their ids. -/
def matchingRows (table : Table) (now : ℕ) (recipients exact domains : List Bytes) : List Row :=
  let live := table.rows.filter fun row =>
    now < row.expiresAt && (row.recipient = everyone || row.recipient ∈ recipients)
  live.filter (fun row => row.senderKind = .exactMailbox && row.senderValue ∈ exact) ++
    live.filter fun row => row.senderKind = .domain && row.senderValue ∈ domains

/-- The first row that names a sender; mailbox rows come first. -/
def reportedMatch (p : Platform) (rows : List Row) (visibleSenders : List Bytes)
    (includeSubdomains : Bool) : Bytes × SenderBlockKind :=
  match rows.find? fun row =>
      matchedVisibleSender p row.senderKind row.senderValue visibleSenders includeSubdomains ≠ []
  with
  | some row =>
    (matchedVisibleSender p row.senderKind row.senderValue visibleSenders includeSubdomains,
      row.senderKind)
  | none => ([], (rows.getLast?.map Row.senderKind).getD .exactMailbox)

def blockedBy (rows : List Row) (recipients : List Bytes) : List Bytes :=
  if rows.any (·.recipient = everyone) then recipients
  else recipients.filter fun recipient => rows.any (·.recipient = recipient)

variable (visibleSenders recipients : List Bytes) (includeSubdomains : Bool)

def matchSenderBlocks : SenderBlockMatch :=
  let senders := normalizedAddressSet p visibleSenders maxSenderBlockAddresses
  let recipients := normalizedAddressSet p recipients maxSenderBlockAddresses
  if senders = [] ∨ recipients = [] then ⟨[], [], .exactMailbox⟩
  else
    let rows := matchingRows table now recipients (sortedSet senders)
      (senderDomainCandidates p senders includeSubdomains)
    let reported := reportedMatch p rows (sortedSet senders) includeSubdomains
    ⟨sortedSet (blockedBy rows recipients), reported.1, reported.2⟩

private theorem dedup_length_mono {values others : List Bytes} (h : values ⊆ others) :
    values.dedup.length ≤ others.dedup.length := by
  have hsub : values.dedup ⊆ others.dedup := fun a ha =>
    List.mem_dedup.mpr (h (List.mem_dedup.mp ha))
  exact (List.subperm_of_subset (List.nodup_dedup values) hsub).length_le

/-- As long as the distinct addresses fit, all of them are found. -/
theorem mem_collectAddresses (maximum : ℕ) (values found : List Bytes) (address : Bytes)
    (hfound : found.Nodup)
    (hroom : (found ++ values.map (normalizeAddress p)).dedup.length ≤ maximum) :
    address ∈ collectAddresses p maximum found values ↔
      address ∈ found ∨ address ≠ [] ∧ ∃ value ∈ values, normalizeAddress p value = address := by
  induction values generalizing found with
  | nil => simp [collectAddresses]
  | cons value rest ih =>
    rw [collectAddresses]
    split_ifs with hfull hskip
    · -- the set is full, so it holds every address
      have hperm : found.Perm (found ++ (value :: rest).map (normalizeAddress p)).dedup :=
        (List.subperm_of_subset hfound fun a ha => by simp [ha]).perm_of_length_le
          (hroom.trans hfull)
      refine ⟨Or.inl, ?_⟩
      rintro (hmem | ⟨-, other, hother, rfl⟩)
      · exact hmem
      · rw [hperm.mem_iff, List.mem_dedup, List.mem_append]
        exact Or.inr (List.mem_map_of_mem hother)
    · rw [ih found hfound ((dedup_length_mono (by simp)).trans hroom)]
      simp only [List.mem_cons, exists_eq_or_imp]
      constructor
      · rintro (hfound | ⟨hne, hrest⟩)
        · exact Or.inl hfound
        · exact Or.inr ⟨hne, Or.inr hrest⟩
      · rintro (hfound | ⟨hne, rfl | hrest⟩)
        · exact Or.inl hfound
        · exact Or.inl (hskip.resolve_left hne)
        · exact Or.inr ⟨hne, hrest⟩
    · obtain ⟨hne, hnew⟩ := not_or.mp hskip
      have hnext : (found ++ [normalizeAddress p value]).Nodup := by
        simpa [List.nodup_append, hfound] using fun a ha => ne_of_mem_of_not_mem ha hnew
      rw [ih _ hnext ((dedup_length_mono (by simp)).trans hroom)]
      simp only [List.mem_append, List.mem_cons, List.not_mem_nil, or_false, exists_eq_or_imp]
      constructor
      · rintro ((hfound | rfl) | ⟨hne, hrest⟩)
        · exact Or.inl hfound
        · exact Or.inr ⟨hne, Or.inl rfl⟩
        · exact Or.inr ⟨hne, Or.inr hrest⟩
      · rintro (hfound | ⟨hne, rfl | hrest⟩)
        · exact Or.inl (Or.inl hfound)
        · exact Or.inl (Or.inr rfl)
        · exact Or.inr ⟨hne, hrest⟩

/-- Few enough values have few enough addresses. -/
theorem addresses_room {values : List Bytes} {maximum : ℕ} (h : values.length ≤ maximum) :
    (values.map (normalizeAddress p)).dedup.length ≤ maximum :=
  (List.dedup_sublist _).length_le.trans (by simpa using h)

theorem mem_normalizedAddressSet (values : List Bytes) (address : Bytes)
    (hroom : (values.map (normalizeAddress p)).dedup.length ≤ maxSenderBlockAddresses) :
    address ∈ normalizedAddressSet p values maxSenderBlockAddresses ↔
      address ≠ [] ∧ ∃ value ∈ values, normalizeAddress p value = address := by
  rw [normalizedAddressSet, mem_collectAddresses p _ values [] address List.nodup_nil hroom]
  simp

/-- The row names one of the senders. -/
def namesSender (row : Row) : Bool :=
  let senders := normalizedAddressSet p visibleSenders maxSenderBlockAddresses
  row.senderKind = .exactMailbox && row.senderValue ∈ senders ||
    row.senderKind = .domain && row.senderValue ∈ senderDomainCandidates p senders includeSubdomains

/-- Some row in force names a sender and applies to the recipient. -/
def BlocksRecipient (p : Platform) (table : Table) (now : ℕ) (visibleSenders : List Bytes)
    (includeSubdomains : Bool) (recipient : Bytes) : Prop :=
  ∃ row ∈ table.rows, now < row.expiresAt ∧ namesSender p visibleSenders includeSubdomains row ∧
    (row.recipient = everyone ∨ row.recipient = recipient)

theorem mem_blockedBy (rows : List Row) (recipients : List Bytes) (recipient : Bytes) :
    recipient ∈ blockedBy rows recipients ↔ recipient ∈ recipients ∧
      ∃ row ∈ rows, row.recipient = everyone ∨ row.recipient = recipient := by
  unfold blockedBy
  split_ifs with hall
  · simp only [List.any_eq_true, decide_eq_true_eq] at hall
    obtain ⟨row, hrow, heveryone⟩ := hall
    exact ⟨fun h => ⟨h, row, hrow, Or.inl heveryone⟩, And.left⟩
  · simp only [List.any_eq_true, decide_eq_true_eq, not_exists, not_and] at hall
    rw [List.mem_filter, List.any_eq_true]
    refine and_congr_right fun _ => exists_congr fun row => and_congr_right fun hrow => ?_
    simp [hall row hrow]

theorem mem_matchingRows (exact domains : List Bytes) (row : Row) :
    row ∈ matchingRows table now recipients exact domains ↔ row ∈ table.rows ∧
      now < row.expiresAt ∧ (row.recipient = everyone ∨ row.recipient ∈ recipients) ∧
      (row.senderKind = .exactMailbox ∧ row.senderValue ∈ exact ∨
        row.senderKind = .domain ∧ row.senderValue ∈ domains) := by
  simp only [matchingRows, List.mem_append, List.mem_filter, Bool.and_eq_true, Bool.or_eq_true,
    decide_eq_true_eq]
  tauto

/-- The normalized forms of the queried recipients that some row blocks. -/
theorem mem_blockedRecipients (blocked : Bytes)
    (hroom : (recipients.map (normalizeAddress p)).dedup.length ≤ maxSenderBlockAddresses) :
    blocked ∈ (matchSenderBlocks p table now visibleSenders recipients
      includeSubdomains).blockedRecipients ↔
      blocked ≠ [] ∧ (∃ recipient ∈ recipients, normalizeAddress p recipient = blocked) ∧
        BlocksRecipient p table now visibleSenders includeSubdomains blocked := by
  have hqueried := fun address => mem_normalizedAddressSet p recipients address hroom
  unfold matchSenderBlocks
  dsimp only
  split_ifs with hempty
  · refine iff_of_false (by simp) ?_
    rintro ⟨hne, hrecipient, row, -, -, hnames, -⟩
    rcases hempty with hsenders | hrecipients
    · simp [namesSender, hsenders, senderDomainCandidates, mem_sortedSet] at hnames
    · have hmem := (hqueried blocked).mpr ⟨hne, hrecipient⟩
      simp [hrecipients] at hmem
  · rw [mem_sortedSet, mem_blockedBy, hqueried, and_assoc]
    refine and_congr_right fun hne => and_congr_right fun hrecipient => exists_congr fun row => ?_
    rw [mem_matchingRows]
    simp only [namesSender, mem_sortedSet, Bool.or_eq_true, Bool.and_eq_true, decide_eq_true_eq]
    constructor
    · rintro ⟨⟨hrow, hlive, -, hsender⟩, happlies⟩
      exact ⟨hrow, hlive, hsender, happlies⟩
    · rintro ⟨hrow, hlive, hsender, happlies⟩
      refine ⟨⟨hrow, hlive, happlies.imp_right fun heq => ?_, hsender⟩, happlies⟩
      rw [heq, hqueried]
      exact ⟨hne, hrecipient⟩

theorem blockedRecipients_nodup :
    (matchSenderBlocks p table now visibleSenders recipients
      includeSubdomains).blockedRecipients.Nodup := by
  unfold matchSenderBlocks
  dsimp only
  split_ifs
  · exact List.nodup_nil
  · exact sortedSet_nodup _

end MilterGuard.BlocklistTable
