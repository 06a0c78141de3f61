import MilterGuard.BlocklistTable
import MilterGuard.IPReputation
import MilterGuard.RowListings

/-!
The two tables of known senders, sender_blocklist and correspondents, with the
operations that administration commands run on them. Blocking a mailbox removes the
correspondents it contradicts and allowing a sender removes the block it contradicts,
both in the transaction of the change.
-/
namespace MilterGuard.SenderLists

open ByteStrings MailAddresses BlocklistTable RowListings
open IPReputation (unixMillis timeFromMillis zeroTime limitedPage)

/-- How the database chooses the id of a new row: one that is not in use. -/
structure RowIds where
  next : List ℕ → ℕ
  unused : ∀ used, next used ∉ used

/-- New ids are larger than those in use, as they are until the largest possible id
has been given out. -/
def RowIds.Growing (ids : RowIds) : Prop := ∀ used, ∀ id ∈ used, id < ids.next used

/-- One more than the largest id in use. -/
def countingIds : RowIds where
  next used := used.foldr max 0 + 1
  unused used hused := by
    have hle : ∀ l : List ℕ, ∀ id ∈ l, id ≤ l.foldr max 0 := by
      intro l
      induction l with
      | nil => simp
      | cons first rest ih =>
        intro id hid
        rcases List.mem_cons.mp hid with rfl | hid
        · exact Nat.le_max_left _ _
        · exact (ih id hid).trans (Nat.le_max_right _ _)
    have hlast := hle used _ hused
    omega

inductive CorrespondentKind
  | authenticatedOutbound
  | repeatedLegitimateInbound
  | manual
  deriving DecidableEq

/-- A row of correspondents without its unique key. -/
structure Correspondent where
  id : ℕ
  learnedAt : ℤ
  lastActivityAt : ℤ
  whitelistType : CorrespondentKind
  legitimateEmailCount : ℕ
  deriving DecidableEq

/-- The keys are pairs of a local address and a correspondent. -/
abbrev Correspondents := KeyedTables.Table (Bytes × Bytes) Correspondent

structure CorrespondentOptions where
  useAllowlist : Bool
  staleAfter : ℤ
  legitimateSenderMinMessages : ℤ

structure SenderBlocklistOptions where
  expiry : ℤ

def SenderBlocklistOptions.available (o : SenderBlocklistOptions) : Bool := 0 < o.expiry

structure Lists where
  blocklist : Table
  primary : (blocklist.rows.map Row.id).Nodup
  correspondents : Correspondents

namespace Lists

def deleteBlocks (lists : Lists) (chosen : Row → Bool) : Lists where
  blocklist := lists.blocklist.delete chosen
  primary := (List.filter_sublist.map Row.id).nodup lists.primary
  correspondents := lists.correspondents

private theorem upsertRows_ids_nodup (rows : List Row) (row : Row) (h : (rows.map Row.id).Nodup)
    (hid : row.id ∉ rows.map Row.id) : ((upsertRows rows row).map Row.id).Nodup := by
  unfold upsertRows
  split
  · rw [List.map_map]
    have hsame : (Row.id ∘ fun old : Row =>
        if old.key = row.key then { old with expiresAt := row.expiresAt } else old) = Row.id := by
      funext old
      simp only [Function.comp_apply]
      split <;> rfl
    rw [hsame]
    exact h
  · rw [List.map_append, List.nodup_append]
    refine ⟨h, by simp, ?_⟩
    intro id hmem other hother heq
    obtain rfl : other = row.id := by simpa using hother
    exact hid (heq ▸ hmem)

def upsertBlock (lists : Lists) (row : Row) (hid : row.id ∉ lists.blocklist.rows.map Row.id) :
    Lists where
  blocklist := lists.blocklist.upsert row
  primary := upsertRows_ids_nodup _ row lists.primary hid
  correspondents := lists.correspondents

/-- The condition of the statements that delete correspondents; without a recipient
it holds for every local address. -/
def names (sender : Bytes) (recipient : Option Bytes) (key : Bytes × Bytes) : Bool :=
  key.2 = sender && recipient.all (key.1 = ·)

def deleteCorrespondents (lists : Lists) (chosen : Bytes × Bytes → Bool) : Lists :=
  { lists with
    correspondents := lists.correspondents.edit fun key row =>
      if chosen key then none else some row }

end Lists

open Lists (names)

/-! ### Blocklist administration -/

/-- A block of a mailbox for everyone contradicts every relationship with it. -/
def deleteCorrespondentsForExactBlock (recipient sender : Bytes) (lists : Lists) : Lists :=
  lists.deleteCorrespondents (names sender (if recipient = everyone then none else some recipient))

/-- Only a block of one mailbox contradicts correspondents. -/
def clearContradicted (kind : SenderBlockKind) (recipient sender : Bytes) (lists : Lists) :
    Lists :=
  match kind with
  | .exactMailbox => deleteCorrespondentsForExactBlock recipient sender lists
  | .domain => lists

/-- The row that an insertion would add. -/
def newBlock (o : SenderBlocklistOptions) (now : ℤ) (ids : RowIds) (recipient : Bytes)
    (kind : SenderBlockKind) (value : Bytes) (lists : Lists) : Row :=
  ⟨ids.next (lists.blocklist.rows.map Row.id), recipient, kind, value,
    (unixMillis (now + o.expiry)).toNat⟩

variable (p : Platform) (o : SenderBlocklistOptions)

/-- Whether the row is new and when it expires, with the tables left. -/
def addSenderBlock (now : ℤ) (ids : RowIds) (recipient : Bytes) (kind : SenderBlockKind)
    (value : Bytes) (lists : Lists) : Except String ((Bool × ℤ) × Lists) :=
  if ¬ o.available then .error "sender blocklist repository is unavailable"
  else do
    let recipient ← normalizeBlockRecipient p recipient
    let value ← normalizeBlockSender p kind value
    let cleared := clearContradicted kind recipient value lists
    let row := newBlock o now ids recipient kind value lists
    let added := lists.upsertBlock row (ids.unused _)
    return ((row.key ∉ lists.blocklist.rows.map Row.key, now + o.expiry),
      { added with correspondents := cleared.correspondents })

def deleteSenderBlocks (kind : SenderBlockKind) (value : Bytes) (scope : RecipientScope)
    (lists : Lists) : Except String (ℕ × Lists) :=
  if ¬ o.available then .error "sender blocklist repository is unavailable"
  else do
    scope.validate.mapError ("invalid sender block deletion: " ++ ·)
    let value ← normalizeBlockSender p kind value
    let recipient ← deleteRecipient p scope
    return (lists.blocklist.rows.countP (selects kind value recipient),
      lists.deleteBlocks (selects kind value recipient))

/-- What the two statements do to sender_blocklist is what they do to it alone. -/
theorem addSenderBlock_blocklist (now : ℤ) (ids : RowIds) (recipient : Bytes)
    (kind : SenderBlockKind) (value : Bytes) (lists : Lists) (h : o.available) :
    (addSenderBlock p o now ids recipient kind value lists).map
        (fun done => (done.1.1, done.2.blocklist)) =
      BlocklistTable.addSenderBlock p recipient kind value
        (ids.next (lists.blocklist.rows.map Row.id)) (unixMillis (now + o.expiry)).toNat
        lists.blocklist := by
  unfold addSenderBlock BlocklistTable.addSenderBlock
  rw [if_neg (not_not.mpr h)]
  cases normalizeBlockRecipient p recipient with
  | error text => rfl
  | ok owner =>
    cases normalizeBlockSender p kind value with
    | error text => rfl
    | ok sender => rfl

theorem deleteSenderBlocks_blocklist (kind : SenderBlockKind) (value : Bytes)
    (scope : RecipientScope) (lists : Lists) (h : o.available) :
    (deleteSenderBlocks p o kind value scope lists).map (fun done => (done.1, done.2.blocklist)) =
      BlocklistTable.deleteSenderBlocks p kind value scope lists.blocklist := by
  unfold deleteSenderBlocks BlocklistTable.deleteSenderBlocks
  rw [if_neg (not_not.mpr h)]
  cases scope.validate with
  | error text => rfl
  | ok valid =>
    cases normalizeBlockSender p kind value with
    | error text => rfl
    | ok sender =>
      cases deleteRecipient p scope with
      | error text => rfl
      | ok recipient => rfl

/-- The recipient condition of a listing: `none` when the listing is empty whatever
the table holds. -/
def listRecipient (scope : RecipientScope) : Option (Bytes → Bool) :=
  if scope.all then some fun _ => true
  else if normalizeAddress p scope.address = [] then none
  else some fun recipient => recipient = normalizeAddress p scope.address

def listSenderBlocks (now : ℤ) (scope : RecipientScope) (limit : ℕ) (lists : Lists) :
    Except String (List Row × Bool) :=
  if ¬ o.available then .ok ([], false)
  else do
    scope.validate.mapError ("invalid sender blocklist query: " ++ ·)
    if limit < 1 then .error "sender blocklist limit must be positive"
    else match listRecipient p scope with
      | none => return ([], false)
      | some chosen =>
        let live := lists.blocklist.rows.filter fun row =>
          unixMillis now < row.expiresAt && chosen row.recipient
        let sorted := live.insertionSort (newestFirst Row.id fun row => row.expiresAt)
        return limitedPage (sorted.take (limit + 1)) limit

variable (o : CorrespondentOptions) (now : ℤ)

/-! ### Correspondent administration -/

def addManual (ids : RowIds) (sender recipient : Bytes) (lists : Lists) :
    Except String (Bool × Lists) :=
  if ¬ o.useAllowlist then .error "correspondent allowlisting is disabled or unavailable"
  else
    let sender := normalizeAddress p sender
    let recipient := normalizeAddress p recipient
    if sender = [] ∨ recipient = [] then
      .error "sender and recipient must be valid email addresses"
    else
      let cleared := lists.deleteBlocks (selects .exactMailbox sender (some recipient))
      let existing := lists.correspondents.get (recipient, sender)
      let row : Correspondent := match existing with
        | some old => { old with
            lastActivityAt := unixMillis now, whitelistType := .manual, legitimateEmailCount := 0 }
        | none => ⟨ids.next (lists.correspondents.rows.map fun row => row.2.id), unixMillis now,
            unixMillis now, .manual, 0⟩
      .ok (existing.isNone,
        { cleared with correspondents := lists.correspondents.put (recipient, sender) row })

def deleteCorrespondent (sender : Bytes) (scope : RecipientScope) (lists : Lists) :
    Except String (ℕ × Lists) :=
  if ¬ o.useAllowlist then .error "correspondent allowlisting is disabled or unavailable"
  else if normalizeAddress p sender = [] then .error "sender must be a valid email address"
  else do
    scope.validate.mapError ("invalid correspondent deletion scope: " ++ ·)
    if scope.all = false ∧ normalizeAddress p scope.address = [] then
      .error "recipient must be a valid email address or *"
    else
      let chosen := names (normalizeAddress p sender)
        (if scope.all then none else some (normalizeAddress p scope.address))
      return (lists.correspondents.rows.countP fun row => chosen row.1,
        lists.deleteCorrespondents chosen)

def staleCutoff : Option ℤ :=
  if o.staleAfter ≤ 0 then none else some (unixMillis (now - o.staleAfter))

def qualified (row : Correspondent) : Bool :=
  match row.whitelistType with
  | .authenticatedOutbound | .manual => true
  | .repeatedLegitimateInbound => o.legitimateSenderMinMessages ≤ row.legitimateEmailCount

def qualifiedActive (row : Correspondent) : Bool :=
  qualified o row && (staleCutoff o now).all (· ≤ row.lastActivityAt)

/-- The order of two keys, by the local address first. -/
def keyOrder (a b : Bytes × Bytes) : Prop := a.1 ≠ b.1 ∧ a.1 ≤ b.1 ∨ a.1 = b.1 ∧ a.2 ≤ b.2

/-- The order of the listing: last activity descending, then the key. -/
def latestActivity (a b : (Bytes × Bytes) × Correspondent) : Prop :=
  b.2.lastActivityAt < a.2.lastActivityAt ∨
    a.2.lastActivityAt = b.2.lastActivityAt ∧ keyOrder a.1 b.1

instance : DecidableRel keyOrder := fun a b =>
  inferInstanceAs (Decidable (a.1 ≠ b.1 ∧ a.1 ≤ b.1 ∨ a.1 = b.1 ∧ a.2 ≤ b.2))

instance : DecidableRel latestActivity := fun a b =>
  inferInstanceAs (Decidable (b.2.lastActivityAt < a.2.lastActivityAt ∨
    a.2.lastActivityAt = b.2.lastActivityAt ∧ keyOrder a.1 b.1))

/-- The listing does not ask whether the allowlist is in use. -/
def listCorrespondents (scope : RecipientScope) (activeSince : ℤ) (limit : ℕ) (lists : Lists) :
    Except String (List ((Bytes × Bytes) × Correspondent) × Bool) := do
  scope.validate
  if limit < 1 then .error "correspondent list limit must be positive"
  else match listRecipient p scope with
    | none => return ([], false)
    | some chosen =>
      let live := lists.correspondents.selected fun key row =>
        if qualifiedActive o now row ∧
            (activeSince = zeroTime ∨ unixMillis activeSince ≤ row.lastActivityAt) ∧ chosen key.1
        then some row else none
      return limitedPage ((live.insertionSort latestActivity).take (limit + 1)) limit

end MilterGuard.SenderLists
