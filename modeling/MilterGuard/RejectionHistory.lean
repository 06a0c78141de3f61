import MilterGuard.SenderLists

/-!
The tables rejections and rejection_recipients and the two queries that
administration commands run on them. A query with a recipient joins the two tables on
that recipient, so that an entry names no other one.
-/
namespace MilterGuard.RejectionHistory

open ByteStrings MailAddresses BlocklistTable RowListings SenderLists
open IPReputation (unixMillis timeFromMillis zeroTime limitedPage)

/-- A row of rejections without its id. -/
structure RejectionRow where
  sender : Bytes
  subject : Bytes
  rejectedAt : ℤ
  reason : Bytes
  deriving DecidableEq

structure History where
  rejections : KeyedTables.Table ℕ RejectionRow
  recipients : List (ℕ × Bytes)
  primary : recipients.Nodup

/-- A row of the join: the id and row of a rejection with one of its recipients. -/
structure Joined where
  id : ℕ
  row : RejectionRow
  recipient : Bytes
  deriving DecidableEq

def History.joined (history : History) : List Joined :=
  history.recipients.filterMap fun (id, recipient) =>
    (history.rejections.get id).map fun row => ⟨id, row, recipient⟩

structure Rejection where
  id : ℕ
  sender : Bytes
  subject : Bytes
  recipients : List Bytes
  rejectedAt : ℤ
  reason : Bytes
  deriving DecidableEq

structure RejectionOptions where
  expiry : ℤ

def Joined.entry (joined : Joined) : Rejection :=
  ⟨joined.id, joined.row.sender, joined.row.subject, [joined.recipient],
    timeFromMillis joined.row.rejectedAt, joined.row.reason⟩

/-- Adds a row of a query to the entries read so far, the last one first. -/
def groupRow (entries : List Rejection) (joined : Joined) : List Rejection :=
  match entries with
  | [] => [joined.entry]
  | last :: rest =>
    if last.id ≠ joined.id then joined.entry :: last :: rest
    else { last with recipients := last.recipients ++ [joined.recipient] } :: rest

def scanGroupedRejections (rows : List Joined) : List Rejection :=
  (rows.foldl groupRow []).reverse

/-- The rows of the newest rejections with their recipients in order. -/
def History.newest (history : History) (cutoff : ℤ) (limit : ℕ) : List Joined :=
  let recent := history.rejections.rows.filter fun row => cutoff ≤ row.2.rejectedAt
  let sorted := recent.insertionSort (newestFirst Prod.fst fun row => row.2.rejectedAt)
  (sorted.take limit).flatMap fun (id, row) =>
    (((history.recipients.filter fun (owner, _) => owner = id).map Prod.snd).insertionSort
      (· ≤ ·)).map fun recipient => ⟨id, row, recipient⟩

/-- A period that starts before the retention is shortened to it. -/
def retentionSince (o : RejectionOptions) (now rejectedSince : ℤ) : ℤ :=
  if rejectedSince ≠ zeroTime ∧ now - o.expiry < rejectedSince then rejectedSince
  else now - o.expiry

def listRejections (p : Platform) (o : RejectionOptions) (now : ℤ) (scope : RecipientScope)
    (rejectedSince : ℤ) (limit : ℕ) (history : History) :
    Except String (List Rejection × Bool) :=
  if ¬ 0 < o.expiry then .ok ([], false)
  else do
    scope.validate.mapError ("invalid rejection list query: " ++ ·)
    if limit < 1 then .error "rejection list limit must be positive"
    else
      let cutoff := unixMillis (retentionSince o now rejectedSince)
      if scope.all then
        return limitedPage (scanGroupedRejections (history.newest cutoff (limit + 1))) limit
      else if normalizeAddress p scope.address = [] then return ([], false)
      else
        let own := history.joined.filter fun joined =>
          joined.recipient = normalizeAddress p scope.address && cutoff ≤ joined.row.rejectedAt
        let sorted := own.insertionSort (newestFirst Joined.id fun joined => joined.row.rejectedAt)
        return limitedPage ((sorted.take (limit + 1)).map Joined.entry) limit

def rejectionByID (p : Platform) (o : RejectionOptions) (now : ℤ) (id : ℕ)
    (scope : RecipientScope) (history : History) : Except String (Option Rejection) :=
  if ¬ 0 < o.expiry ∨ id = 0 then .ok none
  else do
    scope.validate
    if scope.all = false ∧ normalizeAddress p scope.address = [] then return none
    else
      let found := history.joined.filter fun joined => joined.id = id &&
        unixMillis (now - o.expiry) ≤ joined.row.rejectedAt &&
        (scope.all || joined.recipient = normalizeAddress p scope.address)
      let sorted := found.insertionSort fun a b => a.recipient ≤ b.recipient
      return (scanGroupedRejections sorted).head?

/-- The rejections of one recipient. -/
def History.belonging (history : History) (recipient : Bytes) : List Joined :=
  history.joined.filter fun joined => joined.recipient = recipient

theorem filter_joined (history : History) (r : Bytes) (chosen : Joined → Bool) :
    (history.joined.filter fun joined => decide (joined.recipient = r) && chosen joined) =
      (history.belonging r).filter chosen := by
  simp only [History.belonging, List.filter_filter, Bool.and_comm]

theorem joined_filter (history : History) (r : Bytes) (chosen : Joined → Bool) :
    (history.joined.filter fun joined => chosen joined && decide (joined.recipient = r)) =
      (history.belonging r).filter chosen := List.filter_filter.symm

/-- Two histories have the same rejections of a recipient, ids included. -/
def SameRejections (recipient : Bytes) (history history' : History) : Prop :=
  ∀ joined, joined ∈ history.belonging recipient ↔ joined ∈ history'.belonging recipient

private theorem joined_key (history : History) :
    (history.joined.map fun joined => (joined.id, joined.recipient)).Sublist
      history.recipients := by
  unfold History.joined
  generalize history.recipients = recipients
  induction recipients with
  | nil => exact List.Sublist.slnil
  | cons first rest ih =>
    obtain ⟨id, recipient⟩ := first
    rw [List.filterMap_cons]
    dsimp only
    cases history.rejections.get id with
    | none => exact ih.cons (id, recipient)
    | some row => exact ih.cons_cons (id, recipient)

/-- A recipient has each rejection once. -/
theorem belonging_ids_nodup (history : History) (recipient : Bytes) :
    ((history.belonging recipient).map Joined.id).Nodup := by
  have hkeys : (history.joined.map fun joined => (joined.id, joined.recipient)).Nodup :=
    (joined_key history).nodup history.primary
  have hown : ((history.belonging recipient).map
      fun joined => (joined.id, joined.recipient)).Nodup :=
    (List.filter_sublist.map _).nodup hkeys
  refine List.Nodup.map_on ?_ hown.of_map
  intro a ha b hb hid
  have hra : a.recipient = recipient := by simpa using (List.mem_filter.mp ha).2
  have hrb : b.recipient = recipient := by simpa using (List.mem_filter.mp hb).2
  exact List.inj_on_of_nodup_map hown ha hb (Prod.ext hid (hra.trans hrb.symm))

theorem chosen_ids_nodup (history : History) (recipient : Bytes) (chosen : Joined → Bool) :
    (((history.belonging recipient).filter chosen).map Joined.id).Nodup :=
  (List.filter_sublist.map Joined.id).nodup (belonging_ids_nodup history recipient)

theorem SameRejections.perm {recipient : Bytes} {history history' : History}
    (h : SameRejections recipient history history') :
    (history.belonging recipient).Perm (history'.belonging recipient) :=
  (List.perm_ext_iff_of_nodup (belonging_ids_nodup history recipient).of_map
    (belonging_ids_nodup history' recipient).of_map).mpr h

/-- Both histories show the recent rejections of the recipient in the same order. -/
theorem sorted_congr {r : Bytes} {history history' : History}
    (h : SameRejections r history history') (cutoff : ℤ) :
    ((history.belonging r).filter fun joined => cutoff ≤ joined.row.rejectedAt).insertionSort
      (newestFirst Joined.id fun joined => joined.row.rejectedAt) =
    ((history'.belonging r).filter fun joined => cutoff ≤ joined.row.rejectedAt).insertionSort
      (newestFirst Joined.id fun joined => joined.row.rejectedAt) := by
  have hids := chosen_ids_nodup history r fun joined => decide (cutoff ≤ joined.row.rejectedAt)
  have hperm := h.perm.filter fun joined => decide (cutoff ≤ joined.row.rejectedAt)
  refine ((List.perm_insertionSort _ _).trans
    (hperm.trans (List.perm_insertionSort _ _).symm)).eq_of_pairwise ?_
      (List.pairwise_insertionSort _ _) (List.pairwise_insertionSort _ _)
  intro a b ha hb hab hba
  exact List.inj_on_of_nodup_map hids ((List.mem_insertionSort _).mp ha)
    (hperm.mem_iff.mpr ((List.mem_insertionSort _).mp hb)) (eq_of_newestFirst hab hba)

end MilterGuard.RejectionHistory
