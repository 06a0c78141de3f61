import MilterGuard.RejectionHistory

/-!
The history of one mailbox as a part of the whole history. The listing for a mailbox joins
the tables on the recipient; the listing for everyone regroups the rows of the newest
rejections. Both show the rejections of the mailbox in the same order.
-/
namespace MilterGuard.ScopedHistory

open ByteStrings RowListings RejectionHistory
open IPReputation (timeFromMillis)

/-- The rejections since the cutoff, the newest first. -/
def recent (history : History) (cutoff : ℤ) : List (ℕ × RejectionRow) :=
  (history.rejections.rows.filter fun row => cutoff ≤ row.2.rejectedAt).insertionSort
    (newestFirst Prod.fst fun row => row.2.rejectedAt)

def recipientsOf (history : History) (id : ℕ) : List Bytes :=
  ((history.recipients.filter fun (owner, _) => owner = id).map Prod.snd).insertionSort (· ≤ ·)

def entryOf (id : ℕ) (row : RejectionRow) (recipients : List Bytes) : Rejection :=
  ⟨id, row.sender, row.subject, recipients, timeFromMillis row.rejectedAt, row.reason⟩

/-- The entries that are addressed to the mailbox, without their other recipients. -/
def restricted (r : Bytes) (entries : List Rejection) : List Rejection :=
  (entries.filter fun entry => r ∈ entry.recipients).map fun entry =>
    { entry with recipients := [r] }

section Grouping

variable {rows : List (ℕ × RejectionRow)} {recipients : ℕ → List Bytes}

def rowsOf (recipients : ℕ → List Bytes) (rejection : ℕ × RejectionRow) : List Joined :=
  (recipients rejection.1).map fun recipient => ⟨rejection.1, rejection.2, recipient⟩

def grouped (recipients : ℕ → List Bytes) (rejection : ℕ × RejectionRow) : Option Rejection :=
  if recipients rejection.1 = [] then none
  else some (entryOf rejection.1 rejection.2 (recipients rejection.1))

/-- The rows of a rejection that has been begun add their recipients to it. -/
private theorem foldl_begun (id : ℕ) (row : RejectionRow) (read more : List Bytes)
    (entries : List Rejection) :
    (more.map fun recipient => (⟨id, row, recipient⟩ : Joined)).foldl groupRow
      (entryOf id row read :: entries) = entryOf id row (read ++ more) :: entries := by
  induction more generalizing read with
  | nil => rw [List.map_nil, List.foldl_nil, List.append_nil]
  | cons recipient more ih =>
    have hrow : groupRow (entryOf id row read :: entries) ⟨id, row, recipient⟩ =
        entryOf id row (read ++ [recipient]) :: entries := by
      simp [groupRow, entryOf]
    rw [List.map_cons, List.foldl_cons, hrow, ih, List.append_assoc, List.singleton_append]

private theorem foldl_rowsOf (recipients : ℕ → List Bytes) (rejection : ℕ × RejectionRow)
    (entries : List Rejection)
    (hfresh : ∀ entry ∈ entries.head?, entry.id ≠ rejection.1) :
    (rowsOf recipients rejection).foldl groupRow entries =
      (grouped recipients rejection).toList ++ entries := by
  obtain ⟨id, row⟩ := rejection
  unfold rowsOf grouped
  cases hrecipients : recipients id with
  | nil => simp
  | cons recipient more =>
    have hfirst : groupRow entries ⟨id, row, recipient⟩ =
        entryOf id row [recipient] :: entries := by
      cases entries with
      | nil => rfl
      | cons last rest =>
        have hne : last.id ≠ id := hfresh last rfl
        simp [groupRow, hne, Joined.entry, entryOf]
    rw [List.map_cons, List.foldl_cons, hfirst, foldl_begun]
    rfl

/-- By induction on the rejections; the entry read last belongs to none that follow. -/
private theorem foldl_flatMap_rowsOf (entries : List Rejection)
    (hids : (rows.map Prod.fst).Nodup)
    (hfresh : ∀ entry ∈ entries.head?, entry.id ∉ rows.map Prod.fst) :
    (rows.flatMap (rowsOf recipients)).foldl groupRow entries =
      (rows.filterMap (grouped recipients)).reverse ++ entries := by
  induction rows generalizing entries with
  | nil => rfl
  | cons rejection rest ih =>
    rw [List.map_cons, List.nodup_cons] at hids
    have hfirst := foldl_rowsOf recipients rejection entries fun entry hentry heq =>
      hfresh entry hentry (by rw [heq]; exact List.mem_cons_self)
    rw [List.flatMap_cons, List.foldl_append, hfirst, ih _ hids.2]
    · rw [List.filterMap_cons]
      cases grouped recipients rejection with
      | none => simp
      | some entry => simp
    · intro entry hentry
      by_cases hnone : recipients rejection.1 = []
      · rw [grouped, if_pos hnone] at hentry
        exact fun hmem => hfresh entry hentry (List.mem_cons_of_mem _ hmem)
      · rw [grouped, if_neg hnone] at hentry
        obtain rfl : entryOf rejection.1 rejection.2 (recipients rejection.1) = entry := by
          simpa using hentry
        exact hids.1

/-- Reading the rows of distinct rejections gives one entry for each that has recipients. -/
theorem scanGroupedRejections_flatMap (recipients : ℕ → List Bytes)
    (hids : (rows.map Prod.fst).Nodup) :
    scanGroupedRejections (rows.flatMap (rowsOf recipients)) =
      rows.filterMap (grouped recipients) := by
  unfold scanGroupedRejections
  rw [foldl_flatMap_rowsOf [] hids (by simp), List.append_nil, List.reverse_reverse]

end Grouping

section Order

variable (history : History) (cutoff : ℤ)

theorem mem_recent (rejection : ℕ × RejectionRow) :
    rejection ∈ recent history cutoff ↔
      history.rejections.get rejection.1 = some rejection.2 ∧ cutoff ≤ rejection.2.rejectedAt := by
  rw [recent, List.mem_insertionSort, List.mem_filter, KeyedTables.Table.get_eq_some_iff,
    decide_eq_true_eq]

theorem recent_ids_nodup : ((recent history cutoff).map Prod.fst).Nodup := by
  have hfilter : ((history.rejections.rows.filter fun row => cutoff ≤ row.2.rejectedAt).map
      Prod.fst).Nodup := (List.filter_sublist.map Prod.fst).nodup history.rejections.unique
  exact ((List.perm_insertionSort _ _).map Prod.fst).nodup_iff.mpr hfilter

theorem mem_recipientsOf (id : ℕ) (r : Bytes) :
    r ∈ recipientsOf history id ↔ (id, r) ∈ history.recipients := by
  rw [recipientsOf, List.mem_insertionSort, List.mem_map]
  constructor
  · rintro ⟨⟨owner, recipient⟩, hmem, rfl⟩
    obtain ⟨hstored, howner⟩ := List.mem_filter.mp hmem
    obtain rfl : owner = id := by simpa using howner
    exact hstored
  · intro hmem
    exact ⟨(id, r), List.mem_filter.mpr ⟨hmem, by simp⟩, rfl⟩

theorem mem_belonging (r : Bytes) (joined : Joined) :
    joined ∈ history.belonging r ↔ joined.recipient = r ∧
      history.rejections.get joined.id = some joined.row ∧
      (joined.id, r) ∈ history.recipients := by
  obtain ⟨id, row, recipient⟩ := joined
  rw [History.belonging, List.mem_filter, History.joined, List.mem_filterMap]
  constructor
  · rintro ⟨⟨⟨owner, name⟩, hmem, hrow⟩, hrecipient⟩
    obtain ⟨found, hget, heq⟩ := Option.map_eq_some_iff.mp hrow
    obtain ⟨rfl, rfl, rfl⟩ := Joined.mk.inj heq
    obtain rfl : name = r := by simpa using hrecipient
    exact ⟨rfl, hget, hmem⟩
  · rintro ⟨rfl, hget, hmem⟩
    refine ⟨⟨(id, recipient), hmem, ?_⟩, by simp⟩
    dsimp only at hget ⊢
    rw [hget]
    rfl

/-- The rows of the mailbox in the order of its listing are the recent rejections that are
addressed to it. -/
theorem sorted_belonging (r : Bytes) :
    ((history.belonging r).filter fun joined => cutoff ≤ joined.row.rejectedAt).insertionSort
      (newestFirst Joined.id fun joined => joined.row.rejectedAt) =
    ((recent history cutoff).filter fun rejection => (rejection.1, r) ∈ history.recipients).map
      fun rejection => ⟨rejection.1, rejection.2, r⟩ := by
  have hids := chosen_ids_nodup history r fun joined => decide (cutoff ≤ joined.row.rejectedAt)
  generalize hshown : ((recent history cutoff).filter _).map _ = shown
  have hotherIds : (shown.map Joined.id).Nodup := by
    rw [← hshown, List.map_map]
    exact (List.filter_sublist.map Prod.fst).nodup (recent_ids_nodup history cutoff)
  have hperm : ((history.belonging r).filter fun joined =>
      cutoff ≤ joined.row.rejectedAt).Perm shown := by
    refine (List.perm_ext_iff_of_nodup hids.of_map hotherIds.of_map).mpr fun joined => ?_
    rw [← hshown, List.mem_filter, mem_belonging, List.mem_map]
    constructor
    · rintro ⟨⟨rfl, hget, hmem⟩, hcutoff⟩
      refine ⟨(joined.id, joined.row), List.mem_filter.mpr ⟨?_, by simpa using hmem⟩, rfl⟩
      exact (mem_recent history cutoff _).mpr ⟨hget, by simpa using hcutoff⟩
    · rintro ⟨rejection, hrejection, rfl⟩
      obtain ⟨hrecent, hmem⟩ := List.mem_filter.mp hrejection
      obtain ⟨hget, hcutoff⟩ := (mem_recent history cutoff _).mp hrecent
      exact ⟨⟨rfl, hget, by simpa using hmem⟩, by simpa using hcutoff⟩
  refine ((List.perm_insertionSort _ _).trans hperm).eq_of_pairwise ?_
    (List.pairwise_insertionSort _ _) ?_
  · intro a b ha hb hab hba
    exact List.inj_on_of_nodup_map hids ((List.mem_insertionSort _).mp ha)
      (hperm.mem_iff.mpr hb) (eq_of_newestFirst hab hba)
  · rw [← hshown, List.pairwise_map]
    exact (List.pairwise_insertionSort _ _).filter _

/-- Restricting the listing of everyone gives the same rejections. -/
theorem restricted_grouped (r : Bytes) (rows : List (ℕ × RejectionRow)) :
    restricted r (rows.filterMap (grouped (recipientsOf history))) =
      (rows.filter fun rejection => (rejection.1, r) ∈ history.recipients).map
        fun rejection => entryOf rejection.1 rejection.2 [r] := by
  unfold restricted
  induction rows with
  | nil => rfl
  | cons rejection rest ih =>
    have haddressed := mem_recipientsOf history rejection.1 r
    rw [List.filterMap_cons, grouped]
    by_cases hmem : (rejection.1, r) ∈ history.recipients
    · have hlisted := haddressed.mpr hmem
      have hshown : decide (r ∈ (entryOf rejection.1 rejection.2
          (recipientsOf history rejection.1)).recipients) = true := decide_eq_true hlisted
      rw [if_neg (List.ne_nil_of_mem hlisted)]
      rw [List.filter_cons, if_pos hshown, List.map_cons, ih, List.filter_cons,
        if_pos (decide_eq_true hmem)]
      rfl
    · have hhidden : ¬ decide (r ∈ (entryOf rejection.1 rejection.2
          (recipientsOf history rejection.1)).recipients) = true := by
        rw [decide_eq_true_eq]
        exact fun h => hmem (haddressed.mp h)
      rw [List.filter_cons_of_neg (by simpa using hmem), ← ih]
      by_cases hnone : recipientsOf history rejection.1 = []
      · rw [if_pos hnone]
      · rw [if_neg hnone]
        rw [List.filter_cons, if_neg hhidden]

end Order

end MilterGuard.ScopedHistory
