import MilterGuard.ScopedHistory

/-!
The pages and records that a mailbox sees of the rejection history. They are what the
whole history shows of it, and other rejections have no part in them.
-/
namespace MilterGuard.MailboxHistory

open ByteStrings MailAddresses BlocklistTable RowListings RejectionHistory ScopedHistory
open IPReputation (unixMillis limitedPage)

/-- The rejection is retained; a history that is switched off retains nothing. -/
def Unexpired (o : RejectionOptions) (now : ℤ) (row : RejectionRow) : Prop :=
  0 < o.expiry ∧ unixMillis (now - o.expiry) ≤ row.rejectedAt

section Listings

variable {p : Platform} {o : RejectionOptions} {address : Bytes}

theorem validate_address (haddress : normalizeAddress p address ≠ []) :
    RecipientScope.validate ⟨false, address⟩ = .ok () := by
  have htrimmed : trimSpace address ≠ [] := by
    intro hblank
    apply haddress
    unfold normalizeAddress
    rw [if_pos (Or.inl hblank)]
  simp [RecipientScope.validate, htrimmed]

/-- A page of a list that was read up to one entry past the limit. -/
theorem limitedPage_take {α : Type} (entries : List α) (limit : ℕ) :
    limitedPage (entries.take (limit + 1)) limit =
      (entries.take limit, decide (limit < entries.length)) := by
  unfold limitedPage
  rw [List.take_take, Nat.min_eq_left (Nat.le_succ limit), List.length_take]
  congr 1
  rw [decide_eq_decide]
  omega

theorem listRejections_scoped (haddress : normalizeAddress p address ≠ []) (now since : ℤ)
    {limit : ℕ} (hlimit : 1 ≤ limit) (hexpiry : 0 < o.expiry) (history : History) :
    listRejections p o now ⟨false, address⟩ since limit history =
      .ok (limitedPage (((((history.belonging (normalizeAddress p address)).filter fun joined =>
        unixMillis (retentionSince o now since) ≤ joined.row.rejectedAt).insertionSort
          (newestFirst Joined.id fun joined => joined.row.rejectedAt)).map Joined.entry).take
            (limit + 1)) limit) := by
  unfold listRejections
  rw [if_neg (not_not.mpr hexpiry), validate_address haddress]
  simp only [filter_joined, haddress, Nat.not_lt.mpr hlimit, List.map_take]
  rfl

theorem listRejections_all (now since : ℤ) {limit : ℕ} (hlimit : 1 ≤ limit)
    (hexpiry : 0 < o.expiry) (history : History) (hall : history.rejections.rows.length ≤ limit) :
    listRejections p o now ⟨true, []⟩ since limit history =
      .ok ((recent history (unixMillis (retentionSince o now since))).filterMap
        (grouped (recipientsOf history)), false) := by
  have hlength : (recent history (unixMillis (retentionSince o now since))).length ≤ limit := by
    rw [recent, List.length_insertionSort]
    exact (List.length_filter_le _ _).trans hall
  have hentries := scanGroupedRejections_flatMap (recipientsOf history)
    (recent_ids_nodup history (unixMillis (retentionSince o now since)))
  have hshort := (List.length_filterMap_le (grouped (recipientsOf history)) _).trans hlength
  have hnewest : history.newest (unixMillis (retentionSince o now since)) (limit + 1) =
      (recent history (unixMillis (retentionSince o now since))).flatMap
        (rowsOf (recipientsOf history)) := by
    change ((recent history _).take (limit + 1)).flatMap _ = _
    rw [List.take_of_length_le (by omega)]
    rfl
  unfold listRejections
  rw [if_neg (not_not.mpr hexpiry)]
  simp only [Nat.not_lt.mpr hlimit, hnewest, hentries]
  change Except.ok (limitedPage _ limit) = _
  rw [limitedPage, List.take_of_length_le hshort, decide_eq_false (by omega)]

/-- The rejection with the id, if it belongs to the mailbox. -/
def retained (history : History) (o : RejectionOptions) (now : ℤ) (id : ℕ) (r : Bytes) :
    Option Rejection :=
  match history.rejections.get id with
  | none => none
  | some row =>
    if (id, r) ∈ history.recipients ∧ 0 < o.expiry ∧ unixMillis (now - o.expiry) ≤ row.rejectedAt
    then some (entryOf id row [r]) else none

theorem retained_eq_some_iff (history : History) (o : RejectionOptions) (now : ℤ) (id : ℕ)
    (r : Bytes) (entry : Rejection) :
    retained history o now id r = some entry ↔ ∃ row, history.rejections.get id = some row ∧
      (id, r) ∈ history.recipients ∧ Unexpired o now row ∧ entry = entryOf id row [r] := by
  unfold retained Unexpired
  cases history.rejections.get id with
  | none => simp
  | some row => simp [eq_comm, and_assoc]

/-- At most one row of the mailbox has the id. -/
theorem belonging_id (history : History) (r : Bytes) (id : ℕ) (cutoff : ℤ) :
    ((history.belonging r).filter fun joined =>
      decide (joined.id = id) && decide (cutoff ≤ joined.row.rejectedAt)) =
    match history.rejections.get id with
    | none => []
    | some row => if (id, r) ∈ history.recipients ∧ cutoff ≤ row.rejectedAt then [⟨id, row, r⟩]
      else [] := by
  generalize hfound : (history.belonging r).filter _ = found
  have hids : (found.map Joined.id).Nodup := hfound ▸ chosen_ids_nodup history r _
  have hmem : ∀ joined, joined ∈ found ↔ joined.id = id ∧ joined.recipient = r ∧
      history.rejections.get id = some joined.row ∧ (id, r) ∈ history.recipients ∧
      cutoff ≤ joined.row.rejectedAt := by
    intro joined
    rw [← hfound, List.mem_filter, mem_belonging, Bool.and_eq_true, decide_eq_true_eq,
      decide_eq_true_eq]
    constructor
    · rintro ⟨⟨hr, hget, haddressed⟩, rfl, hcutoff⟩
      exact ⟨rfl, hr, hget, haddressed, hcutoff⟩
    · rintro ⟨rfl, hr, hget, haddressed, hcutoff⟩
      exact ⟨⟨hr, hget, haddressed⟩, rfl, hcutoff⟩
  have hempty : (¬ ∃ joined, joined ∈ found) → found = [] := fun h =>
    List.eq_nil_iff_forall_not_mem.mpr fun joined hjoined => h ⟨joined, hjoined⟩
  cases hget : history.rejections.get id with
  | none =>
    refine hempty ?_
    rintro ⟨joined, hjoined⟩
    have hrow := ((hmem joined).mp hjoined).2.2.1
    rw [hget] at hrow
    exact nomatch hrow
  | some row =>
    dsimp only
    by_cases hheld : (id, r) ∈ history.recipients ∧ cutoff ≤ row.rejectedAt
    · rw [if_pos hheld]
      refine List.perm_singleton.mp
        ((List.perm_ext_iff_of_nodup hids.of_map (List.nodup_singleton _)).mpr fun joined => ?_)
      rw [hmem, hget, List.mem_singleton]
      constructor
      · rintro ⟨rfl, rfl, hrow, -, -⟩
        rw [Option.some.injEq] at hrow
        rw [hrow]
      · rintro rfl
        exact ⟨rfl, rfl, rfl, hheld⟩
    · rw [if_neg hheld]
      refine hempty ?_
      rintro ⟨joined, hjoined⟩
      obtain ⟨-, -, hrow, haddressed, hcutoff⟩ := (hmem joined).mp hjoined
      rw [hget, Option.some.injEq] at hrow
      rw [hrow] at hheld
      exact hheld ⟨haddressed, hcutoff⟩

theorem rejectionByID_scoped (haddress : normalizeAddress p address ≠ []) (now : ℤ) {id : ℕ}
    (hid : 0 < id) (history : History) :
    rejectionByID p o now id ⟨false, address⟩ history =
      .ok (retained history o now id (normalizeAddress p address)) := by
  unfold rejectionByID retained
  by_cases hexpiry : 0 < o.expiry
  · rw [if_neg (by simp [hexpiry, hid.ne']), validate_address haddress]
    simp only [Bool.false_or, joined_filter, belonging_id, haddress, and_false, if_false]
    cases history.rejections.get id with
    | none => rfl
    | some row =>
      dsimp only
      by_cases hheld : (id, normalizeAddress p address) ∈ history.recipients ∧
          unixMillis (now - o.expiry) ≤ row.rejectedAt
      · rw [if_pos hheld, if_pos ⟨hheld.1, hexpiry, hheld.2⟩]
        rfl
      · rw [if_neg hheld, if_neg fun h => hheld ⟨h.1, h.2.2⟩]
        rfl
  · rw [if_pos (Or.inl hexpiry)]
    cases history.rejections.get id with
    | none => rfl
    | some row =>
      dsimp only
      rw [if_neg fun h => hexpiry h.2.1]

end Listings

section Isolation

variable {history history' : History} {r : Bytes}

theorem retained_congr (h : SameRejections r history history') (o : RejectionOptions) (now : ℤ)
    (id : ℕ) : retained history o now id r = retained history' o now id r := by
  have hrows : ∀ {t t' : History}, SameRejections r t t' → ∀ {row : RejectionRow},
      t.rejections.get id = some row → (id, r) ∈ t.recipients →
        t'.rejections.get id = some row ∧ (id, r) ∈ t'.recipients := by
    intro t t' hsame row hget haddressed
    have hmem := (hsame ⟨id, row, r⟩).mp ((mem_belonging t r _).mpr ⟨rfl, hget, haddressed⟩)
    exact ((mem_belonging t' r _).mp hmem).2
  ext entry
  rw [retained_eq_some_iff, retained_eq_some_iff]
  constructor
  · rintro ⟨row, hget, haddressed, hshown⟩
    obtain ⟨hget', haddressed'⟩ := hrows h hget haddressed
    exact ⟨row, hget', haddressed', hshown⟩
  · rintro ⟨row, hget, haddressed, hshown⟩
    obtain ⟨hget', haddressed'⟩ := hrows (fun joined => (h joined).symm) hget haddressed
    exact ⟨row, hget', haddressed', hshown⟩

end Isolation

/-- The history of a mailbox is the part of the whole history that is addressed to it, page
by page and record by record, and depends on no other rejections. -/
theorem scoped_history_restricts (p : Platform) (o : RejectionOptions) (now since : ℤ)
    (history : History) (address : Bytes) (haddress : normalizeAddress p address ≠ [])
    {limit unlimited : ℕ} (hlimit : 1 ≤ limit) (hunlimited : 1 ≤ unlimited)
    (hall : history.rejections.rows.length ≤ unlimited) :
    (∃ all, listRejections p o now ⟨true, []⟩ since unlimited history = .ok (all, false) ∧
      listRejections p o now ⟨false, address⟩ since limit history =
        .ok ((restricted (normalizeAddress p address) all).take limit,
          decide (limit < (restricted (normalizeAddress p address) all).length))) ∧
    (∀ id, 0 < id → ∃ found, rejectionByID p o now id ⟨false, address⟩ history = .ok found ∧
      ∀ entry, found = some entry ↔ ∃ row, history.rejections.get id = some row ∧
        (id, normalizeAddress p address) ∈ history.recipients ∧ Unexpired o now row ∧
        entry = entryOf id row [normalizeAddress p address]) ∧
    (∀ history', SameRejections (normalizeAddress p address) history history' →
      listRejections p o now ⟨false, address⟩ since limit history' =
        listRejections p o now ⟨false, address⟩ since limit history ∧
      ∀ id, rejectionByID p o now id ⟨false, address⟩ history' =
        rejectionByID p o now id ⟨false, address⟩ history) := by
  refine ⟨?_, fun id hid => ?_, fun history' hsame => ⟨?_, fun id => ?_⟩⟩
  · by_cases hexpiry : 0 < o.expiry
    · refine ⟨_, listRejections_all now since hunlimited hexpiry history hall, ?_⟩
      rw [listRejections_scoped haddress now since hlimit hexpiry, limitedPage_take,
        sorted_belonging, restricted_grouped, List.map_map]
      rfl
    · refine ⟨[], ?_, ?_⟩
      · unfold listRejections
        rw [if_pos hexpiry]
      · unfold listRejections
        rw [if_pos hexpiry]
        simp [restricted]
  · exact ⟨_, rejectionByID_scoped haddress now hid history,
      retained_eq_some_iff history o now id _⟩
  · by_cases hexpiry : 0 < o.expiry
    · rw [listRejections_scoped haddress now since hlimit hexpiry,
        listRejections_scoped haddress now since hlimit hexpiry, sorted_congr hsame]
    · unfold listRejections
      rw [if_pos hexpiry, if_pos hexpiry]
  · cases id with
    | zero =>
      unfold rejectionByID
      rw [if_pos (Or.inr rfl), if_pos (Or.inr rfl)]
    | succ id =>
      rw [rejectionByID_scoped haddress now (Nat.succ_pos id),
        rejectionByID_scoped haddress now (Nat.succ_pos id), retained_congr hsame]

/-- Two rejections, the second one with a recipient that the first one does not have. -/
def sharedHistory : History where
  rejections := ⟨[(1, ⟨ascii "x@y.zz", [], 10, []⟩), (2, ⟨ascii "x@y.zz", [], 20, []⟩)], by decide⟩
  recipients := [(1, ascii "a@b.cd"), (2, ascii "a@b.cd"), (2, ascii "e@b.cd")]
  primary := by decide

theorem sharedHistory_restricts :
    normalizeAddress bareAddresses (ascii "a@b.cd") ≠ [] ∧
    ∃ all, listRejections bareAddresses ⟨1000⟩ 0 ⟨true, []⟩ 0 2 sharedHistory =
        .ok (all, false) ∧
      listRejections bareAddresses ⟨1000⟩ 0 ⟨false, ascii "a@b.cd"⟩ 0 1 sharedHistory =
        .ok ((restricted (normalizeAddress bareAddresses (ascii "a@b.cd")) all).take 1,
          decide (1 < (restricted (normalizeAddress bareAddresses (ascii "a@b.cd")) all).length)) :=
  have haddress : normalizeAddress bareAddresses (ascii "a@b.cd") ≠ [] := by decide +kernel
  ⟨haddress, (scoped_history_restricts bareAddresses ⟨1000⟩ 0 0 sharedHistory (ascii "a@b.cd")
    haddress (le_refl 1) (by decide) (le_refl 2)).1⟩

end MilterGuard.MailboxHistory
