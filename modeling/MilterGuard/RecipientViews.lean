import MilterGuard.AdminCommands
import MilterGuard.RejectionHistory

/-!
What one recipient has in the stores. A change for a recipient keeps the rows of
everyone else, and its effect on the recipient's own rows depends on those rows only.
Row ids are not compared; their order is, since a listing breaks ties by it.
-/
namespace MilterGuard.RecipientViews

open ByteStrings MailAddresses AdminCommands RowListings SenderLists RejectionHistory
open BlocklistTable hiding addSenderBlock deleteSenderBlocks
open IPReputation (unixMillis timeFromMillis zeroTime limitedPage)
open SenderLists.Lists (names)

/-- An address that normalization leaves as it is. -/
structure Mailbox (p : Platform) (r : Bytes) : Prop where
  fixed : normalizeAddress p r = r
  nonempty : r ≠ []

namespace Mailbox

variable {p : Platform} {r : Bytes}

theorem trimmed (h : Mailbox p r) : trimSpace r ≠ everyone ∧ trimSpace r ≠ [] := by
  have hblank := mailbox_not_blank p r (by rw [h.fixed]; exact h.nonempty)
  rwa [h.fixed] at hblank

theorem ne_everyone (h : Mailbox p r) : r ≠ everyone := by
  intro heq
  apply h.trimmed.1
  rw [heq]
  decide

theorem scope (h : Mailbox p r) : recipientScope r = ⟨false, r⟩ := if_neg h.ne_everyone

theorem validate (h : Mailbox p r) : RecipientScope.validate ⟨false, r⟩ = .ok () := by
  simp [RecipientScope.validate, h.trimmed.2]

theorem normalizeRecipient_eq (h : Mailbox p r) : normalizeRecipient p r = r := by
  unfold normalizeRecipient
  rw [if_neg h.trimmed.1, h.fixed]

theorem listRecipient_eq (h : Mailbox p r) :
    listRecipient p ⟨false, r⟩ = some fun recipient => decide (recipient = r) := by
  simp [listRecipient, h.fixed, h.nonempty]

end Mailbox

variable (r : Bytes) (lists : Lists)

/-! ### The recipient's rows -/

def ownBlocks : List Row :=
  lists.blocklist.rows.filter fun row => row.recipient = r

/-- A block without its id. -/
def blockContent (row : Row) : (Bytes × SenderBlockKind × Bytes) × ℕ := (row.key, row.expiresAt)

/-- A correspondent without its id. -/
def correspondentContent (row : Correspondent) : ℤ × ℤ × CorrespondentKind × ℕ :=
  (row.learnedAt, row.lastActivityAt, row.whitelistType, row.legitimateEmailCount)

/-- The rows of everyone but the recipient are as they were. -/
structure OthersKept (left : Lists) : Prop where
  blocks : left.blocklist.rows.filter (fun row => row.recipient ≠ r) =
    lists.blocklist.rows.filter fun row => row.recipient ≠ r
  correspondents : ∀ key, key.1 ≠ r →
    left.correspondents.get key = lists.correspondents.get key

theorem OthersKept.refl : OthersKept r lists lists :=
  ⟨rfl, fun _ _ => rfl⟩

def SameCorrespondents (table table' : Correspondents) : Prop :=
  ∀ sender, (table.get (r, sender)).map correspondentContent =
    (table'.get (r, sender)).map correspondentContent

/-- The recipient has the same rows up to their ids. -/
structure SameLists (lists' : Lists) : Prop where
  blocks : SameContent blockContent (ownBlocks r lists) (ownBlocks r lists')
  correspondents : SameCorrespondents r lists.correspondents lists'.correspondents

/-- The recipient has the same rows, and the ids of blocks are in the same order. -/
structure AlignedLists (lists' : Lists) : Prop where
  blocks : Aligned Row.id Row.key blockContent (ownBlocks r lists) (ownBlocks r lists')
  correspondents : SameCorrespondents r lists.correspondents lists'.correspondents

theorem AlignedLists.same {r : Bytes} {lists lists' : Lists} (h : AlignedLists r lists lists') :
    SameLists r lists lists' := ⟨h.blocks.same, h.correspondents⟩

theorem ownBlocks_keys_nodup : ((ownBlocks r lists).map Row.key).Nodup :=
  (List.filter_sublist.map Row.key).nodup lists.blocklist.unique

/-- No two blocks of the recipient have the same content. -/
theorem ownBlocks_contents_nodup (chosen : Row → Bool) (lists : Lists) :
    (((ownBlocks r lists).filter chosen).map blockContent).Nodup := by
  apply List.Nodup.of_map Prod.fst
  rw [List.map_map]
  exact (List.filter_sublist.map Row.key).nodup (ownBlocks_keys_nodup r lists)

/-- A condition that implies the recipient selects among the recipient's rows. -/
theorem filter_ownBlocks (chosen : Row → Bool) (h : ∀ row, chosen row → row.recipient = r) :
    (ownBlocks r lists).filter chosen = lists.blocklist.rows.filter chosen := by
  unfold ownBlocks
  rw [List.filter_filter]
  apply List.filter_congr
  intro row _
  cases hchosen : chosen row with
  | false => simp
  | true => simp [h row hchosen]

theorem selects_own {kind : SenderBlockKind} {value r : Bytes} {row : Row}
    (h : selects kind value (some r) row) : row.recipient = r :=
  congrArg Prod.fst ((selects_some_iff kind value r row).mp h)

theorem selects_content {kind : SenderBlockKind} {value r : Bytes} {a b : Row}
    (h : blockContent a = blockContent b) :
    selects kind value (some r) a = selects kind value (some r) b := by
  have hkey : a.key = b.key := congrArg Prod.fst h
  rw [Bool.eq_iff_iff, selects_some_iff, selects_some_iff, hkey]

/-! ### Changes -/

section Changes

variable {r : Bytes} {lists lists' : Lists}

theorem ownBlocks_deleteBlocks (r : Bytes) (lists : Lists) (chosen : Row → Bool) :
    ownBlocks r (lists.deleteBlocks chosen) =
      (ownBlocks r lists).filter fun row => !chosen row := by
  simp only [ownBlocks, Lists.deleteBlocks, Table.delete, List.filter_filter, Bool.and_comm]

theorem deleteBlocks_kept (kind : SenderBlockKind) (value : Bytes) :
    OthersKept r lists (lists.deleteBlocks (selects kind value (some r))) where
  blocks := by
    apply delete_filter_other
    intro row _ hother
    rw [← Bool.not_eq_true]
    intro hselected
    exact hother (selects_own hselected)
  correspondents _ _ := rfl

theorem AlignedLists.deleteBlocks (h : AlignedLists r lists lists') (kind : SenderBlockKind)
    (value : Bytes) :
    AlignedLists r (lists.deleteBlocks (selects kind value (some r)))
      (lists'.deleteBlocks (selects kind value (some r))) where
  blocks := by
    rw [ownBlocks_deleteBlocks, ownBlocks_deleteBlocks]
    apply h.blocks.filter
    intro a b hcontent
    rw [selects_content hcontent]
  correspondents := h.correspondents

/-- The number of rows that a deletion reports. -/
theorem SameLists.countP_eq (h : SameLists r lists lists') (kind : SenderBlockKind)
    (value : Bytes) :
    lists.blocklist.rows.countP (selects kind value (some r)) =
      lists'.blocklist.rows.countP (selects kind value (some r)) := by
  have hsame := h.blocks.filter (selects kind value (some r)) fun a b => selects_content
  rw [List.countP_eq_length_filter, List.countP_eq_length_filter,
    ← filter_ownBlocks r lists _ fun row => selects_own,
    ← filter_ownBlocks r lists' _ fun row => selects_own]
  exact hsame.length_eq (ownBlocks_contents_nodup r _ lists) (ownBlocks_contents_nodup r _ lists')

private def refreshed (row old : Row) : Row :=
  if old.key = row.key then { old with expiresAt := row.expiresAt } else old

private theorem refreshed_recipient (row old : Row) :
    (refreshed row old).recipient = old.recipient := by
  unfold refreshed
  split <;> rfl

theorem mem_ownBlocks_keys (lists : Lists) {key : Bytes × SenderBlockKind × Bytes}
    (h : key.1 = r) :
    key ∈ (ownBlocks r lists).map Row.key ↔ key ∈ lists.blocklist.rows.map Row.key := by
  simp only [ownBlocks, List.mem_map, List.mem_filter, decide_eq_true_eq]
  constructor
  · rintro ⟨old, ⟨hold, _⟩, hkey⟩
    exact ⟨old, hold, hkey⟩
  · rintro ⟨old, hold, hkey⟩
    exact ⟨old, ⟨hold, (congrArg Prod.fst hkey).trans h⟩, hkey⟩

/-- An upsert for the recipient works on the recipient's rows. -/
theorem ownBlocks_upsertBlock (lists : Lists) (row : Row)
    (hid : row.id ∉ lists.blocklist.rows.map Row.id) (hrow : row.recipient = r) :
    ownBlocks r (lists.upsertBlock row hid) = upsertRows (ownBlocks r lists) row := by
  have hkeys := mem_ownBlocks_keys lists (show row.key.1 = r from hrow)
  show (upsertRows lists.blocklist.rows row).filter _ = _
  unfold upsertRows
  rw [if_congr hkeys rfl rfl]
  split
  · show (lists.blocklist.rows.map (refreshed row)).filter _ =
      (ownBlocks r lists).map (refreshed row)
    rw [List.filter_map]
    apply congrArg (List.map (refreshed row))
    apply List.filter_congr
    simp [refreshed_recipient]
  · simp [ownBlocks, hrow]

theorem upsertBlock_kept (row : Row) (hid : row.id ∉ lists.blocklist.rows.map Row.id)
    (hrow : row.recipient = r) : OthersKept r lists (lists.upsertBlock row hid) where
  blocks := upsert_filter_other lists.blocklist row r hrow
  correspondents _ _ := rfl

private theorem refreshed_content (row row' : Row) (hkey : row.key = row'.key)
    (hexpires : row.expiresAt = row'.expiresAt) : refreshed row = refreshed row' := by
  unfold refreshed
  rw [hkey, hexpires]

private theorem refreshed_key (row old : Row) : (refreshed row old).key = old.key := by
  unfold refreshed
  split <;> rfl

private theorem refreshed_id (row old : Row) : (refreshed row old).id = old.id := by
  unfold refreshed
  split <;> rfl

private theorem refreshed_blockContent (row a b : Row) (h : blockContent a = blockContent b) :
    blockContent (refreshed row a) = blockContent (refreshed row b) := by
  have hkey : a.key = b.key := congrArg Prod.fst h
  unfold refreshed
  rw [hkey]
  split
  · show (a.key, row.expiresAt) = (b.key, row.expiresAt)
    rw [hkey]
  · exact h

theorem key_mem_iff {rows rows' : List Row} (h : SameContent blockContent rows rows')
    (key : Bytes × SenderBlockKind × Bytes) :
    key ∈ rows.map Row.key ↔ key ∈ rows'.map Row.key := by
  have hleft : ∀ {l l' : List Row}, SameContent blockContent l l' →
      key ∈ l.map Row.key → key ∈ l'.map Row.key := by
    intro l l' hsame hkey
    obtain ⟨row, hrow, rfl⟩ := List.mem_map.mp hkey
    obtain ⟨other, hother, hcontent⟩ := hsame.symm.exists_left hrow
    exact List.mem_map.mpr ⟨other, hother, congrArg Prod.fst hcontent⟩
  exact ⟨hleft h, hleft h.symm⟩

private theorem upsertRows_eq (rows : List Row) (row : Row) :
    upsertRows rows row =
      if row.key ∈ rows.map Row.key then rows.map (refreshed row) else rows ++ [row] := rfl

private theorem upsertRows_agree {rows rows' : List Row} {row row' : Row} {growing : Prop}
    (h : Aligned Row.id Row.key blockContent rows rows')
    (hrow : blockContent row = blockContent row')
    (hids : growing → (∀ old ∈ rows, old.id < row.id) ∧ ∀ old ∈ rows', old.id < row'.id) :
    SameContent blockContent (upsertRows rows row) (upsertRows rows' row') ∧
      (growing → Aligned Row.id Row.key blockContent (upsertRows rows row)
        (upsertRows rows' row')) := by
  have hkey : row.key = row'.key := congrArg Prod.fst hrow
  have hmem := key_mem_iff h.same row'.key
  rw [upsertRows_eq, upsertRows_eq, hkey, if_congr hmem rfl rfl]
  split
  · rw [refreshed_content row row' hkey (congrArg Prod.snd hrow)]
    have hmapped := h.map _ (refreshed_blockContent row') (refreshed_id row') (refreshed_key row')
    exact ⟨hmapped.same, fun _ => hmapped⟩
  · refine ⟨h.same.append hrow, fun hgrowing => ?_⟩
    apply h.append hrow hkey _ _ (hids hgrowing).1 (hids hgrowing).2
    · rwa [hkey, hmem]
    · rwa [hkey]

/-- The rows that two runs add may get different ids. -/
theorem AlignedLists.upsertBlock (h : AlignedLists r lists lists') {row row' : Row} {growing : Prop}
    (hid : row.id ∉ lists.blocklist.rows.map Row.id)
    (hid' : row'.id ∉ lists'.blocklist.rows.map Row.id) (howner : row.recipient = r)
    (hrow : blockContent row = blockContent row')
    (hlast : growing → (∀ id ∈ lists.blocklist.rows.map Row.id, id < row.id) ∧
      ∀ id ∈ lists'.blocklist.rows.map Row.id, id < row'.id) :
    SameLists r (lists.upsertBlock row hid) (lists'.upsertBlock row' hid') ∧
      (growing → AlignedLists r (lists.upsertBlock row hid) (lists'.upsertBlock row' hid')) := by
  have howner' : row'.recipient = r :=
    (congrArg (fun content => content.1.1) hrow).symm.trans howner
  have hblocks := upsertRows_agree h.blocks hrow fun hgrowing =>
    ⟨fun old hold => (hlast hgrowing).1 _ (List.mem_map_of_mem (List.mem_filter.mp hold).1),
      fun old hold => (hlast hgrowing).2 _ (List.mem_map_of_mem (List.mem_filter.mp hold).1)⟩
  rw [← ownBlocks_upsertBlock lists row hid howner,
    ← ownBlocks_upsertBlock lists' row' hid' howner'] at hblocks
  exact ⟨⟨hblocks.1, h.correspondents⟩, fun hgrowing => ⟨hblocks.2 hgrowing, h.correspondents⟩⟩

theorem deleteCorrespondents_kept (sender : Bytes) :
    OthersKept r lists (lists.deleteCorrespondents (names sender (some r))) where
  blocks := rfl
  correspondents := by
    intro key hother
    simp [Lists.deleteCorrespondents, KeyedTables.Table.get_edit, names, hother]

theorem SameCorrespondents.delete {table table' : Correspondents}
    (h : SameCorrespondents r table table') (chosen : Bytes × Bytes → Bool) :
    SameCorrespondents r (table.edit fun key row => if chosen key then none else some row)
      (table'.edit fun key row => if chosen key then none else some row) := by
  intro sender
  rw [KeyedTables.Table.get_edit, KeyedTables.Table.get_edit]
  cases chosen (r, sender) with
  | true => simp
  | false => simpa using h sender

theorem SameCorrespondents.put {table table' : Correspondents}
    (h : SameCorrespondents r table table') (sender : Bytes) {row row' : Correspondent}
    (hrow : correspondentContent row = correspondentContent row') :
    SameCorrespondents r (table.put (r, sender) row) (table'.put (r, sender) row') := by
  intro other
  rw [KeyedTables.Table.get_put, KeyedTables.Table.get_put]
  split
  · simp [hrow]
  · exact h other

end Changes

/-! ### Statements for one recipient -/

/-- Two runs of a change: the same answer, and the recipient has the same rows after
it; the rows stay aligned while the ids of new rows grow. -/
inductive Agrees {α : Type} (r : Bytes) (growing : Prop) :
    Except String (α × Lists) → Except String (α × Lists) → Prop
  | changed {a : α} {left left' : Lists} (same : SameLists r left left')
      (aligned : growing → AlignedLists r left left') :
      Agrees r growing (.ok (a, left)) (.ok (a, left'))
  | failed (text : String) : Agrees r growing (.error text) (.error text)

theorem Agrees.of_aligned {α : Type} {r : Bytes} {growing : Prop} {a : α} {left left' : Lists}
    (h : AlignedLists r left left') : Agrees r growing (.ok (a, left)) (.ok (a, left')) :=
  .changed h.same fun _ => h

section Statements

variable {p : Platform} {r : Bytes} {growing : Prop}

theorem deleteSenderBlocks_own (hr : Mailbox p r) (o : SenderBlocklistOptions)
    (kind : SenderBlockKind) (value : Bytes) (lists : Lists) :
    deleteSenderBlocks p o kind value ⟨false, r⟩ lists =
      if ¬ o.available then .error "sender blocklist repository is unavailable"
      else (normalizeBlockSender p kind value).map fun value =>
        (lists.blocklist.rows.countP (selects kind value (some r)),
          lists.deleteBlocks (selects kind value (some r))) := by
  have hrecipient : deleteRecipient p ⟨false, r⟩ = .ok (some r) := by
    simp [deleteRecipient, hr.fixed, hr.nonempty]
  unfold deleteSenderBlocks
  rw [hr.validate, hrecipient]
  cases normalizeBlockSender p kind value with
  | error text => rfl
  | ok sender => rfl

theorem addSenderBlock_own (hr : Mailbox p r) (o : SenderBlocklistOptions) (now : ℤ)
    (ids : RowIds) (kind : SenderBlockKind) (value : Bytes) (lists : Lists) :
    addSenderBlock p o now ids r kind value lists =
      if ¬ o.available then .error "sender blocklist repository is unavailable"
      else (normalizeBlockSender p kind value).map fun value =>
        ((decide ((r, kind, value) ∉ lists.blocklist.rows.map Row.key), now + o.expiry),
          { lists.upsertBlock (newBlock o now ids r kind value lists) (ids.unused _) with
            correspondents := (clearContradicted kind r value lists).correspondents }) := by
  have hrecipient : normalizeBlockRecipient p r = .ok r := by
    simp [normalizeBlockRecipient, hr.trimmed.1, hr.fixed, hr.nonempty]
  unfold addSenderBlock
  rw [hrecipient]
  cases normalizeBlockSender p kind value with
  | error text => rfl
  | ok sender => rfl

theorem clearContradicted_own (hr : Mailbox p r) (sender : Bytes) (lists : Lists) :
    clearContradicted .exactMailbox r sender lists =
      lists.deleteCorrespondents (names sender (some r)) := by
  show lists.deleteCorrespondents _ = _
  rw [if_neg hr.ne_everyone]

theorem clearContradicted_kept (hr : Mailbox p r) (kind : SenderBlockKind) (sender : Bytes)
    (lists : Lists) : OthersKept r lists (clearContradicted kind r sender lists) := by
  cases kind with
  | exactMailbox =>
    rw [clearContradicted_own hr]
    exact deleteCorrespondents_kept sender
  | domain => exact .refl r lists

variable {left lists' lists : Lists}

theorem SameCorrespondents.clearContradicted
    (h : SameCorrespondents r lists.correspondents lists'.correspondents) (kind : SenderBlockKind)
    (sender : Bytes) :
    SameCorrespondents r (clearContradicted kind r sender lists).correspondents
      (SenderLists.clearContradicted kind r sender lists').correspondents := by
  cases kind with
  | exactMailbox =>
    exact h.delete _
  | domain => exact h

section

variable (hr : Mailbox p r) (o : SenderBlocklistOptions) (kind : SenderBlockKind) (value : Bytes)

include hr

theorem deleteSenderBlocks_kept {removed : ℕ}
    (h : deleteSenderBlocks p o kind value ⟨false, r⟩ lists = .ok (removed, left)) :
    OthersKept r lists left := by
  rw [deleteSenderBlocks_own hr] at h
  split at h
  · cases h
  · cases hsender : normalizeBlockSender p kind value with
    | error text => simp [hsender, Except.map] at h
    | ok sender =>
      simp only [hsender] at h
      obtain ⟨-, rfl⟩ := h
      exact deleteBlocks_kept kind sender

theorem deleteSenderBlocks_agrees (h : AlignedLists r lists lists') :
    Agrees r growing (deleteSenderBlocks p o kind value ⟨false, r⟩ lists)
      (deleteSenderBlocks p o kind value ⟨false, r⟩ lists') := by
  rw [deleteSenderBlocks_own hr, deleteSenderBlocks_own hr]
  split
  · exact .failed _
  · cases normalizeBlockSender p kind value with
    | error text => exact .failed text
    | ok sender =>
      simp only [Except.map, h.same.countP_eq kind sender]
      exact .of_aligned (h.deleteBlocks kind sender)

theorem addSenderBlock_kept (now : ℤ) (ids : RowIds) {answer : Bool × ℤ}
    (h : addSenderBlock p o now ids r kind value lists = .ok (answer, left)) :
    OthersKept r lists left := by
  rw [addSenderBlock_own hr] at h
  split at h
  · cases h
  · cases hsender : normalizeBlockSender p kind value with
    | error text => simp [hsender, Except.map] at h
    | ok sender =>
      simp only [hsender] at h
      obtain ⟨-, rfl⟩ := h
      have hblocks := upsertBlock_kept (newBlock o now ids r kind sender lists) (ids.unused _) rfl
      exact ⟨hblocks.blocks, (clearContradicted_kept hr kind sender lists).correspondents⟩

theorem addSenderBlock_agrees (now : ℤ) (ids ids' : RowIds)
    (hids : growing → ids.Growing ∧ ids'.Growing) (h : AlignedLists r lists lists') :
    Agrees r growing (addSenderBlock p o now ids r kind value lists)
      (addSenderBlock p o now ids' r kind value lists') := by
  rw [addSenderBlock_own hr, addSenderBlock_own hr]
  split
  · exact .failed _
  · cases normalizeBlockSender p kind value with
    | error text => exact .failed text
    | ok sender =>
      have hkey : (r, kind, sender) ∈ lists.blocklist.rows.map Row.key ↔
          (r, kind, sender) ∈ lists'.blocklist.rows.map Row.key := by
        rw [← mem_ownBlocks_keys lists rfl, ← mem_ownBlocks_keys lists' rfl]
        exact key_mem_iff h.blocks.same _
      have hcorrespondents := h.correspondents.clearContradicted kind sender
      have hcontent : blockContent (newBlock o now ids r kind sender lists) =
          blockContent (newBlock o now ids' r kind sender lists') := rfl
      obtain ⟨hsame, haligned⟩ := h.upsertBlock (ids.unused _) (ids'.unused _) rfl hcontent
        fun hgrowing => ⟨(hids hgrowing).1 _, (hids hgrowing).2 _⟩
      simp only [Except.map, hkey]
      exact .changed ⟨hsame.blocks, hcorrespondents⟩ fun hgrowing =>
        ⟨(haligned hgrowing).blocks, hcorrespondents⟩

end

/-- The row an allowlist entry gets, from the row it has. -/
def manualRow (now : ℤ) (id : ℕ) : Option Correspondent → Correspondent
  | some old => { old with
      lastActivityAt := unixMillis now, whitelistType := .manual, legitimateEmailCount := 0 }
  | none => ⟨id, unixMillis now, unixMillis now, .manual, 0⟩

section

variable (hr : Mailbox p r) (o : CorrespondentOptions) (value : Bytes) (now : ℤ) (ids : RowIds)

include hr

theorem addManual_own (value : Bytes) (lists : Lists) :
    addManual p o now ids value r lists =
      if ¬ o.useAllowlist then .error "correspondent allowlisting is disabled or unavailable"
      else if normalizeAddress p value = [] then
        .error "sender and recipient must be valid email addresses"
      else
        let sender := normalizeAddress p value
        .ok ((lists.correspondents.get (r, sender)).isNone,
          { lists.deleteBlocks (selects .exactMailbox sender (some r)) with
            correspondents := lists.correspondents.put (r, sender) (manualRow now
              (ids.next (lists.correspondents.rows.map fun row => row.2.id))
              (lists.correspondents.get (r, sender))) }) := by
  unfold addManual
  simp only [hr.fixed, hr.nonempty, or_false]
  split
  · rfl
  · split
    · rfl
    · cases lists.correspondents.get (r, normalizeAddress p value) with
      | none => rfl
      | some old => rfl

theorem addManual_kept (value : Bytes) {created : Bool}
    (h : addManual p o now ids value r lists = .ok (created, left)) :
    OthersKept r lists left := by
  rw [addManual_own hr] at h
  split_ifs at h
  obtain ⟨-, rfl⟩ := h
  refine ⟨(deleteBlocks_kept _ _).blocks, ?_⟩
  intro key hother
  rw [KeyedTables.Table.get_put, if_neg]
  intro hkey
  exact hother (congrArg Prod.fst hkey)

omit hr in
private theorem manualRow_content (id id' : ℕ) {row row' : Option Correspondent}
    (h : row.map correspondentContent = row'.map correspondentContent) :
    correspondentContent (manualRow now id row) = correspondentContent (manualRow now id' row') ∧
      row.isNone = row'.isNone := by
  cases row with
  | none =>
    cases row' with
    | none => exact ⟨rfl, rfl⟩
    | some old' => cases h
  | some old =>
    cases row' with
    | none => cases h
    | some old' =>
      have hlearned : old.learnedAt = old'.learnedAt :=
        congrArg Prod.fst (Option.some.inj h)
      refine ⟨?_, rfl⟩
      show (old.learnedAt, _) = (old'.learnedAt, _)
      rw [hlearned]
      rfl

theorem addManual_agrees (ids' : RowIds) (value : Bytes) (h : AlignedLists r lists lists') :
    Agrees r growing (addManual p o now ids value r lists)
      (addManual p o now ids' value r lists') := by
  rw [addManual_own hr, addManual_own hr]
  split
  · exact .failed _
  split
  · exact .failed _
  · have hrow := manualRow_content now
      (ids.next (lists.correspondents.rows.map fun row => row.2.id))
      (ids'.next (lists'.correspondents.rows.map fun row => row.2.id))
      (h.correspondents (normalizeAddress p value))
    simp only [hrow.2]
    apply Agrees.of_aligned
    exact ⟨(h.deleteBlocks _ _).blocks, h.correspondents.put _ hrow.1⟩

theorem deleteCorrespondent_own (lists : Lists) :
    deleteCorrespondent p o value ⟨false, r⟩ lists =
      if ¬ o.useAllowlist then .error "correspondent allowlisting is disabled or unavailable"
      else if normalizeAddress p value = [] then .error "sender must be a valid email address"
      else
        let chosen := names (normalizeAddress p value) (some r)
        .ok (lists.correspondents.rows.countP fun row => chosen row.1,
          lists.deleteCorrespondents chosen) := by
  unfold deleteCorrespondent
  simp only [hr.validate, hr.fixed, hr.nonempty]
  rfl

theorem deleteCorrespondent_kept {removed : ℕ}
    (h : deleteCorrespondent p o value ⟨false, r⟩ lists = .ok (removed, left)) :
    OthersKept r lists left := by
  rw [deleteCorrespondent_own hr] at h
  split_ifs at h
  obtain ⟨-, rfl⟩ := h
  exact deleteCorrespondents_kept _

omit hr in
/-- What is selected under the recipient's keys from the contents of the rows. -/
theorem SameCorrespondents.selected_perm {β : Type} {table table' : Correspondents}
    (h : SameCorrespondents r table table') (f : Bytes × Bytes → Correspondent → Option β)
    (hown : ∀ key row, key.1 ≠ r → f key row = none)
    (hcontent : ∀ key row row', correspondentContent row = correspondentContent row' →
      f key row = f key row') :
    (table.selected f).Perm (table'.selected f) := by
  apply KeyedTables.Table.selected_perm
  rintro ⟨owner, sender⟩
  by_cases howner : owner = r
  · subst howner
    have hsame := h sender
    cases hrow : table.get (owner, sender) with
    | none =>
      cases hrow' : table'.get (owner, sender) with
      | none => rfl
      | some row' => simp [hrow, hrow'] at hsame
    | some row =>
      cases hrow' : table'.get (owner, sender) with
      | none => simp [hrow, hrow'] at hsame
      | some row' =>
        simp only [hrow, hrow', Option.map_some, Option.some.injEq] at hsame
        exact hcontent _ row row' hsame
  · have hnone : f (owner, sender) = fun _ => none := by
      funext row
      exact hown _ row howner
    rw [hnone, Option.bind_fun_none, Option.bind_fun_none]

omit hr in
private theorem countP_names (table : Correspondents) (chosen : Bytes × Bytes → Bool) :
    table.rows.countP (fun row => chosen row.1) =
      (table.selected fun key _ => if chosen key then some () else none).length := by
  unfold KeyedTables.Table.selected
  rw [List.length_filterMap_eq_countP]
  apply List.countP_congr
  intro row _
  by_cases hchosen : chosen row.1 <;> simp [hchosen]

theorem deleteCorrespondent_agrees (h : AlignedLists r lists lists') :
    Agrees r growing (deleteCorrespondent p o value ⟨false, r⟩ lists)
      (deleteCorrespondent p o value ⟨false, r⟩ lists') := by
  rw [deleteCorrespondent_own hr, deleteCorrespondent_own hr]
  split
  · exact .failed _
  split
  · exact .failed _
  · have hcount : lists.correspondents.rows.countP
          (fun row => names (normalizeAddress p value) (some r) row.1) =
        lists'.correspondents.rows.countP
          fun row => names (normalizeAddress p value) (some r) row.1 := by
      rw [countP_names, countP_names]
      apply List.Perm.length_eq
      apply h.correspondents.selected_perm
      · intro key row hother
        simp [names, hother]
      · intro key row row' _
        rfl
    simp only [hcount]
    exact .of_aligned ⟨h.blocks, h.correspondents.delete _⟩

end

end Statements

/-! ### Listings for one recipient -/

/-- A page with its entries reduced to their contents. -/
def pageView {α γ : Type} (content : α → γ) (page : List α × Bool) : List γ × Bool :=
  (page.1.map content, page.2)

theorem pageView_limitedPage {α γ : Type} (content : α → γ) (entries : List α) (limit : ℕ) :
    pageView content (limitedPage (entries.take (limit + 1)) limit) =
      limitedPage ((entries.map content).take (limit + 1)) limit := by
  simp [pageView, limitedPage]

section Listings

variable {p : Platform} {r : Bytes} {lists lists' : Lists}

theorem listSenderBlocks_own (hr : Mailbox p r) (o : SenderBlocklistOptions) (now : ℤ)
    (limit : ℕ) (lists : Lists) :
    listSenderBlocks p o now ⟨false, r⟩ limit lists =
      if ¬ o.available then .ok ([], false)
      else if limit < 1 then .error "sender blocklist limit must be positive"
      else
        let live := (ownBlocks r lists).filter fun row => unixMillis now < row.expiresAt
        .ok (limitedPage ((live.insertionSort (newestFirst Row.id fun row =>
          row.expiresAt)).take (limit + 1)) limit) := by
  have hlive : (lists.blocklist.rows.filter fun row =>
      decide (unixMillis now < row.expiresAt) && decide (row.recipient = r)) =
      (ownBlocks r lists).filter fun row => decide (unixMillis now < row.expiresAt) := by
    simp [ownBlocks]
  unfold listSenderBlocks
  rw [hr.validate, hr.listRecipient_eq]
  simp only [hlive]
  rfl

/-- Two runs list the same contents. -/
theorem listSenderBlocks_view (hr : Mailbox p r) (o : SenderBlocklistOptions) (now : ℤ)
    (limit : ℕ) (h : AlignedLists r lists lists') :
    (listSenderBlocks p o now ⟨false, r⟩ limit lists).map (pageView blockContent) =
      (listSenderBlocks p o now ⟨false, r⟩ limit lists').map (pageView blockContent) := by
  have hids : (((ownBlocks r lists).filter fun row =>
      decide (unixMillis now < row.expiresAt)).map Row.id).Nodup :=
    ((List.filter_sublist.trans List.filter_sublist).map Row.id).nodup lists.primary
  have hexpires : ∀ a b : Row, blockContent a = blockContent b →
      (a.expiresAt : ℤ) = b.expiresAt := by
    intro a b hcontent
    exact congrArg Nat.cast (congrArg Prod.snd hcontent)
  have haligned := h.blocks.filter (fun row => decide (unixMillis now < row.expiresAt)) <| by
    intro a b hcontent
    rw [hexpires a b hcontent]
  have hsorted := haligned.listing (fun a b hcontent => congrArg Prod.fst hcontent) hexpires hids
    (ownBlocks_contents_nodup r _ lists) (ownBlocks_contents_nodup r _ lists')
  rw [listSenderBlocks_own hr, listSenderBlocks_own hr]
  split
  · rfl
  split
  · rfl
  · simp only [Except.map, pageView_limitedPage, hsorted]

theorem keyOrder_total (a b : Bytes × Bytes) : keyOrder a b ∨ keyOrder b a := by
  by_cases hfirst : a.1 = b.1
  · rcases Std.le_total (a := a.2) (b := b.2) with hle | hge
    · exact Or.inl (Or.inr ⟨hfirst, hle⟩)
    · exact Or.inr (Or.inr ⟨hfirst.symm, hge⟩)
  · rcases Std.le_total (a := a.1) (b := b.1) with hle | hge
    · exact Or.inl (Or.inl ⟨hfirst, hle⟩)
    · exact Or.inr (Or.inl ⟨Ne.symm hfirst, hge⟩)

theorem keyOrder_trans {a b c : Bytes × Bytes} (hab : keyOrder a b) (hbc : keyOrder b c) :
    keyOrder a c := by
  rcases hab with ⟨hne, hle⟩ | ⟨heq, hle⟩ <;> rcases hbc with ⟨hne', hle'⟩ | ⟨heq', hle'⟩
  · refine Or.inl ⟨?_, Std.le_trans hle hle'⟩
    intro hac
    rw [← hac] at hle'
    exact hne (Std.le_antisymm hle hle')
  · rw [heq'] at hne hle
    exact Or.inl ⟨hne, hle⟩
  · rw [← heq] at hne' hle'
    exact Or.inl ⟨hne', hle'⟩
  · exact Or.inr ⟨heq.trans heq', Std.le_trans hle hle'⟩

theorem keyOrder_antisymm {a b : Bytes × Bytes} (hab : keyOrder a b) (hba : keyOrder b a) :
    a = b := by
  rcases hab with ⟨hne, hle⟩ | ⟨heq, hle⟩ <;> rcases hba with ⟨hne', hle'⟩ | ⟨heq', hle'⟩
  · exact absurd (Std.le_antisymm hle hle') hne
  · exact absurd heq'.symm hne
  · exact absurd heq.symm hne'
  · exact Prod.ext heq (Std.le_antisymm hle hle')

instance : Std.Total latestActivity where
  total a b := by
    unfold latestActivity
    rcases lt_trichotomy a.2.lastActivityAt b.2.lastActivityAt with hlt | heq | hgt
    · exact Or.inr (Or.inl hlt)
    · rcases keyOrder_total a.1 b.1 with hkey | hkey
      · exact Or.inl (Or.inr ⟨heq, hkey⟩)
      · exact Or.inr (Or.inr ⟨heq.symm, hkey⟩)
    · exact Or.inl (Or.inl hgt)

instance : IsTrans ((Bytes × Bytes) × Correspondent) latestActivity where
  trans a b c hab hbc := by
    unfold latestActivity at hab hbc ⊢
    rcases hab with hab | ⟨hab, hkey⟩ <;> rcases hbc with hbc | ⟨hbc, hkey'⟩
    · exact Or.inl (by omega)
    · exact Or.inl (by omega)
    · exact Or.inl (by omega)
    · exact Or.inr ⟨hab.trans hbc, keyOrder_trans hkey hkey'⟩

theorem eq_of_latestActivity {a b : (Bytes × Bytes) × Correspondent} (hab : latestActivity a b)
    (hba : latestActivity b a) : a.1 = b.1 := by
  rcases hab with hab | ⟨hab, hkey⟩ <;> rcases hba with hba | ⟨hba, hkey'⟩
  · omega
  · omega
  · omega
  · exact keyOrder_antisymm hkey hkey'

/-- An entry of the allowlist without its id. -/
def entryContent (entry : (Bytes × Bytes) × Correspondent) :
    (Bytes × Bytes) × ℤ × ℤ × CorrespondentKind × ℕ := (entry.1, correspondentContent entry.2)

/-- Whether the listing shows a row of the recipient. -/
def listedCorrespondent (o : CorrespondentOptions) (now activeSince : ℤ) (r : Bytes)
    (key : Bytes × Bytes) (row : Correspondent) : Option Correspondent :=
  if qualifiedActive o now row ∧
      (activeSince = zeroTime ∨ unixMillis activeSince ≤ row.lastActivityAt) ∧ key.1 = r
  then some row else none

theorem listCorrespondents_own (hr : Mailbox p r) (o : CorrespondentOptions)
    (now activeSince : ℤ) (limit : ℕ) (lists : Lists) :
    listCorrespondents p o now ⟨false, r⟩ activeSince limit lists =
      if limit < 1 then .error "correspondent list limit must be positive"
      else
        let live := lists.correspondents.selected (listedCorrespondent o now activeSince r)
        .ok (limitedPage ((live.insertionSort latestActivity).take (limit + 1)) limit) := by
  unfold listCorrespondents
  rw [hr.validate, hr.listRecipient_eq]
  simp only [decide_eq_true_eq]
  rfl

private theorem qualifiedActive_content (o : CorrespondentOptions) (now : ℤ)
    {row row' : Correspondent} (h : correspondentContent row = correspondentContent row') :
    qualifiedActive o now row = qualifiedActive o now row' ∧
      row.lastActivityAt = row'.lastActivityAt := by
  simp only [correspondentContent, Prod.mk.injEq] at h
  obtain ⟨-, hactivity, htype, hcount⟩ := h
  refine ⟨?_, hactivity⟩
  unfold qualifiedActive qualified
  rw [hactivity, htype, hcount]

private theorem selected_contents (table : Correspondents)
    (f : Bytes × Bytes → Correspondent → Option Correspondent) :
    (table.selected f).map entryContent =
      table.selected fun key row => (f key row).map correspondentContent := by
  unfold KeyedTables.Table.selected
  rw [List.map_filterMap]
  apply List.filterMap_congr
  rintro ⟨key, row⟩ _
  dsimp only
  cases f key row with
  | none => rfl
  | some found => rfl

theorem listCorrespondents_view (hr : Mailbox p r) (o : CorrespondentOptions)
    (now activeSince : ℤ) (limit : ℕ) (h : AlignedLists r lists lists') :
    (listCorrespondents p o now ⟨false, r⟩ activeSince limit lists).map (pageView entryContent) =
      (listCorrespondents p o now ⟨false, r⟩ activeSince limit lists').map
        (pageView entryContent) := by
  have hkeys : ∀ table : Correspondents,
      ((table.selected (listedCorrespondent o now activeSince r)).map Prod.fst).Nodup :=
    fun table => table.selected_keys_nodup _
  have hnodup : ((lists.correspondents.selected
      (listedCorrespondent o now activeSince r)).map entryContent).Nodup := by
    apply List.Nodup.of_map Prod.fst
    rw [List.map_map]
    exact hkeys lists.correspondents
  have hperm : ((lists.correspondents.selected
      (listedCorrespondent o now activeSince r)).map entryContent).Perm
      ((lists'.correspondents.selected
        (listedCorrespondent o now activeSince r)).map entryContent) := by
    rw [selected_contents, selected_contents]
    apply h.correspondents.selected_perm
    · intro key row hother
      simp [listedCorrespondent, hother]
    · intro key row row' hcontent
      obtain ⟨hqualified, hactivity⟩ := qualifiedActive_content o now hcontent
      unfold listedCorrespondent
      rw [hqualified, hactivity]
      split
      · exact congrArg some hcontent
      · rfl
  have hsorted := insertionSort_map_eq entryContent latestActivity hnodup hperm
    (by
      intro a _ b _ a' _ b' _ hca hcb hle
      have hactivity := (qualifiedActive_content o now (congrArg Prod.snd hca)).2
      have hactivity' := (qualifiedActive_content o now (congrArg Prod.snd hcb)).2
      have hkey : a.1 = a'.1 := (Prod.mk.inj hca).1
      have hkey' : b.1 = b'.1 := (Prod.mk.inj hcb).1
      unfold latestActivity at hle ⊢
      rw [hactivity, hactivity', hkey, hkey']
      exact hle)
    (by
      intro a ha b hb hab hba
      exact List.inj_on_of_nodup_map (hkeys lists.correspondents) ha hb
        (eq_of_latestActivity hab hba))
  rw [listCorrespondents_own hr, listCorrespondents_own hr]
  split
  · rfl
  · simp only [Except.map, pageView_limitedPage, hsorted]

/-! ### Rejections of one recipient -/

variable {history history' : History}

theorem listRejections_own (hr : Mailbox p r) (o : RejectionOptions) (now since : ℤ)
    (limit : ℕ) (history : History) :
    listRejections p o now ⟨false, r⟩ since limit history =
      if ¬ 0 < o.expiry then .ok ([], false)
      else if limit < 1 then .error "rejection list limit must be positive"
      else
        let own := (history.belonging r).filter fun joined =>
          unixMillis (retentionSince o now since) ≤ joined.row.rejectedAt
        let sorted := own.insertionSort (newestFirst Joined.id fun joined => joined.row.rejectedAt)
        .ok (limitedPage ((sorted.take (limit + 1)).map Joined.entry) limit) := by
  unfold listRejections
  rw [hr.validate]
  simp only [hr.fixed, hr.nonempty, filter_joined]
  rfl

theorem listRejections_eq (hr : Mailbox p r) (o : RejectionOptions) (now since : ℤ)
    (limit : ℕ) (h : SameRejections r history history') :
    listRejections p o now ⟨false, r⟩ since limit history =
      listRejections p o now ⟨false, r⟩ since limit history' := by
  rw [listRejections_own hr, listRejections_own hr]
  simp [sorted_congr h]

private theorem eq_of_perm_of_ids (id : ℕ) {rows rows' : List Joined} (hperm : rows.Perm rows')
    (hids : (rows.map Joined.id).Nodup) (hid : ∀ joined ∈ rows, joined.id = id) : rows = rows' := by
  cases rows with
  | nil => exact hperm.nil_eq
  | cons first rest =>
    cases rest with
    | nil => exact (List.perm_singleton.mp hperm.symm).symm
    | cons second rest =>
      have hsame : first.id = second.id :=
        (hid first (by simp)).trans (hid second (by simp)).symm
      simp [hsame] at hids

theorem rejectionByID_eq (hr : Mailbox p r) (o : RejectionOptions) (now : ℤ) (id : ℕ)
    (h : SameRejections r history history') :
    rejectionByID p o now id ⟨false, r⟩ history = rejectionByID p o now id ⟨false, r⟩ history' := by
  let chosen : Joined → Bool := fun joined => decide (joined.id = id) &&
    decide (unixMillis (now - o.expiry) ≤ joined.row.rejectedAt)
  have hfound : (history.belonging r).filter chosen = (history'.belonging r).filter chosen := by
    apply eq_of_perm_of_ids id (h.perm.filter _) (chosen_ids_nodup history r chosen)
    intro joined hjoined
    have hchosen := (List.mem_filter.mp hjoined).2
    simp only [chosen, Bool.and_eq_true, decide_eq_true_eq] at hchosen
    exact hchosen.1
  unfold rejectionByID
  simp only [hr.fixed, Bool.false_or, joined_filter]
  rw [hfound]

end Listings

end MilterGuard.RecipientViews
