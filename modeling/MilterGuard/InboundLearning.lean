import MilterGuard.Histories
import MilterGuard.ListOperations

/-!
What the statements of correspondent learning do to the row of one pair. Rows that a
message does not name stay as they are; a named row that is not stale keeps its kind, and
a pair without a row gets one.
-/
namespace MilterGuard.InboundLearning

open ByteStrings MailAddresses BlocklistTable SenderLists KeyedTables CorrespondentLearning
open ListOperations
open IPReputation (unixMillis)

variable {o : CorrespondentOptions} {now : ℤ} {ids : RowIds} {table : Correspondents}
  {key : Bytes × Bytes}

theorem mem_pairs_received {correspondent : Bytes} {recipients : List Bytes} :
    key ∈ recipients.map (·, correspondent) ↔ receivedFrom correspondent recipients key = true := by
  obtain ⟨localAddress, sender⟩ := key
  simp only [List.mem_map, Prod.mk.injEq, receivedFrom, Bool.and_eq_true, decide_eq_true_eq]
  constructor
  · rintro ⟨recipient, hmem, rfl, rfl⟩
    exact ⟨rfl, hmem⟩
  · rintro ⟨rfl, hmem⟩
    exact ⟨localAddress, hmem, rfl, rfl⟩

theorem mem_pairs_sent {localAddress : Bytes} {recipients : List Bytes} :
    key ∈ recipients.map (localAddress, ·) ↔ sentTo localAddress recipients key = true := by
  obtain ⟨sender, recipient⟩ := key
  simp only [List.mem_map, Prod.mk.injEq, sentTo, Bool.and_eq_true, decide_eq_true_eq]
  constructor
  · rintro ⟨other, hmem, rfl, rfl⟩
    exact ⟨rfl, hmem⟩
  · rintro ⟨rfl, hmem⟩
    exact ⟨recipient, hmem, rfl, rfl⟩

/-- The insertion leaves the row of a pair that is not inserted. -/
theorem get_insertMissing_of_not_mem {new : Correspondents → Correspondent}
    {keys : List (Bytes × Bytes)} (h : key ∉ keys) :
    (Table.insertMissing new keys table).2.get key = table.get key := by
  cases hget : table.get key with
  | none => exact (Table.get_insertMissing_of_none hget).1 h
  | some row => exact Table.get_insertMissing_of_some hget

section Learn

variable {localAddress : Bytes} {recipients : List Bytes}

theorem learnRows_get_other (h : sentTo localAddress recipients key = false) :
    (learnRows o now ids localAddress recipients table).get key = table.get key := by
  unfold learnRows
  rw [get_insertMissing_of_not_mem (by simp [mem_pairs_sent, h])]
  cases hget : table.get key <;>
    simp [Table.get_updateWhere, Table.get_deleteWhere, stale, h, hget]

/-- Authenticated mail leaves no inbound row among the pairs that it names. -/
theorem learnRows_kind (h : sentTo localAddress recipients key = true) {row : Correspondent}
    (hrow : (learnRows o now ids localAddress recipients table).get key = some row) :
    row.whitelistType ≠ .repeatedLegitimateInbound := by
  unfold learnRows at hrow
  dsimp only at hrow
  set pruned := table.deleteWhere (stale o now (sentTo localAddress recipients))
  set touched := Table.updateWhere _ _ (touch now) with htouched
  cases hpruned : pruned.get key with
  | none =>
    have hnone : touched.get key = none := by
      simp [htouched, Table.get_updateWhere, hpruned]
    obtain ⟨before, hnew⟩ := (Table.get_insertMissing_of_none hnone).2 (mem_pairs_sent.mpr h)
    rw [hnew] at hrow
    obtain rfl := Option.some.inj hrow
    simp [newRow]
  | some old =>
    obtain ⟨kept, hkept⟩ : ∃ kept, touched.get key = some kept := by
      simp [htouched, Table.get_updateWhere, hpruned]
    rw [Table.get_insertMissing_of_some hkept] at hrow
    obtain rfl := Option.some.inj hrow
    rw [Table.get_updateWhere, Table.get_updateWhere, hpruned] at hkept
    obtain rfl := Option.some.inj hkept
    by_cases hmanual : old.whitelistType = .manual
    · simp [h, hmanual, touch]
    · simp [h, hmanual]

end Learn

section Record

variable {advance : Bool} {correspondent : Bytes} {recipients : List Bytes}

theorem recordRows_get_other (h : receivedFrom correspondent recipients key = false) :
    (recordRows o now ids advance correspondent recipients table).table.get key =
      table.get key := by
  cases advance with
  | false =>
    cases hget : table.get key <;>
      simp [recordRows, refreshRows, Table.get_updateWhere, Table.get_deleteWhere, stale, h, hget]
  | true =>
    simp only [recordRows, if_true]
    rw [get_insertMissing_of_not_mem (by simp [mem_pairs_received, h])]
    cases hget : table.get key <;>
      simp [refreshRows, Table.get_updateWhere, Table.get_deleteWhere, stale, advances, h, hget]

/-- The row that the pruning leaves, if any. -/
def live (o : CorrespondentOptions) (now : ℤ) (correspondent : Bytes) (recipients : List Bytes)
    (table : Correspondents) (key : Bytes × Bytes) : Option Correspondent :=
  (table.get key).filter fun row => !stale o now (receivedFrom correspondent recipients) key row

/-- What a message makes of a live row that it names. -/
def passed (o : CorrespondentOptions) (now : ℤ) (advance : Bool) (row : Correspondent) :
    Correspondent :=
  let next := if advance ∧ row.whitelistType = .repeatedLegitimateInbound ∧
      row.legitimateEmailCount < o.legitimateSenderMinMessages then
      { row with
        legitimateEmailCount := row.legitimateEmailCount + 1, lastActivityAt := unixMillis now }
    else row
  if qualified o next ∧ next.lastActivityAt ≠ unixMillis now then touch now next else next

theorem passed_same (row : Correspondent) :
    (passed o now advance row).id = row.id ∧
      (passed o now advance row).learnedAt = row.learnedAt ∧
      (passed o now advance row).whitelistType = row.whitelistType := by
  unfold passed
  dsimp only
  split_ifs <;> exact ⟨rfl, rfl, rfl⟩

theorem passed_count (row : Correspondent) :
    (passed o now advance row).legitimateEmailCount =
      if advance ∧ row.whitelistType = .repeatedLegitimateInbound ∧
        row.legitimateEmailCount < o.legitimateSenderMinMessages then row.legitimateEmailCount + 1
      else row.legitimateEmailCount := by
  unfold passed
  dsimp only
  split_ifs <;> rfl

/-- The rows before the insertion. -/
theorem refreshRows_get (o : CorrespondentOptions) (now : ℤ) (advance : Bool)
    (table : Correspondents) (h : receivedFrom correspondent recipients key = true) :
    (refreshRows o now advance correspondent recipients table).get key =
      (live o now correspondent recipients table key).map (passed o now advance) := by
  have hpruned : (table.deleteWhere (stale o now (receivedFrom correspondent recipients))).get key =
      live o now correspondent recipients table key := Table.get_deleteWhere table _ key
  unfold refreshRows
  cases hlive : live o now correspondent recipients table key with
  | none => cases advance <;> simp [Table.get_updateWhere, hpruned, hlive]
  | some row =>
    cases advance <;> simp [Table.get_updateWhere, hpruned, hlive, advances, passed, h]

theorem recordRows_get_live (h : receivedFrom correspondent recipients key = true)
    {row : Correspondent} (hlive : live o now correspondent recipients table key = some row) :
    (recordRows o now ids advance correspondent recipients table).table.get key =
      some (passed o now advance row) := by
  have hrefreshed := refreshRows_get o now advance table h
  rw [hlive] at hrefreshed
  cases advance with
  | false => exact hrefreshed
  | true => exact Table.get_insertMissing_of_some hrefreshed

theorem recordRows_get_missing (h : receivedFrom correspondent recipients key = true)
    (hlive : live o now correspondent recipients table key = none) :
    let after := (recordRows o now ids advance correspondent recipients table).table.get key
    (advance = false → after = none) ∧ (advance = true →
      ∃ before, after = some (newRow now ids .repeatedLegitimateInbound 1 before)) := by
  have hrefreshed := refreshRows_get o now advance table h
  rw [hlive] at hrefreshed
  cases advance with
  | false => exact ⟨fun _ => hrefreshed, by simp⟩
  | true =>
    exact ⟨by simp, fun _ =>
      (Table.get_insertMissing_of_none hrefreshed).2 (mem_pairs_received.mpr h)⟩

/-- The insertion returns the recipients whose pair had no live row. -/
theorem mem_inserted {localAddress : Bytes} :
    localAddress ∈ (recordRows o now ids true correspondent recipients table).inserted.map
        CandidateEvent.recipient ↔
      localAddress ∈ recipients ∧
        live o now correspondent recipients table (localAddress, correspondent) = none := by
  have hmissing : localAddress ∈ recipients →
      ((refreshRows o now true correspondent recipients table).get (localAddress, correspondent) =
        none ↔ live o now correspondent recipients table (localAddress, correspondent) = none) := by
    intro hmem
    rw [refreshRows_get o now true table (by simp [receivedFrom, hmem]), Option.map_eq_none_iff]
  simp only [recordRows, if_true, List.map_map, List.mem_map, Table.mem_insertMissing]
  constructor
  · rintro ⟨key, ⟨⟨recipient, hmem, rfl⟩, hnone⟩, rfl⟩
    exact ⟨hmem, (hmissing hmem).mp hnone⟩
  · rintro ⟨hmem, hnone⟩
    exact ⟨(localAddress, correspondent), ⟨⟨localAddress, hmem, rfl⟩, (hmissing hmem).mpr hnone⟩,
      rfl⟩

end Record

end MilterGuard.InboundLearning
