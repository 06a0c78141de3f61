import MilterGuard.ReputationSessions

/-!
The IP reputation table as it is stored. The level of a block and its end are two
columns that may each be null, and the legitimate messages are an integer. Each
statement is described on the columns, and on a table that represents rows it does
what the operation on rows does.
-/
namespace MilterGuard.ReputationColumns

open ByteStrings KeyedTables IPReputation Interleavings

structure Columns where
  id : ℕ
  blockLevel : Option IPBlockLevel
  blockedUntilMs : Option ℤ
  legitimateCount : ℤ
  lastActivityAtMs : ℤ
  strikes : Strikes

abbrev Stored := Table Bytes Columns

def nextId (table : Stored) : ℕ := (table.rows.map fun row => row.2.id).foldl max 0 + 1

variable (level : IPBlockLevel)

/-- A comparison with null selects nothing. -/
def Columns.expired (now : ℤ) (row : Columns) : Bool :=
  row.blockLevel = some level && row.blockedUntilMs.any (· ≤ unixMillis now)

/-- The block of a row when both columns have a value. -/
def Columns.existing (row : Columns) : Option Block :=
  match row.blockLevel, row.blockedUntilMs with
  | some level, some blockedUntil => some ⟨level, blockedUntil⟩
  | _, _ => none

variable (o : Options) (now : ℤ) (ip : Bytes) (table : Stored)

/-- The transaction of a rejection. -/
def reject : Stored :=
  let table := table.edit fun key row =>
    if key = ip ∧ row.expired .repeat now then none else some row
  let row := (table.get ip).getD ⟨nextId table, none, none, 0, unixMillis now, .none⟩
  let strikes := rejectedStrikes o now row.strikes
  let chosen := chooseBlock o now strikes.count row.existing
  table.put ip { row with
    blockLevel := chosen.1
    blockedUntilMs := chosen.1.map fun _ => unixMillis chosen.2
    legitimateCount := 0
    lastActivityAtMs := unixMillis now
    strikes := strikes }

/-- A missing end is read as the zero time. -/
def Columns.active (row : Columns) : Bool :=
  row.blockLevel.isSome && now < (row.blockedUntilMs.map timeFromMillis).getD zeroTime

def legitimateColumns (row : Columns) : Option Columns :=
  let strikes := pruneStrikes o now row.strikes
  if strikes.count = 0 then
    if ¬ row.active now then none else some { row with strikes := strikes, legitimateCount := 0 }
  else
    let enough := o.legitimatePerStrike ≤ row.legitimateCount + 1
    let strikes := if enough then strikes.withoutOldest else strikes
    if strikes.count = 0 ∧ ¬ row.active now then none
    else some { row with
      strikes := strikes
      legitimateCount := if enough then 0 else row.legitimateCount + 1
      lastActivityAtMs := unixMillis now }

/-- The transaction of a legitimate message. -/
def forgive : Stored :=
  match table.get ip with
  | none => table
  | some row =>
    match legitimateColumns o now row with
    | none => table.erase ip
    | some row => table.put ip row

def hasCurrentStrike (row : Option Columns) : Bool :=
  if o.repeatThreshold ≤ 0 ∨ o.repeatWindow ≤ 0 then false
  else row.any fun row => row.strikes.times.any (unixMillis (now - o.repeatWindow) < ·)

variable {A : Type}

def readActiveBlock (net : Addresses A) (o : Options) (now : ℤ) (ip : Bytes)
    (row : Option Columns) : Except StoreError (Option (IPBlock A)) :=
  match row with
  | none => .ok none
  | some row =>
    match row.existing with
    | none => .ok none
    | some block =>
      if unixMillis now < block.blockedUntil then
        match net.parseAddr ip with
        | none => .error .parseStored
        | some addr => .ok (some ⟨addr, some block.level, timeFromMillis block.blockedUntil,
            (row.strikes.after (strikeCutoff o now)).count⟩)
      else .ok none

/-- The statement that extends a repeat block leaves its level as it is. -/
def refresh : Stored :=
  table.edit fun key row =>
    if key = ip ∧ row.blockLevel = some .repeat ∧
        row.blockedUntilMs.any fun blockedUntil => unixMillis now < blockedUntil ∧
          blockedUntil ≤ unixMillis (now + o.repeatDuration - repeatRefreshInterval) then
      some { row with
        blockedUntilMs := some (unixMillis (now + o.repeatDuration))
        lastActivityAtMs := unixMillis now }
    else some row

/-- The level and duration of a manual block, if one is configured. -/
def manualBlock : Option (IPBlockLevel × ℤ) :=
  let (level, duration) : IPBlockLevel × ℤ :=
    if o.repeatDuration ≤ 0 then (.short, o.shortDuration) else (.repeat, o.repeatDuration)
  if duration ≤ 0 then none else some (level, duration)

def block (duration now : ℤ) (ip : Bytes) (table : Stored) : Stored :=
  let row := (table.get ip).getD ⟨nextId table, none, none, 0, unixMillis now, .none⟩
  table.put ip { row with
    blockLevel := some level
    blockedUntilMs := some (unixMillis (now + duration))
    legitimateCount := 0
    lastActivityAtMs := unixMillis now }

def idlest (level : Option IPBlockLevel) (limit : ℕ) (table : Stored) : List ℕ :=
  (((table.rows.map Prod.snd).filter fun row => row.blockLevel = level).mergeSort
    fun a b => a.lastActivityAtMs < b.lastActivityAtMs ∨
      (a.lastActivityAtMs = b.lastActivityAtMs ∧ a.id ≤ b.id)).take limit |>.map Columns.id

def removeIdlest (state : ℕ × Stored) (level : Option IPBlockLevel) : ℕ × Stored :=
  let ids := idlest level state.1 state.2
  (state.1 - ids.length, state.2.edit fun _ row => if row.id ∈ ids then none else some row)

def enforceCapacity : Stored :=
  let excess := ((table.rows.length : ℤ) - o.maxSize).toNat
  if excess = 0 then table
  else ([none, some .short, some .repeat].foldl removeIdlest (excess, table)).2

/-- The transaction of the cleanup. -/
def clean : Stored :=
  let pruned := table.edit fun _ row => some { row with strikes := pruneStrikes o now row.strikes }
  let unexpired := pruned.edit fun _ row => if row.expired .repeat now then none else some row
  let cleared := unexpired.edit fun _ row => some
    (if row.expired .short now then { row with blockLevel := none, blockedUntilMs := none }
    else row)
  let kept := cleared.edit fun _ row =>
    if row.blockLevel = none ∧ row.strikes.count = 0 then none else some row
  enforceCapacity o kept

inductive Statement
  | rejection (now : ℤ) (ip : Bytes)
  | strikeCheck
  | legitimate
  | blockRead
  | refresh
  | manualBlock
  | delete
  | cleanup

inductive Operation (A : Type)
  | recordRejection (now : ℤ) (addr : A)
  | recordLegitimate (now : ℤ) (addr : A)
  | addManualBlock (now : ℤ) (addr : A)
  | activeBlockForAttempt (now : ℤ) (addr : A)
  | delete (addr : A)
  | cleanup (now : ℤ)

abbrev Program := Prog Statement Stored

def program (net : Addresses A) (o : Options) : Operation A → Program
  | .recordRejection now addr =>
    if ¬ o.enabled ∨ ¬ net.isValid addr then .done
    else
      let ip := net.string (net.canonicalIP addr)
      .atomic (.rejection now ip) (reject o now ip) fun _ => .done
  | .recordLegitimate now addr =>
    if ¬ o.enabled ∨ o.legitimatePerStrike ≤ 0 ∨ ¬ net.isValid addr then .done
    else
      let ip := net.string (net.canonicalIP addr)
      .atomic .strikeCheck id fun table =>
        if ¬ hasCurrentStrike o now (table.get ip) then .done
        else .atomic .legitimate (forgive o now ip) fun _ => .done
  | .addManualBlock now addr =>
    if ¬ o.enabled ∨ ¬ net.isValid addr then .done
    else
      match manualBlock o with
      | none => .done
      | some (level, duration) =>
        .atomic .manualBlock (block level duration now (net.string (net.canonicalIP addr)))
          fun _ => .done
  | .activeBlockForAttempt now addr =>
    if ¬ o.enabled ∨ ¬ net.isValid addr then .done
    else
      let ip := net.string (net.canonicalIP addr)
      .atomic .blockRead id fun table =>
        if ReputationSessions.refreshes o now (readActiveBlock net o now ip (table.get ip)) then
          .atomic .refresh (refresh o now ip) fun _ => .done
        else .done
  | .delete addr =>
    if ¬ net.isValid addr then .done
    else .atomic .delete (fun table => table.erase (net.string (net.canonicalIP addr)))
      fun _ => .done
  | .cleanup now =>
    if ¬ o.enabled then .done
    else .atomic .cleanup (clean o now) fun _ => .done

/-- The columns of a row. -/
def columns (row : Row) : Columns :=
  ⟨row.id, row.block.map Block.level, row.block.map Block.blockedUntil, row.legitimateCount,
    row.lastActivityAt, row.strikes⟩

variable (table : Reputations)

def stored : Stored := table.map columns

theorem expired_columns (row : Row) :
    (columns row).expired level now =
      row.block.any fun block => block.level = level ∧ block.blockedUntil ≤ unixMillis now := by
  cases h : row.block <;> simp [Columns.expired, columns, h]

theorem existing_columns (row : Row) : (columns row).existing = row.block := by
  cases h : row.block <;> simp [Columns.existing, columns, h]

theorem active_columns (row : Row) :
    (columns row).active now =
      row.block.any fun block => now < timeFromMillis block.blockedUntil := by
  cases h : row.block <;> simp [Columns.active, columns, h]

theorem nextId_stored : nextId (stored table) = IPReputation.nextId table := by
  simp [nextId, IPReputation.nextId, stored, Table.map, Function.comp_def, columns]

/-- The row of an address, or a new one. -/
theorem getD_stored (ip : Bytes) (now : ℤ) :
    ((stored table).get ip).getD ⟨nextId (stored table), none, none, 0, unixMillis now, .none⟩ =
      columns
        ((table.get ip).getD ⟨IPReputation.nextId table, none, 0, unixMillis now, .none⟩) := by
  rw [nextId_stored, stored, Table.get_map]
  cases table.get ip <;> rfl

section Commutes

variable (net : Addresses A) {o : Options} (now : ℤ) (table : Reputations)

theorem reject_stored {addr : A} (henabled : o.enabled = true) (hvalid : net.isValid addr = true) :
    reject o now (net.string (net.canonicalIP addr)) (stored table) =
      stored (recordRejection net o now addr table).2 := by
  have hfresh : (stored table).edit (fun key row =>
        if key = net.string (net.canonicalIP addr) ∧ row.expired .repeat now then none
        else some row) =
      stored (table.edit fun key row =>
        if key = net.string (net.canonicalIP addr) ∧ row.expiredRepeat now then none
        else some row) := by
    refine Table.edit_map table fun key row => ?_
    rw [apply_ite (Option.map columns), expired_columns]
    rfl
  simp only [reject, recordRejection, henabled, hvalid, hfresh, getD_stored, existing_columns]
  exact (congrArg _ (by simp [columns, Function.comp_def])).trans
    (Table.put_map columns _ _ _)

theorem legitimateColumns_columns (row : Row) :
    legitimateColumns o now (columns row) = (legitimateRow o now row).map columns := by
  unfold legitimateColumns legitimateRow
  simp only [active_columns, apply_ite (Option.map columns)]
  by_cases henough : o.legitimatePerStrike ≤ (row.legitimateCount : ℤ) + 1 <;>
    simp [columns, henough]

theorem forgive_stored (ip : Bytes) :
    forgive o now ip (stored table) = stored (ReputationSessions.forgive o now ip table) := by
  unfold forgive ReputationSessions.forgive
  rw [stored, Table.get_map]
  cases table.get ip with
  | none => rfl
  | some row =>
    simp only [Option.map_some, legitimateColumns_columns]
    cases legitimateRow o now row with
    | none => exact Table.erase_map columns table ip
    | some row => exact Table.put_map columns table ip row

/-- The columns that the refresh selects and changes are those of the refreshed row. -/
theorem refreshColumns_columns (row : Row) :
    (if (columns row).blockLevel = some .repeat ∧
          (columns row).blockedUntilMs.any fun blockedUntil => unixMillis now < blockedUntil ∧
            blockedUntil ≤ unixMillis (now + o.repeatDuration - repeatRefreshInterval) then
        some { columns row with
          blockedUntilMs := some (unixMillis (now + o.repeatDuration))
          lastActivityAtMs := unixMillis now }
      else some (columns row)) =
      some (columns ((refreshRepeatBlock o now row).getD row)) := by
  unfold refreshRepeatBlock
  cases hblock : row.block with
  | none => simp [columns, hblock]
  | some block =>
    by_cases hselected : block.level = .repeat ∧ unixMillis now < block.blockedUntil ∧
        block.blockedUntil ≤ unixMillis (now + o.repeatDuration - repeatRefreshInterval)
    · simp [columns, hblock, hselected]
    · rw [if_neg (by simpa [columns, hblock] using hselected)]
      simp [if_neg hselected]

theorem refresh_stored (ip : Bytes) :
    refresh o now ip (stored table) = stored (ReputationSessions.refresh o now ip table) := by
  have hedit : refresh o now ip (stored table) = stored (table.edit fun key row =>
      some (if key = ip then (refreshRepeatBlock o now row).getD row else row)) := by
    refine Table.edit_map table fun key row => ?_
    by_cases hkey : key = ip
    · simp only [hkey, true_and]
      exact refreshColumns_columns now row
    · simp [hkey]
  rw [hedit]
  congr 1
  unfold ReputationSessions.refresh
  cases hselected : (table.get ip).bind (refreshRepeatBlock o now) with
  | none =>
    nth_rewrite 2 [← Table.edit_some table]
    refine Table.edit_congr table fun key row hrow => ?_
    by_cases hkey : key = ip
    · subst hkey
      rw [hrow, Option.bind_some] at hselected
      simp [hselected]
    · simp [hkey]
  | some refreshed =>
    obtain ⟨row, hrow, hrefreshed⟩ := Option.bind_eq_some_iff.mp hselected
    simp only
    rw [Table.put_of_get hrow]
    refine Table.edit_congr table fun key old hold => ?_
    by_cases hkey : key = ip
    · subst hkey
      obtain rfl : row = old := Option.some.inj (hrow.symm.trans hold)
      simp [hrefreshed]
    · simp [hkey]

/-- The manual block on rows. -/
def blockRows (duration now : ℤ) (ip : Bytes) (table : Reputations) : Reputations :=
  let row := (table.get ip).getD ⟨IPReputation.nextId table, none, 0, unixMillis now, .none⟩
  table.put ip { row with
    block := some ⟨level, unixMillis (now + duration)⟩
    legitimateCount := 0
    lastActivityAt := unixMillis now }

theorem block_stored (level : IPBlockLevel) (duration : ℤ) (ip : Bytes) :
    block level duration now ip (stored table) =
      stored (blockRows level duration now ip table) := by
  simp only [block, getD_stored]
  exact (congrArg _ (by simp [columns])).trans (Table.put_map columns table ip _)

/-- The manual block is the one of the operation on rows. -/
theorem addManualBlock_eq {addr : A} (henabled : o.enabled = true)
    (hvalid : net.isValid addr = true) :
    (addManualBlock net o now addr table).toOption.map Prod.snd =
      (manualBlock o).map fun chosen =>
        blockRows chosen.1 chosen.2 now (net.string (net.canonicalIP addr)) table := by
  unfold addManualBlock manualBlock
  simp only [henabled, hvalid, not_true_eq_false, or_self, if_false]
  split_ifs <;> rfl

theorem idlest_stored (level : Option IPBlockLevel) (limit : ℕ) :
    idlest level limit (stored table) = IPReputation.idlest level limit table := by
  have hrows : (stored table).rows.map Prod.snd = (table.rows.map Prod.snd).map columns := by
    simp [stored, Table.map]
  have hsort := List.map_mergeSort (f := columns)
    (s := fun a b => a.lastActivityAtMs < b.lastActivityAtMs ∨
      (a.lastActivityAtMs = b.lastActivityAtMs ∧ a.id ≤ b.id))
    (l := (table.rows.map Prod.snd).filter fun row => row.block.map Block.level = level)
    fun _ _ _ _ => rfl
  unfold idlest IPReputation.idlest
  rw [hrows, List.filter_map]
  refine (congrArg (fun rows => (rows.take limit).map Columns.id) hsort.symm).trans ?_
  rw [← List.map_take, List.map_map]
  rfl

theorem length_stored : (stored table).rows.length = table.rows.length := by
  simp [stored, Table.map]

theorem enforceCapacity_stored :
    enforceCapacity o (stored table) = stored (IPReputation.enforceCapacity o table).2 := by
  have hremove : ∀ (n : ℕ) (t : Reputations) (level : Option IPBlockLevel),
      removeIdlest (n, stored t) level =
        (n - (IPReputation.idlest level n t).length,
          stored (t.edit fun _ row =>
            if row.id ∈ IPReputation.idlest level n t then none else some row)) := by
    intro n t level
    simp only [removeIdlest, idlest_stored, Prod.mk.injEq, true_and]
    refine Table.edit_map t fun _ row => ?_
    rw [apply_ite (Option.map columns)]
    rfl
  unfold enforceCapacity IPReputation.enforceCapacity capacityExcess
  simp only [length_stored, List.foldl_cons, hremove]
  split_ifs <;> rfl

theorem clean_stored (henabled : o.enabled = true) :
    clean o now (stored table) = stored (cleanup o now table).2 := by
  have hpruned : (stored table).edit (fun _ row =>
        some { row with strikes := pruneStrikes o now row.strikes }) =
      stored (table.edit fun _ row =>
        some { row with strikes := pruneStrikes o now row.strikes }) :=
    Table.edit_map table fun _ _ => rfl
  have hunexpired : ∀ t : Reputations, (stored t).edit (fun _ row =>
        if row.expired .repeat now then none else some row) =
      stored (t.edit fun _ row => if row.expiredRepeat now then none else some row) := by
    intro t
    refine Table.edit_map t fun _ row => ?_
    rw [apply_ite (Option.map columns), expired_columns]
    rfl
  have hcleared : ∀ t : Reputations, (stored t).edit (fun _ row => some
        (if row.expired .short now then { row with blockLevel := none, blockedUntilMs := none }
        else row)) =
      stored (t.edit fun _ row => some { row with
        block := row.block.filter fun block =>
          ¬ (block.level = .short ∧ block.blockedUntil ≤ unixMillis now) }) := by
    intro t
    refine Table.edit_map t fun _ row => ?_
    rw [expired_columns]
    cases hblock : row.block with
    | none => simp [columns, hblock]
    | some block =>
      by_cases hexpired : block.level = .short ∧ block.blockedUntil ≤ unixMillis now
      · simp [columns, hexpired]
      · have hlive : block.level ≠ .short ∨ unixMillis now < block.blockedUntil := by
          rcases not_and_or.mp hexpired with hlevel | hlater
          · exact Or.inl hlevel
          · exact Or.inr (not_le.mp hlater)
        simp [columns, hblock, hexpired, hlive]
  have hkept : ∀ t : Reputations, (stored t).edit (fun _ row =>
        if row.blockLevel = none ∧ row.strikes.count = 0 then none else some row) =
      stored (t.edit fun _ row =>
        if row.block = none ∧ row.strikes.count = 0 then none else some row) := by
    intro t
    refine Table.edit_map t fun _ row => ?_
    rw [apply_ite (Option.map columns)]
    simp [columns]
  simp only [clean, cleanup, pruneTable, henabled, not_true_eq_false, if_false, hpruned,
    hunexpired, hcleared, hkept, enforceCapacity_stored]

end Commutes

end MilterGuard.ReputationColumns
