import MilterGuard.Interleavings
import MilterGuard.ReputationCleanup

/-!
The IP reputation table under concurrent sessions. Each operation takes its time
before its first statement, and the statements of several operations interleave: a
legitimate message is preceded by a check for strikes, and the refresh of a repeat
block by a read of that block.
-/
namespace MilterGuard.ReputationSessions

open ByteStrings KeyedTables IPReputation Interleavings

open ReputationCleanup (unixMillis_mono lt_timeFromMillis_iff)

inductive Statement
  | rejection
  | strikeCheck
  | legitimate
  | blockRead
  | refresh
  deriving DecidableEq

/-- A statement or transaction with the time that its operation captured. -/
structure Label where
  statement : Statement
  now : ℤ

inductive Operation (A : Type)
  | recordRejection (now : ℤ) (addr : A)
  | recordLegitimate (now : ℤ) (addr : A)
  | activeBlockForAttempt (now : ℤ) (addr : A)

abbrev Program := Prog Label Reputations

/-- The transaction of a legitimate message. -/
def forgive (o : Options) (now : ℤ) (ip : Bytes) (table : Reputations) : Reputations :=
  match table.get ip with
  | none => table
  | some row =>
    match legitimateRow o now row with
    | none => table.erase ip
    | some row => table.put ip row

/-- The statement that extends a repeat block. -/
def refresh (o : Options) (now : ℤ) (ip : Bytes) (table : Reputations) : Reputations :=
  match (table.get ip).bind (refreshRepeatBlock o now) with
  | none => table
  | some row => table.put ip row

variable {A : Type} (net : Addresses A) (o : Options)

def rejectionProgram (now : ℤ) (addr : A) : Program :=
  if ¬ o.enabled ∨ ¬ net.isValid addr then .done
  else .atomic ⟨.rejection, now⟩ (fun table => (recordRejection net o now addr table).2)
    fun _ => .done

def legitimateProgram (now : ℤ) (addr : A) : Program :=
  if ¬ o.enabled ∨ o.legitimatePerStrike ≤ 0 ∨ ¬ net.isValid addr then .done
  else
    let ip := net.string (net.canonicalIP addr)
    .atomic ⟨.strikeCheck, now⟩ id fun table =>
      if ¬ hasCurrentStrike o now (table.get ip) then .done
      else .atomic ⟨.legitimate, now⟩ (forgive o now ip) fun _ => .done

/-- Whether a lookup goes on to refresh the block that it read. -/
def refreshes (now : ℤ) (answer : Except StoreError (Option (IPBlock A))) : Bool :=
  match answer with
  | .ok (some block) =>
    block.level = some .repeat ∧ o.repeatRefreshOnAttempt ∧
      ¬ now + o.repeatDuration - block.expiresAt < repeatRefreshInterval
  | _ => false

def attemptProgram (now : ℤ) (addr : A) : Program :=
  if ¬ o.enabled ∨ ¬ net.isValid addr then .done
  else
    let ip := net.string (net.canonicalIP addr)
    .atomic ⟨.blockRead, now⟩ id fun table =>
      if refreshes o now (readActiveBlock net o now ip (table.get ip)) then
        .atomic ⟨.refresh, now⟩ (refresh o now ip) fun _ => .done
      else .done

def program : Operation A → Program
  | .recordRejection now addr => rejectionProgram net o now addr
  | .recordLegitimate now addr => legitimateProgram net o now addr
  | .activeBlockForAttempt now addr => attemptProgram net o now addr

variable {row : Row} {block : Block} (now : ℤ) (ip : Bytes)
  (table : Reputations) (operation : Operation A)

/-- The row of the address still exists and is blocked no shorter. -/
def Outlasts (row : Row) (block : Block) (later : Option Row) : Prop :=
  ∃ row' block', later = some row' ∧ row'.id = row.id ∧ row'.block = some block' ∧
    block.blockedUntil ≤ block'.blockedUntil

theorem Outlasts.refl (h : row.block = some block) :
    Outlasts row block (some row) := ⟨row, block, rfl, rfl, h, le_rfl⟩

/-- A row with an active repeat block whose end moves to a later time. -/
def Extended (before after : Option Row) : Prop :=
  ∃ row block later, before = some row ∧ row.block = some block ∧ block.level = .repeat ∧
    now < timeFromMillis block.blockedUntil ∧ block.blockedUntil < later ∧
    after = some { row with block := some ⟨.repeat, later⟩, lastActivityAt := unixMillis now }

/-- A transition shortens no block that is active at its time, and a refresh does
nothing but extend active repeat blocks. -/
structure Protects (label : Label) (before after : Reputations) : Prop where
  outlasts : ∀ key row block, before.get key = some row → row.block = some block →
    label.now < timeFromMillis block.blockedUntil → Outlasts row block (after.get key)
  extends_only : label.statement = .refresh →
    ∀ key, after.get key = before.get key ∨ Extended label.now (before.get key) (after.get key)

theorem Protects.unchanged (label : Label) (table : Reputations) : Protects label table table where
  outlasts key row block hrow hblock _ := by
    rw [hrow]
    exact Outlasts.refl hblock
  extends_only _ _ := Or.inl rfl

/-- An active block is kept or replaced by one that ends no earlier. -/
theorem chooseBlock_active {now : ℤ} (strikeCount : ℕ)
    (h : now < timeFromMillis block.blockedUntil) :
    ∃ level until', chooseBlock o now strikeCount (some block) = (some level, until') ∧
      timeFromMillis block.blockedUntil ≤ until' := by
  unfold chooseBlock
  set chosen : Option IPBlockLevel × ℤ :=
    if 0 < o.repeatThreshold ∧ o.repeatThreshold ≤ strikeCount then
      (some .repeat, now + o.repeatDuration)
    else if 0 < o.shortDuration then (some .short, now + o.shortDuration)
    else (none, zeroTime) with hchosen
  have hnone : chosen.1 = none → chosen.2 = zeroTime := by
    rw [hchosen]
    split_ifs <;> simp
  simp only
  by_cases hkeep : now < timeFromMillis block.blockedUntil ∧ (chosen.2 = zeroTime ∨
      chosen.2 < timeFromMillis block.blockedUntil ∨
      (timeFromMillis block.blockedUntil = chosen.2 ∧ block.level = .repeat ∧
        chosen.1 ≠ some .repeat))
  · rw [if_pos hkeep]
    exact ⟨_, _, rfl, le_rfl⟩
  · rw [if_neg hkeep]
    have hlater : timeFromMillis block.blockedUntil ≤ chosen.2 := by
      by_contra hlt
      exact hkeep ⟨h, Or.inr (Or.inl (not_le.mp hlt))⟩
    cases hlevel : chosen.1 with
    | none => exact absurd ⟨h, Or.inl (hnone hlevel)⟩ hkeep
    | some level => exact ⟨level, chosen.2, Prod.ext hlevel rfl, hlater⟩

theorem not_expiredRepeat_of_active {now : ℤ} (hblock : row.block = some block)
    (h : now < timeFromMillis block.blockedUntil) :
    row.expiredRepeat now = false := by
  rw [lt_timeFromMillis_iff] at h
  simp [Row.expiredRepeat, hblock, h]

theorem unixMillis_timeFromMillis (stored : ℤ) : unixMillis (timeFromMillis stored) = stored :=
  Int.mul_ediv_cancel stored (by decide)

theorem recordRejection_protects (addr : A) (table : Reputations) :
    Protects ⟨.rejection, now⟩ table (recordRejection net o now addr table).2 := by
  refine ⟨?_, fun h => Statement.noConfusion h⟩
  intro key row block hrow hblock hactive
  unfold recordRejection
  by_cases hguard : ¬ o.enabled ∨ ¬ net.isValid addr
  · rw [if_pos hguard, hrow]
    exact Outlasts.refl hblock
  · rw [if_neg hguard]
    have hlive := not_expiredRepeat_of_active hblock hactive
    by_cases hkey : key = net.string (net.canonicalIP addr)
    · subst hkey
      -- the row is not removed first, so the choice is between its block and a new one
      have hkept : (table.edit fun key row =>
          if key = net.string (net.canonicalIP addr) ∧ row.expiredRepeat now then none
          else some row).get (net.string (net.canonicalIP addr)) = some row := by
        simp [Table.get_edit, hrow, hlive]
      simp only [Table.get_put, hkept, Option.getD_some, hblock]
      obtain ⟨level, until', hchosen, hlater⟩ :=
        chooseBlock_active o (rejectedStrikes o now row.strikes).count hactive
      rw [hchosen]
      refine ⟨_, _, rfl, rfl, rfl, ?_⟩
      calc block.blockedUntil = unixMillis (timeFromMillis block.blockedUntil) :=
            (unixMillis_timeFromMillis _).symm
        _ ≤ unixMillis until' := unixMillis_mono hlater
    · simp only [Table.get_put, Table.get_edit, hrow, hkey]
      exact Outlasts.refl hblock

/-- The row of an active block is not removed. -/
theorem legitimateRow_active {now : ℤ} (hblock : row.block = some block)
    (hactive : now < timeFromMillis block.blockedUntil) :
    ∃ row', legitimateRow o now row = some row' ∧ row'.id = row.id ∧ row'.block = row.block := by
  have hany :
      (row.block.any fun block => decide (now < timeFromMillis block.blockedUntil)) = true := by
    simp [hblock, hactive]
  unfold legitimateRow
  simp only [hany, not_true_eq_false, if_false, and_false]
  split_ifs <;> exact ⟨_, rfl, rfl, rfl⟩

theorem get_forgive_of_ne {ip key : Bytes} (hkey : key ≠ ip) :
    (forgive o now ip table).get key = table.get key := by
  unfold forgive
  cases table.get ip with
  | none => rfl
  | some stored =>
    cases hforgiven : legitimateRow o now stored with
    | none => simp [hforgiven, Table.get_erase, hkey]
    | some forgiven => simp [hforgiven, Table.get_put, hkey]

theorem forgive_protects : Protects ⟨.legitimate, now⟩ table (forgive o now ip table) := by
  refine ⟨?_, fun h => Statement.noConfusion h⟩
  intro key row block hrow hblock hactive
  by_cases hkey : key = ip
  · subst hkey
    obtain ⟨row', hrow', hid, hsame⟩ := legitimateRow_active o hblock hactive
    refine ⟨row', block, ?_, hid, hsame.trans hblock, le_rfl⟩
    simp [forgive, hrow, hrow', Table.get_put]
  · rw [get_forgive_of_ne o now table hkey, hrow]
    exact Outlasts.refl hblock

/-- The statement leaves a row alone or moves the end of its repeat block on. -/
theorem refresh_extends (key : Bytes) :
    (refresh o now ip table).get key = table.get key ∨
      Extended now (table.get key) ((refresh o now ip table).get key) := by
  unfold refresh
  cases hselected : (table.get ip).bind (refreshRepeatBlock o now) with
  | none => exact Or.inl rfl
  | some refreshed =>
    by_cases hkey : key = ip
    · subst hkey
      obtain ⟨row, hrow, hrefresh⟩ := Option.bind_eq_some_iff.mp hselected
      unfold refreshRepeatBlock at hrefresh
      cases hblock : row.block with
      | none => simp [hblock] at hrefresh
      | some block =>
        simp only [hblock, Option.ite_none_right_eq_some, Option.some.injEq] at hrefresh
        obtain ⟨⟨hlevel, hactive, hdue⟩, rfl⟩ := hrefresh
        right
        refine ⟨row, block, unixMillis (now + o.repeatDuration), hrow, hblock, hlevel,
          (lt_timeFromMillis_iff now _).mpr hactive, ?_, by simp [Table.get_put]⟩
        have hminute : unixMillis (now + o.repeatDuration - repeatRefreshInterval) <
            unixMillis (now + o.repeatDuration) := by
          unfold unixMillis repeatRefreshInterval
          omega
        exact lt_of_le_of_lt hdue hminute
    · simp [Table.get_put, hkey]

theorem refresh_protects : Protects ⟨.refresh, now⟩ table (refresh o now ip table) := by
  refine ⟨?_, fun _ => refresh_extends o now ip table⟩
  intro key row block hrow hblock _
  rcases refresh_extends o now ip table key with
    hsame | ⟨stored, old, later, hstored, hold, -, -, hlater, hafter⟩
  · rw [hsame, hrow]
    exact Outlasts.refl hblock
  · obtain rfl : row = stored := Option.some.inj (hrow.symm.trans hstored)
    obtain rfl : block = old := Option.some.inj (hblock.symm.trans hold)
    exact ⟨_, _, hafter, rfl, rfl, hlater.le⟩

/-- Every statement of every operation protects the active blocks. -/
theorem program_keeps : (program net o operation).Keeps Protects := by
  cases operation with
  | recordRejection now addr =>
    exact Prog.Keeps.guard fun _ => ⟨recordRejection_protects net o now addr, fun _ => trivial⟩
  | recordLegitimate now addr =>
    refine Prog.Keeps.guard fun _ => ⟨fun table => Protects.unchanged _ table, fun table => ?_⟩
    simp only
    split_ifs
    · exact ⟨forgive_protects o now _, fun _ => trivial⟩
    · trivial
  | activeBlockForAttempt now addr =>
    refine Prog.Keeps.guard fun _ => ⟨fun table => Protects.unchanged _ table, fun table => ?_⟩
    simp only
    split_ifs
    · exact ⟨refresh_protects o now _, fun _ => trivial⟩
    · trivial

/-- The block of an address lasts at least as long after the transitions as before, when
it ends after the times of all of them. -/
def Survives (trace : List (Transition Label Reputations)) (before after : Reputations) : Prop :=
  ∀ key row block, before.get key = some row → row.block = some block →
    (∀ t ∈ trace, t.label.now < timeFromMillis block.blockedUntil) →
    Outlasts row block (after.get key)

theorem Protects.survives {label : Label} {before after : Reputations}
    (h : Protects label before after) {key : Bytes}
    (hactive : label.now < timeFromMillis block.blockedUntil)
    (hbefore : Outlasts row block (before.get key)) : Outlasts row block (after.get key) := by
  obtain ⟨row', block', hrow', hid, hblock', hle⟩ := hbefore
  have hlater : timeFromMillis block.blockedUntil ≤ timeFromMillis block'.blockedUntil := by
    unfold timeFromMillis
    omega
  obtain ⟨row'', block'', hrow'', hid', hblock'', hle'⟩ :=
    h.outlasts key row' block' hrow' hblock' (lt_of_lt_of_le hactive hlater)
  exact ⟨row'', block'', hrow'', hid'.trans hid, hblock'', hle.trans hle'⟩

/-- Whatever happened before, every transition of concurrent sessions leaves a block that
is active at its time at least as long, and a refresh changes only active repeat blocks,
to a later end. A block that ends after all the times in a stretch outlasts it. -/
theorem blocks_not_shortened (net : Addresses A) (o : Options) (table : Reputations)
    (earlier later : List (Action (Operation A))) :
    let c := (run (program net o) (quiet table) earlier).1
    let stretch := run (program net o) c later
    (∀ t ∈ stretch.2, Protects t.label t.before t.after) ∧
      Survives stretch.2 c.store stretch.1.store := by
  have hc := (run_keeps (program_keeps net o) (quiet_keeps table) earlier).1
  have hprotects := (run_keeps (program_keeps net o) hc later).2
  refine ⟨hprotects, ?_⟩
  intro key row block hrow hblock hactive
  apply run_invariant (P := fun table => Outlasts row block (table.get key)) (program net o) later
  · intro t ht
    exact (hprotects t ht).survives (hactive t ht)
  · rw [hrow]
    exact Outlasts.refl hblock

end MilterGuard.ReputationSessions
