import MilterGuard.ReputationColumns

/-!
The invariants of the IP reputation table. The stored columns always represent rows, so
a level and its end are null together, and the legitimate messages of a row stay below
the number that forgives a strike.
-/
namespace MilterGuard.ReputationInvariants

open ByteStrings KeyedTables Interleavings ReputationColumns

open IPReputation hiding hasCurrentStrike readActiveBlock nextId idlest enforceCapacity

variable {A : Type} (o : Options)

/-- The legitimate messages of a row are fewer than those that forgive a strike. -/
def Below (row : Row) : Prop :=
  0 < o.legitimatePerStrike → (row.legitimateCount : ℤ) < o.legitimatePerStrike

def AllBelow (table : Reputations) : Prop :=
  ∀ key row, table.get key = some row → Below o row

section Below

variable {o : Options} {table : Reputations}

theorem below_zero {row : Row} (h : row.legitimateCount = 0) : Below o row := by
  intro hpositive
  rw [h]
  exact hpositive

theorem AllBelow.put (h : AllBelow o table) {ip : Bytes} {row : Row} (hrow : Below o row) :
    AllBelow o (table.put ip row) := by
  intro key stored hstored
  rw [Table.get_put] at hstored
  split_ifs at hstored with hkey
  · obtain rfl := Option.some.inj hstored
    exact hrow
  · exact h key stored hstored

/-- Edits that keep the count of a row or remove the row. -/
theorem AllBelow.edit (h : AllBelow o table) {f : Bytes → Row → Option Row}
    (hf : ∀ key row row', f key row = some row' → row'.legitimateCount = row.legitimateCount) :
    AllBelow o (table.edit f) := by
  intro key row' hrow'
  rw [Table.get_edit] at hrow'
  obtain ⟨row, hrow, hedited⟩ := Option.bind_eq_some_iff.mp hrow'
  have hbelow := h key row hrow
  unfold Below at hbelow ⊢
  rw [hf key row row' hedited]
  exact hbelow

theorem AllBelow.filter (h : AllBelow o table) {p : Bytes → Row → Prop}
    [∀ key row, Decidable (p key row)] :
    AllBelow o (table.edit fun key row => if p key row then none else some row) := by
  refine h.edit fun key row row' hrow' => ?_
  split_ifs at hrow'
  obtain rfl := Option.some.inj hrow'
  rfl

theorem AllBelow.recordRejection (h : AllBelow o table) (net : Addresses A) (now : ℤ) (addr : A) :
    AllBelow o (IPReputation.recordRejection net o now addr table).2 := by
  unfold IPReputation.recordRejection
  split_ifs
  · exact h
  · exact h.filter.put (below_zero rfl)

/-- A count that would reach the number starts again. -/
theorem legitimateRow_below {now : ℤ} {row row' : Row}
    (hrow : legitimateRow o now row = some row') : Below o row' := by
  unfold legitimateRow at hrow
  by_cases henough : o.legitimatePerStrike ≤ (row.legitimateCount : ℤ) + 1
  · simp only [henough, if_true] at hrow
    split_ifs at hrow <;> obtain rfl := Option.some.inj hrow <;> exact below_zero rfl
  · simp only [henough, if_false] at hrow
    split_ifs at hrow <;> obtain rfl := Option.some.inj hrow
    · exact below_zero rfl
    · intro _
      push_cast
      omega

theorem AllBelow.forgive (h : AllBelow o table) (now : ℤ) (ip : Bytes) :
    AllBelow o (ReputationSessions.forgive o now ip table) := by
  unfold ReputationSessions.forgive
  cases table.get ip with
  | none => exact h
  | some row =>
    cases hforgiven : legitimateRow o now row with
    | none =>
      simp only [hforgiven]
      exact h.filter
    | some row' =>
      simp only [hforgiven]
      exact h.put (legitimateRow_below hforgiven)

theorem AllBelow.refresh (h : AllBelow o table) (now : ℤ) (ip : Bytes) :
    AllBelow o (ReputationSessions.refresh o now ip table) := by
  intro key row hrow
  rcases ReputationSessions.refresh_extends o now ip table key with
    hsame | ⟨old, block, later, hold, -, -, -, -, hafter⟩
  · exact h key row (hsame ▸ hrow)
  · obtain rfl := Option.some.inj (hafter.symm.trans hrow)
    exact h key old hold

theorem AllBelow.enforceCapacity (h : AllBelow o table) :
    AllBelow o (IPReputation.enforceCapacity o table).2 := by
  unfold IPReputation.enforceCapacity
  simp only
  split_ifs
  · exact h
  · exact List.foldlRecOn (motive := fun state : ℕ × Reputations => AllBelow o state.2) _ _ h
      fun state hstate level _ => hstate.filter

theorem AllBelow.cleanup (h : AllBelow o table) (now : ℤ) :
    AllBelow o (IPReputation.cleanup o now table).2 := by
  have hpruned : AllBelow o (pruneTable o now table).2 := by
    refine AllBelow.filter (AllBelow.edit (AllBelow.filter (h.edit ?_)) ?_)
    · rintro key row row' hrow'
      obtain rfl := Option.some.inj hrow'
      rfl
    · rintro key row row' hrow'
      obtain rfl := Option.some.inj hrow'
      rfl
  unfold IPReputation.cleanup
  split_ifs
  · exact hpruned.enforceCapacity
  · exact h

end Below

/-- A stored table that represents rows with counts below the number. -/
def Represents (table : Stored) : Prop :=
  ∃ rows, table = stored rows ∧ AllBelow o rows

/-- The columns of a row fit together. -/
structure Fits (row : Columns) : Prop where
  level_iff : row.blockLevel = none ↔ row.blockedUntilMs = none
  count_nonneg : 0 ≤ row.legitimateCount
  count_lt : 0 < o.legitimatePerStrike → row.legitimateCount < o.legitimatePerStrike

theorem Represents.fits {o : Options} {table : Stored} (h : Represents o table) {key : Bytes}
    {row : Columns} (hrow : table.get key = some row) : Fits o row := by
  obtain ⟨rows, rfl, hbelow⟩ := h
  rw [stored, Table.get_map] at hrow
  obtain ⟨typed, htyped, rfl⟩ := Option.map_eq_some_iff.mp hrow
  exact ⟨by simp [columns], Int.natCast_nonneg _, hbelow key typed htyped⟩

/-- The strikes of a rejected address: no more than the threshold, all inside the window. -/
def Struck (now : ℤ) (row : Columns) : Prop :=
  (row.strikes.count : ℤ) ≤ max o.repeatThreshold 0 ∧
    ∀ time ∈ row.strikes.times, now - o.repeatWindow < timeFromMillis time

theorem rejectedStrikes_within (now : ℤ) (strikes : Strikes) :
    ((rejectedStrikes o now strikes).count : ℤ) ≤ max o.repeatThreshold 0 ∧
      ∀ time ∈ (rejectedStrikes o now strikes).times,
        now - o.repeatWindow < timeFromMillis time := by
  unfold rejectedStrikes
  split_ifs with hthreshold
  · constructor
    · simp only [Strikes.count, Strikes.newest, List.length_drop]
      omega
    · intro time htime
      have hafter := List.mem_of_mem_drop htime
      rw [Strikes.after, List.mem_filter] at hafter
      rw [ReputationCleanup.lt_timeFromMillis_iff]
      simpa using hafter.2
  · exact ⟨by simp [Strikes.count, Strikes.none], by simp [Strikes.none]⟩

theorem reject_struck (now : ℤ) (ip : Bytes) (table : Stored) :
    ∃ row, (reject o now ip table).get ip = some row ∧ Struck o now row := by
  simp only [reject, Table.get_put, if_true, Option.some.injEq, exists_eq_left']
  exact rejectedStrikes_within o now _

/-- What a transition keeps. -/
structure Sound (label : Statement) (before after : Stored) : Prop where
  represents : Represents o before → Represents o after
  struck : ∀ now ip, label = .rejection now ip →
    ∃ row, after.get ip = some row ∧ Struck o now row
  unused : o.enabled = false → before = .empty → after = .empty

theorem Sound.unchanged (table : Stored) {label : Statement}
    (hlabel : ∀ now ip, label ≠ .rejection now ip) : Sound o label table table :=
  ⟨id, fun now ip h => absurd h (hlabel now ip), fun _ => id⟩

/-- A statement of an enabled repository that commutes with the representation. -/
theorem Sound.of_stored {o : Options} {label : Statement} {update : Stored → Stored}
    {typed : Reputations → Reputations} (henabled : o.enabled = true)
    (hlabel : ∀ now ip, label ≠ .rejection now ip)
    (hstored : ∀ rows, update (stored rows) = stored (typed rows))
    (hbelow : ∀ rows, AllBelow o rows → AllBelow o (typed rows)) (table : Stored) :
    Sound o label table (update table) := by
  refine ⟨?_, fun now ip h => absurd h (hlabel now ip), fun h => absurd h (by simp [henabled])⟩
  rintro ⟨rows, rfl, hrows⟩
  exact ⟨typed rows, hstored rows, hbelow rows hrows⟩

theorem program_sound (net : Addresses A) (o : Options) (operation : Operation A) :
    (program net o operation).Keeps (Sound o) := by
  cases operation with
  | recordRejection now addr =>
    refine Prog.Keeps.guard fun hguard => ?_
    rw [not_or, not_not, not_not] at hguard
    obtain ⟨henabled, hvalid⟩ := hguard
    refine ⟨fun table => ⟨?_, ?_, fun h => absurd h (by simp [henabled])⟩, fun _ => trivial⟩
    · rintro ⟨rows, rfl, hrows⟩
      exact ⟨_, reject_stored net now rows henabled hvalid, hrows.recordRejection net now addr⟩
    · rintro time ip ⟨⟩
      exact reject_struck o now _ table
  | recordLegitimate now addr =>
    refine Prog.Keeps.guard fun hguard => ?_
    have henabled : o.enabled = true := not_not.mp (not_or.mp hguard).1
    refine ⟨fun table => Sound.unchanged o table (by simp), fun table => ?_⟩
    simp only
    split_ifs
    · exact ⟨Sound.of_stored henabled (by simp) (fun rows => forgive_stored now rows _)
        (fun rows h => h.forgive now _), fun _ => trivial⟩
    · trivial
  | addManualBlock now addr =>
    refine Prog.Keeps.guard fun hguard => ?_
    have henabled : o.enabled = true := not_not.mp (not_or.mp hguard).1
    cases manualBlock o with
    | none => trivial
    | some chosen =>
      exact ⟨Sound.of_stored henabled (by simp)
        (fun rows => block_stored now rows chosen.1 chosen.2 _)
        (fun rows h => h.put (below_zero rfl)), fun _ => trivial⟩
  | activeBlockForAttempt now addr =>
    refine Prog.Keeps.guard fun hguard => ?_
    have henabled : o.enabled = true := not_not.mp (not_or.mp hguard).1
    refine ⟨fun table => Sound.unchanged o table (by simp), fun table => ?_⟩
    simp only
    split_ifs
    · exact ⟨Sound.of_stored henabled (by simp) (fun rows => refresh_stored now rows _)
        (fun rows h => h.refresh now _), fun _ => trivial⟩
    · trivial
  | delete addr =>
    simp only [program]
    split_ifs
    · refine ⟨fun table => ⟨?_, by simp, ?_⟩, fun _ => trivial⟩
      · rintro ⟨rows, rfl, hrows⟩
        exact ⟨rows.erase _, Table.erase_map columns rows _, hrows.filter⟩
      · rintro - rfl
        rfl
    · trivial
  | cleanup now =>
    refine Prog.Keeps.guard fun hguard => ?_
    have henabled : o.enabled = true := not_not.mp hguard
    exact ⟨Sound.of_stored henabled (by simp) (fun rows => clean_stored now rows henabled)
      (fun rows h => h.cleanup now), fun _ => trivial⟩

/-- In every interleaving of the operations, with any times, the columns of every row fit
together, and a rejection leaves at most as many strikes as the threshold, all inside
the window. A disabled repository stores nothing. -/
theorem reputation_invariants (net : Addresses A) (o : Options)
    (actions : List (Action (Operation A))) :
    let outcome := run (program net o) (quiet .empty) actions
    (∀ key row, outcome.1.store.get key = some row → Fits o row) ∧
      (∀ t ∈ outcome.2, ∀ now ip, t.label = .rejection now ip →
        ∃ row, t.after.get ip = some row ∧ Struck o now row) ∧
      (o.enabled = false → outcome.1.store = .empty) := by
  intro outcome
  have hsound := (run_keeps (program_sound net o) (quiet_keeps .empty) actions).2
  have hempty : Represents o .empty := ⟨.empty, rfl, fun key row h => by cases h⟩
  have hrepresents : Represents o outcome.1.store :=
    run_invariant (program net o) actions (fun t ht => (hsound t ht).represents) hempty
  refine ⟨fun key row hrow => hrepresents.fits hrow, fun t ht => (hsound t ht).struck, ?_⟩
  intro hdisabled
  exact run_invariant (P := fun table => table = .empty) (program net o) actions
    (fun t ht => (hsound t ht).unused hdisabled) rfl

end MilterGuard.ReputationInvariants
