import Mathlib.Data.List.Count

/-!
Traces of numbered resources of which at most one is open. A trace is followed
by a small automaton that knows the open resource and how many were created;
it is stuck when a resource is used while it is not the open one. A trace that
ends with nothing open has closed each of its resources exactly once.
-/
namespace MilterGuard.ResourceTraces

inductive Use
  | created (k : ℕ)
  | used (k : ℕ)
  | closed (k : ℕ)
  deriving DecidableEq

/-- The open resource and the number of resources created so far. -/
structure Pool where
  current : Option ℕ
  count : ℕ
  deriving DecidableEq

def Pool.step (p : Pool) : Use → Option Pool
  | .created k => if p.current = none ∧ k = p.count then some ⟨some k, p.count + 1⟩ else none
  | .used k => if p.current = some k then some p else none
  | .closed k => if p.current = some k then some ⟨none, p.count⟩ else none

def Pool.follow : Pool → List Use → Option Pool
  | p, [] => some p
  | p, u :: rest => (p.step u).bind fun q => q.follow rest

theorem Pool.follow_append (p : Pool) (left right : List Use) :
    p.follow (left ++ right) = (p.follow left).bind fun q => q.follow right := by
  induction left generalizing p with
  | nil => rfl
  | cons u rest ih =>
    simp only [List.cons_append, Pool.follow]
    cases p.step u with
    | none => rfl
    | some q => exact ih q

/-- The open resource is one of those created. -/
def Pool.Valid (p : Pool) : Prop := ∀ k, p.current = some k → k < p.count

theorem Pool.step_valid (p q : Pool) (u : Use) (hp : p.Valid) (h : p.step u = some q) :
    q.Valid ∧ p.count ≤ q.count ∧ ∀ k, u = .closed k → k < q.count := by
  cases u with
  | created j =>
    obtain ⟨hj, ⟨⟩⟩ := Option.ite_none_right_eq_some.mp h
    refine ⟨?_, Nat.le_succ _, by simp⟩
    intro k hk
    obtain rfl := Option.some.inj hk
    exact Nat.lt_succ_of_le (Nat.le_of_eq hj.2)
  | used j =>
    obtain ⟨hj, ⟨⟩⟩ := Option.ite_none_right_eq_some.mp h
    exact ⟨hp, Nat.le_refl _, by simp⟩
  | closed j =>
    obtain ⟨hj, ⟨⟩⟩ := Option.ite_none_right_eq_some.mp h
    refine ⟨by simp [Pool.Valid], Nat.le_refl _, ?_⟩
    intro k hk
    obtain rfl := Use.closed.inj hk
    exact hp _ hj

theorem Pool.follow_valid (p q : Pool) (trace : List Use) (hp : p.Valid)
    (h : p.follow trace = some q) :
    q.Valid ∧ p.count ≤ q.count ∧ ∀ k, .closed k ∈ trace → k < q.count := by
  induction trace generalizing p with
  | nil =>
    obtain rfl : p = q := Option.some.inj h
    exact ⟨hp, Nat.le_refl _, by simp⟩
  | cons u rest ih =>
    obtain ⟨next, hstep, hrest⟩ := Option.bind_eq_some_iff.mp h
    obtain ⟨hnext, hcount, hclosed⟩ := Pool.step_valid p next u hp hstep
    obtain ⟨hq, hcount', hclosed'⟩ := ih next hnext hrest
    refine ⟨hq, Nat.le_trans hcount hcount', ?_⟩
    intro k hk
    rcases List.mem_cons.mp hk with hk | hk
    · exact Nat.lt_of_lt_of_le (hclosed k hk.symm) hcount'
    · exact hclosed' k hk

/-- A resource that is neither open nor still to come is not named again. -/
theorem Pool.not_mem_of_past (p q : Pool) (trace : List Use) (k : ℕ)
    (h : p.follow trace = some q) (hcurrent : p.current ≠ some k) (hpast : k < p.count) :
    Use.created k ∉ trace ∧ Use.used k ∉ trace ∧ Use.closed k ∉ trace := by
  induction trace generalizing p with
  | nil => simp
  | cons u rest ih =>
    obtain ⟨next, hstep, hrest⟩ := Option.bind_eq_some_iff.mp h
    cases u with
    | created j =>
      obtain ⟨hj, ⟨⟩⟩ := Option.ite_none_right_eq_some.mp hstep
      have hne : j ≠ k := by omega
      have hih := ih _ hrest (by simpa using hne) (Nat.lt_succ_of_lt hpast)
      simpa [hne.symm] using hih
    | used j =>
      obtain ⟨hj, ⟨⟩⟩ := Option.ite_none_right_eq_some.mp hstep
      have hne : j ≠ k := by
        rintro rfl
        exact hcurrent hj
      simpa [hne.symm] using ih _ hrest hcurrent hpast
    | closed j =>
      obtain ⟨hj, ⟨⟩⟩ := Option.ite_none_right_eq_some.mp hstep
      have hne : j ≠ k := by
        rintro rfl
        exact hcurrent hj
      simpa [hne.symm] using ih _ hrest (by simp) hpast

/-- The open resource is closed exactly once if nothing is open in the end. -/
theorem Pool.count_closed_current (p q : Pool) (trace : List Use) (k : ℕ)
    (h : p.follow trace = some q) (hcurrent : p.current = some k) (hpast : k < p.count)
    (hend : q.current = none) : trace.count (.closed k) = 1 := by
  induction trace generalizing p with
  | nil =>
    obtain rfl : p = q := Option.some.inj h
    simp [hcurrent] at hend
  | cons u rest ih =>
    obtain ⟨next, hstep, hrest⟩ := Option.bind_eq_some_iff.mp h
    cases u with
    | created j =>
      simp [Pool.step, hcurrent] at hstep
    | used j =>
      obtain ⟨hj, ⟨⟩⟩ := Option.ite_none_right_eq_some.mp hstep
      simpa using ih _ hrest hcurrent hpast
    | closed j =>
      obtain ⟨hj, ⟨⟩⟩ := Option.ite_none_right_eq_some.mp hstep
      obtain rfl : k = j := Option.some.inj (hcurrent.symm.trans hj)
      have hlater := (Pool.not_mem_of_past _ q rest k hrest (by simp) hpast).2.2
      rw [List.count_cons_self, List.count_eq_zero_of_not_mem hlater]

/-- A created resource is closed exactly once if nothing is open in the end. -/
theorem Pool.count_closed_created (p q : Pool) (trace : List Use) (k : ℕ)
    (h : p.follow trace = some q) (hp : p.Valid)
    (hcreated : .created k ∈ trace) (hend : q.current = none) : trace.count (.closed k) = 1 := by
  obtain ⟨left, right, rfl⟩ := List.append_of_mem hcreated
  rw [Pool.follow_append] at h
  obtain ⟨mid, hleft, hright⟩ := Option.bind_eq_some_iff.mp h
  obtain ⟨next, hstep, hrest⟩ := Option.bind_eq_some_iff.mp hright
  obtain ⟨hk, ⟨⟩⟩ := Option.ite_none_right_eq_some.mp hstep
  have hright := Pool.count_closed_current _ q right k hrest rfl (by simp [hk.2]) hend
  have hleft : Use.closed k ∉ left := by
    intro hmem
    have hlt := (Pool.follow_valid p mid left hp hleft).2.2 k hmem
    omega
  rw [List.count_append, List.count_eq_zero_of_not_mem hleft]
  simpa using hright

/-- Once closed, a resource is not used any more. -/
theorem Pool.not_used_after_closed (p q : Pool) (left right : List Use) (k : ℕ)
    (h : p.follow (left ++ .closed k :: right) = some q) (hp : p.Valid) :
    Use.used k ∉ right := by
  rw [Pool.follow_append] at h
  obtain ⟨mid, hleft, hright⟩ := Option.bind_eq_some_iff.mp h
  obtain ⟨next, hstep, hrest⟩ := Option.bind_eq_some_iff.mp hright
  have hmid := (Pool.follow_valid p mid left hp hleft).1
  have hlt := (Pool.step_valid mid next _ hmid hstep).2.2 k rfl
  obtain ⟨hk, ⟨⟩⟩ := Option.ite_none_right_eq_some.mp hstep
  exact (Pool.not_mem_of_past _ q right k hrest (by simp) hlt).2.1

end MilterGuard.ResourceTraces
