import Mathlib.Data.List.Basic

/-!
Sessions that share a store. The program of a session is a sequence of atomic updates,
each with a label, and what comes next may depend on the store that the update found.
An interleaving starts operations and advances sessions in any order. What every
update of the programs keeps holds of each transition of each interleaving.
-/
namespace MilterGuard.Interleavings

variable {Λ σ ω : Type}

inductive Prog (Λ σ : Type)
  | done
  | atomic (label : Λ) (update : σ → σ) (next : σ → Prog Λ σ)

structure Transition (Λ σ : Type) where
  label : Λ
  before : σ
  after : σ

structure Config (Λ σ : Type) where
  store : σ
  sessions : ℕ → Prog Λ σ

/-- An operation that starts in a busy session takes the place of the one before it,
which was abandoned. -/
inductive Action (ω : Type)
  | start (session : ℕ) (operation : ω)
  | advance (session : ℕ)

def Config.assign (c : Config Λ σ) (session : ℕ) (prog : Prog Λ σ) : Config Λ σ :=
  { c with sessions := fun n => if n = session then prog else c.sessions n }

def step (program : ω → Prog Λ σ) (c : Config Λ σ) :
    Action ω → Config Λ σ × List (Transition Λ σ)
  | .start session operation => (c.assign session (program operation), [])
  | .advance session =>
    match c.sessions session with
    | .done => (c, [])
    | .atomic label update next =>
      ({ c.assign session (next c.store) with store := update c.store },
        [⟨label, c.store, update c.store⟩])

def run (program : ω → Prog Λ σ) (c : Config Λ σ) :
    List (Action ω) → Config Λ σ × List (Transition Λ σ)
  | [] => (c, [])
  | action :: rest =>
    let first := step program c action
    let others := run program first.1 rest
    (others.1, first.2 ++ others.2)

/-- No session is at work. -/
def quiet (store : σ) : Config Λ σ := ⟨store, fun _ => .done⟩

/-- The store after a program that nothing interrupts. -/
def Prog.alone : Prog Λ σ → σ → σ
  | .done, s => s
  | .atomic _ update next, s => (next s).alone (update s)

/-- Every update of the program relates the stores before and after it. -/
def Prog.Keeps (R : Λ → σ → σ → Prop) : Prog Λ σ → Prop
  | .done => True
  | .atomic label update next => (∀ s, R label s (update s)) ∧ ∀ s, (next s).Keeps R

section Keeps

variable {R : Λ → σ → σ → Prop} {program : ω → Prog Λ σ}

def Config.Keeps (R : Λ → σ → σ → Prop) (c : Config Λ σ) : Prop :=
  ∀ n, (c.sessions n).Keeps R

/-- A program that is over at once or goes on. -/
theorem Prog.Keeps.guard {c : Prop} [Decidable c] {prog : Prog Λ σ} (h : ¬ c → prog.Keeps R) :
    (if c then .done else prog).Keeps R := iteInduction (fun _ => trivial) h

theorem quiet_keeps (store : σ) : (quiet store : Config Λ σ).Keeps R := fun _ => trivial

theorem Config.Keeps.assign {c : Config Λ σ} (h : c.Keeps R) (session : ℕ) {prog : Prog Λ σ}
    (hprog : prog.Keeps R) : (c.assign session prog).Keeps R := by
  intro n
  simp only [Config.assign]
  split
  · exact hprog
  · exact h n

theorem step_keeps (hprogram : ∀ operation, (program operation).Keeps R) {c : Config Λ σ}
    (hc : c.Keeps R) (action : Action ω) :
    (step program c action).1.Keeps R ∧
      ∀ t ∈ (step program c action).2, R t.label t.before t.after := by
  cases action with
  | start session operation => exact ⟨hc.assign session (hprogram operation), by simp [step]⟩
  | advance session =>
    have hsession := hc session
    simp only [step]
    cases hprog : c.sessions session with
    | done => exact ⟨hc, by simp⟩
    | atomic label update next =>
      rw [hprog] at hsession
      obtain ⟨hupdate, hnext⟩ := hsession
      refine ⟨hc.assign session (hnext c.store), ?_⟩
      simpa using hupdate c.store

/-- Every transition of an interleaving is one of an update. -/
theorem run_keeps (hprogram : ∀ operation, (program operation).Keeps R) {c : Config Λ σ}
    (hc : c.Keeps R) (actions : List (Action ω)) :
    (run program c actions).1.Keeps R ∧
      ∀ t ∈ (run program c actions).2, R t.label t.before t.after := by
  induction actions generalizing c with
  | nil => exact ⟨hc, by simp [run]⟩
  | cons action rest ih =>
    obtain ⟨hnext, hfirst⟩ := step_keeps hprogram hc action
    obtain ⟨hlast, hrest⟩ := ih hnext
    refine ⟨hlast, ?_⟩
    exact List.forall_mem_append.mpr ⟨hfirst, hrest⟩

end Keeps

theorem step_invariant {P : σ → Prop} (program : ω → Prog Λ σ) {c : Config Λ σ}
    (action : Action ω) (h : ∀ t ∈ (step program c action).2, P t.before → P t.after)
    (hc : P c.store) : P (step program c action).1.store := by
  cases action with
  | start session operation => exact hc
  | advance session =>
    simp only [step] at h ⊢
    cases hprog : c.sessions session with
    | done => exact hc
    | atomic label update next =>
      rw [hprog] at h
      exact h _ List.mem_cons_self hc

/-- What every transition preserves holds at the end of the interleaving. -/
theorem run_invariant {P : σ → Prop} (program : ω → Prog Λ σ) {c : Config Λ σ}
    (actions : List (Action ω)) (h : ∀ t ∈ (run program c actions).2, P t.before → P t.after)
    (hc : P c.store) : P (run program c actions).1.store := by
  induction actions generalizing c with
  | nil => exact hc
  | cons action rest ih =>
    simp only [run, List.mem_append] at h ⊢
    have hfirst := step_invariant program action (fun t ht => h t (Or.inl ht)) hc
    exact ih (fun t ht => h t (Or.inr ht)) hfirst

end MilterGuard.Interleavings
