import Mathlib.Order.Basic

/-!
Operations that are answered and upkeep that is not, both called at times that never
go back. When upkeep leads to a state that is alike for every later operation, the
answers are those of the run without any upkeep.
-/
namespace MilterGuard.SilentSteps

variable {τ σ ω μ α : Type}

inductive Call (τ ω μ : Type)
  | operation (time : τ) (op : ω)
  | upkeep (time : τ) (task : μ)

def Call.time : Call τ ω μ → τ
  | .operation time _ => time
  | .upkeep time _ => time

def Call.isOperation : Call τ ω μ → Bool
  | .operation _ _ => true
  | .upkeep _ _ => false

structure System (τ σ ω μ α : Type) where
  operate : τ → ω → σ → α × σ
  upkeep : τ → μ → σ → σ

namespace System

variable (m : System τ σ ω μ α)

def answers : List (Call τ ω μ) → σ → List α
  | [], _ => []
  | .operation time op :: rest, s =>
    (m.operate time op s).1 :: answers rest (m.operate time op s).2
  | .upkeep time task :: rest, s => answers rest (m.upkeep time task s)

/-- The upkeep of a run is called in states that allow it. -/
def Allows (allowed : τ → μ → σ → Prop) : List (Call τ ω μ) → σ → Prop
  | [], _ => True
  | .operation time op :: rest, s => Allows allowed rest (m.operate time op s).2
  | .upkeep time task :: rest, s => allowed time task s ∧ Allows allowed rest (m.upkeep time task s)

instance decidableAllows {allowed : τ → μ → σ → Prop}
    [∀ time task s, Decidable (allowed time task s)] :
    ∀ (calls : List (Call τ ω μ)) (s : σ), Decidable (m.Allows allowed calls s)
  | [], _ => isTrue trivial
  | .operation time op :: rest, s => decidableAllows rest (m.operate time op s).2
  | .upkeep time task :: rest, s =>
    @instDecidableAnd _ _ _ (decidableAllows rest (m.upkeep time task s))

/-- States that no operation at a time or later tells apart. -/
structure Indistinct [LE τ] (allowed : τ → μ → σ → Prop) (alike : τ → σ → σ → Prop) : Prop where
  later : ∀ {t u a b}, t ≤ u → alike t a b → alike u a b
  answer : ∀ {t a b}, alike t a b → ∀ op, (m.operate t op a).1 = (m.operate t op b).1
  next : ∀ {t a b}, alike t a b → ∀ op, alike t (m.operate t op a).2 (m.operate t op b).2
  silent : ∀ {t a b}, alike t a b → ∀ task, allowed t task b → alike t a (m.upkeep t task b)

variable {m}

/-- Upkeep changes no answer of a run. -/
theorem Indistinct.answers_eq [LE τ] {allowed : τ → μ → σ → Prop} {alike : τ → σ → σ → Prop}
    (h : m.Indistinct allowed alike) (calls : List (Call τ ω μ)) {a b : σ}
    (hclock : (calls.map Call.time).Pairwise (· ≤ ·)) (halike : ∀ call ∈ calls, alike call.time a b)
    (hallowed : m.Allows allowed calls b) :
    m.answers calls b = m.answers (calls.filter Call.isOperation) a := by
  induction calls generalizing a b with
  | nil => rfl
  | cons call rest ih =>
    obtain ⟨hfirst, hrest⟩ := List.pairwise_cons.mp hclock
    have hnow := halike call List.mem_cons_self
    have hlater : ∀ {a' b'}, alike call.time a' b' → ∀ next ∈ rest, alike next.time a' b' :=
      fun h' next hnext => h.later (hfirst _ (List.mem_map_of_mem hnext)) h'
    cases call with
    | operation time op =>
      have hrun := ih hrest (hlater (h.next hnow op)) hallowed
      exact List.cons_eq_cons.mpr ⟨(h.answer hnow op).symm, hrun⟩
    | upkeep time task =>
      exact ih hrest (hlater (h.silent hnow task hallowed.1)) hallowed.2

end System

end MilterGuard.SilentSteps
