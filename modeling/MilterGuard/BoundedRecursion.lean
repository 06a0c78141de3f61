import Mathlib.Tactic.Common

/-!
Recursion that carries its depth. The body of a procedure calls itself one level
deeper, and no more once a limit is reached. Finitely many unfoldings of such a body
give the solution of the recursive equation, whatever stands for deeper calls.
-/
namespace MilterGuard.BoundedRecursion

variable {α : Type*}

/-- The body calls itself one level deeper only, and only above the limit. -/
def Stays (limit : ℕ) (body : (ℕ → α) → ℕ → α) : Prop :=
  ∀ f g depth, (depth < limit → f (depth + 1) = g (depth + 1)) → body f depth = body g depth

/-- The body unfolded a number of times, above something else for the deeper calls. -/
def unfolded (body : (ℕ → α) → ℕ → α) (beyond : ℕ → α) : ℕ → ℕ → α
  | 0 => beyond
  | calls + 1 => body (unfolded body beyond calls)

/-- Enough unfoldings reach the solution, and what lies beyond is never asked. -/
theorem unfolded_eq {limit : ℕ} {body : (ℕ → α) → ℕ → α} (hbody : Stays limit body) {f : ℕ → α}
    (hf : ∀ depth, f depth = body f depth) (beyond : ℕ → α) {calls depth : ℕ}
    (hdepth : depth ≤ limit) (hcalls : limit < depth + calls) :
    unfolded body beyond calls depth = f depth := by
  induction calls generalizing depth with
  | zero => omega
  | succ calls ih =>
    rw [hf depth]
    refine hbody _ _ depth fun hbelow => ?_
    exact ih (by omega) (by omega)

end MilterGuard.BoundedRecursion
