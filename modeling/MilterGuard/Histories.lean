import Mathlib.Data.List.Basic

/-!
Runs of a state machine that keep the events of the past. An invariant may speak about
the state and all events so far, and a rule may say what must have come before each
event.
-/
namespace MilterGuard.Histories

variable {σ α ε : Type}

/-- The state after the actions and the events on the way. -/
def run (step : σ → α → σ × List ε) (s : σ) : List α → σ × List ε
  | [] => (s, [])
  | a :: rest =>
    let first := step s a
    let others := run step first.1 rest
    (others.1, first.2 ++ others.2)

/-- What every step keeps of the state and its past holds after every run. -/
theorem run_invariant {step : σ → α → σ × List ε} {Inv : σ → List ε → Prop}
    (hstep : ∀ s past a, Inv s past → Inv (step s a).1 (past ++ (step s a).2)) {s : σ}
    {past : List ε} (h : Inv s past) (actions : List α) :
    Inv (run step s actions).1 (past ++ (run step s actions).2) := by
  induction actions generalizing s past with
  | nil => simpa [run] using h
  | cons a rest ih =>
    simp only [run, ← List.append_assoc]
    exact ih (hstep s past a h)

/-- The rule holds of each event and the events before it. -/
def Preceded (rule : List ε → ε → Prop) (es : List ε) : Prop :=
  ∀ before e after, es = before ++ e :: after → rule before e

section Preceded

variable {rule : List ε → ε → Prop} {es : List ε}

theorem preceded_nil : Preceded rule [] := by
  intro before e after h
  simp at h

theorem Preceded.concat (h : Preceded rule es) {e : ε} (he : rule es e) :
    Preceded rule (es ++ [e]) := by
  intro before e' after hsplit
  rcases List.eq_nil_or_concat after with rfl | ⟨rest, last, rfl⟩
  · obtain ⟨rfl, hlast⟩ := List.append_inj' hsplit rfl
    obtain rfl := List.singleton_inj.mp hlast
    exact he
  · rw [List.concat_eq_append, ← List.cons_append, ← List.append_assoc] at hsplit
    exact h before e' rest (List.append_inj' hsplit rfl).1

end Preceded

end MilterGuard.Histories
