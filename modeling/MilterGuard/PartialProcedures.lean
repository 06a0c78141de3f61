import MilterGuard.Procedures

/-!
Procedures that may break off, such as those that panic at an access out of range.
One that never does so and otherwise acts as a given procedure completes it.
-/
namespace MilterGuard.PartialProcedures

open Procedures

variable {ε σ α β : Type}

abbrev Partial (ε σ α : Type) := OptionT (Proc ε σ) α

/-- Goes on with the value, if there is one. -/
def fetch (a : Option α) : Partial ε σ α := OptionT.mk (pure a)

/-- The partial procedure never breaks off, and does what the other one does. -/
def Completes (c : Partial ε σ α) (m : Proc ε σ α) : Prop :=
  ∀ s, c.run s = ⟨some (m s).value, (m s).state, (m s).events⟩

variable {m : Proc ε σ α} {c : Partial ε σ α} {f : α → Partial ε σ β}

theorem Completes.value_isSome (h : Completes c m) (s : σ) :
    (c.run s).value = some (m s).value := by
  rw [h s]

theorem Completes.pure (a : α) : Completes (pure a : Partial ε σ α) (pure a) := fun _ => rfl

theorem Completes.lift (m : Proc ε σ α) : Completes (OptionT.lift m) m := by
  intro s
  change Outcome.mk (some (m s).value) (m s).state ((m s).events ++ []) = _
  rw [List.append_nil]

theorem Completes.bind_of {g : α → Proc ε σ β} {Q : α → Prop} (h : Completes c m)
    (hm : Ensures Q m) (hf : ∀ a, Q a → Completes (f a) (g a)) : Completes (c >>= f) (m >>= g) := by
  intro s
  have hrun : (c >>= f).run s = ⟨((f (m s).value).run (m s).state).value,
      ((f (m s).value).run (m s).state).state,
      (m s).events ++ ((f (m s).value).run (m s).state).events⟩ := by
    rw [OptionT.run_bind, Option.elimM, bind_run, h s]
    rfl
  rw [hrun, hf _ (hm s) (m s).state]
  rfl

theorem Completes.bind {g : α → Proc ε σ β} (h : Completes c m) (hf : ∀ a, Completes (f a) (g a)) :
    Completes (c >>= f) (m >>= g) :=
  h.bind_of (Q := fun _ => True) (fun _ => trivial) fun a _ => hf a

/-- A value that is there is handed on. -/
theorem Completes.fetch {a : α} {m : Proc ε σ β} {r : Option α} (hr : r = some a)
    (hf : Completes (f a) m) : Completes (fetch r >>= f) m := by
  intro s
  rw [← hf s, hr]
  rfl

theorem Completes.ite {p : Prop} [Decidable p] {d : Partial ε σ α} {n : Proc ε σ α}
    (hc : p → Completes c m) (hd : ¬ p → Completes d n) :
    Completes (if p then c else d) (if p then m else n) := by
  by_cases hp : p
  · rw [if_pos hp, if_pos hp]
    exact hc hp
  · rw [if_neg hp, if_neg hp]
    exact hd hp

end MilterGuard.PartialProcedures
