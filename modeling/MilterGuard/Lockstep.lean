import MilterGuard.Procedures

/-!
Two runs in lockstep. The first run starts in a state related to the state of
the second one. While the second run logs nothing bad, the values of the two
agree under a view and their states stay related.
-/
namespace MilterGuard.Lockstep

open Procedures

/-- How the states of the two runs are related, and which logs are excluded. -/
structure Setting (ε σ : Type) where
  related : σ → σ → Prop
  bad : List ε → Prop
  bad_append : ∀ first second, bad (first ++ second) ↔ bad first ∨ bad second

variable {ε σ α β γ δ : Type} {k : Setting ε σ}

/-- The values agree under the view whenever the second run logs nothing bad. -/
def Agree (k : Setting ε σ) (view : α → γ) (m n : Proc ε σ α) : Prop :=
  ∀ s t, k.related s t → ¬ k.bad (n t).events →
    view (m s).value = view (n t).value ∧ k.related (m s).state (n t).state

variable {view : α → γ} {view' : β → δ}

theorem Agree.pure {a b : α} (h : view a = view b) :
    Agree k view (pure a) (pure b) := fun _ _ hrelated _ => ⟨h, hrelated⟩

theorem Agree.bind {m n : Proc ε σ α} {f g : α → Proc ε σ β} (hm : Agree k view m n)
    (hf : ∀ a b, view a = view b → Agree k view' (f a) (g b)) :
    Agree k view' (m >>= f) (n >>= g) := by
  intro s t hrelated hbad
  have hparts := not_or.mp (mt (k.bad_append _ _).mpr hbad)
  obtain ⟨hvalue, hstate⟩ := hm s t hrelated hparts.1
  exact hf _ _ hvalue _ _ hstate hparts.2

/-- The two runs go on with the same value. -/
theorem Agree.bind_same {m n : Proc ε σ α} {f g : α → Proc ε σ β} (hm : Agree k id m n)
    (hf : ∀ a, Agree k view' (f a) (g a)) : Agree k view' (m >>= f) (n >>= g) := by
  refine hm.bind fun a b hab => ?_
  obtain rfl : a = b := hab
  exact hf a

theorem Agree.bind_option {m n : Proc ε σ (Option α)} {f g : Option α → Proc ε σ β}
    (hm : Agree k id m n) (hsome : ∀ a, Agree k view' (f (some a)) (g (some a)))
    (hnone : Agree k view' (f none) (g none)) : Agree k view' (m >>= f) (n >>= g) :=
  hm.bind_same fun
    | none => hnone
    | some a => hsome a

theorem Agree.bind_except {m n : Proc ε σ (Except γ α)} {f g : Except γ α → Proc ε σ β}
    (hm : Agree k id m n) (herror : ∀ e, Agree k view' (f (.error e)) (g (.error e)))
    (hok : ∀ a, Agree k view' (f (.ok a)) (g (.ok a))) : Agree k view' (m >>= f) (n >>= g) :=
  hm.bind_same fun
    | .error e => herror e
    | .ok a => hok a

theorem Agree.ite {c : Prop} [Decidable c] {m n m' n' : Proc ε σ α}
    (hm : c → Agree k view m n) (hn : ¬ c → Agree k view m' n') :
    Agree k view (if c then m else m') (if c then n else n') := by
  by_cases hc : c
  · rw [if_pos hc, if_pos hc]
    exact hm hc
  · rw [if_neg hc, if_neg hc]
    exact hn hc

/-- Both runs end here, with values that agree, or go on. -/
theorem Agree.guard {c : Prop} [Decidable c] {a b : α} {m n : Proc ε σ α} (hend : view a = view b)
    (h : Agree k view m n) :
    Agree k view (if c then Pure.pure a else m) (if c then Pure.pure b else n) :=
  Agree.ite (fun _ => Agree.pure hend) fun _ => h

/-- Both runs go on, or end here with values that agree. -/
theorem Agree.when {c : Prop} [Decidable c] {a b : α} {m n : Proc ε σ α} (hend : view a = view b)
    (h : Agree k view m n) :
    Agree k view (if c then m else Pure.pure a) (if c then n else Pure.pure b) :=
  Agree.ite (fun _ => h) fun _ => Agree.pure hend

theorem Agree.unlessHandled {m n : Proc ε σ (Option α)} {next next' : Proc ε σ α}
    (hm : Agree k (Option.map view) m n) (hnext : Agree k view next next') :
    Agree k view (unlessHandled m next) (unlessHandled n next') := by
  refine hm.bind fun a b hab => ?_
  cases a with
  | none =>
    obtain rfl : b = none := by simpa using hab.symm
    exact hnext
  | some a =>
    obtain ⟨b', rfl, hb⟩ := Option.map_eq_some_iff.mp hab.symm
    exact Agree.pure hb.symm

/-- The second run always logs something bad, so there is nothing to compare. -/
theorem Agree.of_bad {m n : Proc ε σ α} (hbad : ∀ t, k.bad (n t).events) : Agree k view m n :=
  fun _ t _ hgood => absurd (hbad t) hgood

/-- A limit that the first run does not reach before the second. Behind it the
second run logs something bad, so only the other branch is compared. -/
theorem Agree.limit {c c' : Prop} [Decidable c] [Decidable c'] {m n m' n' : Proc ε σ α}
    (hc : c → c') (hbad : ∀ t, k.bad (n t).events) (h : Agree k view m' n') :
    Agree k view (if c then m else m') (if c' then n else n') := by
  by_cases hc' : c'
  · rw [if_pos hc']
    exact Agree.of_bad hbad
  · rw [if_neg hc', if_neg (mt hc hc')]
    exact h

/-- Reading the state gives values that are related as the states are. -/
theorem Agree.read {f : σ → α} {r : α → α → Prop} {g g' : α → Proc ε σ β}
    (hf : ∀ s t, k.related s t → r (f s) (f t))
    (h : ∀ a b, r a b → Agree k view' (g a) (g' b)) :
    Agree k view' (Procedures.read f >>= g) (Procedures.read f >>= g') := fun s t hrelated hbad =>
  h _ _ (hf s t hrelated) s t hrelated hbad

theorem Agree.modify {f g : σ → σ} (h : ∀ s t, k.related s t → k.related (f s) (g t)) :
    Agree k id (Procedures.modify f) (Procedures.modify g) :=
  fun s t hrelated _ => ⟨rfl, h s t hrelated⟩

theorem Agree.log (first second : List ε) :
    Agree k id (Procedures.log first) (Procedures.log second) :=
  fun _ _ hrelated _ => ⟨rfl, hrelated⟩

/-- Started in a state that the base is related to, the procedure gives a value seen
as `v` and such a state again, unless it logs something bad. -/
def Gives (k : Setting ε σ) (base : σ) (view : α → γ) (v : γ) (m : Proc ε σ α) : Prop :=
  ∀ t, k.related base t → ¬ k.bad (m t).events →
    view (m t).value = v ∧ k.related base (m t).state

variable {base : σ} {v : γ} {w : δ}

/-- What is known of one run from the base holds of every run in lockstep with it. -/
theorem Agree.gives (hbase : ∀ s t, k.related s t → k.related base t) {m n : Proc ε σ α}
    (h : Agree k view m n) : Gives k base view (view (m base).value) n := by
  intro t hrelated hgood
  obtain ⟨hvalue, hstate⟩ := h base t hrelated hgood
  exact ⟨hvalue.symm, hbase _ _ hstate⟩

theorem Gives.pure {a : α} (h : view a = v) : Gives k base view v (pure a) :=
  fun _ hrelated _ => ⟨h, hrelated⟩

theorem Gives.bind {m : Proc ε σ α} {f : α → Proc ε σ β} (hm : Gives k base view v m)
    (hf : ∀ a, view a = v → Gives k base view' w (f a)) : Gives k base view' w (m >>= f) := by
  intro t hrelated hgood
  have hparts := not_or.mp (mt (k.bad_append _ _).mpr hgood)
  obtain ⟨hvalue, hstate⟩ := hm t hrelated hparts.1
  exact hf _ hvalue _ hstate hparts.2

theorem Gives.bind_same {a : α} {m : Proc ε σ α} {f : α → Proc ε σ β} (hm : Gives k base id a m)
    (hf : Gives k base view' w (f a)) : Gives k base view' w (m >>= f) := by
  refine hm.bind fun b hb => ?_
  obtain rfl : b = a := hb
  exact hf

/-- The branch behind a limit logs something bad, so the other one decides. -/
theorem Gives.limit {c : Prop} [Decidable c] {m n : Proc ε σ α} (hbad : ∀ t, k.bad (m t).events)
    (h : Gives k base view v n) : Gives k base view v (if c then m else n) := by
  by_cases hc : c
  · rw [if_pos hc]
    exact fun t _ hgood => absurd (hbad t) hgood
  · rw [if_neg hc]
    exact h

/-- The first procedure does not answer, so the second one decides. -/
theorem Gives.unlessHandled {m : Proc ε σ (Option α)} {next : Proc ε σ α}
    (hm : Gives k base id none m) (hnext : Gives k base view v next) :
    Gives k base view v (unlessHandled m next) := hm.bind_same hnext

end MilterGuard.Lockstep
