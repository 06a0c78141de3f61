import MilterGuard.Procedures

/-!
Monitors that follow a trace of events and are stuck at an event that must not
happen. A procedure whose events lead a monitor from the view of the state before to
the view of the state after does so in every composition.
-/
namespace MilterGuard.Monitors

open Procedures

variable {S ε σ : Type}

/-- The state behind an event, or nothing when the event must not happen. -/
abbrev Monitor (S ε : Type) := S → ε → Option S

def follow (m : Monitor S ε) : S → List ε → Option S
  | s, [] => some s
  | s, e :: rest => (m s e).bind fun t => follow m t rest

variable (m : Monitor S ε)

theorem follow_append (s : S) (before after : List ε) :
    follow m s (before ++ after) = (follow m s before).bind fun t => follow m t after := by
  induction before generalizing s with
  | nil => rfl
  | cons e rest ih =>
    simp only [List.cons_append, follow]
    cases m s e with
    | none => rfl
    | some t => exact ih t

/-- An accepted trace taken apart at one of its events. -/
theorem follow_split {m : Monitor S ε} {s u : S} {before after : List ε} {e : ε}
    (h : follow m s (before ++ e :: after) = some u) :
    ∃ t t', follow m s before = some t ∧ m t e = some t' ∧ follow m t' after = some u := by
  rw [follow_append] at h
  obtain ⟨t, hbefore, hrest⟩ := Option.bind_eq_some_iff.mp h
  obtain ⟨t', hstep, hafter⟩ := Option.bind_eq_some_iff.mp hrest
  exact ⟨t, t', hbefore, hstep, hafter⟩

/-- What every step from a state with a property keeps and says of its event holds
along the trace. -/
theorem follow_invariant {m : Monitor S ε} {P : S → Prop} {Q : ε → Prop}
    (hstep : ∀ {s e t}, P s → m s e = some t → P t ∧ Q e) {s t : S} {es : List ε} (hs : P s)
    (h : follow m s es = some t) : P t ∧ ∀ e ∈ es, Q e := by
  induction es generalizing s with
  | nil =>
    obtain rfl : s = t := Option.some.inj h
    exact ⟨hs, by simp⟩
  | cons e rest ih =>
    obtain ⟨u, hfirst, hrest⟩ := Option.bind_eq_some_iff.mp h
    obtain ⟨hu, he⟩ := hstep hs hfirst
    obtain ⟨ht, hall⟩ := ih hu hrest
    exact ⟨ht, by simpa [he] using hall⟩

/-- The events lead the monitor from one view to the other. -/
def Tracks (view : σ → S) (s : σ) (es : List ε) (t : σ) : Prop :=
  follow m (view s) es = some (view t)

theorem tracks_chains (view : σ → S) : Chains (Tracks m view) where
  refl _ := rfl
  trans {s t u es fs} hst htu := by
    unfold Tracks at hst htu ⊢
    rw [follow_append, hst]
    exact htu

end MilterGuard.Monitors
