import Mathlib.Data.List.Basic
import Mathlib.Order.Basic

/-!
Verdicts on a list that are taken from its first member that is not calm. Such a
verdict weighs at least as much as every member exactly when no heavier member
comes after the one that decides.
-/
namespace MilterGuard.Precedence

variable {κ : Type} [DecidableEq κ]

/-- The first member other than `calm`, or `rest` when there is none. -/
def firstStop (calm rest : κ) : List κ → κ
  | [] => rest
  | k :: kinds => if k = calm then firstStop calm rest kinds else k

/-- A member that decides wherever it stands, before the first one that is not calm. -/
def topFirst (calm top rest : κ) (kinds : List κ) : κ :=
  if top ∈ kinds then top else firstStop calm rest kinds

variable {calm top rest : κ} (weight : κ → ℕ)

/-- What is returned for a calm list matters only when the list is calm. -/
theorem firstStop_rest (kinds : List κ) :
    firstStop calm rest kinds =
      if firstStop calm calm kinds = calm then rest else firstStop calm calm kinds := by
  induction kinds with
  | nil => simp [firstStop]
  | cons k kinds ih =>
    by_cases hk : k = calm
    · simpa only [firstStop, if_pos hk] using ih
    · simp only [firstStop, if_neg hk]

theorem firstStop_singleton (k : κ) : firstStop calm calm [k] = k := by
  by_cases hk : k = calm
  · simp [firstStop, hk]
  · simp [firstStop, hk]

theorem topFirst_singleton (k : κ) : topFirst calm top calm [k] = k := by
  by_cases hk : top = k
  · simp [topFirst, hk]
  · simp [topFirst, firstStop_singleton]

/-- Nothing after the first member that is not calm weighs more than it. -/
def NoneHeavierLater (calm : κ) (kinds : List κ) : Prop :=
  ∀ before k after, kinds = before ++ k :: after → (∀ b ∈ before, b = calm) → k ≠ calm →
    ∀ later ∈ after, weight later ≤ weight k

theorem noneHeavierLater_cons_calm (kinds : List κ) :
    NoneHeavierLater weight calm (calm :: kinds) ↔ NoneHeavierLater weight calm kinds := by
  constructor
  · intro h before k after hkinds hbefore hk later hlater
    refine h (calm :: before) k after ?_ ?_ hk later hlater
    · rw [hkinds, List.cons_append]
    · exact List.forall_mem_cons.mpr ⟨rfl, hbefore⟩
  · intro h before k after hkinds hbefore hk later hlater
    cases before with
    | nil =>
      rw [List.nil_append, List.cons.injEq] at hkinds
      exact absurd hkinds.1.symm hk
    | cons b before =>
      rw [List.cons_append, List.cons.injEq] at hkinds
      exact h before k after hkinds.2 (fun b hb => hbefore b (List.mem_cons_of_mem _ hb)) hk
        later hlater

theorem noneHeavierLater_cons {k : κ} (hk : k ≠ calm) (kinds : List κ) :
    NoneHeavierLater weight calm (k :: kinds) ↔ ∀ later ∈ kinds, weight later ≤ weight k := by
  constructor
  · intro h
    exact h [] k kinds rfl (by simp) hk
  · intro h before k' after hkinds hbefore _ later hlater
    cases before with
    | nil =>
      obtain ⟨rfl, rfl⟩ := hkinds
      exact h later hlater
    | cons b before =>
      rw [List.cons_append, List.cons.injEq] at hkinds
      exact absurd (hkinds.1.trans (hbefore b List.mem_cons_self)) hk

/-- The first member that is not calm weighs the most exactly when none after it is
heavier. -/
theorem le_firstStop_iff (hcalm : ∀ k, weight calm ≤ weight k) (kinds : List κ) :
    (∀ k ∈ kinds, weight k ≤ weight (firstStop calm rest kinds)) ↔
      NoneHeavierLater weight calm kinds := by
  induction kinds with
  | nil => simp [NoneHeavierLater]
  | cons k kinds ih =>
    by_cases hk : k = calm
    · subst hk
      rw [firstStop, noneHeavierLater_cons_calm, ← ih]
      simp [hcalm]
    · rw [firstStop, if_neg hk, noneHeavierLater_cons weight hk]
      simp

theorem le_topFirst_iff (hcalm : ∀ k, weight calm ≤ weight k) (htop : ∀ k, weight k ≤ weight top)
    (kinds : List κ) :
    (∀ k ∈ kinds, weight k ≤ weight (topFirst calm top rest kinds)) ↔
      top ∈ kinds ∨ NoneHeavierLater weight calm kinds := by
  by_cases h : top ∈ kinds
  · simp [topFirst, h, htop]
  · simp only [topFirst, h, false_or]
    exact le_firstStop_iff weight hcalm kinds

/-- Where every member that is not calm weighs the most, the order does not matter. -/
theorem noneHeavierLater_of_max (hmax : ∀ k, k ≠ calm → ∀ k', weight k' ≤ weight k)
    (kinds : List κ) : NoneHeavierLater weight calm kinds :=
  fun _ k _ _ _ hk later _ => hmax k hk later

end MilterGuard.Precedence
