import Mathlib

/-!
Contests. The members of a list are offered one after another, and one that is not
smaller than the member that stands takes its place. The last of the greatest members
stands in the end. It does so too when members in doubt get smaller or drop out.
-/
namespace MilterGuard.Contests

variable {α β κ : Type} [LinearOrder κ] (key : α → κ)

def stand : Option α → α → Option α
  | none, a => some a
  | some b, a => if key b ≤ key a then some a else some b

/-- The last of the greatest members: none before it is greater, all after it are smaller. -/
def LastMax (members : List α) (winner : α) : Prop :=
  ∃ before after, members = before ++ winner :: after ∧
    (∀ a ∈ before, key a ≤ key winner) ∧ ∀ a ∈ after, key a < key winner

theorem LastMax.bound {key : α → κ} {members : List α} {winner a : α}
    (h : LastMax key members winner) (ha : a ∈ members) : key a ≤ key winner := by
  obtain ⟨before, after, rfl, hbefore, hafter⟩ := h
  rcases List.mem_append.mp ha with ha | ha
  · exact hbefore a ha
  · rcases List.mem_cons.mp ha with rfl | ha
    · exact le_rfl
    · exact (hafter a ha).le

private theorem foldl_stand (members : List α) :
    match members.foldl (stand key) none with
    | none => members = []
    | some winner => LastMax key members winner := by
  induction members using List.reverseRecOn with
  | nil => rfl
  | append_singleton members a ih =>
    rw [List.foldl_append, List.foldl_cons]
    cases hstands : members.foldl (stand key) none with
    | none =>
      rw [hstands] at ih
      subst ih
      exact ⟨[], [], rfl, by simp, by simp⟩
    | some b =>
      rw [hstands] at ih
      by_cases hle : key b ≤ key a
      · rw [stand, if_pos hle]
        exact ⟨members, [], rfl, fun c hc => (ih.bound hc).trans hle, by simp⟩
      · rw [stand, if_neg hle]
        obtain ⟨before, after, rfl, hbefore, hafter⟩ := ih
        refine ⟨before, after ++ [a], by simp, hbefore, fun c hc => ?_⟩
        rcases List.mem_append.mp hc with hc | hc
        · exact hafter c hc
        · obtain rfl := List.mem_singleton.mp hc
          exact not_le.mp hle

/-- What stands after all members were offered. -/
theorem LastMax.of_foldl {key : α → κ} {members : List α} {winner : α}
    (h : members.foldl (stand key) none = some winner) : LastMax key members winner := by
  have hstands := foldl_stand key members
  rwa [h] at hstands

/-- Members in doubt drop out or come back smaller; all others stay as they are. -/
inductive Resolved (face : α → β) (key : β → κ) (doubtful : α → Prop) : List α → List β → Prop
  | nil : Resolved face key doubtful [] []
  | kept (a : α) {as : List α} {bs : List β} (h : Resolved face key doubtful as bs) :
    Resolved face key doubtful (a :: as) (face a :: bs)
  | lowered {a : α} {b : β} (ha : doubtful a) (hb : key b ≤ key (face a)) {as : List α}
    {bs : List β} (h : Resolved face key doubtful as bs) :
    Resolved face key doubtful (a :: as) (b :: bs)
  | dropped {a : α} (ha : doubtful a) {as : List α} {bs : List β}
    (h : Resolved face key doubtful as bs) : Resolved face key doubtful (a :: as) bs

section Resolved

variable {face : α → β} {key : β → κ} {doubtful : α → Prop} {as as' : List α} {bs bs' : List β}

theorem Resolved.append (h : Resolved face key doubtful as bs)
    (h' : Resolved face key doubtful as' bs') :
    Resolved face key doubtful (as ++ as') (bs ++ bs') := by
  induction h with
  | nil => exact h'
  | kept a _ ih => exact .kept a ih
  | lowered ha hb _ ih => exact .lowered ha hb ih
  | dropped ha _ ih => exact .dropped ha ih

/-- No resolved member is greater than all members it may come from. -/
theorem Resolved.exists_ge (h : Resolved face key doubtful as bs) {b : β} (hb : b ∈ bs) :
    ∃ a ∈ as, key b ≤ key (face a) := by
  induction h with
  | nil => simp at hb
  | kept a _ ih =>
    rcases List.mem_cons.mp hb with rfl | hb
    · exact ⟨a, by simp, le_rfl⟩
    · obtain ⟨c, hc, hle⟩ := ih hb
      exact ⟨c, by simp [hc], hle⟩
  | lowered _ hle _ ih =>
    rcases List.mem_cons.mp hb with rfl | hb
    · exact ⟨_, by simp, hle⟩
    · obtain ⟨c, hc, hle⟩ := ih hb
      exact ⟨c, by simp [hc], hle⟩
  | dropped _ _ ih =>
    obtain ⟨c, hc, hle⟩ := ih hb
    exact ⟨c, by simp [hc], hle⟩

theorem Resolved.split (h : Resolved face key doubtful (as ++ as') bs) :
    ∃ first second, bs = first ++ second ∧ Resolved face key doubtful as first ∧
      Resolved face key doubtful as' second := by
  induction as generalizing bs with
  | nil => exact ⟨[], bs, rfl, .nil, h⟩
  | cons a as ih =>
    cases h with
    | kept _ h =>
      obtain ⟨first, second, rfl, hfirst, hsecond⟩ := ih h
      exact ⟨_ :: first, second, rfl, .kept a hfirst, hsecond⟩
    | lowered ha hb h =>
      obtain ⟨first, second, rfl, hfirst, hsecond⟩ := ih h
      exact ⟨_ :: first, second, rfl, .lowered ha hb hfirst, hsecond⟩
    | dropped ha h =>
      obtain ⟨first, second, rfl, hfirst, hsecond⟩ := ih h
      exact ⟨first, second, rfl, .dropped ha hfirst, hsecond⟩

/-- A winner that is not in doubt wins however the doubts are resolved. -/
theorem LastMax.resolved {winner : α} (h : LastMax (key ∘ face) as winner)
    (hwinner : ¬ doubtful winner) (hr : Resolved face key doubtful as bs) :
    LastMax key bs (face winner) := by
  obtain ⟨before, after, rfl, hbefore, hafter⟩ := h
  obtain ⟨first, second, rfl, hfirst, hsecond⟩ := hr.split
  cases hsecond with
  | lowered hdoubt _ _ | dropped hdoubt _ => exact absurd hdoubt hwinner
  | kept _ hrest =>
    refine ⟨first, _, rfl, fun b hb => ?_, fun b hb => ?_⟩
    · obtain ⟨a, ha, hle⟩ := hfirst.exists_ge hb
      exact hle.trans (hbefore a ha)
    · obtain ⟨a, ha, hle⟩ := hrest.exists_ge hb
      exact hle.trans_lt (hafter a ha)

end Resolved

end MilterGuard.Contests
