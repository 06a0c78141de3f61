import Mathlib.Tactic.Common

/-!
Work on a state that a failure may cut short. What was done to the state before the
failure stays, so an invariant of the state must hold on both exits, while a value is
only promised where the work completes.
-/
namespace MilterGuard.Interruptions

/-- Work that ends with a value or with a failure, in either case in some state. -/
def Interruptible (κ σ α : Type) : Type := σ → Except κ α × σ

variable {κ σ α β : Type}

instance : Monad (Interruptible κ σ) where
  pure a := fun s => (.ok a, s)
  bind m f := fun s =>
    match m s with
    | (.ok a, t) => f a t
    | (.error failure, t) => (.error failure, t)

def fail (failure : κ) : Interruptible κ σ α := fun s => (.error failure, s)

def read (f : σ → α) : Interruptible κ σ α := fun s => (.ok (f s), s)

def modify (f : σ → σ) : Interruptible κ σ Unit := fun s => (.ok (), f s)

/-- A step that cannot fail. -/
def step (f : σ → α × σ) : Interruptible κ σ α := fun s => (.ok (f s).1, (f s).2)

variable (m : Interruptible κ σ α)

/-- Hands a failure of the work on as a value. -/
def caught : Interruptible κ σ (Except κ α) := fun s =>
  (.ok (m s).1, (m s).2)

theorem bind_run (f : α → Interruptible κ σ β) (s : σ) :
    (m >>= f) s =
      match m s with
      | (.ok a, t) => f a t
      | (.error failure, t) => (.error failure, t) := rfl

/-- From the state the work ends in a state with the invariant, and where it completes
its value and state satisfy `Q`. -/
def Meets (Inv : σ → Prop) (m : Interruptible κ σ α) (s : σ) (Q : α → σ → Prop) : Prop :=
  Inv (m s).2 ∧ ∀ a, (m s).1 = .ok a → Q a (m s).2

section Meets

variable {Inv : σ → Prop} {m : Interruptible κ σ α} {s : σ} {P Q : α → σ → Prop}

theorem Meets.imp (h : Meets Inv m s P) (hPQ : ∀ a t, Inv t → P a t → Q a t) :
    Meets Inv m s Q :=
  ⟨h.1, fun a ha => hPQ a _ h.1 (h.2 a ha)⟩

theorem Meets.pure {a : α} (hs : Inv s) (h : Q a s) :
    Meets Inv (pure a : Interruptible κ σ α) s Q := by
  refine ⟨hs, fun b hb => ?_⟩
  cases hb
  exact h

theorem Meets.fail {failure : κ} (hs : Inv s) :
    Meets Inv (fail failure : Interruptible κ σ α) s Q :=
  ⟨hs, fun _ h => nomatch h⟩

theorem Meets.step {f : σ → α × σ} (hs : Inv (f s).2) (h : Q (f s).1 (f s).2) :
    Meets Inv (step f : Interruptible κ σ α) s Q := by
  refine ⟨hs, fun a ha => ?_⟩
  cases ha
  exact h

theorem Meets.update {f : σ → σ} {Q : Unit → σ → Prop} (hs : Inv (f s)) (h : Q () (f s)) :
    Meets Inv (modify f : Interruptible κ σ Unit) s Q := ⟨hs, fun _ _ => h⟩

theorem Meets.bind {f : α → Interruptible κ σ β} {R : β → σ → Prop} (hm : Meets Inv m s P)
    (hf : ∀ a t, Inv t → P a t → Meets Inv (f a) t R) : Meets Inv (m >>= f) s R := by
  obtain ⟨hinv, hvalue⟩ := hm
  rw [Meets, bind_run]
  rcases hrun : m s with ⟨failure | a, t⟩
  · rw [hrun] at hinv
    exact ⟨hinv, fun _ h => nomatch h⟩
  · rw [hrun] at hinv hvalue
    exact hf a t hinv (hvalue a rfl)

theorem Meets.read {f : σ → α} {g : α → Interruptible κ σ β} {R : β → σ → Prop}
    (h : Meets Inv (g (f s)) s R) : Meets Inv (read f >>= g) s R := h

theorem Meets.modify {f : σ → σ} {g : Unit → Interruptible κ σ β} {R : β → σ → Prop}
    (h : Meets Inv (g ()) (f s) R) : Meets Inv (modify f >>= g) s R := h

theorem Meets.ite {c : Prop} [Decidable c] {n : Interruptible κ σ α}
    (hm : c → Meets Inv m s Q) (hn : ¬ c → Meets Inv n s Q) :
    Meets Inv (if c then m else n) s Q := iteInduction (motive := (Meets Inv · s Q)) hm hn

theorem Meets.caught (h : Meets Inv m s Q) :
    Meets Inv (caught m) s (fun r t => ∀ a, r = .ok a → Q a t) := by
  refine ⟨h.1, fun r hr a ha => h.2 a ?_⟩
  cases hr
  exact ha

end Meets

/-- The work completes from every state. -/
def Settles : Prop := ∀ s, ∃ a, (m s).1 = .ok a

section Settles

variable {m : Interruptible κ σ α} {f : α → Interruptible κ σ β}

theorem Settles.pure (a : α) : Settles (pure a : Interruptible κ σ α) := fun _ => ⟨a, rfl⟩

theorem Settles.step (f : σ → α × σ) : Settles (step f : Interruptible κ σ α) :=
  fun s => ⟨(f s).1, rfl⟩

theorem Settles.read (f : σ → α) : Settles (read f : Interruptible κ σ α) := fun s => ⟨f s, rfl⟩

theorem Settles.modify (f : σ → σ) : Settles (modify f : Interruptible κ σ Unit) :=
  fun _ => ⟨(), rfl⟩

theorem Settles.caught (m : Interruptible κ σ α) : Settles (caught m) := fun s => ⟨(m s).1, rfl⟩

theorem Settles.bind (hm : Settles m) (hf : ∀ a, Settles (f a)) : Settles (m >>= f) := by
  intro s
  obtain ⟨a, ha⟩ := hm s
  rw [bind_run]
  rcases hrun : m s with ⟨failure | b, t⟩
  · rw [hrun] at ha
    exact nomatch ha
  · exact hf b t

theorem Settles.ite {c : Prop} [Decidable c] {n : Interruptible κ σ α} (hm : Settles m)
    (hn : Settles n) : Settles (if c then m else n) := iteInduction (fun _ => hm) fun _ => hn

end Settles

end MilterGuard.Interruptions
