import Mathlib.Data.List.Basic

/-!
Procedures that change a state and log events. Running one procedure after
another appends their events. A sequence of attempts that may each fail stops
at the first failure, and what was attempted before it is a proper initial part.
-/
namespace MilterGuard.Procedures

structure Outcome (ε σ α : Type) where
  value : α
  state : σ
  events : List ε

def Proc (ε σ α : Type) : Type := σ → Outcome ε σ α

variable {ε σ α β : Type}

def ret (a : α) : Proc ε σ α := fun s => ⟨a, s, []⟩

variable (m : Proc ε σ α) (f : α → Proc ε σ β)

def andThen : Proc ε σ β := fun s =>
  let first := m s
  let second := f first.value first.state
  ⟨second.value, second.state, first.events ++ second.events⟩

instance : Monad (Proc ε σ) where
  pure := ret
  bind := andThen

def read (f : σ → α) : Proc ε σ α := fun s => ⟨f s, s, []⟩

def modify (f : σ → σ) : Proc ε σ Unit := fun s => ⟨(), f s, []⟩

def log (events : List ε) : Proc ε σ Unit := fun s => ⟨(), s, events⟩

@[simp] theorem pure_run (a : α) (s : σ) : (pure a : Proc ε σ α) s = ⟨a, s, []⟩ := rfl

@[simp] theorem bind_run (s : σ) :
    (m >>= f) s = ⟨(f (m s).value (m s).state).value, (f (m s).value (m s).state).state,
      (m s).events ++ (f (m s).value (m s).state).events⟩ := rfl

@[simp] theorem read_run (f : σ → α) (s : σ) : (read f : Proc ε σ α) s = ⟨f s, s, []⟩ := rfl

@[simp] theorem modify_run (f : σ → σ) (s : σ) : (modify f : Proc ε σ Unit) s = ⟨(), f s, []⟩ := rfl

@[simp] theorem log_run (events : List ε) (s : σ) :
    (log events : Proc ε σ Unit) s = ⟨(), s, events⟩ := rfl

/-- What holds of both branches holds of the choice between them. -/
theorem ite_run {P : Outcome ε σ α → Prop} {c : Prop} [Decidable c] {m n : Proc ε σ α} {s : σ}
    (hm : c → P (m s)) (hn : ¬ c → P (n s)) : P ((if c then m else n) s) :=
  iteInduction (motive := fun m : Proc ε σ α => P (m s)) hm hn

/-- Goes on with the next procedure unless the first one gave the answer. -/
def unlessHandled (m : Proc ε σ (Option α)) (next : Proc ε σ α) : Proc ε σ α := do
  match ← m with
  | some a => pure a
  | none => next

section unlessHandled

variable {P : Outcome ε σ α → Prop} {c : Prop} [Decidable c] {next m : Proc ε σ α} {s : σ}

theorem unlessHandled_ite {m n : Proc ε σ (Option α)} (hm : c → P (unlessHandled m next s))
    (hn : ¬ c → P (unlessHandled n next s)) : P (unlessHandled (if c then m else n) next s) := by
  split_ifs with hc
  · exact hm hc
  · exact hn hc

theorem unlessHandled_answer : unlessHandled (do let a ← m; pure (some a)) next s = m s := by
  simp [unlessHandled]

/-- A stage that gives its answer unless it leaves the answer to the next one. -/
theorem unlessHandled_run (hnext : c → P (next s)) (hm : ¬ c → P (m s)) :
    P (unlessHandled (if c then pure none else do let a ← m; pure (some a)) next s) :=
  unlessHandled_ite hnext fun hc => by
    rw [unlessHandled_answer]
    exact hm hc

end unlessHandled

/-- Attempts the items in order and stops at the first that fails. -/
def attemptAll (attempt : α → Proc ε σ Bool) : List α → Proc ε σ Bool
  | [] => pure true
  | a :: rest => do
    if ← attempt a then attemptAll attempt rest else pure false

/-- An attempt logs one event and counts itself, whether it succeeds or not. -/
structure Attempts (attempt : α → Proc ε σ Bool) (done : α → ε) (failed : ε)
    (count : σ → σ) : Prop where
  succeeds : ∀ a s, (attempt a s).value = true → (attempt a s).events = [done a]
  fails : ∀ a s, (attempt a s).value = false → (attempt a s).events = [failed]
  counts : ∀ a s, (attempt a s).state = count s

variable {attempt : α → Proc ε σ Bool} {done : α → ε} {failed : ε} {count : σ → σ}

theorem attemptAll_true (h : Attempts attempt done failed count) (items : List α) (s : σ)
    (hvalue : (attemptAll attempt items s).value = true) :
    (attemptAll attempt items s).events = items.map done := by
  induction items generalizing s with
  | nil => rfl
  | cons a rest ih =>
    cases ha : (attempt a s).value with
    | false => simp [attemptAll, ha] at hvalue
    | true =>
      simp only [attemptAll, bind_run, ha, if_true] at hvalue ⊢
      rw [h.succeeds a s ha, ih _ hvalue]
      rfl

/-- A failure is the last event, after a proper initial part of the items. -/
theorem attemptAll_false (h : Attempts attempt done failed count) (items : List α) (s : σ)
    (hvalue : (attemptAll attempt items s).value = false) :
    ∃ k, k < items.length ∧
      (attemptAll attempt items s).events = (items.take k).map done ++ [failed] := by
  induction items generalizing s with
  | nil => simp [attemptAll] at hvalue
  | cons a rest ih =>
    cases ha : (attempt a s).value with
    | false =>
      simp [attemptAll, ha, h.fails a s ha]
    | true =>
      simp only [attemptAll, bind_run, ha, if_true] at hvalue ⊢
      obtain ⟨k, hk, hevents⟩ := ih _ hvalue
      refine ⟨k + 1, by simpa using hk, ?_⟩
      rw [h.succeeds a s ha, hevents]
      rfl

/-- Only the counter of attempts moves. -/
theorem attemptAll_state (h : Attempts attempt done failed count) (P : σ → Prop)
    (hcount : ∀ s, P s → P (count s)) (items : List α) (s : σ) (hs : P s) :
    P (attemptAll attempt items s).state := by
  induction items generalizing s with
  | nil => exact hs
  | cons a rest ih =>
    have hnext : P (attempt a s).state := by
      rw [h.counts a s]
      exact hcount s hs
    cases ha : (attempt a s).value with
    | false => simpa [attemptAll, ha] using hnext
    | true =>
      simp only [attemptAll, bind_run, ha]
      exact ih _ hnext

variable (R : σ → List ε → σ → Prop)

/-- A relation between the states before and after some events that composes. -/
structure Chains : Prop where
  refl : ∀ s, R s [] s
  trans : ∀ {s t u es fs}, R s es t → R t fs u → R s (es ++ fs) u

/-- The procedure follows the relation from every state. -/
def Follows (m : Proc ε σ α) : Prop :=
  ∀ s, R s (m s).events (m s).state

section Follows

variable {R : σ → List ε → σ → Prop}

theorem Follows.pure (hR : Chains R) (a : α) : Follows R (pure a : Proc ε σ α) := hR.refl

theorem Follows.read (hR : Chains R) (f : σ → α) : Follows R (read f : Proc ε σ α) := hR.refl

theorem Follows.bind (hR : Chains R) {m : Proc ε σ α} {f : α → Proc ε σ β} (hm : Follows R m)
    (hf : ∀ a, Follows R (f a)) : Follows R (m >>= f) := fun s =>
  hR.trans (hm s) (hf (m s).value (m s).state)

theorem Follows.ite_of {c : Prop} [Decidable c] {m n : Proc ε σ α} (hm : c → Follows R m)
    (hn : Follows R n) : Follows R (if c then m else n) := iteInduction hm fun _ => hn

theorem Follows.ite {c : Prop} [Decidable c] {m n : Proc ε σ α} (hm : Follows R m)
    (hn : Follows R n) : Follows R (if c then m else n) := Follows.ite_of (fun _ => hm) hn

theorem Follows.unlessHandled (hR : Chains R) {m : Proc ε σ (Option α)} {next : Proc ε σ α}
    (hm : Follows R m) (hnext : Follows R next) : Follows R (unlessHandled m next) := by
  refine Follows.bind hR hm fun answer => ?_
  cases answer with
  | none => exact hnext
  | some a => exact Follows.pure hR a

theorem Follows.attemptAll (hR : Chains R) (attempt : α → Proc ε σ Bool)
    (h : ∀ a, Follows R (attempt a)) (items : List α) : Follows R (attemptAll attempt items) := by
  induction items with
  | nil => exact Follows.pure hR true
  | cons a rest ih =>
    refine Follows.bind hR (h a) fun sent => ?_
    cases sent with
    | false => exact Follows.pure hR false
    | true => exact ih

end Follows

/-- Whatever state the procedure starts in, its value satisfies `Q`. -/
def Ensures (Q : α → Prop) (m : Proc ε σ α) : Prop := ∀ s, Q (m s).value

section Ensures

variable {Q : α → Prop} {Q' : β → Prop}

theorem Ensures.pure {a : α} (h : Q a) : Ensures Q (pure a : Proc ε σ α) := fun _ => h

theorem Ensures.bind {m : Proc ε σ α} {f : α → Proc ε σ β} (hm : Ensures Q m)
    (hf : ∀ a, Q a → Ensures Q' (f a)) : Ensures Q' (m >>= f) := fun s =>
  hf (m s).value (hm s) (m s).state

/-- Nothing needs to be known about the procedure that comes first. -/
theorem Ensures.after {m : Proc ε σ α} {f : α → Proc ε σ β} (hf : ∀ a, Ensures Q' (f a)) :
    Ensures Q' (m >>= f) := fun s => hf (m s).value (m s).state

theorem Ensures.ite {c : Prop} [Decidable c] {m n : Proc ε σ α} (hm : c → Ensures Q m)
    (hn : ¬ c → Ensures Q n) : Ensures Q (if c then m else n) := iteInduction hm hn

theorem Ensures.unlessHandled {m : Proc ε σ (Option α)} {next : Proc ε σ α}
    (hm : Ensures (fun answer => ∀ a, answer = some a → Q a) m) (hnext : Ensures Q next) :
    Ensures Q (unlessHandled m next) := by
  refine Ensures.bind hm fun answer hanswer => ?_
  cases answer with
  | none => exact hnext
  | some a => exact Ensures.pure (hanswer a rfl)

end Ensures

/-- A relation that also hears whether all went well. What went wrong stays wrong. -/
structure GradedChains (R : Prop → σ → List ε → σ → Prop) : Prop where
  refl : ∀ p s, R p s [] s
  trans : ∀ {p q s t u es fs}, (q → p) → R p s es t → R q t fs u → R q s (es ++ fs) u

/-- The procedure follows the relation, and all went well if its value is good. -/
def Graded (R : Prop → σ → List ε → σ → Prop) (good : α → Prop) (m : Proc ε σ α) : Prop :=
  ∀ s, R (good (m s).value) s (m s).events (m s).state

/-- The value is never good. -/
structure Fails (R : Prop → σ → List ε → σ → Prop) (good : α → Prop) (m : Proc ε σ α) : Prop where
  never : Ensures (fun a => ¬ good a) m
  follows : Follows (R False) m

section Graded

variable {R : Prop → σ → List ε → σ → Prop} {good : α → Prop} {good' : β → Prop}
  {m : Proc ε σ α} {f : α → Proc ε σ β}

/-- A relation that does not care. -/
theorem Chains.graded {R : σ → List ε → σ → Prop} (h : Chains R) : GradedChains fun _ => R :=
  ⟨fun _ => h.refl, fun _ => h.trans⟩

/-- A relation that only counts when all went well. -/
theorem Chains.whenGood {R : σ → List ε → σ → Prop} (h : Chains R) :
    GradedChains fun p s es t => p → R s es t :=
  ⟨fun _ s _ => h.refl s, fun hqp hfirst hsecond hq => h.trans (hfirst (hqp hq)) (hsecond hq)⟩

theorem Fails.graded (h : Fails R good m) : Graded R good m := by
  intro s
  rw [eq_false (h.never s)]
  exact h.follows s

variable (hR : GradedChains R)

include hR

theorem GradedChains.falls : Chains (R False) := ⟨hR.refl False, hR.trans id⟩

theorem Graded.pure (a : α) : Graded R good (pure a : Proc ε σ α) := fun s => hR.refl _ s

theorem Graded.read (g : σ → α) : Graded R good (read g : Proc ε σ α) := fun s => hR.refl _ s

theorem Fails.pure {a : α} (h : ¬ good a) : Fails R good (pure a : Proc ε σ α) :=
  ⟨Ensures.pure h, hR.refl False⟩

theorem Graded.follows (h : Graded R good m) : Follows (R False) m := by
  intro s
  simpa using hR.trans False.elim (h s) (hR.refl False _)

theorem Graded.bind (hm : Graded R good m) (hbad : ∀ a, ¬ good a → Fails R good' (f a))
    (hgood : ∀ a, good a → Graded R good' (f a)) : Graded R good' (m >>= f) := by
  intro s
  by_cases h : good (m s).value
  · exact hR.trans (fun _ => h) (hm s) (hgood _ h _)
  · exact hR.trans (fun hq => absurd hq ((hbad _ h).never _)) (hm s) ((hbad _ h).graded _)

/-- After a step that cannot go wrong. -/
theorem Graded.after (hm : Graded R (fun _ => True) m) (hf : ∀ a, Graded R good' (f a)) :
    Graded R good' (m >>= f) :=
  Graded.bind hR hm (fun _ h => absurd trivial h) fun a _ => hf a

/-- An answer ends the steps. -/
theorem Graded.bind_option {m : Proc ε σ (Option α)} {f : Option α → Proc ε σ β}
    (hm : Graded R (· = none) m) (hsome : ∀ a, Fails R good' (f (some a)))
    (hnone : Graded R good' (f none)) : Graded R good' (m >>= f) := by
  refine Graded.bind hR hm (fun answer hanswer => ?_) fun answer hanswer => ?_
  · cases answer with
    | none => exact absurd rfl hanswer
    | some a => exact hsome a
  · rw [hanswer]
    exact hnone

/-- An error ends the steps. -/
theorem Graded.bind_except {δ : Type} {m : Proc ε σ (Except δ α)} {f : Except δ α → Proc ε σ β}
    (hm : Graded R (fun r => ∃ a, r = .ok a) m) (herror : ∀ e, Fails R good' (f (.error e)))
    (hok : ∀ a, Graded R good' (f (.ok a))) : Graded R good' (m >>= f) := by
  refine Graded.bind hR hm (fun r hr => ?_) fun r hr => ?_
  · cases r with
    | ok a => exact absurd ⟨a, rfl⟩ hr
    | error e => exact herror e
  · obtain ⟨a, rfl⟩ := hr
    exact hok a

omit hR in
theorem Graded.ite {c : Prop} [Decidable c] {m n : Proc ε σ α} (hm : c → Graded R good m)
    (hn : ¬ c → Graded R good n) : Graded R good (if c then m else n) := iteInduction hm hn

theorem Graded.unlessHandled {m : Proc ε σ (Option α)} {next : Proc ε σ α}
    (hm : Graded R (· = none) m)
    (hanswer : Ensures (fun answer => ∀ a, answer = some a → ¬ good a) m)
    (hnext : Graded R good next) : Graded R good (unlessHandled m next) := by
  intro s
  cases hvalue : (m s).value with
  | some a =>
    have hrun := hm s
    simp only [Procedures.unlessHandled, bind_run, hvalue]
    exact hR.trans (fun h => absurd h (hanswer s a hvalue)) hrun (hR.refl _ _)
  | none =>
    simp only [Procedures.unlessHandled, bind_run, hvalue]
    exact hR.trans (fun _ => hvalue) (hm s) (hnext _)

end Graded

/-- From the state the procedure leads to a value and a state that satisfy `Q`. -/
def Leads (s : σ) (Q : α → σ → Prop) : Prop := Q (m s).value (m s).state

section Leads

variable {m : Proc ε σ α} {s : σ}

theorem Leads.imp {P Q : α → σ → Prop} (h : Leads m s P) (hPQ : ∀ a t, P a t → Q a t) :
    Leads m s Q := hPQ _ _ h

theorem Leads.read {f : σ → α} {g : α → Proc ε σ β} {Q : β → σ → Prop} (h : Leads (g (f s)) s Q) :
    Leads (read f >>= g) s Q := h

theorem Leads.bind {g : α → Proc ε σ β} {P : α → σ → Prop} {Q : β → σ → Prop} (hm : Leads m s P)
    (hg : ∀ a t, P a t → Leads (g a) t Q) : Leads (m >>= g) s Q := hg _ _ hm

theorem Leads.ite {c : Prop} [Decidable c] {n : Proc ε σ α} {Q : α → σ → Prop}
    (hm : c → Leads m s Q) (hn : ¬ c → Leads n s Q) : Leads (if c then m else n) s Q :=
  iteInduction (motive := (Leads · s Q)) hm hn

end Leads

/-- A failure among the events stops the procedure: its value says so, and only
harmless events come after it. -/
def Stops (failed : ε) (harmless : ε → Prop) (stop : α → Prop) (o : Outcome ε σ α) : Prop :=
  failed ∉ o.events ∨
    stop o.value ∧ ∃ before after, o.events = before ++ failed :: after ∧
      failed ∉ before ∧ ∀ e ∈ after, harmless e

section Stops

variable {harmless : ε → Prop} {stop : α → Prop} {stop' : β → Prop}

/-- After a failure the continuation must stop too and do only harmless things. -/
theorem Stops.bind {m : Proc ε σ α} {f : α → Proc ε σ β} {s : σ}
    (hm : Stops failed harmless stop (m s))
    (hnext : failed ∉ (m s).events →
      Stops failed harmless stop' (f (m s).value (m s).state))
    (hstop : stop (m s).value → stop' (f (m s).value (m s).state).value ∧
      ∀ e ∈ (f (m s).value (m s).state).events, harmless e) :
    Stops failed harmless stop' ((m >>= f) s) := by
  rcases hm with hnone | ⟨hvalue, before, after, hevents, hbefore, hafter⟩
  · rcases hnext hnone with hrest | ⟨hvalue, before, after, hevents, hbefore, hafter⟩
    · refine Or.inl ?_
      rw [bind_run, List.mem_append]
      exact not_or.mpr ⟨hnone, hrest⟩
    · refine Or.inr ⟨hvalue, (m s).events ++ before, after, ?_, ?_, hafter⟩
      · rw [bind_run, hevents, List.append_assoc]
      · rw [List.mem_append]
        exact not_or.mpr ⟨hnone, hbefore⟩
  · obtain ⟨hnextValue, hnextEvents⟩ := hstop hvalue
    refine Or.inr ⟨hnextValue, before, after ++ (f (m s).value (m s).state).events, ?_, hbefore, ?_⟩
    · rw [bind_run, hevents, List.append_assoc, List.cons_append]
    · exact List.forall_mem_append.mpr ⟨hafter, hnextEvents⟩

/-- Without a failure among its events a procedure only passes its turn on. -/
theorem Stops.bind_of_clean {m : Proc ε σ α} {f : α → Proc ε σ β} {s : σ}
    (hm : failed ∉ (m s).events)
    (hnext : Stops failed harmless stop' (f (m s).value (m s).state)) :
    Stops failed harmless stop' ((m >>= f) s) := by
  have hclean : Stops failed harmless (fun _ : α => False) (m s) := Or.inl hm
  exact Stops.bind hclean (fun _ => hnext) False.elim

end Stops

end MilterGuard.Procedures
