import MilterGuard.EvidenceClaims

/-!
What holds of the domain registration store in every interleaving of its calls: lookups
start only when they are due and do not overlap, and an owner that gets its turns closes
its channel, so that nobody waits for ever.
-/
namespace MilterGuard.CoalescedLookups

open Histories KeyedTables EvidenceCoalescing EvidenceClaims

variable {D : Type} [DecidableEq D] (maxSize : ℤ) (s : Store D)

/-- What the claims guarantee about records, failure windows and times. -/
structure Settled : Prop where
  captured : ∀ call now, (s.callers call).captured = some now → now ≤ s.clock
  windows : ∀ call domain time, (s.callers call).holding = some domain →
    s.failures.get domain = some time → time ≤ s.clock
  expired : ∀ call domain now record, s.callers call = .selecting domain now →
    s.records domain = some record → record.expiresAt ≤ s.clock
  size : 1 ≤ maxSize → (s.failures.rows.length : ℤ) ≤ maxSize

section Settled

variable {maxSize : ℤ} {s t : Store D} {es : List (Event D)} {call : ℕ} {domain : D}

theorem newStore_settled (clock : ℤ) (records : D → Option Record) :
    Settled maxSize (newStore clock records) := by
  refine ⟨by simp [newStore, Phase.captured], by simp [newStore, Phase.holding],
    by simp [newStore], fun hmax => ?_⟩
  have hempty : (newStore clock records).failures.rows.length = 0 := rfl
  omega

theorem Settled.tick (h : Settled maxSize s) (duration : ℕ) :
    Settled maxSize { s with clock := s.clock + duration } := by
  refine ⟨?_, ?_, ?_, h.size⟩ <;> simp only
  · intro call now hnow
    have hle := h.captured call now hnow
    omega
  · intro call domain time hcall htime
    have hle := h.windows call domain time hcall htime
    omega
  · intro call domain now record hcall hrecord
    have hle := h.expired call domain now record hcall hrecord
    omega

theorem Settled.forget (h : Settled maxSize s) (domain : D) :
    Settled maxSize { s with records := Function.update s.records domain none } := by
  refine ⟨h.captured, h.windows, ?_, h.size⟩
  intro call other now record hcall hrecord
  simp only [Function.update_apply] at hrecord
  split_ifs at hrecord
  exact h.expired call other now record hcall hrecord

/-- A call takes another phase and may change its own record; the failures stay. -/
theorem Settled.assign (h : Settled maxSize s) (call : ℕ) (phase : Phase D)
    {records : D → Option Record} {inflight : D → Option ℕ} {slots : ℕ}
    (hcaptured : ∀ now, phase.captured = some now → now ≤ s.clock)
    (hwindows : ∀ domain time, phase.holding = some domain →
      s.failures.get domain = some time → time ≤ s.clock)
    (hexpired : ∀ domain now record, phase = .selecting domain now →
      records domain = some record → record.expiresAt ≤ s.clock)
    (hothers : ∀ other domain now, other ≠ call → s.callers other = .selecting domain now →
      records domain = s.records domain) :
    Settled maxSize { s.assign call phase with
      records := records, inflight := inflight, slots := slots } := by
  refine ⟨?_, ?_, ?_, h.size⟩ <;> simp only [Store.assign]
  · intro other now hother
    by_cases heq : other = call
    · exact hcaptured now (by simpa [heq] using hother)
    · exact h.captured other now (by simpa [heq] using hother)
  · intro other domain time hother
    by_cases heq : other = call
    · exact hwindows domain time (by simpa [heq] using hother)
    · exact h.windows other domain time (by simpa [heq] using hother)
  · intro other domain now record hother hrecord
    by_cases heq : other = call
    · exact hexpired domain now record (by simpa [heq] using hother) hrecord
    · have hselecting : s.callers other = .selecting domain now := by simpa [heq] using hother
      rw [hothers other domain now heq hselecting] at hrecord
      exact h.expired other domain now record hselecting hrecord

/-- The failure of a lookup opens a window for a domain that nobody else has claimed. -/
theorem Settled.releases (h : Settled maxSize s) (hs : Coherent s) {failures : Table D ℤ}
    (hcall : (s.callers call).holding = some domain)
    (hfailures : ∀ other time, failures.get other = some time →
      other = domain ∨ s.failures.get other = some time)
    (hsize : 1 ≤ maxSize → (s.failures.rows.length : ℤ) ≤ maxSize →
      (failures.rows.length : ℤ) ≤ maxSize) :
    Settled maxSize { (s.finishInflight call domain).assign call (.done true) with
      failures := failures } := by
  have hcallers : ∀ (other : ℕ) (phase : Phase D),
      Function.update s.callers call (.done true) other = phase → phase ≠ .done true →
        other ≠ call ∧ s.callers other = phase := by
    intro other phase hother hphase
    by_cases heq : other = call
    · subst other
      rw [Function.update_self] at hother
      exact absurd hother.symm hphase
    · exact ⟨heq, by simpa [heq] using hother⟩
  refine ⟨?_, ?_, ?_, fun hmax => hsize hmax (h.size hmax)⟩ <;>
    simp only [Store.assign, Store.finishInflight]
  · intro other now hother
    refine h.captured other now ?_
    rw [← (hcallers other _ rfl ?_).2] at hother
    · exact hother
    · intro hdone
      simp [hdone, Phase.captured] at hother
  · intro other domain' time hother htime
    have hother' := hcallers other _ rfl (by
      intro hdone
      simp [hdone, Phase.holding] at hother)
    rw [← hother'.2] at hother
    rcases hfailures domain' time htime with rfl | hold
    · exact absurd (hs.unique hother hcall) hother'.1
    · exact h.windows other domain' time hother hold
  · intro other domain' now record hother hrecord
    exact h.expired other domain' now record (hcallers other _ hother (by simp)).2 hrecord

theorem settled_of_moves (h : Settled maxSize s) (hs : Coherent s) (hmove : Moves maxSize s t es) :
    Settled maxSize t := by
  cases hmove with
  | still => exact h
  | tick duration => exact h.tick duration
  | forget domain => exact h.forget domain
  | aside call phase es _ hafter hcaptured =>
    refine h.assign call phase (fun now hnow => ?_) (by simp [hafter.1]) ?_ (fun _ _ _ _ _ => rfl)
    · rcases hcaptured now hnow with rfl | hold
      · exact le_refl _
      · exact h.captured call now hold
    · rintro _ _ _ rfl
      simp [Phase.holding] at hafter
  | claims call domain now hlocking _ hclosed =>
    refine h.assign call (.claimed domain now) (by simp [Phase.captured]) ?_ (by simp)
      (fun _ _ _ _ _ => rfl)
    rintro _ time ⟨⟩ htime
    have hnow := h.captured call now (by rw [hlocking]; rfl)
    have hle := hclosed time htime
    omega
  | within call domain phase slots records hbefore hafter hothers hexpired =>
    refine h.assign call phase (fun now hnow => ?_) (fun domain' time hdomain' => ?_) ?_ ?_
    · cases phase <;> simp_all [Phase.holding, Phase.captured]
    · obtain rfl : domain = domain' := Option.some.inj (hafter.symm.trans hdomain')
      exact h.windows call domain time hbefore
    · rintro domain' now record rfl hrecord
      obtain rfl : domain' = domain := Option.some.inj hafter
      exact hexpired now rfl record hrecord
    · -- a domain that another call has claimed is not this one
      intro other domain' now hother hselecting
      refine hothers domain' ?_
      rintro rfl
      exact hother (hs.unique (by rw [hselecting]; rfl) hbefore)
  | starts call domain now hselecting =>
    refine h.assign call (.looking domain now) (by simp [Phase.captured]) ?_ (by simp)
      (fun _ _ _ _ _ => rfl)
    intro domain' time hdomain'
    exact h.windows call domain' time (by rw [hselecting]; exact hdomain')
  | releases call domain answer failures hbefore hothers hsize =>
    exact h.releases hs hbefore hothers hsize

/-- The events of a step are lawful. -/
theorem lawful_of_moves (h : Settled maxSize s) (hmove : Moves maxSize s t es) :
    ∀ e ∈ es, Lawful e := by
  cases hmove with
  | aside call phase es _ _ _ _ hlawful => exact hlawful
  | starts call domain now hselecting =>
    intro e he
    obtain rfl := List.mem_singleton.mp he
    refine ⟨fun record hrecord => h.expired call domain now record hselecting hrecord, ?_⟩
    intro time htime
    exact h.windows call domain time (by rw [hselecting]; rfl) htime
  | releases call domain answer failures =>
    intro e he
    obtain rfl := List.mem_singleton.mp he
    trivial
  | _ => simp

end Settled

/-- The parts that a call still has to do for its claim, at most. -/
def remaining : Phase D → ℕ
  | .claimed _ _ => 5
  | .selecting _ _ => 4
  | .looking _ _ => 3
  | .storing _ _ _ => 2
  | .releasing _ _ | .finishing _ _ _ _ => 1
  | _ => 0

/-- A turn of the call when the time for its lookup is over. -/
def turn (call : ℕ) : Action D → Bool
  | .advance other env => other == call && env.lookupContextEnded
  | _ => false

section Progress

variable {maxSize : ℤ} {s : Store D} {call : ℕ} {domain : D}

omit [DecidableEq D] in
theorem remaining_bounds {phase : Phase D} (h : phase.holding = some domain) :
    1 ≤ remaining phase ∧ remaining phase ≤ 5 := by
  cases phase <;> simp_all [Phase.holding, remaining]

theorem advance_frame (env : Environment) {other : ℕ} (h : call ≠ other) :
    (advance maxSize env other s).1.callers call = s.callers call := by
  unfold advance lock
  cases s.callers other <;> simp only <;>
    repeat' split
  all_goals simp [Store.return, Store.assign, Store.finishInflight, h]

/-- The owner has given its claim up, or it keeps the claim and has less to do. -/
def Closer (domain : D) (turns : ℕ) (before after : Phase D) : Prop :=
  after = .done true ∨ after.holding = some domain ∧ remaining after + turns ≤ remaining before

omit [DecidableEq D] in
theorem closer_assign {env : Environment} {callers : ℕ → Phase D} {before phase : Phase D}
    (hholding : phase.holding = some domain) (h : remaining phase < remaining before) :
    Closer domain (if env.lookupContextEnded then 1 else 0) before
      (Function.update callers call phase call) := by
  rw [Function.update_self]
  refine Or.inr ⟨hholding, ?_⟩
  split_ifs <;> omega

/-- A turn of the owner ends its claim or brings the end nearer. -/
theorem advance_closer (env : Environment) (h : (s.callers call).holding = some domain) :
    Closer domain (if env.lookupContextEnded then 1 else 0) (s.callers call)
      ((advance maxSize env call s).1.callers call) := by
  unfold advance
  revert h
  cases hphase : s.callers call with
  | claimed domain' now =>
    rintro ⟨⟩
    by_cases hfails : env.repositoryFails = true
    · simp only [if_pos hfails]
      exact closer_assign rfl (by simp [remaining])
    · simp only [if_neg hfails]
      cases s.current domain s.clock with
      | some record | none => exact closer_assign rfl (by simp [remaining])
  | releasing domain' answer | finishing domain' now lookupErr answer =>
    exact fun _ => Or.inl (by simp [Store.assign])
  | selecting domain' now =>
    rintro ⟨⟩
    by_cases hended : env.lookupContextEnded = true
    · simp only [if_pos hended, Store.assign, Function.update_self]
      exact Or.inr ⟨rfl, by simp [remaining]⟩
    · simp only [if_neg hended]
      split_ifs
      · simp only [Store.assign, Function.update_self]
        exact Or.inr ⟨rfl, by simp [remaining]⟩
      · simp only [hphase]
        exact Or.inr ⟨rfl, Nat.le_refl _⟩
  | looking domain' now =>
    rintro ⟨⟩
    simp only
    cases evaluate now env with
    | ok record | error deadlineExceeded => exact closer_assign rfl (by simp [remaining])
  | storing domain' now record =>
    rintro ⟨⟩
    by_cases hfails : env.repositoryFails = true
    · simp only [if_pos hfails]
      exact closer_assign rfl (by simp [remaining])
    · simp only [if_neg hfails]
      exact closer_assign rfl (by simp [remaining])
  | _ => simp [Phase.holding]

/-- A call that has returned does nothing more. -/
theorem step_done {claimed : Bool} (h : s.callers call = .done claimed) (action : Action D) :
    (step maxSize s action).1.callers call = .done claimed := by
  cases action with
  | tick duration => exact h
  | forget domain => exact h
  | call other domain =>
    by_cases hother : call = other
    · subst hother
      simp [step, h]
    · simp only [step]
      cases s.callers other <;> simp [Store.assign, hother, h]
  | advance other env =>
    by_cases hother : call = other
    · subst hother
      simp [step, advance, h]
    · exact (advance_frame env hother).trans h

theorem run_done {claimed : Bool} (h : s.callers call = .done claimed) (later : List (Action D)) :
    (run (step maxSize) s later).1.callers call = .done claimed := by
  induction later generalizing s with
  | nil => exact h
  | cons action rest ih => exact ih (step_done h action)

theorem step_closer (h : (s.callers call).holding = some domain) (action : Action D) :
    Closer domain (if turn call action then 1 else 0) (s.callers call)
      ((step maxSize s action).1.callers call) := by
  cases action with
  | tick duration | forget domain => exact Or.inr ⟨h, Nat.le_refl _⟩
  | call other domain' =>
    have hsame : (step maxSize s (.call other domain')).1.callers call = s.callers call := by
      by_cases hother : call = other
      · cases hphase : s.callers call <;> simp_all [step, Phase.holding]
      · simp only [step]
        cases s.callers other <;> simp [Store.assign, hother]
    simp only [hsame]
    exact Or.inr ⟨h, Nat.le_refl _⟩
  | advance other env =>
    by_cases hother : call = other
    · subst hother
      simpa [step, turn] using advance_closer env h
    · have hsame : (step maxSize s (.advance other env)).1.callers call = s.callers call :=
        advance_frame env hother
      have hturn : turn call (.advance other env : Action D) = false := by
        simp [turn, Ne.symm hother]
      simp only [hsame, hturn]
      exact Or.inr ⟨h, Nat.le_refl _⟩

/-- With enough turns the owner of a claim gives it up, whatever the others do. -/
theorem run_releases (later : List (Action D)) (h : (s.callers call).holding = some domain)
    (hturns : remaining (s.callers call) ≤ later.countP (turn call)) :
    (run (step maxSize) s later).1.callers call = .done true := by
  induction later generalizing s with
  | nil =>
    have hpos := (remaining_bounds h).1
    simp only [List.countP_nil] at hturns
    omega
  | cons action rest ih =>
    rcases step_closer h action with hdone | ⟨hholding, hless⟩
    · exact run_done hdone rest
    · refine ih hholding ?_
      rw [List.countP_cons] at hturns
      omega

end Progress

/-- What holds of the store and its events in every interleaving. -/
structure Coalesced (es : List (Event D)) : Prop where
  /-- At most one lookup for a domain is in progress. -/
  oneLookup : ∀ call other domain now now', s.callers call = .looking domain now →
    s.callers other = .looking domain now' → call = other
  /-- No lookup starts while there is an unexpired record or an open failure window. -/
  lawful : ∀ e ∈ es, Lawful e
  /-- The channel of a claim is open, and it is closed when its call has had its turns. -/
  closed : ∀ domain call, s.inflight domain = some call → s.closes call = 0 ∧
    ∀ later, 5 ≤ later.countP (turn call) → (run (step maxSize) s later).1.closes call = 1
  closes_le : ∀ call, s.closes call ≤ 1
  /-- A waiting call goes on at its next turn when the call it waits for has had its turns. -/
  waiters : ∀ call domain pending, s.callers call = .waiting domain pending →
    ∀ later env, 5 ≤ later.countP (turn pending) →
      let s' := (run (step maxSize) s later).1
      s'.callers call = .waiting domain pending →
        (step maxSize s' (.advance call env)).1.callers call ≠ .waiting domain pending
  idle : (∀ call, s.callers call = .absent ∨ ∃ claimed, s.callers call = .done claimed) →
    ∀ domain, s.inflight domain = none
  size : 1 ≤ maxSize → (s.failures.rows.length : ℤ) ≤ maxSize

/-- What every step keeps. -/
def Inv (past : List (Event D)) : Prop :=
  Coherent s ∧ Settled maxSize s ∧ ∀ e ∈ past, Lawful e

theorem step_inv (past : List (Event D)) (action : Action D) (h : Inv maxSize s past) :
    Inv maxSize (step maxSize s action).1 (past ++ (step maxSize s action).2) := by
  obtain ⟨hs, hsettled, hpast⟩ := h
  have hmove : Moves maxSize s _ _ := step_moves hs action
  refine ⟨hmove.coherent hs, settled_of_moves hsettled hs hmove, ?_⟩
  exact List.forall_mem_append.mpr ⟨hpast, lawful_of_moves hsettled hmove⟩

/-- The channel of a call that gets its turns is closed after them. -/
theorem run_closes {maxSize : ℤ} {s : Store D} {past : List (Event D)}
    (hinv : Inv maxSize s past) {call : ℕ} {domain : D}
    (h : (s.callers call).holding = some domain ∨ (s.callers call).released = true)
    {later : List (Action D)} (hturns : 5 ≤ later.countP (turn call)) :
    (run (step maxSize) s later).1.closes call = 1 := by
  have hdone : (run (step maxSize) s later).1.callers call = .done true := by
    rcases h with hholding | hreleased
    · exact run_releases later hholding (Nat.le_trans (remaining_bounds hholding).2 hturns)
    · refine run_done ?_ later
      cases hphase : s.callers call <;> simp_all [Phase.released]
  have hcloses := (run_invariant (step_inv maxSize) hinv later).1.closes_eq call
  simpa [hdone, Phase.released] using hcloses

/-- Concurrent calls share their lookups: in every interleaving the lookups of a domain do
not overlap and respect records and failure windows, channels are closed exactly once,
nothing stays in flight, and the failures stay within their bound. -/
theorem evidence_coalesces (maxSize clock : ℤ) (records : D → Option Record)
    (actions : List (Action D)) :
    let outcome := run (step maxSize) (newStore clock records) actions
    Coalesced maxSize outcome.1 outcome.2 := by
  intro outcome
  have hnew : Inv maxSize (newStore clock records) [] :=
    ⟨newStore_coherent clock records, newStore_settled clock records, by simp⟩
  have hinv : Inv maxSize outcome.1 ([] ++ outcome.2) :=
    run_invariant (step_inv maxSize) hnew actions
  obtain ⟨hs, hsettled, hlawful⟩ := id hinv
  refine ⟨?_, by simpa using hlawful, ?_, ?_, ?_, ?_, hsettled.size⟩
  · intro call other domain now now' hcall hother
    exact hs.unique (by rw [hcall]; rfl) (by rw [hother]; rfl)
  · intro domain call hinflight
    have hholding := (hs.inflight_iff domain call).mp hinflight
    refine ⟨?_, fun later hturns => run_closes hinv (Or.inl hholding) hturns⟩
    rw [hs.closes_eq, released_of_holding hholding]
    rfl
  · intro call
    rw [hs.closes_eq]
    split_ifs <;> omega
  · intro call domain pending hwaiting later env hturns s' hwaiting'
    have hcloses : s'.closes pending = 1 :=
      run_closes hinv (hs.waiting call domain pending hwaiting) hturns
    simp only [step, advance, hwaiting', hcloses]
    by_cases hended : env.contextEnded = true
    · simp [hended, Store.return, Store.assign]
    · simp [hended, Store.assign]
  · intro hidle domain
    cases hinflight : outcome.1.inflight domain with
    | none => rfl
    | some call =>
      have hholding := (hs.inflight_iff domain call).mp hinflight
      rcases hidle call with habsent | ⟨claimed, hdone⟩
      · simp [habsent, Phase.holding] at hholding
      · simp [hdone, Phase.holding] at hholding

end MilterGuard.CoalescedLookups
