import MilterGuard.EvidenceCoalescing

/-!
The claims of the domain registration store. Everything that a step can do is listed
once, and claims, channels and waiting calls fit together after every step.
-/
namespace MilterGuard.EvidenceClaims

open KeyedTables EvidenceCoalescing

variable {D : Type} [DecidableEq D]

/-- Everything that a step can do. -/
inductive Moves (maxSize : ℤ) (s : Store D) : Store D → List (Event D) → Prop
  | still : Moves maxSize s s []
  | tick (duration : ℕ) : Moves maxSize s { s with clock := s.clock + duration } []
  | forget (domain : D) :
      Moves maxSize s { s with records := Function.update s.records domain none } []
  /-- A call without a claim. -/
  | aside (call : ℕ) (phase : Phase D) (es : List (Event D))
      (before : (s.callers call).holding = none ∧ (s.callers call).released = false)
      (after : phase.holding = none ∧ phase.released = false)
      (captured : ∀ now, phase.captured = some now →
        now = s.clock ∨ (s.callers call).captured = some now)
      (waiting : ∀ domain pending, phase = .waiting domain pending →
        s.inflight domain = some pending)
      (lawful : ∀ e ∈ es, Lawful e) : Moves maxSize s (s.assign call phase) es
  | claims (call : ℕ) (domain : D) (now : ℤ) (locking : s.callers call = .locking domain now)
      (free : s.inflight domain = none)
      (closed : ∀ time, s.failures.get domain = some time → time ≤ now) :
      Moves maxSize s
        { s.assign call (.claimed domain now) with
          inflight := Function.update s.inflight domain (some call) } []
  /-- The claiming call goes on; only its own record changes. -/
  | within (call : ℕ) (domain : D) (phase : Phase D) (slots : ℕ) (records : D → Option Record)
      (before : (s.callers call).holding = some domain) (after : phase.holding = some domain)
      (others : ∀ other, other ≠ domain → records other = s.records other)
      (expired : ∀ now, phase = .selecting domain now →
        ∀ record, records domain = some record → record.expiresAt ≤ s.clock) :
      Moves maxSize s { s.assign call phase with slots := slots, records := records } []
  | starts (call : ℕ) (domain : D) (now : ℤ) (selecting : s.callers call = .selecting domain now) :
      Moves maxSize s { s.assign call (.looking domain now) with slots := s.slots + 1 }
        [.started call domain s.clock (s.records domain) (s.failures.get domain)]
  | releases (call : ℕ) (domain : D) (answer : Answer D) (failures : Table D ℤ)
      (before : (s.callers call).holding = some domain)
      (others : ∀ other time, failures.get other = some time →
        other = domain ∨ s.failures.get other = some time)
      (size : 1 ≤ maxSize → (s.failures.rows.length : ℤ) ≤ maxSize →
        (failures.rows.length : ℤ) ≤ maxSize) :
      Moves maxSize s
        { (s.finishInflight call domain).assign call (.done true) with failures := failures }
        [.returned call answer]

/-- Claims, channels and waiting calls fit together: a domain is in flight exactly while a
call holds it, and the channel of a call is closed once, when it gives its claim up. -/
structure Coherent (s : Store D) : Prop where
  inflight_iff : ∀ domain call, s.inflight domain = some call ↔
    (s.callers call).holding = some domain
  closes_eq : ∀ call, s.closes call = if (s.callers call).released then 1 else 0
  waiting : ∀ call domain pending, s.callers call = .waiting domain pending →
    (s.callers pending).holding = some domain ∨ (s.callers pending).released = true

omit [DecidableEq D] in
theorem Coherent.unique {s : Store D} (h : Coherent s) {call other : ℕ} {domain : D}
    (hcall : (s.callers call).holding = some domain)
    (hother : (s.callers other).holding = some domain) : call = other := by
  have hcall' := (h.inflight_iff domain call).mpr hcall
  rw [(h.inflight_iff domain other).mpr hother] at hcall'
  exact (Option.some.inj hcall').symm

section Inversion

variable {maxSize : ℤ} {s : Store D} {call : ℕ}

omit [DecidableEq D] in
private theorem idle_of_phase {phase : Phase D} (h : s.callers call = phase)
    (hphase : phase.holding = none ∧ phase.released = false) :
    (s.callers call).holding = none ∧ (s.callers call).released = false := h ▸ hphase

/-- A call without a claim returns. -/
theorem return_moves (hbefore : (s.callers call).holding = none ∧
    (s.callers call).released = false) (answer : Answer D) :
    Moves maxSize s (s.return call answer).1 (s.return call answer).2 :=
  .aside call (.done false) _ hbefore ⟨rfl, rfl⟩ (by simp [Phase.captured]) (by simp)
    (by simp [Store.return, Lawful])

theorem lock_moves {domain : D} {now : ℤ} (h : s.callers call = .locking domain now) :
    Moves maxSize s (lock call domain now s).1 (lock call domain now s).2 := by
  have hbefore := idle_of_phase h ⟨rfl, rfl⟩
  unfold lock
  by_cases hopen : now < (s.failures.get domain).getD 0
  · rw [if_pos hopen]
    exact return_moves hbefore _
  · rw [if_neg hopen]
    cases hinflight : s.inflight domain with
    | some pending =>
      refine .aside call _ [] hbefore ⟨rfl, rfl⟩ (by simp [Phase.captured]) ?_ (by simp)
      rintro _ _ ⟨⟩
      exact hinflight
    | none =>
      refine .claims call domain now h hinflight fun time htime => ?_
      simpa [htime] using hopen

/-- The claiming call goes on without touching the records. -/
theorem within_moves {domain : D} {phase : Phase D} {slots : ℕ}
    (hbefore : (s.callers call).holding = some domain) (hafter : phase.holding = some domain)
    (hselecting : ∀ now, phase = .selecting domain now → ∀ record,
      s.records domain = some record → record.expiresAt ≤ s.clock) :
    Moves maxSize s { s.assign call phase with slots := slots } [] :=
  .within call domain phase slots s.records hbefore hafter (fun _ _ => rfl) hselecting

omit [DecidableEq D] in
/-- A record that is not current has expired. -/
theorem expired_of_current {domain : D} {now : ℤ} (h : s.current domain now = none)
    {record : Record} (hrecord : s.records domain = some record) : record.expiresAt ≤ now := by
  simpa [Store.current, hrecord] using h

theorem advance_moves (hs : Coherent s) (env : Environment) :
    Moves maxSize s (advance maxSize env call s).1 (advance maxSize env call s).2 := by
  unfold advance
  cases hphase : s.callers call with
  | absent | done claimed => exact .still
  | reading domain now =>
    have hbefore := idle_of_phase hphase ⟨rfl, rfl⟩
    simp only
    split_ifs
    · exact return_moves hbefore _
    · cases s.current domain now with
      | some record => exact return_moves hbefore _
      | none =>
        refine .aside call _ [] hbefore ⟨rfl, rfl⟩ (fun time htime => Or.inr ?_) (by simp) (by simp)
        rw [hphase]
        exact htime
  | locking domain now => exact lock_moves hphase
  | waiting domain pending =>
    have hbefore := idle_of_phase hphase ⟨rfl, rfl⟩
    simp only
    split_ifs
    · exact return_moves hbefore _
    · exact .still
    · exact .aside call _ [] hbefore ⟨rfl, rfl⟩ (by simp [Phase.captured]) (by simp) (by simp)
  | rereading domain =>
    have hbefore := idle_of_phase hphase ⟨rfl, rfl⟩
    simp only
    split_ifs
    · exact return_moves hbefore _
    · cases s.current domain s.clock <;> exact return_moves hbefore _
  | claimed domain now =>
    have hbefore := congrArg Phase.holding hphase
    simp only
    split_ifs
    · exact within_moves hbefore rfl (by simp)
    · cases hcurrent : s.current domain s.clock with
      | some record => exact within_moves hbefore rfl (by simp)
      | none => exact within_moves hbefore rfl fun _ _ _ => expired_of_current hcurrent
  | releasing domain answer =>
    have hbefore := congrArg Phase.holding hphase
    simp only [if_pos ((hs.inflight_iff domain call).mpr hbefore)]
    exact .releases call domain answer s.failures hbefore (fun _ _ h => Or.inr h) fun _ h => h
  | selecting domain now =>
    have hbefore := congrArg Phase.holding hphase
    simp only
    split_ifs
    · exact within_moves hbefore rfl (by simp)
    · exact .starts call domain now hphase
    · exact .still
  | looking domain now =>
    have hbefore := congrArg Phase.holding hphase
    simp only
    cases evaluate now env with
    | ok record | error deadlineExceeded => exact within_moves hbefore rfl (by simp)
  | storing domain now record =>
    have hbefore := congrArg Phase.holding hphase
    simp only
    split_ifs
    · exact within_moves hbefore rfl (by simp)
    · refine .within call domain _ s.slots _ hbefore rfl (fun other hother => ?_) (by simp)
      simp [hother]
  | finishing domain now lookupErr answer =>
    have hbefore := congrArg Phase.holding hphase
    exact .releases call domain answer _ hbefore
      (fun _ _ h => recordFailure_get now lookupErr env h)
      fun hmax h => recordFailure_length domain now lookupErr env hmax h

theorem step_moves (hs : Coherent s) (action : Action D) :
    Moves maxSize s (step maxSize s action).1 (step maxSize s action).2 := by
  cases action with
  | tick duration => exact .tick duration
  | forget domain => exact .forget domain
  | call call domain =>
    simp only [step]
    cases hphase : s.callers call with
    | absent =>
      refine .aside call _ [] (by simp [hphase, Phase.holding, Phase.released]) ⟨rfl, rfl⟩ ?_
        (by simp) (by simp)
      intro now hnow
      exact Or.inl (Option.some.inj hnow).symm
    | _ => exact .still
  | advance call env => exact advance_moves hs env

end Inversion

omit [DecidableEq D] in
theorem newStore_coherent (clock : ℤ) (records : D → Option Record) :
    Coherent (newStore clock records) := by
  constructor <;> simp [newStore, Phase.holding, Phase.released]

section Coherent

omit [DecidableEq D] in
theorem released_of_holding {phase : Phase D} {domain : D} (h : phase.holding = some domain) :
    phase.released = false := by
  cases phase with
  | done claimed => simp [Phase.holding] at h
  | _ => rfl

variable {maxSize : ℤ} {s t : Store D} {es : List (Event D)} {call : ℕ} {domain : D}

omit [DecidableEq D] in
/-- A call that takes another phase with the same claim. -/
theorem Coherent.assign (h : Coherent s) (call : ℕ) (phase : Phase D)
    (hholding : phase.holding = (s.callers call).holding)
    (hreleased : phase.released = (s.callers call).released)
    (hwaiting : ∀ domain pending, phase = .waiting domain pending →
      s.inflight domain = some pending) : Coherent (s.assign call phase) := by
  have hsame : ∀ other, (Function.update s.callers call phase other).holding =
      (s.callers other).holding ∧ (Function.update s.callers call phase other).released =
        (s.callers other).released := by
    intro other
    by_cases hother : other = call
    · subst other
      simpa using ⟨hholding, hreleased⟩
    · simp [hother]
  constructor <;> simp only [Store.assign, hsame]
  · exact h.inflight_iff
  · exact h.closes_eq
  · intro other domain pending hother
    rw [Function.update_apply] at hother
    split_ifs at hother
    · exact Or.inl ((h.inflight_iff domain pending).mp (hwaiting domain pending hother))
    · exact h.waiting other domain pending hother

theorem Coherent.claims (h : Coherent s) {now : ℤ} (hlocking : s.callers call = .locking domain now)
    (hfree : s.inflight domain = none) :
    Coherent { s.assign call (.claimed domain now) with
      inflight := Function.update s.inflight domain (some call) } := by
  have hbefore := idle_of_phase hlocking ⟨rfl, rfl⟩
  constructor <;> simp only [Store.assign, Function.update_apply]
  · intro other caller
    have hiff := h.inflight_iff other caller
    by_cases hother : other = domain <;> by_cases hcaller : caller = call <;>
      grind [Phase.holding]
  · intro caller
    have hcloses := h.closes_eq caller
    by_cases hcaller : caller = call <;> grind [Phase.released]
  · intro caller other pending hcallers
    split_ifs at hcallers
    have hold := h.waiting caller other pending hcallers
    have hpending : pending ≠ call := by
      rintro rfl
      simp [hbefore] at hold
    simpa [if_neg hpending] using hold

/-- The claim is given up with its channel closed, so no call waits for an open channel
without a claim. -/
theorem Coherent.releases (h : Coherent s) (hcall : (s.callers call).holding = some domain)
    (failures : Table D ℤ) :
    Coherent { (s.finishInflight call domain).assign call (.done true) with
      failures := failures } := by
  have hreleased := released_of_holding hcall
  constructor <;> simp only [Store.assign, Store.finishInflight, Function.update_apply]
  · intro other caller
    have hiff := h.inflight_iff other caller
    have hunique : (s.callers caller).holding = some domain → call = caller := h.unique hcall
    by_cases hother : other = domain <;> by_cases hcaller : caller = call <;>
      grind [Phase.holding]
  · intro caller
    have hcloses := h.closes_eq caller
    by_cases hcaller : caller = call <;> grind [Phase.released]
  · intro caller other pending hcallers
    split_ifs at hcallers
    by_cases hpending : pending = call
    · exact Or.inr (by simp [hpending, Phase.released])
    · simpa [if_neg hpending] using h.waiting caller other pending hcallers

theorem Moves.coherent (h : Coherent s) (hmove : Moves maxSize s t es) : Coherent t := by
  cases hmove with
  | still => exact h
  | tick duration | forget domain => exact ⟨h.inflight_iff, h.closes_eq, h.waiting⟩
  | aside call phase es hbefore hafter _ hwaiting =>
    exact h.assign call phase (hafter.1.trans hbefore.1.symm)
      (hafter.2.trans hbefore.2.symm) hwaiting
  | claims call domain now hlocking hfree => exact h.claims hlocking hfree
  | within call domain phase slots records hbefore hafter =>
    obtain ⟨hinflight, hcloses, hwaiting⟩ := h.assign call phase (hafter.trans hbefore.symm)
      ((released_of_holding hafter).trans (released_of_holding hbefore).symm)
      (by rintro _ _ rfl; simp [Phase.holding] at hafter)
    exact ⟨hinflight, hcloses, hwaiting⟩
  | starts call domain now hselecting =>
    obtain ⟨hinflight, hcloses, hwaiting⟩ := h.assign call (.looking domain now)
      (by rw [hselecting]; rfl) (by rw [hselecting]; rfl) (by simp)
    exact ⟨hinflight, hcloses, hwaiting⟩
  | releases call domain answer failures hbefore => exact h.releases hbefore failures

end Coherent

end MilterGuard.EvidenceClaims
