import MilterGuard.Procedures

/-!
The stages of an extraction. Work runs in a primary stage and, after a resource
failure, once more in a fallback stage with a ledger of its own. Failures unwind to
the nearest stage boundary, and boundaries nest.
-/
namespace MilterGuard.ExtractionStages

open Procedures

inductive Code
  | cpuExceeded
  | memoryExceeded
  | cancelled
  deriving DecidableEq

variable (code : Code)

/-- The outcomes that the processing limits report. -/
structure Usage where
  primaryCPUExceeded : Bool
  fallbackCPUExceeded : Bool
  memoryExceeded : Bool
  primaryMemoryExceeded : Bool
  fallbackMemoryExceeded : Bool

/-- Extraction without control, or under WithProcessingLimits. -/
inductive Policy
  | uncontrolled
  | limits (allowFallbackAfterLimit : Bool)
  deriving DecidableEq

def Policy.stopOnMemoryLimit : Policy → Bool
  | .uncontrolled => false
  | .limits allow => !allow

/-- The answer of the BeginFallback callback; a context that has ended is refused. -/
def Policy.allowFallback (contextDone : Bool) (usage : Usage) : Policy → Bool
  | .uncontrolled => true
  | .limits allow =>
    !(contextDone || (usage.primaryCPUExceeded || usage.primaryMemoryExceeded) && !allow)

/-- `calls` counts the boundaries entered so far. -/
structure Budget where
  fallback : Bool
  terminal : Option Code
  stageStop : Bool
  cpuLimitExceeded : Bool
  memoryLimitExceeded : Bool
  fallbackMemoryExceeded : Bool
  fallbackExhausted : Bool
  usage : Usage
  calls : ℕ

def newBudget : Budget :=
  ⟨false, none, false, false, false, false, false, ⟨false, false, false, false, false⟩, 0⟩

inductive Event
  | executed (call : ℕ)
  | recovered (code : Code)
  | entered (cause : Option Code) (contextDone : Bool)
  | ended (code : Code)
  | handed (primary : Bool)
  deriving DecidableEq

/-- A procedure of an extraction; work returns the failure that it ended with. -/
abbrev Stage (α : Type) := Proc Event Budget α

def noteMemoryLimit : Stage Unit := modify fun b =>
  if b.memoryLimitExceeded then b
  else
    { b with
      memoryLimitExceeded := true
      usage := { b.usage with memoryExceeded := true, primaryMemoryExceeded := true } }

def observeFallback : Stage Unit := modify fun b =>
  if b.fallback && b.fallbackExhausted && !b.fallbackMemoryExceeded then
    { b with
      fallbackMemoryExceeded := true
      usage := { b.usage with memoryExceeded := true, fallbackMemoryExceeded := true } }
  else b

variable (fallback : Bool)

def noteCPULimit : Stage Unit := modify fun b =>
  { b with
    cpuLimitExceeded := true
    usage :=
      if fallback then { b.usage with fallbackCPUExceeded := true }
      else { b.usage with primaryCPUExceeded := true } }

def setTerminal : Stage Unit := do
  modify fun b => { b with terminal := some code }
  log [.ended code]

def noteFailure : Stage Unit :=
  match code with
  | .cpuExceeded => noteCPULimit fallback
  | .memoryExceeded => if fallback then observeFallback else noteMemoryLimit
  | .cancelled => pure ()

def recordTermination : Stage Unit := do
  noteFailure code fallback
  if fallback || code = .cancelled then setTerminal code else pure ()

variable (policy : Policy)

/-- Fallback may begin: nothing is terminal and neither the memory policy nor the
callback refuses it. -/
def fallbackAllowed (contextDone : Bool) (b : Budget) : Bool :=
  b.terminal.isNone && !(b.memoryLimitExceeded && policy.stopOnMemoryLimit) &&
    policy.allowFallback contextDone b.usage

variable (cause : Option Code)

def enterFallback (contextDone : Bool) : Stage Unit := do
  modify fun b => { b with fallback := true }
  log [.entered cause contextDone]

def Policy.sees (contextDone : Bool) : Policy → Bool
  | .uncontrolled => false
  | .limits _ => contextDone

/-- The event names the failure that asks for fallback, if there is one, and what the
policy sees of the context. -/
def beginFallback (contextDone : Bool) : Stage Bool := do
  let b ← read id
  if b.terminal.isSome then pure false
  else if b.fallback then pure true
  else if fallbackAllowed policy contextDone b then do
    enterFallback cause (policy.sees contextDone)
    pure true
  else pure false

def allocationMemory : Stage Unit := do
  let b ← read id
  log [.handed (!b.fallback)]

/-- The checkpoint callback is bound once, on the ledger of the stage. -/
def bindCheckpoint (fails : Bool) : Stage (Option Code) := do
  let b ← read id
  if b.stageStop then pure none
  else do
    allocationMemory
    if fails then pure (some .memoryExceeded)
    else do
      modify fun b => { b with stageStop := true }
      pure none

variable (call : ℕ)

def attemptExtraction (bindFails : Bool) (work : Stage (Option Code)) :
    Stage (Option Code) := do
  match ← bindCheckpoint bindFails with
  | some code => pure (some code)
  | none => do
    log [.executed call]
    work

/-- What a boundary meets beside its work: whether the context has ended when
fallback is asked for, and whether binding the callback fails. -/
structure Conditions where
  contextDone : Bool
  bindFails : Bool
  bindFailsAgain : Bool

variable (conditions : Conditions) (again : Stage (Option Code))

/-- The second attempt runs in fallback. -/
def retryExtraction :
    Stage Bool := do
  match ← attemptExtraction call conditions.bindFailsAgain again with
  | none => pure true
  | some code => do
    log [.recovered code]
    recordTermination code true
    pure false

def failedExtraction (code : Code) (fallback : Bool) : Stage Bool := do
  log [.recovered code]
  recordTermination code fallback
  if fallback || code = .cancelled then do
    setTerminal code
    pure false
  else
    match ← beginFallback policy (some code) conditions.contextDone with
    | false => do
      setTerminal code
      pure false
    | true => retryExtraction call conditions again

/-- The work may behave differently when it is executed again. -/
def runExtraction (work again : Stage (Option Code)) :
    Stage Bool := do
  let before ← read id
  if before.terminal.isSome then pure false
  else do
    modify fun b => { b with calls := b.calls + 1 }
    let failure ← attemptExtraction before.calls conditions.bindFails work
    let b ← read id
    match failure with
    | none => pure true
    | some code => failedExtraction policy before.calls conditions again code b.fallback

/-- The work of a stage: what it does with the budget until it returns or fails.
Each step may depend on all that the budget shows. -/
inductive Work
  | done
  | fail (code : Code)
  | run (conditions : Conditions) (work again : Work) (next : Bool → Budget → Work)
  | beginFallback (contextDone : Bool) (next : Bool → Budget → Work)
  | allocate (next : Budget → Work)
  | childExhausted (next : Budget → Work)
  | exhaustFallback (next : Budget → Work)
  | observeFallback (next : Budget → Work)

def exec (policy : Policy) : Work → Stage (Option Code)
  | .done => pure none
  | .fail code => pure (some code)
  | .run conditions work again next => do
    let complete ← runExtraction policy conditions (exec policy work) (exec policy again)
    fun b => exec policy (next complete b) b
  | .beginFallback contextDone next => do
    let begun ← ExtractionStages.beginFallback policy none contextDone
    fun b => exec policy (next begun b) b
  | .allocate next => do
    allocationMemory
    fun b => exec policy (next b) b
  | .childExhausted next => do
    noteMemoryLimit
    fun b => exec policy (next b) b
  | .exhaustFallback next => do
    modify fun b => { b with fallbackExhausted := b.fallback || b.fallbackExhausted }
    fun b => exec policy (next b) b
  | .observeFallback next => do
    ExtractionStages.observeFallback
    fun b => exec policy (next b) b

/-- Failures after which no fallback may begin. -/
def Policy.ends (code : Code) : Prop :=
  policy = .limits false ∨ code = .cancelled

instance (policy : Policy) (code : Code) : Decidable (policy.ends code) := by
  unfold Policy.ends
  infer_instance

/-- Two budgets at the same stage. -/
structure SameStage (s t : Budget) : Prop where
  fallback : t.fallback = s.fallback
  terminal : t.terminal = s.terminal
  calls : t.calls = s.calls

theorem SameStage.refl (s : Budget) : SameStage s s := ⟨rfl, rfl, rfl⟩

theorem noteMemoryLimit_spec (b : Budget) :
    (noteMemoryLimit b).events = [] ∧ SameStage b (noteMemoryLimit b).state ∧
      (noteMemoryLimit b).state.memoryLimitExceeded = true := by
  unfold noteMemoryLimit
  rw [modify_run]
  by_cases h : b.memoryLimitExceeded = true
  · rw [if_pos h]
    exact ⟨rfl, SameStage.refl b, h⟩
  · rw [if_neg h]
    exact ⟨rfl, ⟨rfl, rfl, rfl⟩, rfl⟩

theorem observeFallback_spec (b : Budget) :
    (observeFallback b).events = [] ∧ SameStage b (observeFallback b).state := by
  unfold observeFallback
  rw [modify_run]
  split
  · exact ⟨rfl, ⟨rfl, rfl, rfl⟩⟩
  · exact ⟨rfl, SameStage.refl b⟩

/-- Where the policy forbids fallback, a noted failure of the primary stage rules it out. -/
theorem noteFailure_spec (b : Budget) :
    (noteFailure code fallback b).events = [] ∧
      SameStage b (noteFailure code fallback b).state ∧
      (code ≠ .cancelled → fallback = false →
        ∀ done,
          fallbackAllowed (.limits false) done (noteFailure code fallback b).state = false) := by
  cases code with
  | cancelled => exact ⟨rfl, SameStage.refl b, fun hne => absurd rfl hne⟩
  | cpuExceeded =>
    refine ⟨rfl, ⟨rfl, rfl, rfl⟩, ?_⟩
    rintro - rfl done
    simp [noteFailure, noteCPULimit, fallbackAllowed, Policy.allowFallback]
  | memoryExceeded =>
    cases fallback with
    | true =>
      obtain ⟨hevents, hsame⟩ := observeFallback_spec b
      exact ⟨hevents, hsame, fun _ h => absurd h (by decide)⟩
    | false =>
      obtain ⟨hevents, hsame, hnoted⟩ := noteMemoryLimit_spec b
      refine ⟨hevents, hsame, ?_⟩
      intro _ _ done
      change fallbackAllowed _ _ (noteMemoryLimit b).state = false
      simp [fallbackAllowed, hnoted, Policy.stopOnMemoryLimit]

/-- Fallback is refused, goes on, or begins. -/
theorem beginFallback_cases (done : Bool) (b : Budget) :
    beginFallback policy cause done b = ⟨false, b, []⟩ ∨
      b.fallback = true ∧ beginFallback policy cause done b = ⟨true, b, []⟩ ∨
      b.fallback = false ∧ b.terminal = none ∧ fallbackAllowed policy done b = true ∧
        beginFallback policy cause done b =
          ⟨true, { b with fallback := true }, [.entered cause (policy.sees done)]⟩ := by
  unfold beginFallback
  by_cases hterminal : b.terminal.isSome = true
  · simp [hterminal]
  · by_cases hfallback : b.fallback = true
    · simp [hterminal, hfallback]
    · by_cases hallowed : fallbackAllowed policy done b = true
      · refine Or.inr (Or.inr ⟨by simpa using hfallback, by simpa using hterminal, hallowed, ?_⟩)
        simp [hterminal, hfallback, hallowed, enterFallback]
      · simp [hterminal, hfallback, hallowed]

/-- A context that the policy sees as ended does not pass. -/
theorem fallbackAllowed_sees (done : Bool) (b : Budget) (h : fallbackAllowed policy done b = true) :
    policy.sees done = false := by
  cases policy with
  | uncontrolled => rfl
  | limits allow =>
    simp only [fallbackAllowed, Policy.allowFallback, Bool.and_eq_true, Bool.not_eq_true',
      Bool.or_eq_false_iff] at h
    exact h.2.1

/-- An attempt fails before its work or executes it once. -/
theorem attemptExtraction_cases (fails : Bool) (work : Stage (Option Code)) (b : Budget) :
    attemptExtraction call fails work b =
        ⟨some .memoryExceeded, b, [.handed (!b.fallback)]⟩ ∨
      ∃ handed start, SameStage b start ∧ (handed = [] ∨ handed = [.handed (!b.fallback)]) ∧
        attemptExtraction call fails work b =
          ⟨(work start).value, (work start).state,
            handed ++ .executed call :: (work start).events⟩ := by
  unfold attemptExtraction bindCheckpoint allocationMemory
  by_cases hbound : b.stageStop = true
  · refine Or.inr ⟨[], b, SameStage.refl b, Or.inl rfl, ?_⟩
    simp [hbound]
  · cases fails with
    | true =>
      simp [hbound]
    | false =>
      refine Or.inr ⟨_, { b with stageStop := true }, ⟨rfl, rfl, rfl⟩, Or.inr rfl, ?_⟩
      simp [hbound]

/-- A retry is its attempt, and a failure of the attempt is terminal. -/
theorem retryExtraction_cases {call : ℕ} {conditions : Conditions} {again : Stage (Option Code)}
    {b : Budget} {attempt : Outcome Event Budget (Option Code)}
    (h : attemptExtraction call conditions.bindFailsAgain again b = attempt) :
    (retryExtraction call conditions again b).events = attempt.events ∧
        (retryExtraction call conditions again b).state = attempt.state ∨
      ∃ code t, retryExtraction call conditions again b =
          ⟨false, t, attempt.events ++ [.recovered code, .ended code]⟩ ∧
        t.fallback = attempt.state.fallback ∧ t.terminal = some code ∧
        t.calls = attempt.state.calls := by
  obtain ⟨value, state, events⟩ := attempt
  cases value with
  | none =>
    simp [retryExtraction, h]
  | some code =>
    right
    obtain ⟨hevents, hsame, -⟩ := noteFailure_spec code true state
    refine ⟨code, { (noteFailure code true state).state with terminal := some code }, ?_,
      hsame.fallback, rfl, hsame.calls⟩
    simp [retryExtraction, h, recordTermination, setTerminal, hevents]

/-- A failed attempt ends the extraction or begins the fallback and is retried there. -/
inductive Failed (policy : Policy) (call : ℕ) (conditions : Conditions)
    (again : Stage (Option Code)) (code : Code) (b : Budget) : Outcome Event Budget Bool → Prop
  | stopped (o : Outcome Event Budget Bool)
      (events : o.events = [.recovered code, .ended code] ∨
        o.events = [.recovered code, .ended code, .ended code])
      (fallback : o.state.fallback = b.fallback) (terminal : o.state.terminal = some code)
      (calls : o.state.calls = b.calls) : Failed policy call conditions again code b o
  | retried (o : Outcome Event Budget Bool) (start : Budget) (admitted : ¬ policy.ends code)
      (fallback : b.fallback = false) (terminal : b.terminal = none)
      (started : start.fallback = true ∧ start.terminal = none ∧ start.calls = b.calls)
      (events : o.events =
        .recovered code :: .entered (some code) false ::
          (retryExtraction call conditions again start).events)
      (state : o.state = (retryExtraction call conditions again start).state) :
      Failed policy call conditions again code b o

theorem failedExtraction_cases (code : Code) (b : Budget) :
    Failed policy call conditions again code b
      (failedExtraction policy call conditions again code b.fallback b) := by
  obtain ⟨hevents, hsame, hforbidden⟩ := noteFailure_spec code b.fallback b
  generalize hnoted : (noteFailure code b.fallback b).state = noted at hsame hforbidden
  by_cases hends : (b.fallback || decide (code = .cancelled)) = true
  · refine .stopped _ (Or.inr ?_) ?_ ?_ ?_ <;>
      simp [failedExtraction, recordTermination, hends, setTerminal, hevents, hnoted,
        hsame.fallback, hsame.calls]
  · have hprimary : b.fallback = false := by
      cases h : b.fallback with
      | false => rfl
      | true => simp [h] at hends
    have hresource : code ≠ .cancelled := by
      rintro rfl
      simp at hends
    rcases beginFallback_cases policy (some code) conditions.contextDone noted with
      hbegin | ⟨hactive, -⟩ | ⟨-, hterminal, hallowed, hbegin⟩
    · refine .stopped _ (Or.inl ?_) ?_ ?_ ?_ <;>
        simp [failedExtraction, recordTermination, hends, setTerminal, hevents, hnoted, hbegin,
          hsame.fallback, hsame.calls]
    · rw [hsame.fallback, hprimary] at hactive
      exact absurd hactive (by decide)
    · have hopen : ¬ policy.ends code := by
        rintro (rfl | hcancelled)
        · rw [hforbidden hresource hprimary] at hallowed
          exact absurd hallowed (by decide)
        · exact hresource hcancelled
      have hcontext := fallbackAllowed_sees policy conditions.contextDone noted hallowed
      refine .retried _ { noted with fallback := true } hopen hprimary
        (hsame.terminal.symm.trans hterminal) ⟨rfl, hterminal, hsame.calls⟩ ?_ ?_ <;>
        simp [failedExtraction, recordTermination, hends, hevents, hnoted, hbegin, hcontext]

end MilterGuard.ExtractionStages
