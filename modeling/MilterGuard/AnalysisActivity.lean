import MilterGuard.FinishMessage

/-!
The analysis of a message and the activity event that is recorded for it. The
result of `evaluate` is completed after it has returned, so a flag of the content
limits can stand next to a failure that was decided without it. Scores, costs and
errors are kept abstract: only comparisons of them are made here.
-/
namespace MilterGuard.AnalysisActivity

open ByteStrings SessionState FinishMessage

/-- html_resource_limit_action; unset is taken as reject. -/
inductive HTMLLimitAction
  | unset
  | fallback
  | reject
  | dosReject
  deriving DecidableEq

inductive IncompleteBodyAction
  | scan
  | reject
  deriving DecidableEq

inductive AIErrorAction
  | accept
  | tempfail
  deriving DecidableEq

structure ProcessingUsage where
  primaryCPUExceeded : Bool
  fallbackCPUExceeded : Bool
  memoryExceeded : Bool
  primaryMemoryExceeded : Bool
  fallbackMemoryExceeded : Bool
  primaryMemoryBytes : ℤ
  fallbackMemoryBytes : ℤ
  deriving DecidableEq

def ProcessingUsage.cpuExceeded (usage : ProcessingUsage) : Bool :=
  usage.primaryCPUExceeded || usage.fallbackCPUExceeded

def ProcessingUsage.limitExceeded (usage : ProcessingUsage) : Bool :=
  usage.cpuExceeded || usage.memoryExceeded

structure Image where
  mediaType : Bytes
  data : Bytes
  deriving DecidableEq

/-- The prepared message, as far as the evaluation reads it. -/
structure Prepared where
  prompt : Bytes
  images : List Image
  bodyTruncated : Bool
  bodyExtractionIncomplete : Bool
  deriving DecidableEq

structure TokenUsage where
  inputTokens : ℤ
  outputTokens : ℤ
  deriving DecidableEq

structure Decision (Score : Type) where
  classification : Classification
  score : Score
  reasons : List Bytes

/-- What the analyzer returns; token usage is reported with an error too. -/
structure AnalyzerAnswer (Score Err : Type) where
  decision : Decision Score
  usage : TokenUsage
  err : Option Err

structure AIConfig (Cost : Type) where
  htmlResourceLimitAction : HTMLLimitAction
  incompleteBodyAction : IncompleteBodyAction
  tokenCost : TokenUsage → Cost

/-- How one evaluation goes: whether the context ends before a slot is free, what
the preparation gives, whether the context has ended then, and the analyzer. -/
structure Evaluation (Score Err : Type) where
  noSlot : Option Err
  prepared : Prepared
  usage : ProcessingUsage
  expired : Option Err
  analyze : Bytes × List Image → AnalyzerAnswer Score Err

structure EvaluationResult (Score Cost Err : Type) where
  incompleteInspection : Bool := false
  proposed : Action
  selected : Action
  classification : Classification := .none
  score : Score
  reasons : List Bytes := []
  visionImages : ℕ := 0
  tokenCost : Cost
  htmlPrimaryCPUExceeded : Bool := false
  htmlFallbackCPUExceeded : Bool := false
  htmlMemoryExceeded : Bool := false
  htmlPrimaryMemoryExceeded : Bool := false
  htmlFallbackMemoryExceeded : Bool := false
  htmlPrimaryMemoryBytes : ℤ := 0
  htmlFallbackMemoryBytes : ℤ := 0
  htmlCPUExceeded : Bool := false
  htmlCPUAction : HTMLLimitAction := .unset
  rejectMessage : Bytes := []
  err : Option Err := none

def resourceLimitRejectMessage : Bytes :=
  ascii "Message rejected because content processing exceeded server resource limits"

def incompleteInspectionRejectMessage : Bytes :=
  ascii "Message rejected because its content could not be fully inspected"

def cpuLimitReason : Bytes :=
  ascii "Message content processing exceeded the configured CPU-time limit"

def memoryLimitReason : Bytes :=
  ascii "Message content processing exceeded the configured memory limit"

/-- The configured action, with the default for a configuration without one. -/
def orReject : HTMLLimitAction → HTMLLimitAction
  | .unset => .reject
  | action => action

section Evaluate

variable {Score Cost Err : Type} [LE Score] [DecidableLE Score] [Zero Score] [One Score] [Zero Cost]

def analysisFailure (err : Err) (mode : Mode) (onError : AIErrorAction) :
    EvaluationResult Score Cost Err :=
  let selected := if mode = .enforce ∧ onError = .tempfail then .tempfail else .accept
  { proposed := selected, selected := selected, score := 0, tokenCost := 0, err := some err }

def applyPolicy (decision : Decision Score) (mode : Mode) (rejectScore : Score) :
    Action × Action :=
  let proposed :=
    if decision.classification = .unwanted ∧ rejectScore ≤ decision.score then .reject else .accept
  (proposed, selectActionForMode proposed mode)

/-- The result for content that exceeded a limit of its processing. -/
def resourceLimitResult (action : HTMLLimitAction) (usage : ProcessingUsage) (mode : Mode) :
    EvaluationResult Score Cost Err :=
  { proposed := .reject
    selected := selectActionForMode .reject mode
    classification := if action = .dosReject then .unwanted else .none
    score := if action = .dosReject then 1 else 0
    reasons := [if usage.memoryExceeded then memoryLimitReason else cpuLimitReason]
    tokenCost := 0
    rejectMessage := resourceLimitRejectMessage }

def incompleteBodyResult (mode : Mode) : EvaluationResult Score Cost Err :=
  { incompleteInspection := true
    proposed := .reject
    selected := selectActionForMode .reject mode
    score := 0
    reasons := [ascii "message body extraction was incomplete"]
    tokenCost := 0
    rejectMessage := incompleteInspectionRejectMessage }

variable (cfg : AIConfig Cost)

def analyzerResult (images : List Image) (answer : AnalyzerAnswer Score Err) (mode : Mode)
    (rejectScore : Score) (onError : AIErrorAction) : EvaluationResult Score Cost Err :=
  match answer.err with
  | some err =>
    let failure : EvaluationResult Score Cost Err := analysisFailure err mode onError
    { failure with visionImages := images.length, tokenCost := cfg.tokenCost answer.usage }
  | none =>
    let policy := applyPolicy answer.decision mode rejectScore
    { proposed := policy.1
      selected := policy.2
      classification := answer.decision.classification
      score := answer.decision.score
      reasons := answer.decision.reasons
      visionImages := images.length
      tokenCost := cfg.tokenCost answer.usage }

/-- The result as the function body returns it, once a slot is taken. -/
def evaluatePrepared (e : Evaluation Score Err) (mode : Mode) (rejectScore : Score)
    (onError : AIErrorAction) : EvaluationResult Score Cost Err :=
  match e.expired with
  | some err => analysisFailure err mode onError
  | none =>
    let action := orReject cfg.htmlResourceLimitAction
    if e.usage.limitExceeded ∧ action ≠ .fallback then resourceLimitResult action e.usage mode
    else if cfg.incompleteBodyAction = .reject ∧
        (e.prepared.bodyTruncated ∨ e.prepared.bodyExtractionIncomplete) then
      incompleteBodyResult mode
    else
      analyzerResult cfg e.prepared.images (e.analyze (e.prepared.prompt, e.prepared.images)) mode
        rejectScore onError

/-- The deferred completion: it runs on every return after the preparation. -/
def patchUsage (usage : ProcessingUsage) (result : EvaluationResult Score Cost Err) :
    EvaluationResult Score Cost Err :=
  { result with
    htmlPrimaryCPUExceeded := usage.primaryCPUExceeded
    htmlFallbackCPUExceeded := usage.fallbackCPUExceeded
    htmlMemoryExceeded := usage.memoryExceeded
    htmlPrimaryMemoryExceeded := usage.primaryMemoryExceeded
    htmlFallbackMemoryExceeded := usage.fallbackMemoryExceeded
    htmlPrimaryMemoryBytes := usage.primaryMemoryBytes
    htmlFallbackMemoryBytes := usage.fallbackMemoryBytes
    htmlCPUExceeded := usage.cpuExceeded
    htmlCPUAction := orReject cfg.htmlResourceLimitAction }

def evaluate (e : Evaluation Score Err) (mode : Mode) (rejectScore : Score)
    (onError : AIErrorAction) : EvaluationResult Score Cost Err :=
  match e.noSlot with
  | some err => analysisFailure err mode onError
  | none => patchUsage cfg e.usage (evaluatePrepared cfg e mode rejectScore onError)

end Evaluate

inductive ActivityEventType
  | scan
  | ipRejection
  | correspondentAccept
  | trustedDomainAccept
  | attachmentRejection
  | protectedSenderDomainRejection
  | senderBlocklist
  | htmlDoS
  | htmlLimit
  | incompleteInspection
  deriving DecidableEq

inductive ActivityOutcome
  | accepted
  | rejected
  | tempfailed
  | responseFailed
  deriving DecidableEq

def ActivityOutcome.code : ActivityOutcome → ℕ
  | .accepted => 1
  | .rejected => 2
  | .tempfailed => 3
  | .responseFailed => 4

structure ActivityEvent (Cost : Type) where
  eventType : ActivityEventType
  outcome : ActivityOutcome
  analysisFailed : Bool
  tokenCost : Cost
  quantity : ℤ

def activityOutcome (selected : Action) (responseErr : Bool) : ActivityOutcome :=
  if responseErr then .responseFailed
  else match selected with
    | .reject => .rejected
    | .tempfail => .tempfailed
    | .accept => .accepted

section Record

variable {Score Cost Err : Type} (result : EvaluationResult Score Cost Err)

def scanEventType : ActivityEventType :=
  if result.incompleteInspection then .incompleteInspection
  else if (result.htmlCPUExceeded ∨ result.htmlMemoryExceeded) ∧
      result.htmlCPUAction = .dosReject then
    .htmlDoS
  else if (result.htmlCPUExceeded ∨ result.htmlMemoryExceeded) ∧ result.htmlCPUAction = .reject then
    .htmlLimit
  else .scan

/-- The event that recordScan hands to the store. -/
def recordScan (responseErr : Bool) : ActivityEvent Cost :=
  { eventType := scanEventType result
    outcome := activityOutcome result.selected responseErr
    analysisFailed := result.err.isSome
    tokenCost := result.tokenCost
    quantity := 0 }

end Record

def validActivityEvent (eventType : ActivityEventType) (outcome : ActivityOutcome) : Bool :=
  match eventType with
  | .scan =>
    ActivityOutcome.accepted.code ≤ outcome.code &&
      outcome.code ≤ ActivityOutcome.responseFailed.code
  | .ipRejection | .attachmentRejection | .protectedSenderDomainRejection =>
    outcome = .rejected || outcome = .responseFailed
  | .correspondentAccept | .trustedDomainAccept => outcome = .accepted || outcome = .responseFailed
  | .senderBlocklist => outcome = .accepted || outcome = .rejected
  | .htmlDoS | .htmlLimit | .incompleteInspection =>
    outcome = .accepted || outcome = .rejected || outcome = .responseFailed

/-- A row of the activity table. Only scans have the two optional columns. -/
structure ActivityRow (Cost : Type) where
  eventType : ActivityEventType
  outcome : ActivityOutcome
  analysisFailed : Option Bool
  tokenCost : Option Cost
  quantity : ℤ

inductive ActivityError
  | unavailable
  | invalidEvent (eventType : ActivityEventType) (outcome : ActivityOutcome)
  | invalidCost
  deriving DecidableEq

/-- AddActivity up to the insertion; `costValid` says that a cost is finite and
not negative. -/
def addActivity {Cost : Type} (available : Bool) (costValid : Cost → Bool)
    (event : ActivityEvent Cost) : Except ActivityError (ActivityRow Cost) :=
  if ¬ available then .error .unavailable
  else if ¬ validActivityEvent event.eventType event.outcome then
    .error (.invalidEvent event.eventType event.outcome)
  else if ¬ costValid event.tokenCost then .error .invalidCost
  else
    .ok { eventType := event.eventType
          outcome := event.outcome
          analysisFailed := if event.eventType = .scan then some event.analysisFailed else none
          tokenCost := if event.eventType = .scan then some event.tokenCost else none
          quantity := if event.quantity ≤ 0 then 1 else event.quantity }

/-- Of the events of a scan only a temporary failure can be out of place. -/
theorem valid_scan_iff {Score Cost Err : Type} (result : EvaluationResult Score Cost Err)
    (responseErr : Bool) :
    validActivityEvent (recordScan result responseErr).eventType
        (recordScan result responseErr).outcome = true ↔
      scanEventType result = .scan ∨ result.selected ≠ .tempfail ∨ responseErr = true := by
  have htype : scanEventType result = .incompleteInspection ∨ scanEventType result = .htmlDoS ∨
      scanEventType result = .htmlLimit ∨ scanEventType result = .scan := by
    unfold scanEventType
    split_ifs <;> simp
  simp only [recordScan]
  rcases htype with h | h | h | h <;> rw [h] <;> cases responseErr <;>
    cases result.selected <;> decide

theorem selectActionForMode_ne_tempfail {proposed : Action} (mode : Mode)
    (h : proposed ≠ .tempfail) : selectActionForMode proposed mode ≠ .tempfail := by
  unfold selectActionForMode
  split_ifs
  · decide
  · exact h

section Evaluated

variable {Score Cost Err : Type}

theorem orReject_cases (action : HTMLLimitAction) :
    action = .fallback ∨ orReject action = .reject ∨ orReject action = .dosReject := by
  cases action <;> simp [orReject]

/-- After the completion an event counts as a scan unless a limit was exceeded and
answered by a rejection, however the result came about. -/
theorem scanEventType_patchUsage (cfg : AIConfig Cost) (usage : ProcessingUsage)
    (result : EvaluationResult Score Cost Err) :
    scanEventType (patchUsage cfg usage result) = .scan ↔
      result.incompleteInspection = false ∧
        (usage.limitExceeded = false ∨ cfg.htmlResourceLimitAction = .fallback) := by
  have hlimit : usage.limitExceeded = true ↔
      usage.cpuExceeded = true ∨ usage.memoryExceeded = true := by
    rw [ProcessingUsage.limitExceeded, Bool.or_eq_true]
  simp only [scanEventType, patchUsage, ← hlimit]
  split_ifs with hincomplete hdos hreject
  · simp [hincomplete]
  · obtain ⟨hexceeded, haction⟩ := hdos
    have hother : cfg.htmlResourceLimitAction ≠ .fallback :=
      fun h => by simp [h, orReject] at haction
    simp [hexceeded, hother]
  · obtain ⟨hexceeded, haction⟩ := hreject
    have hother : cfg.htmlResourceLimitAction ≠ .fallback :=
      fun h => by simp [h, orReject] at haction
    simp [hexceeded, hother]
  · have hcases : usage.limitExceeded = false ∨ cfg.htmlResourceLimitAction = .fallback := by
      cases hexceeded : usage.limitExceeded with
      | false => exact Or.inl rfl
      | true =>
        rcases orReject_cases cfg.htmlResourceLimitAction with h | h | h
        · exact Or.inr h
        · exact absurd ⟨hexceeded, h⟩ hreject
        · exact absurd ⟨hexceeded, h⟩ hdos
    simp [hincomplete, hcases]

variable [Zero Score] [Zero Cost]

theorem analysisFailure_tempfail_iff (err : Err) (mode : Mode) (onError : AIErrorAction) :
    (analysisFailure err mode onError : EvaluationResult Score Cost Err).selected = .tempfail ↔
      mode = .enforce ∧ onError = .tempfail := by
  simp only [analysisFailure]
  split_ifs with h <;> simp [h]

variable [LE Score] [DecidableLE Score]

theorem analyzerResult_inspected (cfg : AIConfig Cost) (images : List Image)
    (answer : AnalyzerAnswer Score Err) (mode : Mode) (rejectScore : Score)
    (onError : AIErrorAction) :
    (analyzerResult cfg images answer mode rejectScore onError).incompleteInspection = false := by
  unfold analyzerResult
  cases answer.err <;> rfl

variable [One Score]

/-- A result that the body returns before the context ends is recorded. -/
theorem evaluatePrepared_recorded (cfg : AIConfig Cost) (e : Evaluation Score Err) (mode : Mode)
    (rejectScore : Score) (onError : AIErrorAction) (h : e.expired = none) :
    scanEventType (patchUsage cfg e.usage (evaluatePrepared cfg e mode rejectScore onError)) =
      .scan ∨
      (evaluatePrepared cfg e mode rejectScore onError).selected ≠ .tempfail := by
  rw [scanEventType_patchUsage]
  simp only [evaluatePrepared, h]
  split_ifs with hlimit hbody
  · exact Or.inr (selectActionForMode_ne_tempfail mode (by decide))
  · exact Or.inr (selectActionForMode_ne_tempfail mode (by decide))
  · left
    refine ⟨analyzerResult_inspected .., ?_⟩
    by_cases hexceeded : e.usage.limitExceeded = true
    · have hfallback : orReject cfg.htmlResourceLimitAction = .fallback := by
        by_contra hother
        exact hlimit ⟨hexceeded, hother⟩
      revert hfallback
      cases cfg.htmlResourceLimitAction <;> simp [orReject]
    · exact Or.inl (Bool.eq_false_iff.mpr hexceeded)

/-- The event of an evaluation is valid unless the context ended during a
preparation that exceeded a limit, the limit is answered by rejection, and failures
are answered by a temporary failure that was sent. -/
theorem evaluated_event_valid_iff (cfg : AIConfig Cost) (e : Evaluation Score Err) (mode : Mode)
    (rejectScore : Score) (onError : AIErrorAction) (responseErr : Bool) :
    validActivityEvent (recordScan (evaluate cfg e mode rejectScore onError) responseErr).eventType
        (recordScan (evaluate cfg e mode rejectScore onError) responseErr).outcome = true ↔
      ¬ (e.noSlot = none ∧ e.expired.isSome = true ∧ e.usage.limitExceeded = true ∧
        cfg.htmlResourceLimitAction ≠ .fallback ∧ mode = .enforce ∧ onError = .tempfail ∧
        responseErr = false) := by
  rw [valid_scan_iff]
  unfold evaluate
  cases hslot : e.noSlot with
  | some err => simp [scanEventType, analysisFailure]
  | none =>
    cases hexpired : e.expired with
    | none =>
      rcases evaluatePrepared_recorded cfg e mode rejectScore onError hexpired with
        hscan | hselected
      · simp [hscan]
      · have hpatched : (patchUsage cfg e.usage
            (evaluatePrepared cfg e mode rejectScore onError)).selected ≠ .tempfail := hselected
        simp [hpatched]
    | some err =>
      have hbody : evaluatePrepared cfg e mode rejectScore onError =
          analysisFailure err mode onError := by
        simp only [evaluatePrepared, hexpired]
      have hselected : (patchUsage cfg e.usage (evaluatePrepared cfg e mode rejectScore
          onError)).selected = .tempfail ↔ mode = .enforce ∧ onError = .tempfail := by
        have hfailure : (analysisFailure err mode onError : EvaluationResult Score Cost
            Err).selected = .tempfail ↔ mode = .enforce ∧ onError = .tempfail :=
          analysisFailure_tempfail_iff err mode onError
        rw [hbody]
        exact hfailure
      have hscan := scanEventType_patchUsage cfg e.usage
        (evaluatePrepared cfg e mode rejectScore onError)
      have hinspected : (evaluatePrepared cfg e mode rejectScore onError).incompleteInspection =
          false := by
        rw [hbody]
        rfl
      simp only [hscan, hinspected]
      cases e.usage.limitExceeded with
      | false => simp
      | true =>
        cases responseErr with
        | true => simp
        | false => simp; tauto

end Evaluated

/-- The preparation ran out of CPU time and the context ended before it returned. -/
theorem tempfailed_limit_not_recorded :
    let usage : ProcessingUsage := ⟨true, false, false, false, false, 0, 0⟩
    let prepared : Prepared := ⟨[], [], false, false⟩
    let answer : AnalyzerAnswer ℕ Unit := ⟨⟨.legitimate, 0, []⟩, ⟨0, 0⟩, none⟩
    let e : Evaluation ℕ Unit := ⟨none, prepared, usage, some (), fun _ => answer⟩
    let event := recordScan (evaluate (⟨.reject, .scan, fun _ => 0⟩ : AIConfig ℕ) e .enforce 1
      .tempfail) false
    validActivityEvent event.eventType event.outcome = false ∧
      addActivity true (fun _ => true) event = .error (.invalidEvent .htmlLimit .tempfailed) :=
  ⟨rfl, rfl⟩

end MilterGuard.AnalysisActivity
