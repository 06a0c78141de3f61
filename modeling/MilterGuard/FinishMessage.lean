import MilterGuard.SessionCommands

/-!
The end of a message. Every path to an answer writes one list of frames that
the session determines, stops at the first failed write, records what follows
from the answer, and on success clears the message. `respond` is that shape,
and each path is shown to have it.
-/
namespace MilterGuard.FinishMessage

open ByteStrings Hostnames MailAddresses Procedures WireProtocol SessionState SessionCommands
open SenderPolicies

def selectActionForMode (proposed : Action) (mode : Mode) : Action :=
  if mode ≠ .enforce then .accept else proposed

def responseForAction (selected : Action) (rejectMessage : Bytes) : Bytes :=
  match selected with
  | .reject => replyCode (ascii "550") (ascii "5.7.1") rejectMessage
  | .tempfail => [responseTempfail]
  | .accept => [responseAccept]

def classificationHeader : Bytes := ascii "X-MilterGuard-Classification"
def scoreHeader : Bytes := ascii "X-MilterGuard-Score"
def confidenceHeader : Bytes := ascii "X-MilterGuard-Confidence"
def actionHeader : Bytes := ascii "X-MilterGuard-Action"
def policyHeader : Bytes := ascii "X-MilterGuard-Policy"
def internalMessageHeader : Bytes := ascii "X-MilterGuard-Internal"
def acceptModeAction : Bytes := ascii "accepted-accept-mode"

def resultHeaderNames : List Bytes :=
  [classificationHeader, scoreHeader, confidenceHeader, actionHeader, policyHeader]

variable (ss : Session)

def negotiated (action : UInt32) : Bool := ss.negotiatedActions &&& action ≠ 0

/-- One removal for each occurrence of the header. -/
def removals (table : CaseTable) (ss : Session) (name : Bytes) : List Bytes :=
  List.replicate (MessageBuffer.headerOccurrences table ss.message name) (deleteHeaderResponse name)

/-- The frames of replaceResultHeaders. Forged headers that cannot be removed
keep genuine ones from being added. -/
def resultHeaderFrames (table : CaseTable) (ss : Session) (headers : List (Bytes × Bytes)) :
    List Bytes :=
  let received := resultHeaderNames.filter fun name =>
    MessageBuffer.headerOccurrences table ss.message name > 0
  let additions :=
    if negotiated ss actionAddHeaders then headers.map fun h => addHeaderResponse h.1 h.2 else []
  if negotiated ss actionChangeHeaders then received.flatMap (removals table ss) ++ additions
  else if received ≠ [] then []
  else additions

variable (selected : Action)

/-- The frames of writePolicyResponse: the pending removals go with an accept. -/
def policyFrames (rejectMessage : Bytes) : List Bytes :=
  let deletions := match selected, ss.pendingSenderBlocks with
    | .accept, some pending => pending.blockedRecipients.map deleteRecipientResponse
    | _, _ => []
  deletions ++ [responseForAction selected rejectMessage]

def policyEnvelopeRecipients : List Bytes :=
  match ss.pendingSenderBlocks with
  | some pending => pending.remainingRecipients
  | none => ss.envelopeRecipients

/-- The records of completeSenderBlocklistRemoval. -/
def removalRecords : List Event :=
  match ss.pendingSenderBlocks with
  | none => []
  | some pending => [.rejectionRecorded pending.blockedRecipients,
      .senderBlocklistRecorded pending.blockedRecipients.length]

variable (d : Deps) (env : CommandEnv)

/-- Writes the frames and logs what the outcome calls for. When all frames were
sent, the peer's reverse DNS is awaited if a strike needs it, and the message is
cleared. -/
def respond (frames : List Bytes) (records : Bool → List Event) (wait : Bool) : Run Bool := do
  let sent ← writeFrames d frames
  log (records sent)
  if sent then
    update fun ss => if wait then awaitConnectionDNS env ss else ss
    resetMessage d .connection env.closeErr env.createErr
  else pure ()
  pure sent

theorem awaitConnectionDNS_exactMessage (ss : Session) :
    (awaitConnectionDNS env ss).exactMessage = ss.exactMessage := by
  unfold awaitConnectionDNS
  split_ifs <;> rfl

/-- The two ways an answer ends. Either all frames were sent and the message is
cleared, or a write failed after some of them and nothing else was written. -/
theorem respond_cases (frames : List Bytes) (records : Bool → List Event) (wait : Bool) (s : St) :
    ((respond d env frames records wait s).value = true ∧
      (respond d env frames records wait s).events = frames.map .wrote ++ records true ++
        (s.session.exactMessage.map Event.exactClosed).toList ∧
      (respond d env frames records wait s).state.session =
        Session.cleared d .connection
          (if wait then awaitConnectionDNS env s.session else s.session) ∧
      (respond d env frames records wait s).state.stores = s.stores) ∨
    ((respond d env frames records wait s).value = false ∧
      (∃ k, k < frames.length ∧ (respond d env frames records wait s).events =
        (frames.take k).map .wrote ++ [.writeFailed] ++ records false) ∧
      (respond d env frames records wait s).state.session = s.session ∧
      (respond d env frames records wait s).state.stores = s.stores) := by
  obtain ⟨hsession, hstores⟩ := writeFrames_session d frames s
  have hexactAfter : (if wait then awaitConnectionDNS env s.session
      else s.session).exactMessage = s.session.exactMessage := by
    split_ifs
    · exact awaitConnectionDNS_exactMessage env s.session
    · rfl
  cases hsent : (writeFrames d frames s).value with
  | true =>
    have hevents := attemptAll_true (writeFrame_attempts d) frames s hsent
    simp only [respond, bind_run, hsent, if_true, log_run, resetMessage, update, modify_run,
      closeExactMessage, hsession, hexactAfter]
    rw [show (writeFrames d frames s).events = _ from hevents]
    cases hexact : s.session.exactMessage with
    | none => simp [hstores]
    | some store => simp [hstores, Session.cleared]
  | false =>
    obtain ⟨k, hk, hevents⟩ := attemptAll_false (writeFrame_attempts d) frames s hsent
    refine Or.inr ⟨by simp [respond, hsent], ⟨k, hk, ?_⟩, ?_, ?_⟩
    · simp only [respond, bind_run, hsent, Bool.false_eq_true, if_false, log_run, pure_run,
        List.append_nil]
      rw [show (writeFrames d frames s).events = _ from hevents]
    · simpa [respond, hsent] using hsession
    · simpa [respond, hsent] using hstores

/-- The header notes of an accepted message that was not analyzed. -/
def bypassHeaders : List (Bytes × Bytes) :=
  if d.addEmailHeaders then
    [(classificationHeader, ascii "not-scanned"), (confidenceHeader, ascii "unavailable"),
      (actionHeader, ascii "accepted-bypass")]
  else []

inductive BypassSource
  | authenticatedConnection
  | senderDomainAllowlist
  | knownCorrespondent
  | internalCommandReply
  deriving DecidableEq

/-- The bypasses that count as evidence for the sender. -/
def BypassSource.trusted : BypassSource → Bool
  | .senderDomainAllowlist | .knownCorrespondent => true
  | _ => false

def bypassRecords (ss : Session) (source : BypassSource) (learn touch sent : Bool) : List Event :=
  (if source.trusted then [.activityRecorded] else []) ++
    if sent then
      removalRecords ss ++
        if d.mode = .enforce then
          (if ¬ ss.authentication.authenticated ∧ source.trusted then [.ipLegitimate] else []) ++
          (if learn then [.correspondentsLearned (policyEnvelopeRecipients ss)] else []) ++
          if touch then [.correspondentsTouched (policyEnvelopeRecipients ss)] else []
        else []
    else []

def finishBypassedMessage (source : BypassSource) (learn touch : Bool) : Run Bool := do
  let ss ← view id
  respond d env
    (resultHeaderFrames d.platform.table ss (bypassHeaders d) ++
      policyFrames ss .accept d.rejectMessage)
    (bypassRecords d ss source learn touch) false

def finishInternalMessage : Run Bool := do
  let ss ← view id
  if negotiated ss actionChangeHeaders then
    if ← writeFrames d (removals d.platform.table ss internalMessageHeader) then
      finishBypassedMessage d env .internalCommandReply false false
    else pure false
  else respond d env [[responseTempfail]] (fun _ => []) false

def rejectEmailCommand (reason : String) : Run Bool :=
  respond d env [replyCode (ascii "550") (ascii "5.7.1")
    (ascii "MilterGuard command rejected: " ++ ascii reason)] (fun _ => []) false

/-- The reply is queued before the discard is written. -/
def discardEmailCommand (queued : Bool) : Run Bool := do
  log (if queued then [.replyQueued] else [])
  respond d env [[responseDiscard]] (fun _ => []) false

/-- The records of a decision on a reserved sender domain. -/
def reservedDomainRecords (sent : Bool) : List Event :=
  (if selected = .reject then [.activityRecorded] else []) ++
    if sent ∧ selected = .reject then [.rejectionRecorded ss.envelopeRecipients, .ipStrike] else []

def reservedDomainHeaders : List (Bytes × Bytes) :=
  if d.addEmailHeaders then
    [(classificationHeader, ascii "unwanted"), (confidenceHeader, ascii "unavailable"),
      (actionHeader, acceptModeAction)]
  else bypassHeaders d

def finishAuthenticatedOnlySenderDomain : Run Bool := do
  let ss ← view id
  let selected := selectActionForMode .reject d.mode
  respond d env
    ((if selected = .accept then
      resultHeaderFrames d.platform.table ss (reservedDomainHeaders d) else []) ++
      [responseForAction selected d.rejectMessage])
    (reservedDomainRecords ss selected) (selected = .reject)

/-- attachmentPolicyResult, with the scan error reduced to its presence. -/
structure AttachmentResult where
  handled : Bool
  cancelled : Bool
  ipStrike : Bool
  proposed : Action
  failed : Bool
  rejectMessage : Bytes
  deriving DecidableEq

/-- mailauth.Evidence as the policies read it. -/
structure Evidence where
  dkimAligned : Bool
  spfAligned : Bool
  dmarcAligned : Bool
  deriving DecidableEq

/-- inboundEvidence without the parts that only the prompt uses. -/
structure InboundEvidence where
  recipientsComplete : Bool
  trustRequirementMet : Bool
  knownCorrespondent : Bool
  bypassAI : Bool
  allowedSenderDomain : Bytes
  deriving DecidableEq

inductive Classification
  | none
  | legitimate
  | unwanted
  deriving DecidableEq

/-- evaluationResult as far as answers and updates depend on it. The score is
given by its text and by whether it is below the low-confidence mark. -/
structure EvaluationResult where
  incompleteInspection : Bool
  proposed : Action
  selected : Action
  classification : Classification
  scoreText : Bytes
  lowConfidence : Bool
  failed : Bool
  resourceReject : Bool
  rejectMessage : Bytes
  deriving DecidableEq

/-- What the policies, stores and workers answer while one message is finished. -/
structure FinishEnv where
  command : CommandEnv
  deadlineSet : Bool
  senderOwned : Bool
  /-- The lines of a command body, or none when it is invalid or not readable. -/
  commandLines : Option (List Bytes)
  replyAccepted : Bool
  blocklist : Option (BlocklistTable.Table × ℕ)
  attachment : AttachmentResult
  exactReadErr : Bool
  authenticationTicks : ℕ
  /-- The evidence when all progress frames of the verification were sent. -/
  evidence : Evidence
  /-- The store's answer for the correspondent: known, and for all recipients. -/
  correspondent : Bool × Bool
  analysisTicks : ℕ
  /-- The number of progress frames after which the analyzer is started. -/
  analyzerStart : Option ℕ
  /-- The worker had passed its last check when a progress write failed. -/
  analyzerRaces : Bool
  interrupted : Bool
  result : EvaluationResult

def recipientSetComplete (p : Platform) (ss : Session) : Bool :=
  !ss.envelopeRecipientsTruncated && ss.envelopeRecipients ≠ [] &&
    ss.envelopeRecipients.all fun recipient => normalizeAddress p recipient ≠ []

variable (env : FinishEnv)

/-- The match of a message whose sender and recipient sets are complete. -/
def senderBlocklistMatch (ss : Session) : Option BlocklistTable.SenderBlockMatch :=
  let mailboxes := normalizedRecipients d.platform ss.senderBlocklistFrom
  if ss.authentication.authenticated ∨ ¬ d.senderBlocklist ∨ mailboxes = [] ∨
      ss.senderBlocklistFromTruncated ∨ ¬ recipientSetComplete d.platform ss then none
  else match env.blocklist with
    | none => none
    | some (table, now) =>
      let found := BlocklistTable.matchSenderBlocks d.platform table now mailboxes
        (normalizedRecipients d.platform ss.envelopeRecipients) d.includeSubdomains
      if found.blockedRecipients = [] then none else some found

def remainingRecipients (ss : Session) (found : BlocklistTable.SenderBlockMatch) : List Bytes :=
  (normalizedRecipients d.platform ss.envelopeRecipients).filter (· ∉ found.blockedRecipients)

def pendingBlocks (ss : Session) (found : BlocklistTable.SenderBlockMatch) :
    PendingSenderBlocklist :=
  ⟨found.blockedRecipients, remainingRecipients d ss found, found.matchedSender, found.matchedKind⟩

/-- The records of a message all of whose recipients are blocked. -/
def fullBlockRecords (found : BlocklistTable.SenderBlockMatch) (sent : Bool) : List Event :=
  if sent then [.rejectionRecorded found.blockedRecipients, .senderBlocklistRecorded 1] else []

/-- The answer when the policy handled the message, or `none` to go on. -/
def applySenderBlocklist : Run (Option Bool) := do
  let ss ← view id
  match senderBlocklistMatch d env ss with
  | none => pure none
  | some found =>
    if d.mode ≠ .enforce then pure none
    else if remainingRecipients d ss found = [] then
      let sent ← respond d env.command
        [responseForAction .reject d.senderBlocklistRejectMessage] (fullBlockRecords found) false
      pure (some sent)
    else if ¬ negotiated ss actionDeleteRecipient then pure none
    else
      update fun ss => { ss with pendingSenderBlocks := some (pendingBlocks d ss found) }
      log [.removalDeferred (pendingBlocks d ss found)]
      pure none

/-- The notes on a message that a prohibited or unreadable attachment would have
rejected in enforce mode. -/
def attachmentHeaders (result : AttachmentResult) : List (Bytes × Bytes) :=
  if result.proposed ≠ .accept ∧ d.addEmailHeaders then
    if result.failed then
      [(classificationHeader, ascii "unavailable"), (confidenceHeader, ascii "unavailable"),
        (actionHeader, acceptModeAction)]
    else
      [(classificationHeader, ascii "not-scanned"), (confidenceHeader, ascii "unavailable"),
        (actionHeader, acceptModeAction), (policyHeader, ascii "prohibited-attachment")]
  else bypassHeaders d

def attachmentRecords (strike sent : Bool) : List Event :=
  (if selected = .reject then [.activityRecorded] else []) ++
    if ¬ sent then []
    else if selected = .accept then removalRecords ss
    else if selected = .reject then
      .rejectionRecorded ss.envelopeRecipients :: if strike then [.ipStrike] else []
    else []

def finishAttachmentDecision (env : CommandEnv) (result : AttachmentResult) :
    Run Bool := do
  let ss ← view id
  let selected := selectActionForMode result.proposed d.mode
  let text := if result.rejectMessage = [] then d.attachmentRejectMessage else result.rejectMessage
  let strike := result.ipStrike && d.attachmentIPStrike && !ss.authentication.authenticated
  respond d env
    (if selected = .accept then
      resultHeaderFrames d.platform.table ss (attachmentHeaders d result) ++
        policyFrames ss selected text
    else [responseForAction selected text])
    (attachmentRecords ss selected strike) (selected = .reject && strike)

/-- The answer when the policy handled the message, or `none` to go on. -/
def applyAttachments : Run (Option Bool) := do
  let result := env.attachment
  if ¬ d.attachmentsEnabled ∨ ¬ result.handled then pure none
  else if result.cancelled then pure (some false)
  else if result.failed ∧ result.proposed = .accept then pure none
  else
    let sent ← finishAttachmentDecision d env.command result
    pure (some sent)

/-- Progress frames while a worker is busy; false when a write failed. -/
def progress (ticks : ℕ) : Run Bool :=
  writeFrames d (List.replicate ticks [responseProgress])

def readExactMessage (readErr : Bool) : Run Unit := fun s =>
  match s.session.exactMessage with
  | none => ⟨(), s, []⟩
  | some store =>
    if s.session.exactMessageErr then ⟨(), s, []⟩
    else ⟨(), { s with session := { s.session with exactMessageErr := readErr } },
      [.exactRead store]⟩

/-- A failed progress write leaves no aligned method, like any other failure of
the verification. -/
def verifyAuthenticationWithProgress : Run Evidence := do
  readExactMessage env.exactReadErr
  if ← progress d env.authenticationTicks then pure env.evidence else pure ⟨false, false, false⟩

/-- The analyzer is started after some of the progress frames. A failed write
cancels the worker, which may have passed its last check before that. -/
def evaluateWithProgress : Run Bool := do
  let before := (env.analyzerStart.getD env.analysisTicks).min env.analysisTicks
  if ← progress d before then
    log (if env.analyzerStart.isSome then [.analyzerStarted] else [])
    update (awaitConnectionDNS env.command)
    let sent ← progress d (env.analysisTicks - before)
    pure (sent && !env.interrupted)
  else
    log (if env.analyzerRaces then [.analyzerStarted] else [])
    pure false

def confidenceLabel (result : EvaluationResult) : Bytes :=
  if result.lowConfidence then ascii "low" else ascii "high"

def resultAction (result : EvaluationResult) : Bytes :=
  if result.proposed = .reject then acceptModeAction
  else if result.classification = .unwanted then ascii "accepted-below-threshold"
  else ascii "accepted"

/-- The headers of writeAcceptedResultHeaders for an analysis result. -/
def resultHeaders (result : EvaluationResult) : List (Bytes × Bytes) :=
  if ¬ d.addEmailHeaders then []
  else if result.incompleteInspection then
    [(classificationHeader, ascii "not-scanned"), (confidenceHeader, ascii "unavailable"),
      (actionHeader, acceptModeAction), (policyHeader, ascii "incomplete-inspection")]
  else if result.failed ∧ result.selected = .accept then
    [(classificationHeader, ascii "unavailable"), (confidenceHeader, ascii "unavailable"),
      (actionHeader, ascii "accepted-ai-error")]
  else match result.classification with
    | .none =>
      [(classificationHeader, ascii "unavailable"), (confidenceHeader, ascii "unavailable"),
        (actionHeader, resultAction result)]
    | .legitimate =>
      [(classificationHeader, ascii "legitimate"), (scoreHeader, result.scoreText),
        (confidenceHeader, confidenceLabel result), (actionHeader, resultAction result)]
    | .unwanted =>
      [(classificationHeader, ascii "unwanted"), (scoreHeader, result.scoreText),
        (confidenceHeader, confidenceLabel result), (actionHeader, resultAction result)]

/-- The records of applyPostDecisionUpdates. A rejection is recorded for all
envelope recipients, everything else for those that remain. -/
def postDecisionRecords (ss : Session) (result : EvaluationResult) : List Event :=
  let recipients := policyEnvelopeRecipients ss
  let authenticated := ss.authentication.authenticated
  if d.mode ≠ .enforce then []
  else if result.incompleteInspection then
    if result.selected = .reject then [.rejectionRecorded ss.envelopeRecipients] else []
  else
    (if result.selected = .reject then
      .rejectionRecorded ss.envelopeRecipients ::
        if ¬ authenticated ∧ ¬ result.resourceReject then [.ipStrike] else []
    else []) ++
    (if ¬ authenticated ∧ ¬ result.failed ∧ result.classification = .legitimate then
      [.ipLegitimate] else []) ++
    (if result.selected = .accept ∧ authenticated then [.correspondentsLearned recipients]
    else []) ++
    if ¬ authenticated ∧ ¬ result.failed ∧ ss.visibleSender ≠ [] ∧ ¬ result.resourceReject ∧
        result.classification ≠ .none then
      [.inboundClassified (if result.selected = .reject then ss.envelopeRecipients else recipients)]
    else []

def analysisRecords (ss : Session) (result : EvaluationResult) (sent : Bool) : List Event :=
  .activityRecorded :: if sent then
      (if result.selected = .accept then removalRecords ss else []) ++
        postDecisionRecords d ss result
    else []

/-- The end of finishMessage once a result is there. -/
def finishAnalyzed (env : CommandEnv) (result : EvaluationResult) : Run Bool := do
  let ss ← view id
  let text := if result.rejectMessage = [] then d.rejectMessage else result.rejectMessage
  respond d env
    ((if result.selected = .accept then
      resultHeaderFrames d.platform.table ss (resultHeaders d result) else []) ++
      policyFrames ss result.selected text)
    (analysisRecords d ss result) false

def isInternalMessage (net : NetIP) (ss : Session) : Bool :=
  let marker := trimSpace (MessageBuffer.header d.platform.table ss.message internalMessageHeader)
  marker ≠ [] && marker = d.internalToken &&
    ss.peerIP.all fun ip => net.isLoopback ip || !net.addressRoutable ip

/-- strings.EqualFold. An invalid byte reads as the replacement rune. -/
def equalFoldText (sameFold : ℕ → ℕ → Bool) (s t : Bytes) : Bool :=
  (runes s).length = (runes t).length &&
    ((runes s).zip (runes t)).all fun p =>
      p.1.getD 0xFFFD = p.2.getD 0xFFFD || sameFold (p.1.getD 0xFFFD) (p.2.getD 0xFFFD)

def isCommandAdministrator (identity : Bytes) : Bool :=
  d.commandAdministrators.any fun configured =>
    equalFoldText d.sameFold (trimSpace configured) (trimSpace identity)

def maxCommandsPerMessage : ℕ := 100

def recognizedLine (line : Bytes) : Bool :=
  match fields line with
  | [] => false
  | word :: _ =>
    [ascii "ACTIVITY", ascii "HELP", ascii "IP", ascii "BLOCKLIST", ascii "REJECTION",
      ascii "REJECTIONS", ascii "WHITELIST"].any (equalFold word)

/-- How many commands are run after `count` of them. The first line that does
not parse ends the list; it is answered if it looks like a command. -/
def collectCommands (parses : Bytes → Bool) : ℕ → List Bytes → ℕ
  | count, [] => count
  | count, line :: rest =>
    if ¬ parses line then if count ≠ 0 ∧ recognizedLine line then count + 1 else count
    else if count + 1 = maxCommandsPerMessage then count + 1
    else collectCommands parses (count + 1) rest

/-- Runs the commands of the body, queues one reply and discards the message. A
body without a command gets a reply as well. -/
def runEmailCommands (actor : AdminCommands.Actor) : Run Bool := do
  let count := (env.commandLines.map (collectCommands (d.parses actor) 0)).getD 0
  log (List.replicate count .commandExecuted)
  discardEmailCommand d env.command env.replyAccepted

def answerEmailCommand (ss : Session) : Run Bool :=
  let admin := isCommandAdministrator d (trimSpace ss.authentication.identity)
  let replyTo := normalizeAddress d.platform ss.envelopeSender
  if ss.envelopeRecipients.length ≠ 1 ∨ ss.envelopeRecipientsTruncated then
    rejectEmailCommand d env.command "command address must be the sole recipient"
  else if ¬ ss.authentication.authenticated then
    rejectEmailCommand d env.command "authentication required"
  else if ¬ admin ∧ ¬ d.allowAuthenticatedUsers then
    rejectEmailCommand d env.command "authenticated user is not authorized"
  else if ¬ admin ∧ d.verifySenderViaAliases ∧ ¬ env.senderOwned then
    rejectEmailCommand d env.command "envelope sender is not owned by the authenticated user"
  else if replyTo = [] then
    rejectEmailCommand d env.command "authenticated envelope sender is invalid"
  else runEmailCommands d env ⟨replyTo, admin, false⟩

/-- The answer when the message was a command, or `none` to go on. -/
def handleEmailCommand : Run (Option Bool) := do
  let ss ← view id
  let hasCommandRecipient := ss.envelopeRecipients.any fun recipient =>
    normalizeAddress d.platform recipient = d.commandRecipient
  if ¬ d.commandsEnabled ∨ ¬ hasCommandRecipient then pure none
  else
    let sent ← answerEmailCommand d env ss
    pure (some sent)

/-- The answer when the sender's domain is reserved, or `none` to go on. -/
def applyAuthenticatedOnlySenderDomain : Run (Option Bool) := do
  let ss ← view id
  if ss.authentication.authenticated ∨ ss.protectedSenderDomain = [] then pure none
  else
    let sent ← finishAuthenticatedOnlySenderDomain d env.command
    pure (some sent)

def meetsTrustRequirement (evidence : Evidence) : TrustRequirement → Bool
  | .spf => evidence.spfAligned
  | .either => evidence.dkimAligned || evidence.spfAligned
  | .both => evidence.dkimAligned && evidence.spfAligned
  | .dkim => evidence.dkimAligned

/-- A sender with more than one From header is not matched with anything. -/
def prepareInboundEvidence (evidence : Evidence) :
    Run InboundEvidence := do
  let ss ← view id
  let complete := recipientSetComplete d.platform ss
  let trusted := meetsTrustRequirement evidence d.trustRequirement
  let domain := allowedSenderDomain d.platform.table ss.visibleSenderDomain d.senderDomainAllowlist
  let allowed := if ¬ d.senderDomainAllowlistRequireAuthentication ∨ trusted then domain else []
  if ss.authentication.authenticated ∨ ss.message.fromHeaderCount > 1 then
    pure ⟨complete, false, false, false, []⟩
  else if ¬ d.useAllowlist then pure ⟨complete, trusted, false, false, allowed⟩
  else
    log [.correspondentMatch (policyEnvelopeRecipients ss)]
    let known := if d.scopePerSender ∧ d.recipientMatchAll then complete && env.correspondent.2
      else env.correspondent.1
    let bypass := d.bypassAI && complete && known && (!d.requireAuthenticationForBypass || trusted)
    pure ⟨complete, trusted, known, bypass, allowed⟩

def readVisibleSender (p : Platform) (ss : Session) : Session :=
  if ss.message.fromHeaderCount > 1 then { ss with visibleFromInvalid := true }
  else if ss.message.fromHeaderCount = 1 then
    let sender := normalizeAddress p (MessageBuffer.header p.table ss.message (ascii "From"))
    { ss with
      visibleSender := sender
      visibleSenderDomain := MailAddresses.domain p sender
      visibleFromInvalid := MailAddresses.domain p sender = [] }
  else ss

/-- The part of finishMessage that needs an analysis. -/
def analyzeMessage : Run Bool := do
  if ← evaluateWithProgress d env then finishAnalyzed d env.command env.result
  else
    log [.activityRecorded]
    pure false

/-- An authenticated sender is not verified internally. -/
def authenticationEvidence : Run Evidence := do
  let authenticated ← view fun ss => ss.authentication.authenticated
  if ¬ d.internalAuthentication ∨ ¬ authenticated then verifyAuthenticationWithProgress d env
  else pure ⟨false, false, false⟩

/-- The part of finishMessage from the verification of the sender on. The
verified identity decides on the two bypasses. -/
def finishVerified : Run Bool := do
  let evidence ← authenticationEvidence d env
  closeExactMessage env.command.closeErr
  let inbound ← prepareInboundEvidence d env evidence
  if inbound.allowedSenderDomain ≠ [] then
    finishBypassedMessage d env.command .senderDomainAllowlist false
      (inbound.knownCorrespondent && inbound.trustRequirementMet)
  else if inbound.bypassAI then
    finishBypassedMessage d env.command .knownCorrespondent false inbound.trustRequirementMet
  else analyzeMessage d env

/-- One progress frame goes out before attachments are inspected. -/
def inspectMessage : Run Bool := do
  let authenticated ← view fun ss => ss.authentication.authenticated
  if authenticated ∧ ¬ d.scanAuthenticated then
    finishBypassedMessage d env.command .authenticatedConnection true false
  else if ← progress d (if d.attachmentsEnabled then 1 else 0) then
    unlessHandled (applyAttachments d env) (finishVerified d env)
  else pure false

def finishMessage (net : NetIP) (env : FinishEnv) : Run Bool := do
  let phase ← view Session.phase
  if phase ≠ .body ∨ ¬ env.deadlineSet then pure false
  else
    update (readVisibleSender d.platform)
    let ss ← view id
    if isInternalMessage d net ss then finishInternalMessage d env.command
    else
      unlessHandled (handleEmailCommand d env) <|
        unlessHandled (applyAuthenticatedOnlySenderDomain d env) <|
          unlessHandled (applySenderBlocklist d env) (inspectMessage d env)

end MilterGuard.FinishMessage
