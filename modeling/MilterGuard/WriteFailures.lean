import MilterGuard.ResponseDiscipline

/-!
What a session does after a frame could not be written. Every stage but one
stops there: the verification of the sender takes a failed progress write for
missing evidence, and the message is finished as if the connection were sound.
-/
namespace MilterGuard.WriteFailures

open ByteStrings Procedures WireProtocol SessionState SessionCommands FinishMessage Answers
open SessionRun SessionSteps MessageLifecycle ResponseDiscipline

/-- A failed write ends the procedure; only activity is counted after it. -/
def Stopped (o : Outcome Event St Bool) : Prop :=
  Stops .writeFailed (· = .activityRecorded) (· = false) o

theorem not_mem_of_silent {s t : St} {events : List Event} (h : Silent s events t) :
    .writeFailed ∉ events := fun hmem => by
  have hframe := h _ hmem
  cases hframe

theorem stopped_pure (sent : Bool) (s : St) : Stopped ((pure sent : Run Bool) s) :=
  Or.inl (by simp)

theorem Stopped.after {α : Type} {m : Run α} {f : α → Run Bool} {s : St} (hm : Follows Silent m)
    (hf : Stopped (f (m s).value (m s).state)) : Stopped ((m >>= f) s) :=
  Stops.bind_of_clean (not_mem_of_silent (hm s)) hf

/-- The continuation of a procedure that may have failed stops by itself. -/
theorem Stopped.bind {m : Run Bool} {f : Bool → Run Bool} {s : St} (hm : Stopped (m s))
    (hnext : Stopped (f (m s).value (m s).state))
    (hstop : ∀ t, (f false t).value = false ∧ ∀ e ∈ (f false t).events, e = .activityRecorded) :
    Stopped ((m >>= f) s) := by
  refine Stops.bind hm (fun _ => hnext) fun hvalue => ?_
  rw [hvalue]
  exact hstop _

variable (d : Deps) (frames : List Bytes) (net : NetIP) (env : FinishEnv) (payload : Bytes)
  (next : Run Bool) (s : St)

theorem not_mem_wrote : .writeFailed ∉ frames.map Event.wrote := by
  intro hmem
  obtain ⟨frame, -, hframe⟩ := List.mem_map.mp hmem
  cases hframe

theorem writeFrames_stopped : Stopped (writeFrames d frames s) := by
  cases hsent : (writeFrames d frames s).value with
  | true =>
    refine Or.inl ?_
    rw [writeFrames, attemptAll_true (writeFrame_attempts d) frames s hsent]
    exact not_mem_wrote frames
  | false =>
    obtain ⟨k, -, hevents⟩ := attemptAll_false (writeFrame_attempts d) frames s hsent
    exact Or.inr ⟨hsent, (frames.take k).map .wrote, [], hevents, not_mem_wrote _, by simp⟩

theorem writeFrame_stopped (frame : Bytes) (s : St) : Stopped (writeFrame d frame s) := by
  cases hsent : (writeFrame d frame s).value with
  | true =>
    refine Or.inl ?_
    rw [(writeFrame_attempts d).succeeds frame s hsent]
    simp
  | false =>
    exact Or.inr ⟨hsent, [], [], (writeFrame_attempts d).fails frame s hsent, by simp, by simp⟩

theorem Answered.stopped {d : Deps} {env : CommandEnv} {s : St} {o : Outcome Event St Bool}
    (h : Answered d env s o) : Stopped o := by
  obtain ⟨notes, last, records, wait, hanswer, rfl⟩ := h
  rcases respond_cases d env (notes ++ deletions s.session last ++ [last]) records wait s with
    ⟨-, hsent, -⟩ | ⟨hfalse, ⟨k, -, hsent⟩, -⟩
  · refine Or.inl ?_
    have hrecords : .writeFailed ∉ records true := fun hmem => hanswer.recorded _ hmem
    rw [hsent]
    simp [hrecords]
  · refine Or.inr ⟨hfalse, ((notes ++ deletions s.session last ++ [last]).take k).map .wrote,
      records false, ?_, not_mem_wrote _, hanswer.failed⟩
    rw [hsent, List.append_assoc]
    rfl

theorem evaluateWithProgress_stopped (hrace : env.analyzerRaces = false) :
    Stopped (evaluateWithProgress d env s) := by
  have hlog : ∀ c : Prop, [Decidable c] →
      Follows Silent (log (if c then [Event.analyzerStarted] else [])) := by
    intro c hc
    refine log_silent _ ?_
    split_ifs <;> simp [frameEvent]
  refine Stopped.bind (writeFrames_stopped d _ s) ?_ fun t => ?_
  · refine ite_run (fun _ => Stopped.after (hlog _) (Stopped.after (update_silent _) ?_)) fun _ =>
      Stopped.after (hlog _) (stopped_pure _ _)
    refine Stopped.bind (writeFrames_stopped d _ _) (stopped_pure _ _) fun t => ⟨?_, by simp⟩
    simp
  · simp [hrace]

theorem analyzeMessage_stopped (hrace : env.analyzerRaces = false) :
    Stopped (analyzeMessage d env s) := by
  have hactivity : Follows Silent (log [Event.activityRecorded]) :=
    log_silent _ (by simp [frameEvent])
  refine Stopped.bind (evaluateWithProgress_stopped d env s hrace) ?_ fun t => ?_
  · exact ite_run (fun _ => Answered.stopped (finishAnalyzed_answered _ _ _ _)) fun _ =>
      Stopped.after hactivity (stopped_pure _ _)
  · simp

/-- The writes from the given attempt on succeed. -/
def Succeed (attempt count : ℕ) : Prop := ∀ i < count, d.writeFails (attempt + i) = false

theorem writeFrames_sent (h : Succeed d s.attempts frames.length) :
    (writeFrames d frames s).value = true := by
  induction frames generalizing s with
  | nil => rfl
  | cons frame rest ih =>
    have hfirst : d.writeFails s.attempts = false := h 0 (by simp)
    have hrest : (writeFrames d rest { s with attempts := s.attempts + 1 }).value = true := by
      refine ih _ fun i hi => ?_
      have hnext := h (i + 1) (by simpa using hi)
      rwa [← Nat.add_assoc, Nat.add_right_comm] at hnext
    have hwrite : writeFrame d frame s =
        ⟨true, { s with attempts := s.attempts + 1 }, [.wrote frame]⟩ := by
      simp [writeFrame, hfirst]
    change (attemptAll (writeFrame d) (frame :: rest) s).value = true
    rw [attemptAll, bind_run, hwrite]
    exact hrest

theorem writeFrames_attempts (h : (writeFrames d frames s).value = true) :
    (writeFrames d frames s).state.attempts = s.attempts + frames.length := by
  induction frames generalizing s with
  | nil => rfl
  | cons frame rest ih =>
    have hcount := (writeFrame_attempts d).counts frame s
    change (attemptAll (writeFrame d) (frame :: rest) s).value = true at h
    change (attemptAll (writeFrame d) (frame :: rest) s).state.attempts = _
    cases hsent : (writeFrame d frame s).value with
    | false => simp [attemptAll, hsent] at h
    | true =>
      simp only [attemptAll, bind_run, hsent, if_true] at h ⊢
      have hrest := ih _ h
      rw [hcount] at hrest ⊢
      rw [show (attemptAll (writeFrame d) rest _).state.attempts = _ from hrest]
      simp only [List.length_cons]
      omega

theorem progress_sent (ticks : ℕ) (s : St) (h : (progress d ticks s).value = true) :
    (progress d ticks s).state.session = s.session ∧
      (progress d ticks s).state.attempts = s.attempts + ticks ∧
      .writeFailed ∉ (progress d ticks s).events := by
  refine ⟨(writeFrames_session d _ s).1, ?_, ?_⟩
  · have hattempts := writeFrames_attempts d _ s h
    rw [List.length_replicate] at hattempts
    exact hattempts
  · rw [progress, writeFrames, attemptAll_true (writeFrame_attempts d) _ s h]
    exact not_mem_wrote _

/-- Progress frames before a stage that is only reached when they were sent. -/
theorem Stopped.afterProgress {d : Deps} {ticks : ℕ} {next : Run Bool} {s : St}
    (hnext : ∀ t, t.session = s.session → t.attempts = s.attempts + ticks → Stopped (next t)) :
    Stopped ((progress d ticks >>= fun sent => if sent then next else pure false) s) := by
  have hwrite : Stopped (progress d ticks s) := writeFrames_stopped d _ s
  cases hsent : (progress d ticks s).value with
  | false =>
    refine Stopped.bind hwrite ?_ fun t => ⟨rfl, by simp⟩
    rw [hsent]
    exact stopped_pure _ _
  | true =>
    obtain ⟨hsession, hattempts, -⟩ := progress_sent d ticks s hsent
    refine Stopped.bind hwrite ?_ fun t => ⟨rfl, by simp⟩
    rw [hsent]
    exact hnext _ hsession hattempts

theorem readExactMessage_silent (readErr : Bool) : Follows Silent (readExactMessage readErr) := by
  intro s
  unfold readExactMessage
  split
  · simp [Silent]
  · split_ifs <;> simp [Silent, frameEvent]

theorem readExactMessage_attempts (readErr : Bool) (s : St) :
    (readExactMessage readErr s).state.attempts = s.attempts := by
  unfold readExactMessage
  split
  · rfl
  · split_ifs <;> rfl

/-- The verification fails to write nothing when its progress frames go out. -/
theorem authenticationEvidence_clean
    (h : ¬ d.internalAuthentication ∨ ¬ s.session.authentication.authenticated →
      Succeed d s.attempts env.authenticationTicks) :
    .writeFailed ∉ (authenticationEvidence d env s).events := by
  rw [authenticationEvidence, view_bind]
  by_cases hverify : ¬ d.internalAuthentication ∨ ¬ s.session.authentication.authenticated
  swap
  · rw [if_neg hverify]
    exact List.not_mem_nil
  rw [if_pos hverify]
  set next := (readExactMessage env.exactReadErr s).state with hnext
  have hattempts : next.attempts = s.attempts := readExactMessage_attempts _ s
  have hsent : (progress d env.authenticationTicks next).value = true := by
    refine writeFrames_sent d _ next ?_
    rw [hattempts, List.length_replicate]
    exact h hverify
  rw [verifyAuthenticationWithProgress, bind_run, bind_run, hsent, if_pos rfl, List.mem_append,
    pure_run, List.append_nil]
  exact not_or.mpr ⟨not_mem_of_silent (readExactMessage_silent _ s),
    (progress_sent d _ next hsent).2.2⟩

theorem prepareInboundEvidence_silent (evidence : Evidence) :
    Follows Silent (prepareInboundEvidence d env evidence) := by
  refine Follows.bind silent_chains (Follows.read silent_chains _) fun _ => ?_
  refine Follows.ite (Follows.pure silent_chains _) (Follows.ite (Follows.pure silent_chains _) ?_)
  exact Follows.bind silent_chains (log_silent _ (by simp [frameEvent])) fun _ =>
    Follows.pure silent_chains _

theorem finishVerified_stopped
    (h : ¬ d.internalAuthentication ∨ ¬ s.session.authentication.authenticated →
      Succeed d s.attempts env.authenticationTicks)
    (hrace : env.analyzerRaces = false) : Stopped (finishVerified d env s) := by
  refine Stops.bind_of_clean (authenticationEvidence_clean d env s h) ?_
  refine Stopped.after (closeExactMessage_silent _) ?_
  refine Stopped.after (prepareInboundEvidence_silent d env _) ?_
  refine ite_run (fun _ => ?_) fun _ => ite_run (fun _ => ?_) fun _ => ?_
  · exact Answered.stopped (finishBypassedMessage_answered _ _ _ _ _ _)
  · exact Answered.stopped (finishBypassedMessage_answered _ _ _ _ _ _)
  · exact analyzeMessage_stopped d env _ hrace

/-- The attachment policy leaves the message to the next stage. -/
def AttachmentsPass : Prop :=
  (¬ d.attachmentsEnabled ∨ ¬ env.attachment.handled) ∨
    ¬ env.attachment.cancelled ∧ env.attachment.failed ∧ env.attachment.proposed = .accept

theorem applyAttachments_stopped (hnext : AttachmentsPass d env → Stopped (next s)) :
    Stopped (unlessHandled (applyAttachments d env) next s) := by
  refine unlessHandled_ite (fun hoff => hnext (Or.inl hoff)) fun _ =>
    unlessHandled_ite (fun _ => stopped_pure false s) fun hcancelled => ?_
  exact unlessHandled_run (fun hfailed => hnext (Or.inr ⟨hcancelled, hfailed⟩)) fun _ =>
    Answered.stopped (finishAttachmentDecision_answered d env.command env.attachment s)

/-- The write attempts before those of the verification. -/
def attemptsBefore : ℕ := if d.attachmentsEnabled then 1 else 0

theorem inspectMessage_stopped
    (h : (s.session.authentication.authenticated → d.scanAuthenticated) → AttachmentsPass d env →
      ¬ d.internalAuthentication ∨ ¬ s.session.authentication.authenticated →
      Succeed d (s.attempts + attemptsBefore d) env.authenticationTicks)
    (hrace : env.analyzerRaces = false) : Stopped (inspectMessage d env s) := by
  refine ite_run (fun _ => Answered.stopped (finishBypassedMessage_answered _ _ _ _ _ _))
    fun hscan => ?_
  refine Stopped.afterProgress fun t hsession hattempts => ?_
  refine applyAttachments_stopped d env _ t fun hpass => finishVerified_stopped d env t ?_ hrace
  rw [hattempts, hsession]
  refine h (fun hauth => ?_) hpass
  by_contra hoff
  exact hscan ⟨hauth, hoff⟩

theorem finishInternalMessage_stopped (env : CommandEnv) (s : St) :
    Stopped (finishInternalMessage d env s) := by
  refine ite_run (fun _ => ?_) fun _ => ?_
  · refine Stopped.bind (writeFrames_stopped d _ s) ?_ fun t => ⟨rfl, by simp⟩
    exact ite_run (fun _ => Answered.stopped (finishBypassedMessage_answered _ _ _ _ _ _)) fun _ =>
      stopped_pure _ _
  · exact Answered.stopped (single_answered d env s _ _ false (by decide) (by decide) (by simp)
      Recorded.nil)

theorem answerEmailCommand_stopped (ss : Session) (s : St) :
    Stopped (answerEmailCommand d env ss s) := by
  have hreject : ∀ reason, Stopped (rejectEmailCommand d env.command reason s) := fun reason =>
    Answered.stopped (rejectEmailCommand_answered d env.command reason s)
  refine ite_run (fun _ => hreject _) fun _ => ite_run (fun _ => hreject _) fun _ => ?_
  refine ite_run (fun _ => hreject _) fun _ => ite_run (fun _ => hreject _) fun _ => ?_
  refine ite_run (fun _ => hreject _) fun _ => ?_
  refine Stopped.after (log_silent _ fun e he => ?_) (Stopped.after (log_silent _ ?_) ?_)
  · rw [(List.mem_replicate.mp he).2]
    rfl
  · split_ifs <;> simp [frameEvent]
  · exact Answered.stopped (single_answered d _ _ _ _ false (by decide) (by decide) (by simp)
      Recorded.nil)

/-- No earlier policy answers the message, so that its sender is verified. -/
structure ReachesVerification (ss : Session) : Prop where
  external : ¬ isInternalMessage d net ss
  not_command : ¬ d.commandsEnabled ∨ ¬ ss.envelopeRecipients.any fun recipient =>
    MailAddresses.normalizeAddress d.platform recipient = d.commandRecipient
  unreserved : ss.authentication.authenticated ∨ ss.protectedSenderDomain = []
  not_blocked : ∀ found, senderBlocklistMatch d env ss = some found → d.mode = .enforce →
    remainingRecipients d ss found ≠ []
  scanned : ss.authentication.authenticated → d.scanAuthenticated
  attachments : AttachmentsPass d env
  verified : ¬ d.internalAuthentication ∨ ¬ ss.authentication.authenticated

theorem reachesVerification_of_readVisibleSender (p : MailAddresses.Platform) (ss : Session)
    (h : ReachesVerification d net env (readVisibleSender p ss)) :
    ReachesVerification d net env ss := by
  obtain ⟨sender, domain, invalid, hframe⟩ := readVisibleSender_frame p ss
  rw [hframe] at h
  exact ⟨h.external, h.not_command, h.unreserved, h.not_blocked, h.scanned, h.attachments,
    h.verified⟩

theorem handleEmailCommand_stopped
    (hnext : (¬ d.commandsEnabled ∨ ¬ s.session.envelopeRecipients.any fun recipient =>
      MailAddresses.normalizeAddress d.platform recipient = d.commandRecipient) →
      Stopped (next s)) :
    Stopped (unlessHandled (handleEmailCommand d env) next s) := by
  exact unlessHandled_run hnext fun _ => answerEmailCommand_stopped d env s.session s

theorem applyAuthenticatedOnlySenderDomain_stopped
    (hpending : s.session.pendingSenderBlocks = none)
    (hnext : s.session.authentication.authenticated ∨ s.session.protectedSenderDomain = [] →
      Stopped (next s)) :
    Stopped (unlessHandled (applyAuthenticatedOnlySenderDomain d env) next s) := by
  exact unlessHandled_run hnext fun _ => Answered.stopped
    (finishAuthenticatedOnlySenderDomain_answered d env.command s hpending)

/-- The next stage sees the same connection, with or without deferred removals. -/
theorem applySenderBlocklist_stopped
    (hnext : (∀ found, senderBlocklistMatch d env s.session = some found → d.mode = .enforce →
      remainingRecipients d s.session found ≠ []) → ∀ t, t.attempts = s.attempts →
      t.session.authentication = s.session.authentication → Stopped (next t)) :
    Stopped (unlessHandled (applySenderBlocklist d env) next s) := by
  rw [applySenderBlocklist, unlessHandled_view]
  dsimp only [id_eq]
  cases hmatch : senderBlocklistMatch d env s.session with
  | none => exact hnext (by simp [hmatch]) s rfl rfl
  | some found =>
    rw [hmatch] at hnext
    refine unlessHandled_ite (fun hmode => ?_) fun _ => unlessHandled_ite (fun _ => ?_) fun h => ?_
    · exact hnext (fun _ _ henforce => absurd henforce hmode) s rfl rfl
    · rw [unlessHandled_answer]
      exact Answered.stopped (fullBlock_answered d env s found)
    have hremains : ∀ other, some found = some other → d.mode = .enforce →
        remainingRecipients d s.session other ≠ [] := by
      rintro _ ⟨⟩ _
      exact h
    refine unlessHandled_ite (fun _ => hnext hremains s rfl rfl) fun _ => ?_
    set blocks := pendingBlocks d s.session found
    set t : St := { s with session := { s.session with pendingSenderBlocks := some blocks } }
    have hstopped : Stopped ((log [Event.removalDeferred blocks] >>= fun _ => next) t) :=
      Stops.bind_of_clean (by simp) (hnext hremains t rfl rfl)
    exact hstopped

theorem finishMessage_stopped (hpending : s.session.pendingSenderBlocks = none)
    (h : ReachesVerification d net env s.session →
      Succeed d (s.attempts + attemptsBefore d) env.authenticationTicks)
    (hrace : env.analyzerRaces = false) : Stopped (finishMessage d net env s) := by
  rw [finishMessage, view_bind]
  refine ite_run (fun _ => stopped_pure _ _) fun _ => ?_
  set t : St := { s with session := readVisibleSender d.platform s.session } with ht
  have htpending : t.session.pendingSenderBlocks = none := by
    obtain ⟨sender, domain, invalid, hframe⟩ := readVisibleSender_frame d.platform s.session
    rw [ht]
    rw [hframe]
    exact hpending
  refine ite_run (fun _ => finishInternalMessage_stopped d env.command t) fun hexternal => ?_
  refine handleEmailCommand_stopped d env _ t fun hcommand => ?_
  refine applyAuthenticatedOnlySenderDomain_stopped d env _ t htpending fun hreserved => ?_
  refine applySenderBlocklist_stopped d env _ t fun hblocked u hattempts hauthentication => ?_
  refine inspectMessage_stopped d env u (fun hscanned hattachments hverified => ?_) hrace
  rw [hauthentication] at hscanned hverified
  rw [hattempts]
  exact h (reachesVerification_of_readVisibleSender d net env d.platform s.session
    ⟨hexternal, hcommand, hreserved, hblocked, hscanned, hattachments, hverified⟩)

theorem stopped_answering : Answering d Stopped where
  refused := stopped_pure false
  write := writeFrame_stopped d
  after hm hf _ := Stopped.after hm (hf _ _)
  before hm hf := Stopped.bind hm (Or.inl (not_mem_of_silent (hf _ _)))

/-- Progress writes whose failure would go unnoticed: those of the verification,
and one that fails just before the analyzer is started. -/
structure ProgressReported : Prop where
  verification : ReachesVerification d net env s.session →
    Succeed d (s.attempts + attemptsBefore d) env.authenticationTicks
  analysis : env.analyzerRaces = false

/-- The condition on one turn, in the state in which the message is finished. -/
def StepReported (d : Deps) (net : NetIP) (s : St) : Input → Prop
  | .frame command payload env => command = commandEndBody → s.session.phase = .body →
    ProgressReported d net env (lastChunk env.command payload s).state
  | _ => True

theorem endBody_stopped (hidle : s.session.pendingSenderBlocks = none)
    (h : s.session.phase = .body →
      ProgressReported d net env (lastChunk env.command payload s).state) :
    Stopped (endBody d net env payload s) := by
  refine ite_run (fun _ => stopped_pure _ _) fun hphase => ?_
  obtain ⟨hverification, hrace⟩ := h (not_not.mp hphase)
  have hpending := (lastChunk_session env.command payload s).2.2.2.trans hidle
  exact Stopped.after (lastChunk_silent _ _)
    (finishMessage_stopped d net env _ hpending hverification
    hrace)

theorem handleCommand_stopped (command : UInt8) (payload : Bytes) (s : St)
    (hidle : s.session.pendingSenderBlocks = none)
    (h : StepReported d net s (.frame command payload env)) :
    Stopped (handleCommand d net env command payload s) := by
  have hreset := resetMessage_silent d .connection env.command.closeErr env.command.createErr
  refine (stopped_answering d).handleCommand net env payload s command (fun _ => ?_) (fun _ => ?_)
    (fun _ => ?_) fun hcommand => endBody_stopped d net env payload s hidle (h hcommand)
  · exact Stopped.after (update_silent _) (stopped_pure _ _)
  · exact Stopped.after hreset (stopped_pure _ _)
  · exact Stopped.after (update_silent _) (Stopped.after hreset (stopped_pure _ _))

theorem turn_stopped (input : Input) (s : St) (hidle : s.session.pendingSenderBlocks = none)
    (h : StepReported d net s input) :
    Stopped (turn d net input s) := by
  cases input with
  | deadlineFailed | readFailed idle => exact stopped_pure _ _
  | frame command payload env =>
    exact Stopped.after (log_silent _ (by simp [frameEvent]))
      (handleCommand_stopped d net env command payload s hidle h)

/-- The condition on every turn that the session takes. -/
def Reported (d : Deps) (net : NetIP) : List Input → St → Prop
  | [], _ => True
  | input :: rest, s => StepReported d net s input ∧
    ((turn d net input s).value = true → Reported d net rest (turn d net input s).state)

theorem serve_stopped (inputs : List Input) (s : St) (hbetween : Between d s.session)
    (h : Reported d net inputs s) :
    Stopped (serve d net inputs s) := by
  induction inputs generalizing s with
  | nil => exact stopped_pure _ _
  | cons input rest ih =>
    obtain ⟨hstep, hrest⟩ := h
    refine Stopped.bind (turn_stopped d net input s hbetween.idle hstep) ?_ fun t => ⟨rfl, by simp⟩
    exact ite_run (fun hvalue => ih _ ((turn_clean d net input s hbetween).2 hvalue) (hrest hvalue))
      fun _ => stopped_pure _ _

/-- After a failed write only activity is counted and the store closed: no frame
is written, no command read, no analyzer started and no update recorded. Every
session has this property whose messages meet the condition. -/
theorem failed_write_ends_session (inputs : List Input) (closeErr : Bool)
    (h : Reported d net inputs (start d)) (before after : List Event)
    (hfailed : (run d net inputs closeErr (start d)).events = before ++ .writeFailed :: after) :
    ∀ e ∈ after, e = .activityRecorded ∨ ∃ store, e = .exactClosed store := by
  set closing := closeExactMessage closeErr (serve d net inputs (start d)).state with hclosing
  have hclose : ∀ e ∈ closing.events, ∃ store, e = .exactClosed store := by
    rw [hclosing]
    unfold closeExactMessage
    split <;> simp
  have hnotClosing : .writeFailed ∉ closing.events := fun hmem => by
    obtain ⟨store, hstore⟩ := hclose _ hmem
    cases hstore
  have hevents : (run d net inputs closeErr (start d)).events =
      (serve d net inputs (start d)).events ++ closing.events := rfl
  rcases serve_stopped d net inputs (start d) (Between.of_initial rfl) h with
    hnone | ⟨-, first, rest, hserve, hfirst, hrest⟩
  · have hmem : .writeFailed ∈ (run d net inputs closeErr (start d)).events := by
      rw [hfailed]
      simp
    rw [hevents] at hmem
    exact absurd hmem (by simp [hnone, hnotClosing])
  · -- the failure is the only one, so the events split there in one way
    have hnotRest : .writeFailed ∉ rest ++ closing.events := by
      rw [List.mem_append]
      exact not_or.mpr ⟨fun hmem => (nomatch hrest _ hmem), hnotClosing⟩
    rw [hfailed, hserve, List.append_assoc] at hevents
    obtain ⟨-, -, rfl⟩ := (List.append_cons_inj_of_notMem hfirst hnotRest).mp hevents.symm
    intro e he
    rcases List.mem_append.mp he with he | he
    · exact Or.inl (hrest e he)
    · exact Or.inr (hclose e he)

/-- The answer to the message cannot be written. -/
theorem failed_write_ends_session_accept :
    ∃ before after, (run { plainDeps with writeFails := (· = 5) } noAddresses
      (plainMessage ++ [quietFrame commandEndBody []]) false (start plainDeps)).events =
        before ++ .writeFailed :: after ∧
      ∀ e ∈ after, e = .activityRecorded ∨ ∃ store, e = .exactClosed store := by
  have hsplit : (run { plainDeps with writeFails := (· = 5) } noAddresses
      (plainMessage ++ [quietFrame commandEndBody []]) false (start plainDeps)).events =
      (run { plainDeps with writeFails := (· = 5) } noAddresses
        (plainMessage ++ [quietFrame commandEndBody []]) false
          (start plainDeps)).events.dropLast.dropLast
        ++ .writeFailed :: [.activityRecorded] := by decide +kernel
  refine ⟨_, _, hsplit, failed_write_ends_session _ _ _ _ ?_ _ _ hsplit⟩
  refine ⟨fun hcommand => absurd hcommand (by decide), fun _ => ?_⟩
  refine ⟨fun hcommand => absurd hcommand (by decide), fun _ => ?_⟩
  refine ⟨fun hcommand => absurd hcommand (by decide), fun _ => ?_⟩
  refine ⟨fun hcommand => absurd hcommand (by decide), fun _ => ?_⟩
  refine ⟨fun hcommand => absurd hcommand (by decide), fun _ => ?_⟩
  exact ⟨fun _ _ => ⟨fun _ i hi => absurd hi (Nat.not_lt_zero i), rfl⟩, fun _ => trivial⟩

/-- A failed progress write of the verification goes unnoticed: the analyzer is
started, the message accepted, the sender's address recorded as legitimate and
the next command read. -/
theorem failed_verification_progress_goes_on :
    ∃ before after, (run { plainDeps with writeFails := (· = 5) } noAddresses
      (plainMessage ++ [.frame commandEndBody [] { quietFinish with authenticationTicks := 1 },
        quietFrame commandQuitMilterConnection []]) false (start plainDeps)).events =
        before ++ .writeFailed :: after ∧
      .analyzerStarted ∈ after ∧ .wrote [responseAccept] ∈ after ∧ .ipLegitimate ∈ after ∧
      .commandRead commandQuitMilterConnection [] ∈ after :=
  ⟨(run { plainDeps with writeFails := (· = 5) } noAddresses
      (plainMessage ++ [.frame commandEndBody [] { quietFinish with authenticationTicks := 1 },
        quietFrame commandQuitMilterConnection []]) false (start plainDeps)).events.takeWhile
      (· ≠ .writeFailed),
    [.analyzerStarted, .wrote [responseAccept], .activityRecorded, .ipLegitimate,
      .commandRead commandQuitMilterConnection []], by decide +kernel⟩

end MilterGuard.WriteFailures
