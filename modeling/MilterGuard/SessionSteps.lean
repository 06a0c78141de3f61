import MilterGuard.Answers
import MilterGuard.SessionRun

/-!
Relations that a whole session follows. A relation that composes and is followed
by the few operations on frames, records, stores and message fields is followed
by every command except those that change the connection itself.
-/
namespace MilterGuard.SessionSteps

open ByteStrings Procedures SessionState SessionCommands FinishMessage Answers SessionRun

/-- Events that concern neither a command nor an exact-message store. -/
def plain : Event → Bool
  | .commandRead _ _ | .exactCreated _ | .exactWritten _ | .exactRead _ | .exactClosed _ => false
  | _ => true

/-- The connection and the store of the two sessions are the same, and the
second is not before its negotiation unless the first is. -/
structure SameConnection (ss ss' : Session) : Prop where
  connected : ss'.connected = ss.connected
  authentication : ss'.authentication = ss.authentication
  exactMessage : ss'.exactMessage = ss.exactMessage
  negotiating : ss'.phase = .negotiation → ss.phase = .negotiation

theorem SameConnection.refl (ss : Session) : SameConnection ss ss := ⟨rfl, rfl, rfl, id⟩

/-- The operations that commands on messages are made of follow the relation. -/
structure Respects (d : Deps) (R : St → List Event → St → Prop) : Prop where
  chains : Chains R
  write : ∀ payload, Follows R (writeFrame d payload)
  record : ∀ events, (∀ e ∈ events, plain e) → Follows R (log events)
  edit : ∀ f, (∀ ss, SameConnection ss (f ss)) → Follows R (update f)
  capture : ∀ writeErr, Follows R (captureExact writeErr)
  readExact : ∀ readErr, Follows R (readExactMessage readErr)
  close : ∀ closeErr, Follows R (closeExactMessage closeErr)
  reset : ∀ phase closeErr createErr, phase ≠ .negotiation →
    Follows R (resetMessage d phase closeErr createErr)

section Respects

variable {d : Deps} {R : St → List Event → St → Prop}

theorem Respects.pure {α : Type} (h : Respects d R) (a : α) : Follows R (pure a : Run α) :=
  Follows.pure h.chains a

theorem Respects.bind {α β : Type} (h : Respects d R) {m : Run α} {f : α → Run β}
    (hm : Follows R m) (hf : ∀ a, Follows R (f a)) : Follows R (m >>= f) :=
  Follows.bind h.chains hm hf

section

variable (h : Respects d R) (net : NetIP) (env : CommandEnv) (ss : Session) (payload : Bytes)

include h

theorem Respects.view {α β : Type} {g : Session → α} {f : α → Run β} (hf : ∀ a, Follows R (f a)) :
    Follows R (view g >>= f) :=
  h.bind (Follows.read h.chains _) hf

theorem Respects.writeFrames (frames : List Bytes) : Follows R (writeFrames d frames) :=
  Follows.attemptAll h.chains _ h.write frames

omit h in
theorem awaitConnectionDNS_sameConnection : SameConnection ss (awaitConnectionDNS env ss) := by
  unfold awaitConnectionDNS
  split_ifs
  · exact ⟨rfl, rfl, rfl, id⟩
  · exact SameConnection.refl ss

theorem Respects.respond (frames : List Bytes) (records : Bool → List Event) (wait : Bool)
    (hrecords : ∀ sent, ∀ e ∈ records sent, plain e) :
    Follows R (respond d env frames records wait) := by
  refine h.bind (h.writeFrames frames) fun sent => h.bind (h.record _ (hrecords sent)) fun _ => ?_
  cases sent with
  | false => exact h.bind (h.pure ()) fun _ => h.pure _
  | true =>
    refine h.bind (h.edit _ fun ss => ?_) fun _ =>
      h.bind (h.reset _ _ _ (by simp)) fun _ => h.pure _
    split_ifs
    · exact awaitConnectionDNS_sameConnection env ss
    · exact SameConnection.refl ss

omit h in
theorem plain_of_recordFor (last : Bytes) (e : Event) (h : recordFor ss last e) : plain e := by
  cases e <;> first | rfl | exact h.elim

/-- Procedures that give one answer follow the relation. -/
theorem Respects.answered {env : CommandEnv} {m : Run Bool} (hm : ∀ s, Answered d env s (m s)) :
    Follows R m := by
  intro s
  obtain ⟨notes, last, records, wait, hanswer, heq⟩ := hm s
  rw [heq]
  refine h.respond env _ records wait (fun sent e he => ?_) s
  cases sent with
  | false => rw [hanswer.failed e he]; rfl
  | true => exact plain_of_recordFor s.session last e (hanswer.recorded e he)

theorem Respects.bypassed (source : BypassSource) (learn touch : Bool) :
    Follows R (finishBypassedMessage d env source learn touch) :=
  h.answered (finishBypassedMessage_answered d env source learn touch)

theorem Respects.evaluateWithProgress (env : FinishEnv) :
    Follows R (evaluateWithProgress d env) := by
  have hlog : ∀ c : Prop, [Decidable c] →
      Follows R (log (if c then [Event.analyzerStarted] else [])) := by
    intro c hc
    refine h.record _ ?_
    split_ifs <;> simp [plain]
  refine h.bind (h.writeFrames _) fun _ => Follows.ite ?_ ?_
  · refine h.bind (hlog _) fun _ =>
      h.bind (h.edit _ (awaitConnectionDNS_sameConnection _)) fun _ => ?_
    exact h.bind (h.writeFrames _) fun _ => h.pure _
  · exact h.bind (hlog _) fun _ => h.pure _

theorem Respects.finishVerified (env : FinishEnv) : Follows R (finishVerified d env) := by
  have hverify : Follows R (verifyAuthenticationWithProgress d env) :=
    h.bind (h.readExact _) fun _ => h.bind (h.writeFrames _) fun _ =>
      Follows.ite (h.pure _) (h.pure _)
  have hprepare : ∀ evidence, Follows R (prepareInboundEvidence d env evidence) := fun evidence =>
    h.view fun _ => Follows.ite (h.pure _) (Follows.ite (h.pure _)
      (h.bind (h.record _ (by simp [plain])) fun _ => h.pure _))
  have hanalyze : Follows R (analyzeMessage d env) := by
    refine h.bind (h.evaluateWithProgress env) fun _ => Follows.ite ?_ ?_
    · exact h.answered (finishAnalyzed_answered d env.command env.result)
    · exact h.bind (h.record _ (by simp [plain])) fun _ => h.pure _
  refine h.bind (h.view fun _ => Follows.ite hverify (h.pure _)) fun evidence => ?_
  refine h.bind (h.close _) fun _ => h.bind (hprepare evidence) fun _ => ?_
  exact Follows.ite (h.bypassed _ _ _ _) (Follows.ite (h.bypassed _ _ _ _) hanalyze)

theorem Respects.inspectMessage (env : FinishEnv) : Follows R (inspectMessage d env) := by
  have hattachments : Follows R (applyAttachments d env) := by
    refine Follows.ite (h.pure _) (Follows.ite (h.pure _) (Follows.ite (h.pure _) ?_))
    exact h.bind (h.answered (finishAttachmentDecision_answered d env.command env.attachment))
      fun _ => h.pure _
  refine h.view fun _ => Follows.ite (h.bypassed _ _ _ _) ?_
  refine h.bind (h.writeFrames _) fun _ => Follows.ite ?_ (h.pure _)
  exact Follows.unlessHandled h.chains hattachments (h.finishVerified env)

theorem Respects.handleEmailCommand (env : FinishEnv) : Follows R (handleEmailCommand d env) := by
  have hreject : ∀ reason, Follows R (rejectEmailCommand d env.command reason) := fun reason =>
    h.answered (rejectEmailCommand_answered d env.command reason)
  have hrun : ∀ actor, Follows R (runEmailCommands d env actor) := by
    intro actor
    refine h.bind (h.record _ fun e he => ?_) fun _ => h.bind (h.record _ ?_) fun _ =>
      h.respond _ _ _ _ (by simp)
    · rw [(List.mem_replicate.mp he).2]
      rfl
    · split_ifs <;> simp [plain]
  refine h.view fun ss => Follows.ite (h.pure _) (h.bind ?_ fun _ => h.pure _)
  exact Follows.ite (hreject _) (Follows.ite (hreject _) (Follows.ite (hreject _)
    (Follows.ite (hreject _) (Follows.ite (hreject _) (hrun _)))))

theorem Respects.applyAuthenticatedOnlySenderDomain (env : FinishEnv) :
    Follows R (applyAuthenticatedOnlySenderDomain d env) := by
  have hrecords : ∀ ss selected sent, ∀ e ∈ reservedDomainRecords ss selected sent, plain e := by
    intro ss selected sent e he
    unfold reservedDomainRecords at he
    split_ifs at he <;> simp at he <;> rcases he with rfl | rfl | rfl <;> rfl
  refine h.view fun _ => Follows.ite (h.pure _) (h.bind ?_ fun _ => h.pure _)
  exact h.view fun ss => h.respond _ _ _ _ (hrecords ss _)

theorem Respects.applySenderBlocklist (env : FinishEnv) :
    Follows R (applySenderBlocklist d env) := by
  refine h.view fun ss => ?_
  cases senderBlocklistMatch d env ss with
  | none => exact h.pure _
  | some found =>
    refine Follows.ite (h.pure _) (Follows.ite ?_ (Follows.ite (h.pure _) ?_))
    · refine h.bind (h.respond _ _ _ _ fun sent e he => ?_) fun _ => h.pure _
      cases sent with
      | false => simp [fullBlockRecords] at he
      | true =>
        simp only [fullBlockRecords, if_true, List.mem_cons, List.not_mem_nil, or_false] at he
        rcases he with rfl | rfl <;> rfl
    · refine h.bind (h.edit _ fun _ => ⟨rfl, rfl, rfl, id⟩) fun _ => ?_
      exact h.bind (h.record _ (by simp [plain])) fun _ => h.pure _

omit h in
theorem readVisibleSender_sameConnection (p : MailAddresses.Platform) (ss : Session) :
    SameConnection ss (readVisibleSender p ss) := by
  obtain ⟨sender, domain, invalid, hframe⟩ := readVisibleSender_frame p ss
  rw [hframe]
  exact ⟨rfl, rfl, rfl, id⟩

theorem Respects.finishMessage (env : FinishEnv) : Follows R (finishMessage d net env) := by
  have hinternal : Follows R (finishInternalMessage d env.command) := by
    refine h.view fun _ => Follows.ite ?_ (h.respond _ _ _ _ (by simp))
    exact h.bind (h.writeFrames _) fun _ => Follows.ite (h.bypassed _ _ _ _) (h.pure _)
  refine h.view fun _ => Follows.ite (h.pure _) ?_
  refine h.bind (h.edit _ (readVisibleSender_sameConnection _)) fun _ => h.view fun _ => ?_
  refine Follows.ite hinternal (Follows.unlessHandled h.chains (h.handleEmailCommand env) ?_)
  refine Follows.unlessHandled h.chains (h.applyAuthenticatedOnlySenderDomain env) ?_
  exact Follows.unlessHandled h.chains (h.applySenderBlocklist env) (h.inspectMessage env)

omit h in
theorem collectFrom_frame (senders : List Bytes) (ss : Session) :
    ∃ collected truncated, collectFrom senders ss = { ss with
      senderBlocklistFrom := collected, senderBlocklistFromTruncated := truncated } := by
  induction senders generalizing ss with
  | nil => exact ⟨_, _, rfl⟩
  | cons sender rest ih =>
    unfold collectFrom
    split_ifs
    · exact ih ss
    · exact ⟨_, _, rfl⟩
    · obtain ⟨collected, truncated, heq⟩ :=
        ih { ss with senderBlocklistFrom := ss.senderBlocklistFrom ++ [sender] }
      exact ⟨collected, truncated, heq⟩

omit h in
theorem addHeader_frame (name value : Bytes) (ss : Session) :
    ∃ domain collected truncated message, Session.addHeader d name value ss = { ss with
      protectedSenderDomain := domain, senderBlocklistFrom := collected
      senderBlocklistFromTruncated := truncated, message := message } := by
  unfold Session.addHeader
  split_ifs
  · obtain ⟨collected, truncated, heq⟩ := collectFrom_frame
      (SenderPolicies.strictVisibleFromMailboxes d.platform [value]) { ss with
        protectedSenderDomain := if ss.protectedSenderDomain = [] then
            SenderPolicies.authenticatedOnlyFromValue d.platform value
              d.authenticatedOnlySenderDomains
          else ss.protectedSenderDomain }
    rw [Session.readFrom, heq]
    exact ⟨_, _, _, _, rfl⟩
  · exact ⟨_, _, _, _, rfl⟩

omit h in
theorem addHeader_sameConnection (name value : Bytes) (ss : Session) :
    SameConnection ss (Session.addHeader d name value ss) := by
  obtain ⟨domain, collected, truncated, message, heq⟩ := addHeader_frame name value ss
  rw [heq]
  exact ⟨rfl, rfl, rfl, id⟩

theorem Respects.mail : Follows R (mail d env payload) := by
  refine h.view fun ss => Follows.ite (h.pure _) (h.bind (h.edit _ fun ss => ?_) fun _ => ?_)
  · unfold reputationWait
    split_ifs
    · exact awaitConnectionDNS_sameConnection env ss
    · exact SameConnection.refl ss
  · cases reputationBlock d env ss with
    | some text =>
      exact h.bind (h.write _) fun _ => h.bind (h.record _ (by simp [plain])) fun _ => h.pure _
    | none =>
      refine h.bind (h.reset _ _ _ (by simp)) fun _ =>
        h.bind (h.edit _ fun ss => ?_) fun _ => h.write _
      split
      · exact SameConnection.refl ss
      · exact ⟨rfl, rfl, rfl, id⟩

theorem Respects.negotiate : Follows R (negotiate d payload) := by
  refine h.view fun _ => Follows.ite (h.pure _) (Follows.ite (h.pure _) ?_)
  refine h.bind (h.edit _ fun _ => ⟨rfl, rfl, rfl, id⟩) fun _ => h.bind (h.write _) fun _ => ?_
  exact Follows.ite (h.bind (h.edit _ fun _ => ⟨rfl, rfl, rfl, nofun⟩) fun _ => h.pure _) (h.pure _)

theorem Respects.recipient : Follows R (recipient d payload) := by
  refine h.view fun _ => Follows.ite (h.pure _) (h.bind (h.edit _ fun ss => ?_) fun _ => h.write _)
  unfold Session.addRecipient
  split
  · exact ⟨rfl, rfl, rfl, id⟩
  · split_ifs <;> exact ⟨rfl, rfl, rfl, id⟩

theorem Respects.addHeader : Follows R (addHeader d env payload) := by
  refine h.view fun _ => Follows.ite (h.pure _) ?_
  cases WireProtocol.parseHeader payload with
  | none => exact h.pure _
  | some header =>
    refine h.bind (h.edit _ (addHeader_sameConnection header.1 header.2)) fun _ => ?_
    exact h.bind (h.capture _) fun _ => h.write _

theorem Respects.bodyChunk : Follows R (bodyChunk env payload) :=
  h.bind (h.edit _ fun _ => ⟨rfl, rfl, rfl, id⟩) fun _ => h.capture _

theorem Respects.endBody (env : FinishEnv) (payload : Bytes) :
    Follows R (endBody d net env payload) :=
  h.view fun _ => Follows.ite (h.pure _)
    (h.bind (Follows.ite (h.bodyChunk _ _) (h.pure _)) fun _ => h.finishMessage net env)

/-- Only the commands that change the connection need an argument of their own. -/
theorem Respects.dispatch (env : FinishEnv) (command : UInt8) (payload : Bytes)
    (hmacros : command = WireProtocol.commandMacro → Follows R (macros d net payload))
    (hquit : command = WireProtocol.commandQuitSMTPConnection →
      Follows R (quitSMTPConnection d env.command))
    (hconnect : command = WireProtocol.commandConnect →
      Follows R (connect d net env.command payload)) :
    Follows R (dispatch d net env command payload) := by
  have hwrite : Follows R (sendContinue d) := h.write _
  have habort : Follows R (abort d env.command) :=
    h.bind (h.reset _ _ _ (by simp)) fun _ => h.pure _
  have hhelo : Follows R (helo d payload) := h.view fun _ => Follows.ite (h.pure _)
    (h.bind (h.edit _ fun _ => ⟨rfl, rfl, rfl, id⟩) fun _ => hwrite)
  have hendHeaders : Follows R (endHeaders d env.command) := h.view fun _ => Follows.ite (h.pure _)
    (h.bind (h.edit _ fun _ => ⟨rfl, rfl, rfl, nofun⟩) fun _ =>
      h.bind (h.capture _) fun _ => hwrite)
  have hbody : Follows R (body d env.command payload) := h.view fun _ => Follows.ite (h.pure _)
    (h.bind (h.bodyChunk _ _) fun _ => hwrite)
  refine Follows.ite (h.negotiate payload) (Follows.ite_of hmacros (Follows.ite habort
    (Follows.ite_of hquit (Follows.ite_of hconnect (Follows.ite hhelo ?_)))))
  refine Follows.ite (h.mail env.command payload) (Follows.ite (h.recipient payload) ?_)
  refine Follows.ite (h.view fun _ => Follows.ite (h.pure _) hwrite) (Follows.ite hwrite ?_)
  refine Follows.ite (h.addHeader env.command payload) (Follows.ite hendHeaders ?_)
  exact Follows.ite hbody (Follows.ite (h.endBody net env payload) (h.pure _))

end

end Respects

end MilterGuard.SessionSteps
