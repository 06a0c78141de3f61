import MilterGuard.FinishMessage

/-!
What the end of a message can do, said once for all its paths. A path may first
write progress frames and header removals; then it either gives up without an
answer or answers with header changes, the removals of blocked recipients and
one final frame. Later results are read off this form.
-/
namespace MilterGuard.Answers

open ByteStrings Procedures WireProtocol SessionState SessionCommands FinishMessage

instance lawfulBEqHead : LawfulBEq (Option UInt8) := inferInstance

def finalFrame (frame : Bytes) : Bool :=
  frame.head? ∈ [some responseAccept, some responseTempfail, some responseDiscard,
    some responseReply]

def headerFrame (frame : Bytes) : Bool :=
  frame.head? ∈ [some responseChangeHeader, some responseAddHeader]

/-- The frames that may come before the final one. -/
def intermediateFrame (frame : Bytes) : Bool :=
  frame.head? ∈ [some responseProgress, some responseChangeHeader, some responseAddHeader,
    some responseDeleteRecipient]

variable (ss : Session) (last : Bytes)

/-- The removals that go with the final frame. -/
def deletions : List Bytes :=
  match ss.pendingSenderBlocks with
  | some pending =>
    if last = [responseAccept] then pending.blockedRecipients.map deleteRecipientResponse else []
  | none => []

/-- A record about recipients names those that remain, unless the message was
not accepted. -/
def recordFor : Event → Prop
  | .correspondentsLearned recipients | .correspondentsTouched recipients =>
    recipients = policyEnvelopeRecipients ss
  | .inboundClassified recipients =>
    last = [responseAccept] → recipients = policyEnvelopeRecipients ss
  | .rejectionRecorded _ | .ipStrike | .ipLegitimate | .senderBlocklistRecorded _
  | .activityRecorded => True
  | _ => False

structure Answer (notes : List Bytes) (last : Bytes) (records : Bool → List Event) : Prop where
  notes_header : ∀ frame ∈ notes, headerFrame frame
  final : finalFrame last
  failed : ∀ e ∈ records false, e = .activityRecorded
  recorded : ∀ e ∈ records true, recordFor ss last e

/-- The outcome is that of one answer given in the state. -/
def Answered (d : Deps) (env : CommandEnv) (s : St) (o : Outcome Event St Bool) : Prop :=
  ∃ notes last records wait, Answer s.session notes last records ∧
    o = respond d env (notes ++ deletions s.session last ++ [last]) records wait s

theorem replyCode_head (code enhanced text : Bytes) :
    (replyCode code enhanced text).head? = some responseReply := rfl

variable (selected : Action) (text : Bytes)

theorem responseForAction_final : finalFrame (responseForAction selected text) := by
  cases selected <;> simp [responseForAction, finalFrame, replyCode_head]

theorem responseForAction_eq_accept :
    responseForAction selected text = [responseAccept] ↔ selected = .accept := by
  cases selected with
  | accept => simp [responseForAction]
  | tempfail => simp [responseForAction, responseTempfail, responseAccept]
  | reject =>
    have hhead : (responseForAction .reject text).head? ≠ some responseAccept := by
      simp [responseForAction, replyCode_head, responseReply, responseAccept]
    simp only [reduceCtorEq, iff_false]
    intro h
    rw [h] at hhead
    exact hhead rfl

theorem policyFrames_eq :
    policyFrames ss selected text =
      deletions ss (responseForAction selected text) ++ [responseForAction selected text] := by
  unfold policyFrames deletions
  cases ss.pendingSenderBlocks with
  | none => cases selected <;> rfl
  | some pending =>
    dsimp only
    by_cases hselected : selected = .accept
    · subst hselected
      rw [if_pos ((responseForAction_eq_accept .accept text).mpr rfl)]
    · rw [if_neg fun h => hselected ((responseForAction_eq_accept selected text).mp h)]
      cases selected <;> first | rfl | exact absurd rfl hselected

theorem deletions_eq_nil (h : last ≠ [responseAccept]) : deletions ss last = [] := by
  unfold deletions
  split
  · exact if_neg h
  · rfl

theorem resultHeaderFrames_header (table : Hostnames.CaseTable) (ss : Session)
    (headers : List (Bytes × Bytes)) :
    ∀ frame ∈ resultHeaderFrames table ss headers, headerFrame frame := by
  have hadd : ∀ frame ∈ (if negotiated ss actionAddHeaders then
      headers.map fun h => addHeaderResponse h.1 h.2 else []), headerFrame frame := by
    intro frame hframe
    split_ifs at hframe
    · obtain ⟨h, -, rfl⟩ := List.mem_map.mp hframe
      simp [headerFrame, addHeaderResponse]
    · simp at hframe
  have hremove : ∀ name, ∀ frame ∈ removals table ss name, headerFrame frame := by
    intro name frame hframe
    rw [removals, List.mem_replicate] at hframe
    simp [hframe.2, headerFrame, deleteHeaderResponse]
  intro frame hframe
  unfold resultHeaderFrames at hframe
  dsimp only at hframe
  by_cases hchange : negotiated ss actionChangeHeaders
  · rw [if_pos hchange, List.mem_append, List.mem_flatMap] at hframe
    rcases hframe with ⟨name, -, hname⟩ | hframe
    · exact hremove name frame hname
    · exact hadd frame hframe
  · split_ifs at hframe
    · simp at hframe
    all_goals exact hadd frame (by simp [*])

def Recorded (events : List Event) : Prop :=
  ∀ e ∈ events, recordFor ss last e

section Recorded

variable {ss : Session} {last : Bytes} {es fs : List Event}

theorem Recorded.nil : Recorded ss last [] := by simp [Recorded]

theorem Recorded.cons {e : Event} (he : recordFor ss last e) (hes : Recorded ss last es) :
    Recorded ss last (e :: es) := List.forall_mem_cons.mpr ⟨he, hes⟩

theorem Recorded.append (hes : Recorded ss last es) (hfs : Recorded ss last fs) :
    Recorded ss last (es ++ fs) := List.forall_mem_append.mpr ⟨hes, hfs⟩

theorem Recorded.ite {c : Prop} [Decidable c] (hes : c → Recorded ss last es)
    (hfs : ¬ c → Recorded ss last fs) : Recorded ss last (if c then es else fs) :=
  iteInduction hes hfs

/-- A single event that depends on a condition. -/
theorem Recorded.optional {c : Prop} [Decidable c] {e : Event} (he : recordFor ss last e) :
    Recorded ss last (if c then [e] else []) :=
  Recorded.ite (fun _ => Recorded.cons he Recorded.nil) fun _ => Recorded.nil

end Recorded

section

variable (d : Deps) (ss : Session) (env : CommandEnv)

theorem removalRecords_recorded (last : Bytes) : Recorded ss last (removalRecords ss) := by
  unfold removalRecords
  cases ss.pendingSenderBlocks with
  | none => exact Recorded.nil
  | some pending => exact Recorded.cons trivial (Recorded.cons trivial Recorded.nil)

theorem bypassRecords_recorded (source : BypassSource) (learn touch : Bool) (last : Bytes) :
    Recorded ss last (bypassRecords d ss source learn touch true) := by
  refine Recorded.append (Recorded.optional trivial) ?_
  refine Recorded.append (removalRecords_recorded ss last) (Recorded.ite (fun _ => ?_) fun _ =>
    Recorded.nil)
  refine Recorded.append (Recorded.append (Recorded.optional trivial) ?_) ?_
  · exact Recorded.optional rfl
  · exact Recorded.optional rfl

theorem postDecisionRecords_recorded (result : EvaluationResult) (text : Bytes) :
    Recorded ss (responseForAction result.selected text) (postDecisionRecords d ss result) := by
  refine Recorded.ite (fun _ => Recorded.nil) fun _ => Recorded.ite (fun _ => ?_) fun _ => ?_
  · exact Recorded.optional trivial
  · refine Recorded.append (Recorded.append (Recorded.append ?_ (Recorded.optional trivial)) ?_) ?_
    · exact Recorded.ite (fun _ => Recorded.cons trivial (Recorded.optional trivial)) fun _ =>
        Recorded.nil
    · exact Recorded.optional rfl
    · refine Recorded.optional fun haccept => ?_
      have hselected := (responseForAction_eq_accept _ _).mp haccept
      rw [if_neg (by simp [hselected])]

theorem finishBypassedMessage_answered (source : BypassSource) (learn touch : Bool) (s : St) :
    Answered d env s (finishBypassedMessage d env source learn touch s) := by
  refine ⟨resultHeaderFrames d.platform.table s.session (bypassHeaders d),
    responseForAction .accept d.rejectMessage, bypassRecords d s.session source learn touch, false,
    ⟨resultHeaderFrames_header _ _ _, responseForAction_final _ _, ?_,
      bypassRecords_recorded d s.session source learn touch _⟩, ?_⟩
  · intro e he
    rw [bypassRecords, if_neg Bool.false_ne_true, List.append_nil] at he
    split_ifs at he <;> simpa using he
  · simp [finishBypassedMessage, view, policyFrames_eq]

theorem finishAnalyzed_answered (result : EvaluationResult) (s : St) :
    Answered d env s (finishAnalyzed d env result s) := by
  set text := if result.rejectMessage = [] then d.rejectMessage else result.rejectMessage
  refine ⟨if result.selected = .accept then
      resultHeaderFrames d.platform.table s.session (resultHeaders d result) else [],
    responseForAction result.selected text, analysisRecords d s.session result, false,
    ⟨?_, responseForAction_final _ _, by simp [analysisRecords], ?_⟩, ?_⟩
  · split_ifs
    · exact resultHeaderFrames_header _ _ _
    · simp
  · exact Recorded.cons trivial (Recorded.append
      (Recorded.ite (fun _ => removalRecords_recorded _ _) fun _ => Recorded.nil)
      (postDecisionRecords_recorded d s.session result text))
  · simp [finishAnalyzed, view, policyFrames_eq, text]

/-- Without pending removals the reserved-domain answer needs none. -/
theorem finishAuthenticatedOnlySenderDomain_answered (s : St)
    (hpending : s.session.pendingSenderBlocks = none) :
    Answered d env s (finishAuthenticatedOnlySenderDomain d env s) := by
  set selected := selectActionForMode .reject d.mode
  refine ⟨if selected = .accept then
      resultHeaderFrames d.platform.table s.session (reservedDomainHeaders d) else [],
    responseForAction selected d.rejectMessage, reservedDomainRecords s.session selected,
    selected = .reject, ⟨?_, responseForAction_final _ _, ?_, ?_⟩, ?_⟩
  · split_ifs
    · exact resultHeaderFrames_header _ _ _
    · simp
  · intro e he
    unfold reservedDomainRecords at he
    split_ifs at he <;> simp_all
  · exact Recorded.append (Recorded.optional trivial) (Recorded.ite
      (fun _ => Recorded.cons trivial (Recorded.cons trivial Recorded.nil)) fun _ => Recorded.nil)
  · simp [finishAuthenticatedOnlySenderDomain, view, deletions, hpending, selected]

theorem finishAttachmentDecision_answered (result : AttachmentResult) (s : St) :
    Answered d env s (finishAttachmentDecision d env result s) := by
  set selected := selectActionForMode result.proposed d.mode with hselected
  set text := if result.rejectMessage = [] then d.attachmentRejectMessage else result.rejectMessage
    with htext
  set strike := result.ipStrike && d.attachmentIPStrike && !s.session.authentication.authenticated
    with hstrike
  refine ⟨if selected = .accept then
      resultHeaderFrames d.platform.table s.session (attachmentHeaders d result) else [],
    responseForAction selected text, attachmentRecords s.session selected strike,
    selected = .reject && strike, ⟨?_, responseForAction_final _ _, ?_, ?_⟩, ?_⟩
  · split_ifs
    · exact resultHeaderFrames_header _ _ _
    · simp
  · intro e he
    unfold attachmentRecords at he
    split_ifs at he <;> simp_all
  · refine Recorded.append (Recorded.optional trivial)
      (Recorded.ite (fun _ => Recorded.nil) fun _ =>
      Recorded.ite (fun _ => removalRecords_recorded _ _) fun _ =>
      Recorded.ite (fun _ => ?_) fun _ =>
      Recorded.nil)
    exact Recorded.cons trivial (Recorded.optional trivial)
  · have hframes : (if selected = .accept then
        resultHeaderFrames d.platform.table s.session (attachmentHeaders d result) ++
          policyFrames s.session selected text else [responseForAction selected text]) =
        (if selected = .accept then
          resultHeaderFrames d.platform.table s.session (attachmentHeaders d result) else []) ++
          deletions s.session (responseForAction selected text) ++
          [responseForAction selected text] := by
      by_cases haccept : selected = .accept
      · simp [haccept, policyFrames_eq]
      · have hlast := fun h => haccept ((responseForAction_eq_accept selected text).mp h)
        rw [if_neg haccept, if_neg haccept, deletions_eq_nil _ _ hlast]
        rfl
    rw [← hframes]
    simp [finishAttachmentDecision, view, hselected, htext, hstrike]

/-- An answer of one frame that does not accept the message. -/
theorem single_answered (s : St) (last : Bytes) (records : Bool → List Event) (wait : Bool)
    (hfinal : finalFrame last) (haccept : last ≠ [responseAccept])
    (hfailed : ∀ e ∈ records false, e = .activityRecorded)
    (hrecorded : Recorded s.session last (records true)) :
    Answered d env s (respond d env [last] records wait s) := by
  refine ⟨[], last, records, wait, ⟨by simp, hfinal, hfailed, hrecorded⟩, ?_⟩
  rw [deletions_eq_nil _ _ haccept]
  rfl

theorem rejectEmailCommand_answered (reason : String) (s : St) :
    Answered d env s (rejectEmailCommand d env reason s) := by
  refine single_answered d env s _ _ false ?_ ?_ (by simp) Recorded.nil
  · simp [finalFrame, replyCode_head]
  · intro h
    have hhead := congrArg List.head? h
    simp [replyCode_head, responseReply, responseAccept] at hhead

/-- What may happen before the answer is given in the session. -/
def preludeEvent : Event → Prop
  | .wrote frame =>
    frame.head? = some responseProgress ∨ frame.head? = some responseChangeHeader
  | .correspondentMatch recipients => recipients = policyEnvelopeRecipients ss
  | .removalDeferred pending => ss.pendingSenderBlocks = some pending
  | .exactRead _ | .exactClosed _ | .analyzerStarted | .commandExecuted | .replyQueued
  | .activityRecorded | .writeFailed => True
  | _ => False

/-- The two sessions hold the same message for the same recipients. -/
structure SameMessage (ss' : Session) : Prop where
  phase : ss'.phase = ss.phase
  envelopeRecipients : ss'.envelopeRecipients = ss.envelopeRecipients
  pendingSenderBlocks : ss'.pendingSenderBlocks = ss.pendingSenderBlocks
  senderBlocklistFrom : ss'.senderBlocklistFrom = ss.senderBlocklistFrom

theorem SameMessage.refl : SameMessage ss ss := ⟨rfl, rfl, rfl, rfl⟩

end

theorem SameMessage.trans {ss ss' ss'' : Session} (h : SameMessage ss ss')
    (h' : SameMessage ss' ss'') : SameMessage ss ss'' :=
  ⟨h'.phase.trans h.phase, h'.envelopeRecipients.trans h.envelopeRecipients,
    h'.pendingSenderBlocks.trans h.pendingSenderBlocks,
    h'.senderBlocklistFrom.trans h.senderBlocklistFrom⟩

/-- The outcome ends the message of the session: after a prelude it either gives
up or is that of one answer. -/
def Ends (d : Deps) (env : CommandEnv) (ss : Session) (o : Outcome Event St Bool) : Prop :=
  ∃ prelude, (∀ e ∈ prelude, preludeEvent ss e) ∧
    ((o.value = false ∧ o.events = prelude ∧ SameMessage ss o.state.session) ∨
      ∃ t o', SameMessage ss t.session ∧ Answered d env t o' ∧ o.value = o'.value ∧
        o.state = o'.state ∧ o.events = prelude ++ o'.events)

section

variable {d : Deps} {o : Outcome Event St Bool} {ss : Session} {env : CommandEnv}

theorem Ends.of_answered {s : St} (hs : SameMessage ss s.session) (h : Answered d env s o) :
    Ends d env ss o :=
  ⟨[], by simp, Or.inr ⟨s, o, hs, h, rfl, rfl, rfl⟩⟩

theorem Ends.cases (h : Ends d env ss o) :
    (o.value = true ∧ ∃ ss', o.state.session = Session.cleared d .connection ss') ∨
      o.value = false ∧ SameMessage ss o.state.session := by
  obtain ⟨prelude, -, ⟨hfalse, -, hsame⟩ |
    ⟨t, o', hsame, ⟨notes, last, records, wait, -, rfl⟩, hvalue, hstate, -⟩⟩ := h
  · exact Or.inr ⟨hfalse, hsame⟩
  · rw [hvalue, hstate]
    rcases respond_cases d env (notes ++ deletions t.session last ++ [last]) records wait t with
      ⟨htrue, -, hsession, -⟩ | ⟨hfalse, -, hsession, -⟩
    · exact Or.inl ⟨htrue, _, hsession⟩
    · rw [← hsession] at hsame
      exact Or.inr ⟨hfalse, hsame⟩

/-- Giving up with only prelude events. -/
theorem Ends.of_false (hvalue : o.value = false) (hevents : ∀ e ∈ o.events, preludeEvent ss e)
    (hs : SameMessage ss o.state.session) : Ends d env ss o :=
  ⟨o.events, hevents, Or.inl ⟨hvalue, rfl, hs⟩⟩

/-- A step with only prelude events comes before what ends the message. -/
theorem Ends.bind {α : Type} {m : Run α} {f : α → Run Bool} {s : St}
    (hevents : ∀ e ∈ (m s).events, preludeEvent ss e)
    (hnext : Ends d env ss (f (m s).value (m s).state)) : Ends d env ss ((m >>= f) s) := by
  obtain ⟨prelude, hprelude, hcases⟩ := hnext
  refine ⟨(m s).events ++ prelude, List.forall_mem_append.mpr ⟨hevents, hprelude⟩, ?_⟩
  rcases hcases with ⟨hvalue, hevents', hsame⟩ | ⟨t, o', hsame, hanswer, hvalue, hstate, hevents'⟩
  · refine Or.inl ⟨hvalue, ?_, hsame⟩
    rw [bind_run, hevents']
  · refine Or.inr ⟨t, o', hsame, hanswer, hvalue, hstate, ?_⟩
    rw [bind_run, hevents', List.append_assoc]

/-- Only prelude events, and the message stays the same. -/
def Prelude (ss : Session) (s : St) (events : List Event) (t : St) : Prop :=
  SameMessage ss s.session →
    (∀ e ∈ events, preludeEvent ss e) ∧ SameMessage ss t.session

theorem prelude_chains (ss : Session) : Chains (Prelude ss) where
  refl s h := ⟨by simp, h⟩
  trans h h' hs := by
    obtain ⟨hevents, ht⟩ := h hs
    obtain ⟨hevents', hu⟩ := h' ht
    exact ⟨List.forall_mem_append.mpr ⟨hevents, hevents'⟩, hu⟩

/-- The procedure ends the message of the session from every state that holds it. -/
def Finishes (d : Deps) (env : CommandEnv) (ss : Session) (m : Run Bool) : Prop :=
  ∀ s, SameMessage ss s.session → Ends d env ss (m s)

theorem Finishes.bind {d : Deps} {env : CommandEnv} {ss : Session} {α : Type} {m : Run α}
    {f : α → Run Bool} (hm : Follows (Prelude ss) m) (hf : ∀ a, Finishes d env ss (f a)) :
    Finishes d env ss (m >>= f) := by
  intro s hs
  obtain ⟨hevents, hsame⟩ := hm s hs
  exact Ends.bind hevents (hf _ _ hsame)

/-- The session that a procedure reads holds the same message. -/
theorem Finishes.view {α : Type} {g : Session → α} {f : α → Run Bool}
    (hf : ∀ a, Finishes d env ss (f a)) :
    Finishes d env ss (view g >>= f) :=
  Finishes.bind (Follows.read (prelude_chains ss) _) hf

theorem Finishes.ite {c : Prop} [Decidable c] {m n : Run Bool} (hm : Finishes d env ss m)
    (hn : Finishes d env ss n) :
    Finishes d env ss (if c then m else n) := iteInduction (fun _ => hm) fun _ => hn

theorem finishes_of_answered {m : Run Bool} (h : ∀ s, Answered d env s (m s)) :
    Finishes d env ss m := fun s hs =>
  Ends.of_answered hs (h s)

end

theorem finishes_false (d : Deps) (env : CommandEnv) (ss : Session) :
    Finishes d env ss (pure false) := fun _ hs =>
  Ends.of_false rfl (by simp) hs

variable (d : Deps) (env : FinishEnv) (ss : Session) (s : St)

theorem writeFrames_mem (frames : List Bytes) (s : St) (e : Event)
    (he : e ∈ (writeFrames d frames s).events) :
    (∃ frame ∈ frames, e = .wrote frame) ∨ e = .writeFailed := by
  cases hsent : (writeFrames d frames s).value with
  | true =>
    rw [writeFrames, attemptAll_true (writeFrame_attempts d) frames s hsent, List.mem_map] at he
    obtain ⟨frame, hframe, rfl⟩ := he
    exact Or.inl ⟨frame, hframe, rfl⟩
  | false =>
    obtain ⟨k, -, hevents⟩ := attemptAll_false (writeFrame_attempts d) frames s hsent
    rw [writeFrames, hevents, List.mem_append, List.mem_map, List.mem_singleton] at he
    rcases he with ⟨frame, hframe, rfl⟩ | rfl
    · exact Or.inl ⟨frame, List.mem_of_mem_take hframe, rfl⟩
    · exact Or.inr rfl

theorem writeFrames_prelude (frames : List Bytes)
    (h : ∀ frame ∈ frames, preludeEvent ss (.wrote frame)) :
    Follows (Prelude ss) (writeFrames d frames) := by
  intro s hs
  refine ⟨?_, ?_⟩
  · intro e he
    rcases writeFrames_mem d frames s e he with ⟨frame, hframe, rfl⟩ | rfl
    · exact h frame hframe
    · trivial
  · rw [(writeFrames_session d frames s).1]
    exact hs

theorem progress_prelude (ticks : ℕ) : Follows (Prelude ss) (progress d ticks) := by
  refine writeFrames_prelude d ss _ ?_
  intro frame hframe
  rw [(List.mem_replicate.mp hframe).2]
  exact Or.inl rfl

theorem log_prelude (events : List Event) (h : ∀ e ∈ events, preludeEvent ss e) :
    Follows (Prelude ss) (log events) := fun _ hs => ⟨h, hs⟩

theorem update_prelude (f : Session → Session) (h : ∀ ss', SameMessage ss' (f ss')) :
    Follows (Prelude ss) (update f) := fun s hs =>
  ⟨by simp [update], hs.trans (h s.session)⟩

theorem awaitConnectionDNS_sameMessage (env : CommandEnv) (ss : Session) :
    SameMessage ss (awaitConnectionDNS env ss) := by
  unfold awaitConnectionDNS
  split_ifs
  · exact ⟨rfl, rfl, rfl, rfl⟩
  · exact SameMessage.refl ss

theorem closeExactMessage_prelude (closeErr : Bool) :
    Follows (Prelude ss) (closeExactMessage closeErr) := by
  intro s hs
  unfold closeExactMessage
  cases s.session.exactMessage with
  | none => exact ⟨by simp, hs⟩
  | some store => exact ⟨by simp [preludeEvent], hs.trans ⟨rfl, rfl, rfl, rfl⟩⟩

theorem readExactMessage_prelude (readErr : Bool) :
    Follows (Prelude ss) (readExactMessage readErr) := by
  intro s hs
  unfold readExactMessage
  cases s.session.exactMessage with
  | none => exact ⟨by simp, hs⟩
  | some store =>
    split_ifs
    · exact ⟨by simp, hs⟩
    · exact ⟨by simp [preludeEvent], hs.trans ⟨rfl, rfl, rfl, rfl⟩⟩

theorem verifyAuthenticationWithProgress_prelude :
    Follows (Prelude ss) (verifyAuthenticationWithProgress d env) := by
  have hchains := prelude_chains ss
  refine Follows.bind hchains (readExactMessage_prelude ss _) fun _ => ?_
  refine Follows.bind hchains (progress_prelude d ss _) fun _ => ?_
  exact Follows.ite (Follows.pure hchains _) (Follows.pure hchains _)

theorem authenticationEvidence_prelude : Follows (Prelude ss) (authenticationEvidence d env) := by
  have hchains := prelude_chains ss
  refine Follows.bind hchains (Follows.read hchains _) fun _ => Follows.ite ?_ ?_
  · exact verifyAuthenticationWithProgress_prelude d env ss
  · exact Follows.pure hchains _

theorem policyEnvelopeRecipients_eq {ss ss' : Session} (h : SameMessage ss ss') :
    policyEnvelopeRecipients ss' = policyEnvelopeRecipients ss := by
  rw [policyEnvelopeRecipients, policyEnvelopeRecipients, h.pendingSenderBlocks,
    h.envelopeRecipients]

theorem view_prelude {ss : Session} {α : Type} {f : Session → Run α}
    (hf : ∀ ss', SameMessage ss ss' → Follows (Prelude ss) (f ss')) :
    Follows (Prelude ss) (view id >>= f) := fun s hs => hf s.session hs s hs

theorem prepareInboundEvidence_prelude (evidence : Evidence) (ss : Session) :
    Follows (Prelude ss) (prepareInboundEvidence d env evidence) := by
  have hchains := prelude_chains ss
  refine view_prelude fun ss' hsame => ?_
  refine Follows.ite (Follows.pure hchains _) (Follows.ite (Follows.pure hchains _) ?_)
  refine Follows.bind hchains (log_prelude ss _ ?_) fun _ => Follows.pure hchains _
  simpa [preludeEvent] using policyEnvelopeRecipients_eq hsame

theorem evaluateWithProgress_prelude : Follows (Prelude ss) (evaluateWithProgress d env) := by
  have hchains := prelude_chains ss
  have hlog : ∀ c : Prop, [Decidable c] →
      Follows (Prelude ss) (log (if c then [Event.analyzerStarted] else [])) := by
    intro c hc
    refine log_prelude ss _ ?_
    split_ifs <;> simp [preludeEvent]
  refine Follows.bind hchains (progress_prelude d ss _) fun sent => Follows.ite ?_ ?_
  · refine Follows.bind hchains (hlog _) fun _ => ?_
    refine Follows.bind hchains (update_prelude ss _ (awaitConnectionDNS_sameMessage _)) fun _ => ?_
    exact Follows.bind hchains (progress_prelude d ss _) fun _ => Follows.pure hchains _
  · exact Follows.bind hchains (hlog _) fun _ => Follows.pure hchains _

theorem analyzeMessage_finishes : Finishes d env.command ss (analyzeMessage d env) := by
  refine Finishes.bind (evaluateWithProgress_prelude d env ss) fun _ => Finishes.ite ?_ ?_
  · exact finishes_of_answered (finishAnalyzed_answered d env.command env.result)
  · exact Finishes.bind (log_prelude ss _ (by simp [preludeEvent])) fun _ => finishes_false _ _ _

theorem finishVerified_finishes : Finishes d env.command ss (finishVerified d env) := by
  refine Finishes.bind (authenticationEvidence_prelude d env ss) fun evidence => ?_
  refine Finishes.bind (closeExactMessage_prelude ss _) fun _ => ?_
  refine Finishes.bind (prepareInboundEvidence_prelude d env evidence ss) fun inbound => ?_
  refine Finishes.ite ?_ (Finishes.ite ?_ (analyzeMessage_finishes d env ss))
  · exact finishes_of_answered (finishBypassedMessage_answered d env.command _ _ _)
  · exact finishes_of_answered (finishBypassedMessage_answered d env.command _ _ _)

theorem inspectMessage_finishes : Finishes d env.command ss (inspectMessage d env) := by
  refine Finishes.view fun _ => Finishes.ite ?_ ?_
  · exact finishes_of_answered (finishBypassedMessage_answered d env.command _ _ _)
  refine Finishes.bind (progress_prelude d ss _) fun _ => Finishes.ite ?_ (finishes_false _ _ _)
  intro s hs
  have hverified := finishVerified_finishes d env ss s hs
  refine unlessHandled_ite (fun _ => hverified) fun _ => unlessHandled_ite (fun _ => ?_) fun _ => ?_
  · exact finishes_false _ _ _ s hs
  · exact unlessHandled_run (fun _ => hverified) fun _ =>
      Ends.of_answered hs (finishAttachmentDecision_answered _ _ _ s)

theorem finishInternalMessage_finishes (env : CommandEnv) (ss : Session) :
    Finishes d env ss (finishInternalMessage d env) := by
  refine Finishes.view fun ss' => Finishes.ite ?_ ?_
  · refine Finishes.bind (writeFrames_prelude d ss _ ?_) fun _ => Finishes.ite ?_
      (finishes_false _ _ _)
    · intro frame hframe
      rw [(List.mem_replicate.mp hframe).2]
      exact Or.inr rfl
    · exact finishes_of_answered (finishBypassedMessage_answered d env _ _ _)
  · refine finishes_of_answered fun s => ?_
    exact single_answered d env s _ _ false (by decide) (by decide) (by simp) Recorded.nil

theorem answerEmailCommand_finishes (ss' : Session) :
    Finishes d env.command ss (answerEmailCommand d env ss') := by
  have hreject : ∀ reason, Finishes d env.command ss (rejectEmailCommand d env.command reason) :=
    fun reason => finishes_of_answered (rejectEmailCommand_answered d env.command reason)
  have hdiscard : ∀ queued,
      Finishes d env.command ss (discardEmailCommand d env.command queued) := by
    intro queued
    refine Finishes.bind (log_prelude ss _ ?_) fun _ => finishes_of_answered fun s => ?_
    · split_ifs <;> simp [preludeEvent]
    · exact single_answered d _ s _ _ false (by decide) (by decide) (by simp) Recorded.nil
  refine Finishes.ite (hreject _) (Finishes.ite (hreject _) (Finishes.ite (hreject _)
    (Finishes.ite (hreject _) (Finishes.ite (hreject _) ?_))))
  refine Finishes.bind (log_prelude ss _ ?_) fun _ => hdiscard _
  intro e he
  rw [(List.mem_replicate.mp he).2]
  trivial

/-- When the removal of some recipients is deferred: the message matches in
enforce mode, recipients remain, and the MTA allows removals. -/
structure Defers (found : BlocklistTable.SenderBlockMatch) : Prop where
  found_match : senderBlocklistMatch d env ss = some found
  enforce : d.mode = .enforce
  remaining : remainingRecipients d ss found ≠ []
  negotiated : negotiated ss actionDeleteRecipient

theorem fullBlock_answered (found : BlocklistTable.SenderBlockMatch) :
    Answered d env.command s (respond d env.command
      [responseForAction .reject d.senderBlocklistRejectMessage] (fullBlockRecords found) false
        s) := by
  refine single_answered d _ s _ _ false (responseForAction_final _ _) ?_
    (by simp [fullBlockRecords]) (Recorded.cons trivial (Recorded.cons trivial Recorded.nil))
  rw [Ne, responseForAction_eq_accept]
  simp

/-- The session in which a message is answered. Only the visible sender and the
deferred removals differ from the session in which the message was collected. -/
structure Prepared (ss' : Session) : Prop where
  phase : ss'.phase = ss.phase
  envelopeRecipients : ss'.envelopeRecipients = ss.envelopeRecipients
  senderBlocklistFrom : ss'.senderBlocklistFrom = ss.senderBlocklistFrom
  pending : ss'.pendingSenderBlocks = none ∨ ∃ found, Defers d env ss found ∧
    ss'.pendingSenderBlocks = some (pendingBlocks d ss found)

theorem readVisibleSender_frame (p : MailAddresses.Platform) (ss : Session) :
    ∃ sender domain invalid, readVisibleSender p ss = { ss with
      visibleSender := sender, visibleSenderDomain := domain, visibleFromInvalid := invalid } := by
  unfold readVisibleSender
  split_ifs
  · exact ⟨_, _, _, rfl⟩
  · exact ⟨_, _, _, rfl⟩
  · exact ⟨_, _, _, rfl⟩

/-- The deferral depends on the collected message only. -/
theorem defers_of_readVisibleSender (p : MailAddresses.Platform) (ss : Session)
    (found : BlocklistTable.SenderBlockMatch) (h : Defers d env (readVisibleSender p ss) found) :
    Defers d env ss found ∧
      pendingBlocks d (readVisibleSender p ss) found = pendingBlocks d ss found := by
  obtain ⟨sender, domain, invalid, hframe⟩ := readVisibleSender_frame p ss
  rw [hframe] at h ⊢
  exact ⟨⟨h.found_match, h.enforce, h.remaining, h.negotiated⟩, rfl⟩

/-- The outcome ends the message that was collected, in a session that is
prepared for it; the removals that are deferred there are logged. -/
def Closes (o : Outcome Event St Bool) : Prop :=
  ∃ ss', Prepared d env ss ss' ∧ Ends d env.command ss' o ∧
    ∀ pending, ss'.pendingSenderBlocks = some pending → .removalDeferred pending ∈ o.events

theorem Closes.of_ends {d : Deps} {env : FinishEnv} {ss : Session} {o : Outcome Event St Bool}
    (hpending : ss.pendingSenderBlocks = none) (h : Ends d env.command ss o) : Closes d env ss o :=
  ⟨ss, ⟨rfl, rfl, rfl, Or.inl hpending⟩, h, by simp [hpending]⟩

theorem unlessHandled_view {α : Type} {g : Session → α} {f : α → Run (Option Bool)}
    {next : Run Bool} :
    unlessHandled (view g >>= f) next s = unlessHandled (f (g s.session)) next s := rfl

/-- The stages of a message, one after another, in the state after its visible
sender was read. -/
theorem stages_end (hpending : s.session.pendingSenderBlocks = none) :
    Closes d env s.session ((unlessHandled (handleEmailCommand d env) <|
      unlessHandled (applyAuthenticatedOnlySenderDomain d env) <|
        unlessHandled (applySenderBlocklist d env) (inspectMessage d env)) s) := by
  have hinspect := fun t : St => inspectMessage_finishes d env t.session t (SameMessage.refl _)
  rw [handleEmailCommand, unlessHandled_view]
  refine unlessHandled_run (fun _ => ?_) fun _ => Closes.of_ends hpending
    (answerEmailCommand_finishes d env _ _ s (SameMessage.refl _))
  rw [applyAuthenticatedOnlySenderDomain, unlessHandled_view]
  refine unlessHandled_run (fun _ => ?_) fun _ => Closes.of_ends hpending (Ends.of_answered
    (SameMessage.refl _) (finishAuthenticatedOnlySenderDomain_answered _ _ s hpending))
  rw [applySenderBlocklist, unlessHandled_view]
  dsimp only [id_eq]
  cases hmatch : senderBlocklistMatch d env s.session with
  | none => exact Closes.of_ends hpending (hinspect s)
  | some found =>
    refine unlessHandled_ite (fun _ => Closes.of_ends hpending (hinspect s)) fun hmode => ?_
    refine unlessHandled_ite (fun _ => ?_) fun hremaining =>
      unlessHandled_ite (fun _ => Closes.of_ends hpending (hinspect s)) fun hnegotiated => ?_
    · rw [unlessHandled_answer]
      exact Closes.of_ends hpending
        (Ends.of_answered (SameMessage.refl _) (fullBlock_answered d env s found))
    · -- the deferred removals are part of the session from here on
      set pending := pendingBlocks d s.session found with hblocks
      set next : St := { s with session := { s.session with pendingSenderBlocks := some pending } }
      refine ⟨next.session, ⟨rfl, rfl, rfl, Or.inr ⟨found, ⟨hmatch, not_not.mp hmode, hremaining,
        not_not.mp hnegotiated⟩, rfl⟩⟩, ?_, ?_⟩
      · have hlogged : ∀ e ∈ [Event.removalDeferred pending], preludeEvent next.session e :=
          List.forall_mem_singleton.mpr rfl
        exact Ends.bind (m := log _) (f := fun _ => inspectMessage d env) hlogged (hinspect next)
      · rintro _ ⟨⟩
        exact List.mem_cons_self

/-- What finishMessage can do. The session of the answer is the collected one
up to the visible sender and the deferred removals, and those are logged. -/
theorem finishMessage_ends (net : NetIP) (env : FinishEnv) (s : St)
    (hphase : s.session.phase = .body) (hpending : s.session.pendingSenderBlocks = none) :
    ∃ ss, Prepared d env s.session ss ∧ Ends d env.command ss (finishMessage d net env s) ∧
      ∀ pending, ss.pendingSenderBlocks = some pending →
        .removalDeferred pending ∈ (finishMessage d net env s).events := by
  rw [finishMessage, view_bind]
  by_cases hdeadline : env.deadlineSet
  · rw [if_neg (by simp [hphase, hdeadline])]
    obtain ⟨sender, domain, invalid, hframe⟩ := readVisibleSender_frame d.platform s.session
    set t : St := { s with session := readVisibleSender d.platform s.session } with ht
    have hrun : ∀ m : Session → Run Bool,
        (update (readVisibleSender d.platform) >>= fun _ => view id >>= m) s = m t.session t :=
      fun _ => rfl
    have htpending : t.session.pendingSenderBlocks = none := by
      rw [ht]
      rw [hframe]
      exact hpending
    have hprepared : ∀ ss, Prepared d env t.session ss → Prepared d env s.session ss := by
      intro ss h
      have hfields : t.session.phase = s.session.phase ∧
          t.session.envelopeRecipients = s.session.envelopeRecipients ∧
          t.session.senderBlocklistFrom = s.session.senderBlocklistFrom := by
        rw [ht]
        rw [hframe]
        exact ⟨rfl, rfl, rfl⟩
      refine ⟨h.phase.trans hfields.1, h.envelopeRecipients.trans hfields.2.1,
        h.senderBlocklistFrom.trans hfields.2.2, h.pending.imp_right ?_⟩
      rintro ⟨found, hdefers, hsome⟩
      obtain ⟨hdefers', heq⟩ := defers_of_readVisibleSender d env _ _ found hdefers
      exact ⟨found, hdefers', hsome.trans (congrArg some heq)⟩
    rw [hrun]
    by_cases hinternal : isInternalMessage d net t.session
    · rw [if_pos hinternal]
      exact ⟨t.session, hprepared _ ⟨rfl, rfl, rfl, Or.inl htpending⟩,
        finishInternalMessage_finishes d env.command _ t (SameMessage.refl _),
        by simp [htpending]⟩
    · rw [if_neg hinternal]
      obtain ⟨ss, hss, hends, hlogged⟩ := stages_end d env t htpending
      exact ⟨ss, hprepared ss hss, hends, hlogged⟩
  · rw [if_pos (Or.inr hdeadline)]
    exact ⟨s.session, ⟨rfl, rfl, rfl, Or.inl hpending⟩,
      finishes_false _ _ _ s (SameMessage.refl _), by simp [hpending]⟩

end MilterGuard.Answers
