import MilterGuard.ResourceTraces
import MilterGuard.SessionSteps

/-!
The life of a message within a session. Outside a message every field that
belongs to one has its initial value; the collected recipients and senders stay
within their limits; and an exact-message store is open from its creation to its
only close.
-/
namespace MilterGuard.MessageLifecycle

open ByteStrings Procedures SessionState SessionCommands FinishMessage Answers SessionRun
open SessionSteps ResourceTraces

def storeUse : Event → Option Use
  | .exactCreated store => some (.created store)
  | .exactWritten store | .exactRead store => some (.used store)
  | .exactClosed store => some (.closed store)
  | _ => none

def pool (s : St) : Pool := ⟨s.session.exactMessage, s.stores⟩

/-- The events use the stores as the states before and after say. -/
def UsesStores (s : St) (events : List Event) (t : St) : Prop :=
  (pool s).follow (events.filterMap storeUse) = some (pool t)

theorem usesStores_chains : Chains UsesStores where
  refl _ := rfl
  trans h h' := by
    unfold UsesStores at h h' ⊢
    rw [List.filterMap_append, Pool.follow_append, h]
    exact h'

theorem storeUse_plain (events : List Event) (h : ∀ e ∈ events, plain e) :
    events.filterMap storeUse = [] := by
  refine List.filterMap_eq_nil_iff.mpr fun e he => ?_
  have hplain := h e he
  cases e <;> first | rfl | cases hplain

variable {ss : Session} (d : Deps) (f : Session → Session) (net : NetIP) (inputs : List Input)
  (closeErr createErr : Bool) (env : CommandEnv) (payload : Bytes) (s : St)

theorem update_usesStores (h : ∀ ss, (f ss).exactMessage = ss.exactMessage) :
    Follows UsesStores (update f) := by
  intro s
  change some (pool s) = some ⟨(f s.session).exactMessage, s.stores⟩
  rw [h]
  rfl

theorem closeExactMessage_usesStores : Follows UsesStores (closeExactMessage closeErr) := by
  intro s
  unfold closeExactMessage
  split
  · rfl
  · rename_i store hstore
    simp [UsesStores, pool, storeUse, Pool.follow, Pool.step, hstore]

/-- The store of a new envelope is created when none is open. -/
theorem resetMessage_usesStores (phase : ProtocolPhase) (closeErr createErr : Bool) :
    Follows UsesStores (resetMessage d phase closeErr createErr) := by
  intro s
  have hclosed := closeExactMessage_usesStores closeErr s
  set next : St := { (closeExactMessage closeErr s).state with
    session := Session.cleared d phase (closeExactMessage closeErr s).state.session } with hnext
  have hcleared : pool next = pool (closeExactMessage closeErr s).state := by
    unfold closeExactMessage at hnext ⊢
    cases hstore : s.session.exactMessage <;> simp [hnext, hstore, pool, Session.cleared]
  have hopen : UsesStores next
      ((if phase = .envelope ∧ d.internalAuthentication then openExactMessage d createErr
        else pure ()) next).events
      ((if phase = .envelope ∧ d.internalAuthentication then openExactMessage d createErr
        else pure ()) next).state := by
    split_ifs
    · unfold openExactMessage
      split_ifs
      · simp [UsesStores, pool, storeUse, Pool.follow, Pool.step, hnext, Session.cleared]
      · rfl
    · rfl
  refine usesStores_chains.trans hclosed ?_
  unfold UsesStores at hopen ⊢
  rw [hcleared] at hopen
  exact hopen

theorem usesStores_respects : Respects d UsesStores where
  chains := usesStores_chains
  write payload s := by
    unfold writeFrame
    split_ifs <;> rfl
  record events h s := by
    change (pool s).follow (events.filterMap storeUse) = some (pool s)
    rw [storeUse_plain events h]
    rfl
  edit f h := update_usesStores f fun ss => (h ss).exactMessage
  capture writeErr s := by
    unfold captureExact
    split
    · rfl
    · rename_i store hstore
      split_ifs
      · rfl
      · simp [UsesStores, pool, storeUse, Pool.follow, Pool.step, hstore]
  readExact readErr s := by
    unfold readExactMessage
    split
    · rfl
    · rename_i store hstore
      split_ifs
      · rfl
      · simp [UsesStores, pool, storeUse, Pool.follow, Pool.step, hstore]
  close := closeExactMessage_usesStores
  reset phase closeErr createErr _ := resetMessage_usesStores d phase closeErr createErr

theorem captureSessionMacros_exactMessage (table : Hostnames.CaseTable) (payload : Bytes)
    (ss : Session) :
    (captureSessionMacros net table payload ss).exactMessage = ss.exactMessage := by
  obtain ⟨_, _, _, _, _, hframe⟩ := captureSessionMacros_frame net table payload ss
  rw [hframe]

theorem handleCommand_usesStores (env : FinishEnv) (command : UInt8) (payload : Bytes) :
    Follows UsesStores (handleCommand d net env command payload) := by
  have h := usesStores_respects d
  refine h.view fun _ => Follows.ite (h.pure _) (h.dispatch net env command payload ?_ ?_ ?_)
  · intro _
    exact h.bind (update_usesStores _ (captureSessionMacros_exactMessage net _ payload)) fun _ =>
      h.pure _
  · intro _
    refine h.bind (update_usesStores _ fun _ => rfl) fun _ => ?_
    exact h.bind (resetMessage_usesStores d _ _ _) fun _ => h.pure _
  · intro _
    exact h.view fun _ => Follows.ite (h.pure _)
      (h.bind (update_usesStores _ fun _ => rfl) fun _ => h.write _)

theorem serve_usesStores : Follows UsesStores (serve d net inputs) := by
  refine Follows.attemptAll usesStores_chains _ (fun input => ?_) inputs
  cases input with
  | deadlineFailed | readFailed idle => exact Follows.pure usesStores_chains _
  | frame command payload env =>
    refine Follows.bind usesStores_chains (fun s => ?_) fun _ =>
      handleCommand_usesStores d net env command payload
    rfl

theorem closeExactMessage_closes :
    (closeExactMessage closeErr s).state.session.exactMessage = none := by
  unfold closeExactMessage
  split
  · assumption
  · rfl

theorem run_usesStores :
    ∃ p : Pool, p.current = none ∧ Pool.follow ⟨none, 0⟩
      ((run d net inputs closeErr (start d)).events.filterMap storeUse) = some p := by
  have hrun : UsesStores (start d) (run d net inputs closeErr (start d)).events
      (run d net inputs closeErr (start d)).state :=
    usesStores_chains.trans (serve_usesStores d net inputs _) (closeExactMessage_usesStores _ _)
  exact ⟨_, closeExactMessage_closes closeErr _, hrun⟩

theorem count_exactClosed (events : List Event) (store : ℕ) :
    events.count (.exactClosed store) = (events.filterMap storeUse).count (.closed store) := by
  rw [List.count, List.count, List.countP_filterMap]
  refine List.countP_congr fun e _ => ?_
  cases e <;> simp [storeUse]

/-- The stores of a whole session. Each is closed exactly once and neither
written nor read after that. -/
theorem run_stores_closed (store : ℕ)
    (hcreated : .exactCreated store ∈ (run d net inputs closeErr (start d)).events) :
    (run d net inputs closeErr (start d)).events.count (.exactClosed store) = 1 ∧
      ∀ before after, (run d net inputs closeErr (start d)).events =
          before ++ .exactClosed store :: after →
        .exactWritten store ∉ after ∧ .exactRead store ∉ after := by
  obtain ⟨p, hend, hfollow⟩ := run_usesStores d net inputs closeErr
  have hvalid : Pool.Valid ⟨none, 0⟩ := by simp [Pool.Valid]
  refine ⟨?_, ?_⟩
  · rw [count_exactClosed]
    exact Pool.count_closed_created _ p _ store hfollow hvalid
      (List.mem_filterMap.mpr ⟨_, hcreated, rfl⟩) hend
  · intro before after hsplit
    rw [hsplit, List.filterMap_append]
      at hfollow
    have hunused := Pool.not_used_after_closed _ p _ _ store hfollow hvalid
    exact ⟨fun h => hunused (List.mem_filterMap.mpr ⟨_, h, rfl⟩),
      fun h => hunused (List.mem_filterMap.mpr ⟨_, h, rfl⟩)⟩

/-- The fields of a session that belong to the message being collected. -/
structure MessageFields where
  envelopeSender : Bytes
  envelopeRecipients : List Bytes
  envelopeRecipientsTruncated : Bool
  visibleSender : Bytes
  visibleSenderDomain : Bytes
  visibleFromInvalid : Bool
  protectedSenderDomain : Bytes
  pendingSenderBlocks : Option PendingSenderBlocklist
  senderBlocklistFrom : List Bytes
  senderBlocklistFromTruncated : Bool
  smtpUTF8 : Bool
  message : MessageBuffer.Message
  exactMessage : Option ℕ

def messageFields (ss : Session) : MessageFields :=
  ⟨ss.envelopeSender, ss.envelopeRecipients, ss.envelopeRecipientsTruncated, ss.visibleSender,
    ss.visibleSenderDomain, ss.visibleFromInvalid, ss.protectedSenderDomain,
    ss.pendingSenderBlocks, ss.senderBlocklistFrom, ss.senderBlocklistFromTruncated, ss.smtpUTF8,
    ss.message, ss.exactMessage⟩

def initialFields : MessageFields :=
  ⟨[], [], false, [], [], false, [], none, [], false, false, MessageBuffer.new d.maxMessageSize,
    none⟩

/-- The recipients and senders of a message are within their limits. -/
structure Bounded (ss : Session) : Prop where
  recipients : ss.envelopeRecipients.length ≤ maxEnvelopeRecipients
  senders : ss.senderBlocklistFrom.length ≤ maxSenderBlockAddresses
  distinct : ss.senderBlocklistFrom.Nodup

theorem Bounded.congr {ss' : Session} (h : Bounded ss)
    (hrecipients : ss'.envelopeRecipients = ss.envelopeRecipients)
    (hsenders : ss'.senderBlocklistFrom = ss.senderBlocklistFrom) : Bounded ss' := by
  obtain ⟨hlength, hcount, hdistinct⟩ := h
  rw [← hrecipients] at hlength
  rw [← hsenders] at hcount hdistinct
  exact ⟨hlength, hcount, hdistinct⟩

/-- Outside a message its fields are initial. -/
structure Clean (ss : Session) : Prop extends Bounded ss where
  initial : ss.phase = .negotiation ∨ ss.phase = .connection → messageFields ss = initialFields d

theorem Clean.of_initial {d : Deps} (h : messageFields ss = initialFields d) : Clean d ss := by
  have hrecipients : ss.envelopeRecipients = [] := congrArg MessageFields.envelopeRecipients h
  have hsenders : ss.senderBlocklistFrom = [] := congrArg MessageFields.senderBlocklistFrom h
  exact ⟨⟨by simp [hrecipients], by simp [hsenders], by simp [hsenders]⟩, fun _ => h⟩

theorem Clean.congr {d : Deps} {ss' : Session} (h : Clean d ss) (hphase : ss'.phase = ss.phase)
    (hfields : messageFields ss' = messageFields ss) : Clean d ss' := by
  refine ⟨h.toBounded.congr (congrArg MessageFields.envelopeRecipients hfields)
    (congrArg MessageFields.senderBlocklistFrom hfields), ?_⟩
  rw [hphase, hfields]
  exact h.initial

theorem Clean.of_collecting {d : Deps} (hbounded : Bounded ss)
    (hphase : ss.phase = .envelope ∨ ss.phase = .body) : Clean d ss :=
  ⟨hbounded, fun h => by rcases hphase with hp | hp <;> simp [hp] at h⟩

/-- A session between two commands: clean, and without deferred removals. -/
structure Between (ss : Session) : Prop extends Clean d ss where
  idle : ss.pendingSenderBlocks = none

theorem Between.of_initial {d : Deps} {ss : Session} (h : messageFields ss = initialFields d) :
    Between d ss := ⟨Clean.of_initial h, congrArg MessageFields.pendingSenderBlocks h⟩

theorem Between.congr {d : Deps} {ss ss' : Session} (h : Between d ss)
    (hphase : ss'.phase = ss.phase) (hfields : messageFields ss' = messageFields ss) :
    Between d ss' :=
  ⟨h.toClean.congr hphase hfields,
    (congrArg MessageFields.pendingSenderBlocks hfields).trans h.idle⟩

theorem collectFrom_bounded (senders : List Bytes) (ss : Session)
    (h : ss.senderBlocklistFrom.length ≤ maxSenderBlockAddresses ∧ ss.senderBlocklistFrom.Nodup) :
    (collectFrom senders ss).senderBlocklistFrom.length ≤ maxSenderBlockAddresses ∧
      (collectFrom senders ss).senderBlocklistFrom.Nodup := by
  induction senders generalizing ss with
  | nil => exact h
  | cons sender rest ih =>
    unfold collectFrom
    split_ifs with hmem hfull
    · exact ih ss h
    · exact h
    · refine ih _ ⟨?_, ?_⟩
      · simp only [List.length_append, List.length_singleton]
        omega
      · exact List.nodup_append.mpr ⟨h.2, by simp, by
          intro a ha b hb hab
          rw [List.mem_singleton] at hb
          exact hmem (hb ▸ hab ▸ ha)⟩

theorem addHeader_bounded (name value : Bytes) (ss : Session) (h : Bounded ss) :
    Bounded (Session.addHeader d name value ss) := by
  obtain ⟨_, _, _, _, hframe⟩ := addHeader_frame (d := d) name value ss
  have hsenders : (Session.addHeader d name value ss).senderBlocklistFrom.length ≤
        maxSenderBlockAddresses ∧
      (Session.addHeader d name value ss).senderBlocklistFrom.Nodup := by
    unfold Session.addHeader
    split_ifs
    · exact collectFrom_bounded _ _ ⟨h.senders, h.distinct⟩
    · exact ⟨h.senders, h.distinct⟩
  refine ⟨?_, hsenders.1, hsenders.2⟩
  rw [hframe]
  exact h.recipients

theorem addRecipient_bounded (ss : Session) (h : Bounded ss) :
    Bounded (Session.addRecipient payload ss) := by
  unfold Session.addRecipient
  split
  · exact ⟨h.recipients, h.senders, h.distinct⟩
  · split_ifs with hroom
    · refine ⟨?_, h.senders, h.distinct⟩
      simp only [List.length_append, List.length_singleton]
      omega
    · exact ⟨h.recipients, h.senders, h.distinct⟩

theorem captureExact_frame (writeErr : Bool) (s : St) :
    ∃ err, (captureExact writeErr s).state.session = { s.session with exactMessageErr := err } := by
  unfold captureExact
  split
  · exact ⟨_, rfl⟩
  · split_ifs <;> exact ⟨_, rfl⟩

theorem update_send_session :
    ((update f >>= fun _ => sendContinue d) s).state.session = f s.session :=
  writeFrame_session d _ { s with session := f s.session }

theorem between_of_collecting {d : Deps} (hbounded : Bounded ss)
    (hidle : ss.pendingSenderBlocks = none) (hphase : ss.phase = .envelope ∨ ss.phase = .body) :
    Between d ss := ⟨Clean.of_collecting hbounded hphase, hidle⟩

/-- An answered negotiation opens the connection phase. -/
theorem negotiate_session :
    ∃ actions phase,
      (phase = s.session.phase ∨ s.session.phase = .negotiation ∧ phase = .connection) ∧
      (negotiate d payload s).state.session = { s.session with
        negotiatedActions := actions, phase := phase } := by
  rw [negotiate, view_bind]
  by_cases hrefused : s.session.phase ≠ .negotiation ∨
      payload.length ≠ WireProtocol.optionPayloadBytes
  · rw [if_pos hrefused]
    exact ⟨_, _, Or.inl rfl, rfl⟩
  rw [if_neg hrefused]
  by_cases hversion : WireProtocol.uint32 payload < WireProtocol.minimumProtocolVersion
  · rw [if_pos hversion]
    exact ⟨_, _, Or.inl rfl, rfl⟩
  rw [if_neg hversion]
  obtain ⟨hphase, -⟩ := not_or.mp hrefused
  set actions := WireProtocol.uint32 (payload.drop 4) &&&
    (WireProtocol.resultHeaderActions ||| WireProtocol.actionDeleteRecipient)
  set frame := WireProtocol.optionResponse _ actions
  set next : St := { s with session := { s.session with negotiatedActions := actions } } with hnext
  have hsession := writeFrame_session d frame next
  change ∃ actions phase, _ ∧ ((writeFrame d frame >>= fun sent => if sent then
    update (fun ss => { ss with phase := .connection }) >>= fun _ => pure true
    else (pure false : Run Bool)) next).state.session = _
  rw [bind_run]
  cases (writeFrame d frame next).value with
  | true =>
    refine ⟨actions, .connection, Or.inr ⟨not_not.mp hphase, rfl⟩, ?_⟩
    change { (writeFrame d frame next).state.session with phase := .connection } = _
    rw [hsession]
  | false =>
    refine ⟨actions, s.session.phase, Or.inl rfl, ?_⟩
    change (writeFrame d frame next).state.session = _
    rw [hsession]

theorem resetMessage_fields :
    messageFields (resetMessage d .connection closeErr createErr s).state.session =
        initialFields d ∧
      (resetMessage d .connection closeErr createErr s).state.session.phase = .connection := by
  simp [resetMessage, update, messageFields, initialFields, Session.cleared]

theorem resetMessage_envelope :
    Between d (resetMessage d .envelope closeErr createErr s).state.session := by
  simp only [resetMessage]
  split_ifs
  · unfold openExactMessage
    split_ifs
    · exact between_of_collecting ⟨Nat.zero_le _, Nat.zero_le _, List.nodup_nil⟩ rfl (Or.inl rfl)
    · exact between_of_collecting ⟨Nat.zero_le _, Nat.zero_le _, List.nodup_nil⟩ rfl (Or.inl rfl)
  · exact Between.of_initial rfl

theorem resetMessage_envelope_phase :
    (resetMessage d .envelope closeErr createErr s).state.session.phase = .envelope := by
  simp only [resetMessage]
  split_ifs
  · unfold openExactMessage
    split_ifs <;> rfl
  · rfl

theorem mail_between (h : Between d s.session) :
    Between d (mail d env payload s).state.session := by
  rw [mail, view_bind]
  by_cases hrefused : (id s.session).phase ≠ .connection ∨ ¬ (id s.session).connected
  · rw [if_pos hrefused]
    exact h
  rw [if_neg hrefused]
  have hwait : Between d (reputationWait d env s.session) := by
    unfold reputationWait awaitConnectionDNS
    split_ifs
    · exact h.congr rfl rfl
    · exact h
    · exact h
  cases hblock : reputationBlock d env (id s.session) with
  | some text =>
    simp only [bind_run, log_run, pure_run]
    rw [writeFrame_session]
    exact hwait
  | none =>
    simp only [bind_run]
    unfold sendContinue
    rw [writeFrame_session]
    have henvelope := resetMessage_envelope d env.closeErr env.createErr
      { s with session := reputationWait d env s.session }
    have hphase := resetMessage_envelope_phase d env.closeErr env.createErr
      { s with session := reputationWait d env s.session }
    split
    · exact henvelope
    · exact between_of_collecting ⟨henvelope.recipients, henvelope.senders, henvelope.distinct⟩
        henvelope.idle (Or.inl hphase)

/-- The last chunk of the body changes the buffer and the state of the store only. -/
theorem lastChunk_frame :
    ∃ message err, (lastChunk env payload s).state.session = { s.session with
      message := message, exactMessageErr := err } := by
  unfold lastChunk
  split_ifs
  · obtain ⟨err, hframe⟩ := captureExact_frame env.exactWriteErr { s with
      session := { s.session with message := MessageBuffer.addBody s.session.message payload } }
    exact ⟨_, err, hframe⟩
  · exact ⟨_, _, rfl⟩

theorem lastChunk_session :
    (lastChunk env payload s).state.session.phase = s.session.phase ∧
      (lastChunk env payload s).state.session.envelopeRecipients = s.session.envelopeRecipients ∧
      (lastChunk env payload s).state.session.senderBlocklistFrom = s.session.senderBlocklistFrom ∧
      (lastChunk env payload s).state.session.pendingSenderBlocks =
        s.session.pendingSenderBlocks := by
  obtain ⟨message, err, hframe⟩ := lastChunk_frame env payload s
  rw [hframe]
  exact ⟨rfl, rfl, rfl, rfl⟩

/-- Finishing a message clears it or leaves it for the end of the session. -/
theorem finishMessage_clean (env : FinishEnv) (s : St) (hphase : s.session.phase = .body)
    (hbounded : Bounded s.session) (hidle : s.session.pendingSenderBlocks = none) :
    Clean d (finishMessage d net env s).state.session ∧
      ((finishMessage d net env s).value = true →
        Between d (finishMessage d net env s).state.session ∧
          (finishMessage d net env s).state.session.phase = .connection) := by
  obtain ⟨ss, hprepared, hends, -⟩ := finishMessage_ends d net env s hphase hidle
  rcases hends.cases with ⟨-, ss', hcleared⟩ | ⟨hfalse, hsame⟩
  · have hbetween : Between d (finishMessage d net env s).state.session := by
      rw [hcleared]
      exact Between.of_initial rfl
    refine ⟨hbetween.toClean, fun _ => ⟨hbetween, ?_⟩⟩
    rw [hcleared]
    rfl
  · refine ⟨Clean.of_collecting (hbounded.congr ?_ ?_) (Or.inr ?_), by simp [hfalse]⟩
    · rw [hsame.envelopeRecipients, hprepared.envelopeRecipients]
    · rw [hsame.senderBlocklistFrom, hprepared.senderBlocklistFrom]
    · rw [hsame.phase, hprepared.phase]
      exact hphase

theorem endBody_clean (env : FinishEnv) (payload : Bytes) (s : St) (h : Between d s.session) :
    Clean d (endBody d net env payload s).state.session ∧
      ((endBody d net env payload s).value = true →
        Between d (endBody d net env payload s).state.session) := by
  rw [endBody, view_bind]
  by_cases hrefused : s.session.phase ≠ .body
  · rw [if_pos hrefused]
    exact ⟨h.toClean, fun _ => h⟩
  rw [if_neg hrefused]
  obtain ⟨hphase, hrecipients, hsenders, hpending⟩ := lastChunk_session env.command payload s
  have hbody : s.session.phase = .body := not_not.mp hrefused
  have hfinish := finishMessage_clean d net env (lastChunk env.command payload s).state
    (hphase.trans hbody) (h.toBounded.congr hrecipients hsenders) (hpending.trans h.idle)
  exact ⟨hfinish.1, fun hvalue => (hfinish.2 hvalue).1⟩

/-- The session is clean after the command, and ready for the next one if there
is a next one. -/
def EndsClean (o : Outcome Event St Bool) : Prop :=
  Clean d o.state.session ∧ (o.value = true → Between d o.state.session)

theorem EndsClean.of_between {d : Deps} {o : Outcome Event St Bool}
    (h : Between d o.state.session) : EndsClean d o := ⟨h.toClean, fun _ => h⟩

theorem recipient_between (h : Between d s.session) :
    Between d (recipient d payload s).state.session := by
  rw [recipient, view_bind]
  refine ite_run (P := fun o : Outcome Event St Bool => Between d o.state.session) (fun _ => h)
    fun hphase => ?_
  rw [update_send_session]
  refine between_of_collecting (addRecipient_bounded payload s.session h.toBounded) ?_ (Or.inl ?_)
  all_goals
    unfold Session.addRecipient
    split
  · exact h.idle
  · split_ifs <;> exact h.idle
  · exact not_not.mp hphase
  · split_ifs <;> exact not_not.mp hphase

/-- What the commands that neither start nor end a message make of the session. -/
inductive Edited (ss ss' : Session) : Prop
  | same (hphase : ss'.phase = ss.phase) (hfields : messageFields ss' = messageFields ss)
  | opened (hbefore : ss.phase = .negotiation) (hphase : ss'.phase = .connection)
    (hfields : messageFields ss' = messageFields ss)
  | cleared (hphase : ss'.phase = .connection) (hfields : messageFields ss' = initialFields d)
  | collected (hbefore : ss.phase = .envelope ∨ ss.phase = .body)
    (hphase : ss'.phase = .envelope ∨ ss'.phase = .body) (hbounded : Bounded ss → Bounded ss')
    (hpending : ss'.pendingSenderBlocks = ss.pendingSenderBlocks)
    (hrecipients : ss'.envelopeRecipients = ss.envelopeRecipients)
    (htruncated : ss'.envelopeRecipientsTruncated = ss.envelopeRecipientsTruncated)

theorem Edited.between {d : Deps} {ss ss' : Session} (h : Edited d ss ss') (hss : Between d ss) :
    Between d ss' := by
  cases h with
  | same hphase hfields => exact hss.congr hphase hfields
  | opened hbefore _ hfields =>
    exact Between.of_initial (hfields.trans (hss.initial (Or.inl hbefore)))
  | cleared _ hfields => exact Between.of_initial hfields
  | collected _ hphase hbounded hpending =>
    exact between_of_collecting (hbounded hss.toBounded) (hpending.trans hss.idle) hphase

def Edits (o : Outcome Event St Bool) : Prop :=
  Edited d s.session o.state.session

theorem Edits.refused {d : Deps} {s : St} : Edits d s ⟨false, s, []⟩ := .same rfl rfl

variable {f} in
theorem Edits.edit (h : Edited d s.session (f s.session)) :
    Edits d s ((update f >>= fun _ => sendContinue d) s) := by
  rw [Edits, update_send_session]
  exact h

variable {f} in
/-- A change of the message, followed by a write to the store and an answer. -/
theorem Edits.collect (writeErr : Bool)
    (h : ∀ err, Edited d s.session { f s.session with exactMessageErr := err }) :
    Edits d s ((update f >>= fun _ => captureExact writeErr >>= fun _ => sendContinue d) s) := by
  obtain ⟨err, hframe⟩ := captureExact_frame writeErr { s with session := f s.session }
  have hsession : ((update f >>= fun _ => captureExact writeErr >>= fun _ =>
      sendContinue d) s).state.session = _ := (writeFrame_session d _ _).trans hframe
  rw [Edits, hsession]
  exact h err

theorem addHeader_edits : Edits d s (addHeader d env payload s) := by
  rw [addHeader, view_bind]
  refine ite_run (fun _ => .refused) fun hphase => ?_
  cases WireProtocol.parseHeader payload with
  | none => exact .refused
  | some header =>
    refine .collect d s _ fun err => ?_
    have hbounded := addHeader_bounded d header.1 header.2 s.session
    obtain ⟨_, _, _, _, hframe⟩ := addHeader_frame (d := d) header.1 header.2 s.session
    rw [hframe] at hbounded ⊢
    exact .collected (Or.inl (not_not.mp hphase)) (Or.inl (not_not.mp hphase))
      (fun h => ⟨h.recipients, (hbounded h).senders, (hbounded h).distinct⟩) rfl rfl rfl

theorem handleCommand_edits (env : FinishEnv) (command : UInt8) (payload : Bytes) (s : St)
    (hmail : command ≠ WireProtocol.commandMail)
    (hrecipient : command ≠ WireProtocol.commandRecipient)
    (hend : command ≠ WireProtocol.commandEndBody) :
    Edits d s (handleCommand d net env command payload s) := by
  have hsend : Edits d s (sendContinue d s) := by
    rw [Edits, sendContinue, writeFrame_session]
    exact .same rfl rfl
  have hreset := resetMessage_fields d env.command.closeErr env.command.createErr
  rw [handleCommand, view_bind]
  refine ite_run (fun _ => .refused) fun _ => ?_
  unfold dispatch
  rw [if_neg hmail, if_neg hrecipient, if_neg hend]
  refine ite_run (fun _ => ?_) fun _ => ite_run (fun _ => ?_) fun _ => ?_
  · obtain ⟨actions, phase, hphase, hsession⟩ := negotiate_session d payload s
    rw [Edits, hsession]
    rcases hphase with rfl | ⟨hnegotiation, rfl⟩
    · exact .same rfl rfl
    · exact .opened hnegotiation rfl rfl
  · change Edited d s.session (captureSessionMacros net d.platform.table payload s.session)
    obtain ⟨_, _, _, _, _, hframe⟩ :=
      captureSessionMacros_frame net d.platform.table payload s.session
    rw [hframe]
    exact .same rfl rfl
  refine ite_run (fun _ => .cleared (hreset s).2 (hreset s).1) fun _ => ?_
  refine ite_run (fun _ => .cleared (hreset _).2 (hreset _).1) fun _ => ?_
  refine ite_run (fun _ => ?_) fun _ => ite_run (fun _ => ?_) fun _ => ?_
  · rw [connect, view_bind]
    exact ite_run (fun _ => .refused) fun _ => .edit d s (.same rfl rfl)
  · rw [helo, view_bind]
    exact ite_run (fun _ => .refused) fun _ => .edit d s (.same rfl rfl)
  refine ite_run (fun _ => ?_) fun _ => ite_run (fun _ => hsend) fun _ => ?_
  · rw [data, view_bind]
    exact ite_run (fun _ => .refused) fun _ => hsend
  refine ite_run (fun _ => addHeader_edits d _ payload s) fun _ => ?_
  refine ite_run (fun _ => ?_) fun _ => ite_run (fun _ => ?_) fun _ => .refused
  · rw [endHeaders, view_bind]
    refine ite_run (fun _ => .refused) fun hphase => .collect d s _ fun _ => ?_
    exact .collected (Or.inl (not_not.mp hphase)) (Or.inr rfl)
      (fun h => h.congr rfl rfl) rfl rfl rfl
  · rw [body, view_bind]
    refine ite_run (fun _ => .refused) fun hphase => .collect d s _ fun _ => ?_
    exact .collected (Or.inr (not_not.mp hphase)) (Or.inr (not_not.mp hphase))
      (fun h => h.congr rfl rfl) rfl rfl rfl

theorem handleCommand_clean (env : FinishEnv) (command : UInt8) (payload : Bytes) (s : St)
    (h : Between d s.session) :
    EndsClean d (handleCommand d net env command payload s) := by
  by_cases hmail : command = WireProtocol.commandMail
  · subst hmail
    rw [handleCommand, view_bind]
    exact ite_run (fun _ => .of_between h) fun _ => .of_between (mail_between d _ payload s h)
  by_cases hrecipient : command = WireProtocol.commandRecipient
  · subst hrecipient
    rw [handleCommand, view_bind]
    exact ite_run (fun _ => .of_between h) fun _ => .of_between (recipient_between d payload s h)
  by_cases hend : command = WireProtocol.commandEndBody
  · subst hend
    rw [handleCommand, view_bind]
    exact ite_run (fun _ => .of_between h) fun _ => endBody_clean d net env payload s h
  exact .of_between
    ((handleCommand_edits d net env command payload s hmail hrecipient hend).between h)

theorem turn_clean (input : Input) (s : St) (h : Between d s.session) :
    EndsClean d (turn d net input s) := by
  cases input with
  | deadlineFailed | readFailed idle => exact .of_between h
  | frame command payload env => exact handleCommand_clean d net env command payload s h

/-- What holds after every session: see `EndsClean`. -/
theorem serve_clean (h : Between d s.session) : EndsClean d (serve d net inputs s) := by
  induction inputs generalizing s with
  | nil => exact .of_between h
  | cons input rest ih =>
    have hturn := turn_clean d net input s h
    change EndsClean d ((turn d net input >>= fun sent =>
      if sent then serve d net rest else pure false) s)
    cases hvalue : (turn d net input s).value with
    | false =>
      refine ⟨?_, ?_⟩
      · simpa [hvalue] using hturn.1
      · simp [hvalue]
    | true =>
      have hnext := ih _ (hturn.2 hvalue)
      refine ⟨?_, ?_⟩
      · simpa [hvalue] using hnext.1
      · simpa [hvalue] using hnext.2

theorem finishMessage_outside_body (env : FinishEnv) (s : St) (h : s.session.phase ≠ .body) :
    (finishMessage d net env s).value = false := by
  rw [finishMessage, view_bind, if_pos (Or.inl h)]
  rfl

/-- No message leaves anything behind. In every session, the fields of a message
are initial outside a message, an answered message leaves the session in its
connection phase, the collected recipients and senders stay within their limits,
and each store is closed once and not used after that. -/
theorem messages_leave_nothing (d : Deps) (net : NetIP) (inputs : List Input) (closeErr : Bool) :
    ((serve d net inputs (start d)).state.session.phase = .negotiation ∨
        (serve d net inputs (start d)).state.session.phase = .connection →
      messageFields (serve d net inputs (start d)).state.session =
        messageFields (newSession d)) ∧
    ((serve d net inputs (start d)).value = true → ∀ env payload,
      (finishMessage d net env (lastChunk env.command payload
          (serve d net inputs (start d)).state).state).value = true →
      (finishMessage d net env (lastChunk env.command payload
          (serve d net inputs (start d)).state).state).state.session.phase = .connection) ∧
    (serve d net inputs (start d)).state.session.envelopeRecipients.length ≤ 100 ∧
    (serve d net inputs (start d)).state.session.senderBlocklistFrom.length ≤ 100 ∧
    (serve d net inputs (start d)).state.session.senderBlocklistFrom.Nodup ∧
    ∀ store, .exactCreated store ∈ (run d net inputs closeErr (start d)).events →
      (run d net inputs closeErr (start d)).events.count (.exactClosed store) = 1 ∧
      ∀ before after, (run d net inputs closeErr (start d)).events =
          before ++ .exactClosed store :: after →
        .exactWritten store ∉ after ∧ .exactRead store ∉ after := by
  have hclean := serve_clean d net inputs (start d) (Between.of_initial rfl)
  refine ⟨hclean.1.initial, fun hopen env payload hvalue => ?_, hclean.1.recipients,
    hclean.1.senders, hclean.1.distinct, run_stores_closed d net inputs closeErr⟩
  have hbetween := hclean.2 hopen
  set s := (serve d net inputs (start d)).state with hs
  obtain ⟨-, hrecipients, hsenders, hpending⟩ := lastChunk_session env.command payload s
  by_cases hphase : (lastChunk env.command payload s).state.session.phase = .body
  · have hbounded := hbetween.toBounded.congr hrecipients hsenders
    exact ((finishMessage_clean d net env _ hphase hbounded
      (hpending.trans hbetween.idle)).2 hvalue).2
  · rw [finishMessage_outside_body d net env _ hphase] at hvalue
    cases hvalue

/-- The store of a message that is never finished is closed with the session. -/
theorem messages_leave_nothing_unfinished :
    (run { plainDeps with internalAuthentication := true } noAddresses
      (opening ++ [quietFrame WireProtocol.commandMail (ascii "<a@x.com>" ++ [0])]) false
      (start plainDeps)).events.count (.exactClosed 0) = 1 := by
  have hcreated : .exactCreated 0 ∈ (run { plainDeps with internalAuthentication := true }
      noAddresses (opening ++ [quietFrame WireProtocol.commandMail (ascii "<a@x.com>" ++ [0])])
      false (start plainDeps)).events := by decide +kernel
  exact ((messages_leave_nothing { plainDeps with internalAuthentication := true } noAddresses
    (opening ++ [quietFrame WireProtocol.commandMail (ascii "<a@x.com>" ++ [0])])
    false).2.2.2.2.2 0 hcreated).1

end MilterGuard.MessageLifecycle
