import MilterGuard.MessageLifecycle

/-!
Which frames answer which commands. The end of a message is answered by one final
frame after progress, header and recipient changes; the other commands of the
protocol by exactly one frame or by none.
-/
namespace MilterGuard.ResponseDiscipline

open ByteStrings Procedures WireProtocol SessionState SessionCommands FinishMessage Answers
open SessionRun SessionSteps MessageLifecycle

/-- The frames among the events. -/
def writes (events : List Event) : List Bytes :=
  events.filterMap fun
    | .wrote frame => some frame
    | _ => none

theorem writes_append (es fs : List Event) : writes (es ++ fs) = writes es ++ writes fs :=
  List.filterMap_append

theorem writes_map (frames : List Bytes) : writes (frames.map .wrote) = frames := by
  induction frames with
  | nil => rfl
  | cons frame rest ih => exact congrArg (frame :: ·) ih

variable (ss : Session) (last : Bytes) (events : List Event) (d : Deps) (net : NetIP)
  (env : FinishEnv) (payload frame : Bytes) (s : St)

theorem mem_writes : frame ∈ writes events ↔ .wrote frame ∈ events := by
  constructor
  · intro h
    obtain ⟨e, he, hframe⟩ := List.mem_filterMap.mp h
    cases e with
    | wrote payload =>
      obtain rfl := Option.some.inj hframe
      exact he
    | _ => cases hframe
  · exact fun h => List.mem_filterMap.mpr ⟨_, h, rfl⟩

theorem writes_recorded (h : Recorded ss last events) : writes events = [] := by
  refine List.filterMap_eq_nil_iff.mpr fun e he => ?_
  have hrecord := h e he
  cases e <;> first | rfl | exact hrecord.elim

/-- Progress frames and header changes, but no removal of a recipient. -/
def noteFrame : Bool :=
  frame.head? ∈ [some responseProgress, some responseChangeHeader, some responseAddHeader]

theorem noteFrame_of_header (h : headerFrame frame) : noteFrame frame := by
  simp only [headerFrame, noteFrame, List.mem_cons, decide_eq_true_eq] at h ⊢
  exact Or.inr h

theorem deletions_congr {ss ss' : Session} (h : SameMessage ss ss') (last : Bytes) :
    deletions ss' last = deletions ss last := by
  rw [deletions, deletions, h.pendingSenderBlocks]

theorem recordFor_congr {ss ss' : Session} (h : SameMessage ss ss') {last : Bytes} {e : Event}
    (he : recordFor ss' last e) : recordFor ss last e := by
  cases e <;> simp only [recordFor, policyEnvelopeRecipients_eq h] at he ⊢ <;> exact he

theorem prelude_notes (h : ∀ e ∈ events, preludeEvent ss e) :
    ∀ frame ∈ writes events, noteFrame frame := by
  intro frame hframe
  have hprelude := h _ ((mem_writes events frame).mp hframe)
  rcases hprelude with hhead | hhead <;> simp [noteFrame, hhead]

/-- The frames that end a message: notes, the removals that go with the final
frame, and the final frame; or only a part of what comes before the final frame.
Everything else belongs to the prelude or is a record of the answer. -/
theorem Ends.writes {d : Deps} {env : CommandEnv} {ss : Session} {o : Outcome Event St Bool}
    (h : Ends d env ss o) :
    ∃ notes last, (∀ frame ∈ notes, noteFrame frame) ∧ finalFrame last ∧
      (o.value = true ∧ writes o.events = notes ++ deletions ss last ++ [last] ∨
        o.value = false ∧ ∃ k, writes o.events = (notes ++ deletions ss last).take k) ∧
      ∀ e ∈ o.events, preludeEvent ss e ∨ recordFor ss last e ∨ ∃ frame, e = .wrote frame := by
  obtain ⟨prelude, hprelude, hcases⟩ := h
  have hnotes := prelude_notes ss prelude hprelude
  have hbefore {last : Bytes} : ∀ e ∈ prelude,
      preludeEvent ss e ∨ recordFor ss last e ∨ ∃ frame, e = .wrote frame :=
    fun e he => Or.inl (hprelude e he)
  rcases hcases with ⟨hvalue, hevents, -⟩ |
    ⟨t, o', hsame, ⟨notes, last, records, wait, hanswer, rfl⟩, hvalue, -, hevents⟩
  · refine ⟨ResponseDiscipline.writes prelude, [responseTempfail], hnotes, by decide,
      Or.inr ⟨hvalue, (ResponseDiscipline.writes prelude).length, ?_⟩, ?_⟩
    · rw [hevents, deletions_eq_nil _ _ (by decide), List.append_nil, List.take_length]
    · rw [hevents]
      exact hbefore
  · have hall : ∀ frame ∈ ResponseDiscipline.writes prelude ++ notes, noteFrame frame :=
      List.forall_mem_append.mpr ⟨hnotes, fun frame hframe =>
        noteFrame_of_header frame (hanswer.notes_header frame hframe)⟩
    refine ⟨ResponseDiscipline.writes prelude ++ notes, last, hall, hanswer.final, ?_⟩
    have hwrote (frames : List Bytes) : ∀ e ∈ frames.map Event.wrote,
        preludeEvent ss e ∨ recordFor ss last e ∨ ∃ frame, e = .wrote frame := by
      intro e he
      obtain ⟨frame, -, rfl⟩ := List.mem_map.mp he
      exact Or.inr (Or.inr ⟨frame, rfl⟩)
    rw [hevents, hvalue, writes_append]
    rw [deletions_congr hsame] at *
    rcases respond_cases d env (notes ++ deletions ss last ++ [last]) records wait t with
      ⟨htrue, hsent, -⟩ | ⟨hfalse, ⟨k, hk, hsent⟩, -⟩
    · refine ⟨Or.inl ⟨htrue, ?_⟩, List.forall_mem_append.mpr ⟨hbefore, ?_⟩⟩
      · have hclosed : ResponseDiscipline.writes
            (t.session.exactMessage.map Event.exactClosed).toList = [] := by
          cases t.session.exactMessage <;> rfl
        rw [hsent, writes_append, writes_append, writes_map,
          writes_recorded t.session last _ hanswer.recorded, hclosed]
        simp
      · rw [hsent]
        refine List.forall_mem_append.mpr ⟨List.forall_mem_append.mpr ⟨hwrote _, ?_⟩, ?_⟩
        · exact fun e he => Or.inr (Or.inl (recordFor_congr hsame (hanswer.recorded e he)))
        · cases t.session.exactMessage with
          | none => simp
          | some store => simp [preludeEvent]
    · refine ⟨Or.inr ⟨hfalse, (ResponseDiscipline.writes prelude).length + k, ?_⟩,
        List.forall_mem_append.mpr ⟨hbefore, ?_⟩⟩
      · have hrecords : ResponseDiscipline.writes (records false) = [] :=
          List.filterMap_eq_nil_iff.mpr fun e he => by rw [hanswer.failed e he]
        have hbound : k ≤ (notes ++ deletions ss last).length := by
          simp only [List.length_append, List.length_singleton] at hk ⊢
          omega
        rw [hsent, writes_append, writes_append, writes_map, hrecords,
          List.take_append_of_le_length hbound, List.append_assoc _ notes,
          List.take_length_add_append]
        simp [ResponseDiscipline.writes]
      · rw [hsent]
        refine List.forall_mem_append.mpr ⟨List.forall_mem_append.mpr ⟨hwrote _, ?_⟩, ?_⟩
        · simp [preludeEvent]
        · intro e he
          rw [hanswer.failed e he]
          exact Or.inl trivial

def frameEvent : Event → Bool
  | .wrote _ | .writeFailed => true
  | _ => false

/-- No frame is written or tried. -/
def Silent (_ : St) (events : List Event) (_ : St) : Prop := ∀ e ∈ events, frameEvent e = false

theorem silent_chains : Chains Silent where
  refl _ := by simp [Silent]
  trans h h' := List.forall_mem_append.mpr ⟨h, h'⟩

theorem writes_of_silent {s t : St} {events : List Event} (h : Silent s events t) :
    writes events = [] := by
  refine List.filterMap_eq_nil_iff.mpr fun e he => ?_
  have hframe := h e he
  cases e <;> first | rfl | cases hframe

theorem update_silent (f : Session → Session) : Follows Silent (update f) := by
  simp [Follows, Silent, update]

theorem log_silent (h : ∀ e ∈ events, frameEvent e = false) :
    Follows Silent (log events) := fun _ => h

theorem captureExact_silent (writeErr : Bool) : Follows Silent (captureExact writeErr) := by
  intro s
  unfold captureExact
  split
  · simp [Silent]
  · split_ifs <;> simp [Silent, frameEvent]

theorem closeExactMessage_silent (closeErr : Bool) :
    Follows Silent (closeExactMessage closeErr) := by
  intro s
  unfold closeExactMessage
  split <;> simp [Silent, frameEvent]

theorem resetMessage_silent (phase : ProtocolPhase) (closeErr createErr : Bool) :
    Follows Silent (resetMessage d phase closeErr createErr) := by
  refine Follows.bind silent_chains (closeExactMessage_silent closeErr) fun _ => ?_
  refine Follows.bind silent_chains (update_silent _) fun _ =>
    Follows.ite (fun s => ?_) (Follows.pure silent_chains _)
  unfold openExactMessage
  split_ifs <;> simp [Silent, frameEvent]

theorem lastChunk_silent (env : CommandEnv) (payload : Bytes) :
    Follows Silent (lastChunk env payload) :=
  Follows.ite (Follows.bind silent_chains (update_silent _) fun _ => captureExact_silent _)
    (Follows.pure silent_chains _)

/-- A command that keeps the connection open is answered by one frame. -/
def OneFrame (o : Outcome Event St Bool) : Prop :=
  o.value = true → ∃ frame, writes o.events = [frame]

theorem OneFrame.of_false {o : Outcome Event St Bool} (h : o.value = false) : OneFrame o := by
  intro htrue
  rw [h] at htrue
  cases htrue

theorem OneFrame.write : OneFrame (writeFrame d frame s) := by
  intro hsent
  refine ⟨frame, ?_⟩
  rw [(writeFrame_attempts d).succeeds frame s hsent]
  rfl

theorem OneFrame.after {α : Type} {m : Run α} {f : α → Run Bool} (hm : Follows Silent m)
    (hf : ∀ a s, OneFrame (f a s)) (s : St) : OneFrame ((m >>= f) s) := by
  intro hsent
  obtain ⟨frame, hframe⟩ := hf _ _ hsent
  refine ⟨frame, ?_⟩
  rw [bind_run, writes_append, writes_of_silent (hm s), hframe, List.nil_append]

/-- A property of answers: a refusal and a written frame have it, and steps without
frames around the answer keep it. -/
structure Answering (d : Deps) (P : Outcome Event St Bool → Prop) : Prop where
  refused : ∀ s, P ⟨false, s, []⟩
  write : ∀ frame s, P (writeFrame d frame s)
  after : ∀ {α : Type} {m : Run α} {f : α → Run Bool}, Follows Silent m → (∀ a s, P (f a s)) →
    ∀ s, P ((m >>= f) s)
  before : ∀ {m : Run Bool} {f : Bool → Run Bool} {s : St}, P (m s) →
    (∀ sent, Follows Silent (f sent)) →
    (∀ t, (f false t).value = false ∧ ∀ e ∈ (f false t).events, e = .activityRecorded) →
    P ((m >>= f) s)

theorem oneFrame_answering : Answering d OneFrame where
  refused _ := .of_false rfl
  write := OneFrame.write d
  after := OneFrame.after
  before := by
    intro m f s hm hf hstop hsent
    cases hvalue : (m s).value with
    | false =>
      rw [bind_run, hvalue] at hsent
      exact absurd hsent (by simp [(hstop (m s).state).1])
    | true =>
      obtain ⟨frame, hframe⟩ := hm hvalue
      refine ⟨frame, ?_⟩
      rw [bind_run, writes_append, hframe, writes_of_silent (hf _ _)]
      rfl

section Answering

variable {d : Deps} {P : Outcome Event St Bool → Prop} (h : Answering d P)
include h

theorem Answering.negotiate : P (negotiate d payload s) := by
  refine ite_run (fun _ => h.refused s) fun _ => ite_run (fun _ => h.refused s) fun _ => ?_
  refine h.after (update_silent _) (fun _ t => ?_) s
  refine h.before (h.write _ t) (fun sent => ?_) fun t => ⟨rfl, by simp⟩
  exact Follows.ite (Follows.bind silent_chains (update_silent _) fun _ =>
    Follows.pure silent_chains _) (Follows.pure silent_chains _)

theorem Answering.mail (env : CommandEnv) : P (mail d env payload s) := by
  rw [SessionCommands.mail, view_bind]
  refine ite_run (fun _ => h.refused s) fun _ => h.after (update_silent _) (fun _ t => ?_) s
  cases reputationBlock d env (id s.session) with
  | some text =>
    refine h.before (h.write _ t) (fun sent => ?_) fun t => by simp
    exact Follows.bind silent_chains (log_silent _ (by simp [frameEvent])) fun _ =>
      Follows.pure silent_chains _
  | none =>
    refine h.after (resetMessage_silent d _ _ _) (fun _ => ?_) t
    exact h.after (update_silent _) fun _ => h.write _

theorem Answering.addHeader (env : CommandEnv) : P (addHeader d env payload s) := by
  refine ite_run (fun _ => h.refused s) fun _ => ?_
  cases parseHeader payload with
  | none => exact h.refused s
  | some header =>
    refine h.after (update_silent _) (fun _ => ?_) s
    exact h.after (captureExact_silent _) fun _ => h.write _

/-- Only the commands that are not answered by one frame need an argument of their own. -/
theorem Answering.handleCommand (command : UInt8)
    (hmacros : command = commandMacro → P (macros d net payload s))
    (habort : command = commandAbort → P (abort d env.command s))
    (hquit : command = commandQuitSMTPConnection → P (quitSMTPConnection d env.command s))
    (hend : command = commandEndBody → P (endBody d net env payload s)) :
    P (handleCommand d net env command payload s) := by
  have hsend := h.write [responseContinue]
  have hedit : ∀ f, P ((update f >>= fun _ => sendContinue d) s) := fun f =>
    h.after (update_silent f) (fun _ => hsend) s
  refine ite_run (fun _ => h.refused s) fun _ => ?_
  unfold dispatch
  refine ite_run (fun _ => h.negotiate payload s) fun _ => ite_run hmacros fun _ => ?_
  refine ite_run habort fun _ => ite_run hquit fun _ => ?_
  refine ite_run (fun _ => ?_) fun _ => ite_run (fun _ => ?_) fun _ => ?_
  · exact ite_run (fun _ => h.refused s) fun _ => hedit _
  · exact ite_run (fun _ => h.refused s) fun _ => hedit _
  refine ite_run (fun _ => h.mail payload s _) fun _ => ite_run (fun _ => ?_) fun _ => ?_
  · exact ite_run (fun _ => h.refused s) fun _ => hedit _
  refine ite_run (fun _ => ?_) fun _ => ite_run (fun _ => hsend s) fun _ => ?_
  · exact ite_run (fun _ => h.refused s) fun _ => hsend s
  refine ite_run (fun _ => h.addHeader payload s _) fun _ => ite_run (fun _ => ?_) fun _ => ?_
  · refine ite_run (fun _ => h.refused s) fun _ => h.after (update_silent _) (fun _ => ?_) s
    exact h.after (captureExact_silent _) fun _ => hsend
  refine ite_run (fun _ => ?_) fun _ => ite_run hend fun _ => h.refused s
  rw [body, view_bind]
  refine ite_run (fun _ => h.refused s) fun _ => h.after ?_ (fun _ => hsend) s
  exact Follows.bind silent_chains (update_silent _) fun _ => captureExact_silent _

end Answering

/-- The commands that are answered by one frame when the connection stays open. -/
def answeredCommands : List UInt8 :=
  [commandOptionNegotiation, commandConnect, commandHelo, commandMail, commandRecipient,
    commandData, commandUnknown, commandHeader, commandEndHeaders, commandBody]

def silentCommands : List UInt8 :=
  [commandMacro, commandAbort, commandQuitMilterConnection, commandQuitSMTPConnection]

theorem handleCommand_oneFrame (command : UInt8) (payload : Bytes) (s : St)
    (h : command ∈ answeredCommands) :
    OneFrame (handleCommand d net env command payload s) := by
  -- the four unanswered commands and the end of the body are not among them
  have hother : ∀ c ∈ commandEndBody :: silentCommands, command ≠ c := by
    intro c hc heq
    subst heq
    revert h hc
    exact forall_byte (fun b => b ∈ answeredCommands → b ∈ commandEndBody :: silentCommands → False)
      (by decide +kernel) command
  refine (oneFrame_answering d).handleCommand net env payload s command ?_ ?_ ?_ ?_ <;>
    exact fun hcommand => absurd hcommand (hother _ (by decide))

theorem handleCommand_silent (command : UInt8) (payload : Bytes) (s : St)
    (h : command ∈ silentCommands) :
    writes (handleCommand d net env command payload s).events = [] := by
  have hreset := resetMessage_silent d .connection env.command.closeErr env.command.createErr
  refine ite_run (P := fun o : Outcome Event St Bool => writes o.events = []) (fun _ => rfl)
    fun _ => ?_
  simp only [silentCommands, List.mem_cons, List.not_mem_nil, or_false] at h
  rcases h with rfl | rfl | rfl | rfl
  · rfl
  · exact writes_of_silent
      (Follows.bind silent_chains hreset (fun _ => Follows.pure silent_chains true) s)
  · rfl
  · exact writes_of_silent (Follows.bind silent_chains (update_silent _) (fun _ =>
      Follows.bind silent_chains hreset fun _ => Follows.pure silent_chains true) s)

theorem handleCommand_endBody :
    handleCommand d net env commandEndBody payload s =
      if s.session.phase = .body then
        (lastChunk env.command payload >>= fun _ => finishMessage d net env) s
      else ⟨false, s, []⟩ := by
  rw [handleCommand, view_bind]
  cases hphase : s.session.phase with
  | negotiation => rfl
  | connection | envelope | body =>
    change endBody d net env payload s = _
    rw [endBody, view_bind, hphase]
    rfl

theorem intermediateFrame_of_note (h : noteFrame frame) : intermediateFrame frame := by
  simp only [noteFrame, intermediateFrame, List.mem_cons, List.not_mem_nil, or_false,
    decide_eq_true_eq] at h ⊢
  rcases h with h | h | h <;> simp [h]

theorem deletions_intermediate : ∀ frame ∈ deletions ss last, intermediateFrame frame := by
  intro frame hframe
  unfold deletions at hframe
  split at hframe
  · split_ifs at hframe
    · obtain ⟨recipient, -, rfl⟩ := List.mem_map.mp hframe
      simp [intermediateFrame, deleteRecipientResponse]
    · cases hframe
  · cases hframe

theorem not_final_of_intermediate (h : intermediateFrame frame) : ¬ finalFrame frame := by
  simp only [intermediateFrame, List.mem_cons, List.not_mem_nil, or_false, decide_eq_true_eq] at h
  rcases h with h | h | h | h <;> simp only [finalFrame, h] <;> decide

/-- The end of a body that keeps the connection open is answered by one final
frame, which comes last. -/
theorem endBody_oneFinal (hidle : s.session.pendingSenderBlocks = none)
    (hopen : (handleCommand d net env commandEndBody payload s).value = true) :
    ∃ before last, writes (handleCommand d net env commandEndBody payload s).events =
        before ++ [last] ∧ finalFrame last ∧ ∀ frame ∈ before, intermediateFrame frame := by
  rw [handleCommand_endBody] at hopen ⊢
  by_cases hphase : s.session.phase = .body
  · rw [if_pos hphase] at hopen ⊢
    obtain ⟨hchunk, -, -, hpending⟩ := lastChunk_session env.command payload s
    obtain ⟨ss, -, hends, -⟩ := finishMessage_ends d net env (lastChunk env.command payload s).state
      (hchunk.trans hphase) (hpending.trans hidle)
    obtain ⟨notes, last, hnotes, hfinal, ⟨-, hwrites⟩ | ⟨hfalse, -⟩, -⟩ := Ends.writes hends
    · refine ⟨notes ++ deletions ss last, last, ?_, hfinal, List.forall_mem_append.mpr
        ⟨fun frame hframe => intermediateFrame_of_note frame (hnotes frame hframe),
          deletions_intermediate ss last⟩⟩
      rw [bind_run, writes_append, writes_of_silent (lastChunk_silent env.command payload s),
        hwrites,
        List.nil_append]
    · rw [bind_run, hfalse] at hopen
      cases hopen
  · rw [if_neg hphase] at hopen
    cases hopen

/-- How each command of a session is answered: the end of a body by one final
frame after intermediate ones, the commands of the protocol that expect an
answer by one frame, and the others by none. -/
theorem commands_answered (d : Deps) (net : NetIP) (inputs : List Input)
    (hopen : (serve d net inputs (start d)).value = true) (env : FinishEnv) (command : UInt8)
    (payload : Bytes) :
    let o := handleCommand d net env command payload (serve d net inputs (start d)).state
    (command = commandEndBody → o.value = true →
      ∃ before last, writes o.events = before ++ [last] ∧
        (writes o.events).filter finalFrame = [last] ∧
        ∀ frame ∈ before, intermediateFrame frame) ∧
    (command ∈ answeredCommands → o.value = true → ∃ frame, writes o.events = [frame]) ∧
    (command ∈ silentCommands → writes o.events = []) := by
  have hidle := ((serve_clean d net inputs (start d) (Between.of_initial rfl)).2 hopen).idle
  refine ⟨?_, handleCommand_oneFrame d net env command payload _,
    handleCommand_silent d net env command payload _⟩
  rintro rfl hvalue
  obtain ⟨before, last, hwrites, hfinal, hbefore⟩ :=
    endBody_oneFinal d net env payload _ hidle hvalue
  refine ⟨before, last, hwrites, ?_, hbefore⟩
  have hnone : before.filter finalFrame = [] := List.filter_eq_nil_iff.mpr fun frame hframe =>
    not_final_of_intermediate frame (hbefore frame hframe)
  rw [hwrites, List.filter_append, hnone, List.filter_singleton, hfinal]
  rfl

/-- The commands of a message up to the end of its headers. -/
def plainMessage : List Input :=
  opening ++ [quietFrame commandMail (ascii "<a@x.com>" ++ [0]),
    quietFrame commandRecipient (ascii "<b@y.com>" ++ [0]), quietFrame commandEndHeaders []]

theorem commands_answered_accept :
    ∃ before last, writes (handleCommand plainDeps noAddresses quietFinish commandEndBody []
      (serve plainDeps noAddresses plainMessage (start plainDeps)).state).events =
        before ++ [last] ∧
      (writes (handleCommand plainDeps noAddresses quietFinish commandEndBody []
        (serve plainDeps noAddresses plainMessage (start plainDeps)).state).events).filter
          finalFrame = [last] ∧
      ∀ frame ∈ before, intermediateFrame frame :=
  (commands_answered plainDeps noAddresses plainMessage (by decide +kernel) quietFinish
    commandEndBody []).1 rfl (by decide +kernel)

end MilterGuard.ResponseDiscipline
