import MilterGuard.AuthenticationProvenance
import MilterGuard.ResponseDiscipline

/-!
The removal of blocked recipients from a message that is otherwise accepted. The
recipients of a message are those of its RCPT commands. The store is asked about
their normalized forms and normalizes them again, so the recipients that it
reports need not be among those that were asked about.
-/
namespace MilterGuard.RecipientRemoval

open ByteStrings MailAddresses BlocklistTable Procedures WireProtocol SessionState SessionCommands
open SenderPolicies FinishMessage Answers SessionRun SessionSteps MessageLifecycle
open ResponseDiscipline AuthenticationProvenance

/-- The addresses of the RCPT commands since the last MAIL command. -/
def suppliedRecipients (history : List (UInt8 × Bytes)) : List Bytes :=
  history.foldl (fun found read =>
    if read.1 = commandMail then []
    else if read.1 = commandRecipient then found ++ (parseEnvelopeAddress read.2).toList
    else found) []

variable (p : Platform) (d : Deps) (net : NetIP) (env : FinishEnv) (ss : Session)
  (found : SenderBlockMatch) (payload : Bytes) (history : List (UInt8 × Bytes)) (s : St)

theorem suppliedRecipients_snoc (read : UInt8 × Bytes) :
    suppliedRecipients (history ++ [read]) =
      if read.1 = commandMail then []
      else if read.1 = commandRecipient then
        suppliedRecipients history ++ (parseEnvelopeAddress read.2).toList
      else suppliedRecipients history := by
  rw [suppliedRecipients, List.foldl_append]
  rfl

def collecting : Prop := ss.phase = .envelope ∨ ss.phase = .body

/-- A message that is being collected has the recipients of its commands, unless
some of them were given up. -/
def Collected (ss : Session) : Prop :=
  collecting ss → ss.envelopeRecipientsTruncated = false →
    ss.envelopeRecipients = suppliedRecipients history

/-- The second session collects no other message than the first. -/
def KeepsRecipients (ss' : Session) : Prop :=
  collecting ss' → collecting ss ∧ ss'.envelopeRecipients = ss.envelopeRecipients ∧
    ss'.envelopeRecipientsTruncated = ss.envelopeRecipientsTruncated

theorem KeepsRecipients.of_not_collecting {ss ss' : Session} (h : ¬ collecting ss') :
    KeepsRecipients ss ss' := fun h' => absurd h' h

theorem KeepsRecipients.of_fields {ss ss' : Session} (hphase : ss'.phase = ss.phase)
    (hrecipients : ss'.envelopeRecipients = ss.envelopeRecipients)
    (htruncated : ss'.envelopeRecipientsTruncated = ss.envelopeRecipientsTruncated) :
    KeepsRecipients ss ss' := by
  intro h
  rw [collecting, hphase] at h
  exact ⟨h, hrecipients, htruncated⟩

theorem Collected.snoc {history : List (UInt8 × Bytes)} {ss ss' : Session} {command : UInt8}
    {payload : Bytes} (h : Collected history ss) (hkeeps : KeepsRecipients ss ss')
    (hmail : command ≠ commandMail) (hrecipient : command ≠ commandRecipient) :
    Collected (history ++ [(command, payload)]) ss' := by
  intro hcollecting htruncated
  obtain ⟨hbefore, hrecipients, hsame⟩ := hkeeps hcollecting
  rw [suppliedRecipients_snoc, if_neg hmail, if_neg hrecipient, hrecipients]
  exact h hbefore (hsame.symm.trans htruncated)

theorem not_collecting_connection {ss : Session} (h : ss.phase = .connection) :
    ¬ collecting ss := by
  rintro (hp | hp) <;> simp [h] at hp

theorem KeepsRecipients.of_edited {d : Deps} {ss ss' : Session} (h : Edited d ss ss') :
    KeepsRecipients ss ss' := by
  cases h with
  | same hphase hfields =>
    exact .of_fields hphase (congrArg MessageFields.envelopeRecipients hfields)
      (congrArg MessageFields.envelopeRecipientsTruncated hfields)
  | opened _ hphase | cleared hphase => exact .of_not_collecting (not_collecting_connection hphase)
  | collected hbefore _ _ _ hrecipients htruncated =>
    exact fun _ => ⟨hbefore, hrecipients, htruncated⟩

/-- The recipient of a RCPT command is kept unless the list is given up. -/
theorem recipient_collected (h : Collected history s.session)
    (hvalue : (recipient d payload s).value = true) :
    Collected (history ++ [(commandRecipient, payload)]) (recipient d payload s).state.session := by
  rw [recipient, view_bind] at hvalue ⊢
  by_cases hphase : s.session.phase ≠ .envelope
  · rw [if_pos hphase] at hvalue
    cases hvalue
  rw [if_neg hphase, update_send_session]
  have hcollecting : collecting s.session := Or.inl (not_not.mp hphase)
  intro _ htruncated
  rw [suppliedRecipients_snoc, if_neg (by decide : commandRecipient ≠ commandMail)]
  unfold Session.addRecipient at htruncated ⊢
  cases hparse : parseEnvelopeAddress payload with
  | none => simp [hparse] at htruncated
  | some address =>
    simp only [hparse] at htruncated ⊢
    split_ifs at htruncated ⊢
    rw [← h hcollecting htruncated]
    rfl

theorem mail_collected (env : CommandEnv) (payload : Bytes) (history : List (UInt8 × Bytes))
    (s : St) (hvalue : (mail d env payload s).value = true) :
    Collected (history ++ [(commandMail, payload)]) (mail d env payload s).state.session := by
  rw [mail, view_bind] at hvalue ⊢
  by_cases hrefused : (id s.session).phase ≠ .connection ∨ ¬ (id s.session).connected
  · rw [if_pos hrefused] at hvalue
    cases hvalue
  rw [if_neg hrefused] at hvalue ⊢
  cases hblock : reputationBlock d env (id s.session) with
  | some text =>
    have hphase : (reputationWait d env s.session).phase = .connection := by
      have hconnection : s.session.phase = .connection := not_not.mp (not_or.mp hrefused).1
      unfold reputationWait awaitConnectionDNS
      split_ifs <;> exact hconnection
    refine fun hcollecting => absurd hcollecting (not_collecting_connection ?_)
    simp only [bind_run, update, log_run, pure_run]
    rw [writeFrame_session]
    exact hphase
  | none =>
    intro _ _
    rw [suppliedRecipients_snoc]
    simp only [bind_run, update]
    unfold sendContinue
    rw [writeFrame_session]
    have hcleared : ∀ t, (resetMessage d .envelope env.closeErr env.createErr
        t).state.session.envelopeRecipients = [] := by
      intro t
      simp only [resetMessage, update]
      split_ifs
      · unfold openExactMessage
        split_ifs <;> rfl
      · rfl
    split
    · exact hcleared _
    · exact hcleared _

theorem endBody_not_collecting (h : Between d s.session)
    (hvalue : (endBody d net env payload s).value = true) :
    ¬ collecting (endBody d net env payload s).state.session := by
  rw [endBody, view_bind] at hvalue ⊢
  by_cases hrefused : s.session.phase ≠ .body
  · rw [if_pos hrefused] at hvalue
    cases hvalue
  rw [if_neg hrefused] at hvalue ⊢
  obtain ⟨message, err, hframe⟩ := lastChunk_frame env.command payload s
  have hfinish := finishMessage_clean d net env (lastChunk env.command payload s).state
    (by rw [hframe]; exact not_not.mp hrefused)
    (by rw [hframe]; exact ⟨h.recipients, h.senders, h.distinct⟩) (by rw [hframe]; exact h.idle)
  exact not_collecting_connection (hfinish.2 hvalue).2

theorem handleCommand_collected (command : UInt8) (payload : Bytes)
    (history : List (UInt8 × Bytes)) (s : St) (hbetween : Between d s.session)
    (h : Collected history s.session)
    (hvalue : (handleCommand d net env command payload s).value = true) :
    Collected (history ++ [(command, payload)])
      (handleCommand d net env command payload s).state.session := by
  have hedits := handleCommand_edits d net env command payload s
  rw [handleCommand, view_bind] at hvalue hedits ⊢
  by_cases hbefore : beforeNegotiation s.session.phase command
  · rw [if_pos hbefore] at hvalue
    cases hvalue
  rw [if_neg hbefore] at hvalue hedits ⊢
  by_cases hmail : command = commandMail
  · subst hmail
    exact mail_collected d env.command payload history s hvalue
  by_cases hrecipient : command = commandRecipient
  · subst hrecipient
    exact recipient_collected d payload history s h hvalue
  by_cases hend : command = commandEndBody
  · subst hend
    refine h.snoc (.of_not_collecting ?_) (by decide) (by decide)
    exact endBody_not_collecting d net env payload s hbetween hvalue
  exact h.snoc (.of_edited (hedits hmail hrecipient hend)) hmail hrecipient

theorem serve_collected (inputs : List Input) (history : List (UInt8 × Bytes)) (s : St)
    (htracks : Tracks history s.session) (hbetween : Between d s.session)
    (h : Collected history s.session) (hopen : (serve d net inputs s).value = true) :
    Collected (history ++ reads (serve d net inputs s).events)
      (serve d net inputs s).state.session := by
  induction inputs generalizing history s with
  | nil => simpa [serve, attemptAll, reads] using h
  | cons input rest ih =>
    cases input with
    | deadlineFailed => simp [serve, attemptAll, turn] at hopen
    | readFailed idle =>
      cases idle with
      | false => simp [serve, attemptAll, turn] at hopen
      | true => exact ih history s htracks hbetween h hopen
    | frame command payload env =>
      obtain ⟨hreads, hnext⟩ := handleCommand_tracks d net env command payload history s htracks
      cases hvalue : (handleCommand d net env command payload s).value with
      | false => simp [serve, attemptAll, turn, hvalue] at hopen
      | true =>
        rw [serve_accepted d net env command payload rest s hvalue] at hopen ⊢
        rw [reads_command _ _ _ _ hreads, List.append_cons]
        refine ih _ _ (hnext.resolve_right ?_) ?_ ?_ hopen
        · rintro ⟨hfalse, -⟩
          simp [hvalue] at hfalse
        · exact (handleCommand_clean d net env command payload s hbetween).2 hvalue
        · exact handleCommand_collected d net env command payload history s hbetween h hvalue

/-- The recipients of a message that is complete are those of its commands. -/
theorem recipients_supplied (inputs : List Input)
    (hopen : (serve d net inputs (start d)).value = true)
    (hphase : (serve d net inputs (start d)).state.session.phase = .body)
    (hcomplete : recipientSetComplete d.platform (serve d net inputs (start d)).state.session) :
    (serve d net inputs (start d)).state.session.envelopeRecipients =
      suppliedRecipients (reads (serve d net inputs (start d)).events) := by
  have hcollected := serve_collected d net inputs [] (start d) (start_tracks d)
    (Between.of_initial rfl) (by rintro (hp | hp) <;> cases hp) hopen
  simp only [recipientSetComplete, Bool.and_eq_true, Bool.not_eq_true'] at hcomplete
  exact hcollected (Or.inr hphase) hcomplete.1.1

theorem normalizeAddress_nil : normalizeAddress p [] = [] := rfl

theorem mem_normalizedRecipients (values : List Bytes) (address : Bytes) :
    address ∈ normalizedRecipients p values ↔
      address ≠ [] ∧ ∃ value ∈ values, normalizeAddress p value = address := by
  rw [normalizedRecipients, mem_sortedSet, List.mem_filter, List.mem_map, decide_eq_true_eq,
    and_comm]

theorem normalizedRecipients_length (values : List Bytes) :
    (normalizedRecipients p values).length ≤ values.length := by
  rw [normalizedRecipients, sortedSet, List.length_insertionSort]
  calc ((values.map (normalizeAddress p)).filter (· ≠ [])).dedup.length
      ≤ ((values.map (normalizeAddress p)).filter (· ≠ [])).length :=
        (List.dedup_sublist _).length_le
    _ ≤ (values.map (normalizeAddress p)).length := List.length_filter_le _ _
    _ = values.length := List.length_map _

/-- Some row in force blocks the mailbox for the senders of the message. -/
def Blocked (recipient : Bytes) : Prop :=
  ∃ table now, env.blocklist = some (table, now) ∧ BlocksRecipient d.platform table now
    (normalizedRecipients d.platform ss.senderBlocklistFrom) d.includeSubdomains recipient

/-- What a match says about the message and the store. -/
theorem senderBlocklistMatch_some (h : senderBlocklistMatch d env ss = some found) :
    recipientSetComplete d.platform ss ∧ found.blockedRecipients ≠ [] ∧
      ∃ table now, env.blocklist = some (table, now) ∧
        found = matchSenderBlocks d.platform table now
          (normalizedRecipients d.platform ss.senderBlocklistFrom)
          (normalizedRecipients d.platform ss.envelopeRecipients) d.includeSubdomains := by
  unfold senderBlocklistMatch at h
  dsimp only at h
  split_ifs at h with hskip
  simp only [not_or, not_not] at hskip
  cases hblocklist : env.blocklist with
  | none => simp [hblocklist] at h
  | some entry =>
    obtain ⟨table, now⟩ := entry
    simp only [hblocklist] at h
    split_ifs at h with hempty
    obtain rfl := Option.some.inj h
    exact ⟨hskip.2.2.2.2, hempty, table, now, rfl, rfl⟩

/-- The blocked recipients of a match: the forms that envelope recipients have
after two normalizations, as far as the store blocks them. -/
theorem mem_matched (hroom : ss.envelopeRecipients.length ≤ 100)
    (h : senderBlocklistMatch d env ss = some found) (name : Bytes) :
    name ∈ found.blockedRecipients ↔ name ≠ [] ∧
      (∃ recipient ∈ ss.envelopeRecipients,
        normalizeAddress d.platform (normalizeAddress d.platform recipient) = name) ∧
      Blocked d env ss name := by
  obtain ⟨-, -, table, now, hblocklist, rfl⟩ := senderBlocklistMatch_some d env ss found h
  have hlimit := (normalizedRecipients_length d.platform ss.envelopeRecipients).trans hroom
  rw [mem_blockedRecipients d.platform table now _ _ _ name (addresses_room d.platform hlimit)]
  refine and_congr_right fun hne => and_congr ?_ ?_
  · constructor
    · rintro ⟨queried, hqueried, rfl⟩
      obtain ⟨-, recipient, hrecipient, rfl⟩ := (mem_normalizedRecipients _ _ _).mp hqueried
      exact ⟨recipient, hrecipient, rfl⟩
    · rintro ⟨recipient, hrecipient, rfl⟩
      refine ⟨normalizeAddress d.platform recipient, (mem_normalizedRecipients _ _ _).mpr
        ⟨fun hempty => hne ?_, recipient, hrecipient, rfl⟩, rfl⟩
      rw [hempty, normalizeAddress_nil]
  · exact ⟨fun hblocks => ⟨table, now, hblocklist, hblocks⟩, by
      rintro ⟨table', now', hother, hblocks⟩
      obtain ⟨rfl, rfl⟩ := Prod.mk.inj (Option.some.inj (hblocklist.symm.trans hother))
      exact hblocks⟩

theorem matched_nodup (h : senderBlocklistMatch d env ss = some found) :
    found.blockedRecipients.Nodup := by
  obtain ⟨-, -, table, now, -, rfl⟩ := senderBlocklistMatch_some d env ss found h
  exact blockedRecipients_nodup _ _ _ _ _ _

/-- The store reports at most as many recipients as it was asked about. -/
theorem matched_length (hroom : ss.envelopeRecipients.length ≤ 100)
    (h : senderBlocklistMatch d env ss = some found) :
    found.blockedRecipients.length ≤
      (normalizedRecipients d.platform ss.envelopeRecipients).length := by
  have hsubset : found.blockedRecipients ⊆
      (normalizedRecipients d.platform ss.envelopeRecipients).map
        (normalizeAddress d.platform) := by
    intro name hname
    obtain ⟨hne, ⟨recipient, hrecipient, rfl⟩, -⟩ :=
      (mem_matched d env ss found hroom h name).mp hname
    refine List.mem_map.mpr ⟨normalizeAddress d.platform recipient,
      (mem_normalizedRecipients _ _ _).mpr ⟨fun hempty => hne ?_, recipient, hrecipient, rfl⟩, rfl⟩
    rw [hempty, normalizeAddress_nil]
  have hle := (List.subperm_of_subset (matched_nodup d env ss found h) hsubset).length_le
  rwa [List.length_map] at hle

theorem lastChunk_events (env : CommandEnv) (payload : Bytes) (s : St) :
    ∀ e ∈ (lastChunk env payload s).events, ∃ store, e = .exactWritten store := by
  unfold lastChunk
  split_ifs
  · change ∀ e ∈ (captureExact env.exactWriteErr _).events, _
    unfold captureExact
    split
    · simp
    · split_ifs <;> simp
  · simp

/-- How the end of a body is answered in terms of the session `ss` of the answer,
the notes and the final frame. -/
structure Concludes (collected ss : Session) (notes : List Bytes) (last : Bytes)
    (o : Outcome Event St Bool) : Prop where
  prepared : Prepared d env collected ss
  notes_note : ∀ frame ∈ notes, noteFrame frame
  final : finalFrame last
  written : o.value = true ∧ writes o.events = notes ++ deletions ss last ++ [last] ∨
    o.value = false ∧ ∃ k, writes o.events = (notes ++ deletions ss last).take k
  other : ∀ e ∈ o.events, preludeEvent ss e ∨ recordFor ss last e ∨ (∃ frame, e = .wrote frame) ∨
    ∃ store, e = .exactWritten store

theorem endBody_concludes (hidle : s.session.pendingSenderBlocks = none) :
    ∃ ss notes last, Concludes d env s.session ss notes last
      (handleCommand d net env commandEndBody payload s) := by
  rw [handleCommand_endBody]
  by_cases hphase : s.session.phase = .body
  · rw [if_pos hphase]
    obtain ⟨message, err, hframe⟩ := lastChunk_frame env.command payload s
    set t := (lastChunk env.command payload s).state with ht
    obtain ⟨ss, hprepared, hends, -⟩ := finishMessage_ends d net env t
      (by rw [hframe]; exact hphase) (by rw [hframe]; exact hidle)
    obtain ⟨notes, last, hnotes, hfinal, hwritten, hother⟩ := Ends.writes hends
    refine ⟨ss, notes, last, ?_, hnotes, hfinal, ?_, ?_⟩
    · rw [hframe] at hprepared
      refine ⟨hprepared.phase, hprepared.envelopeRecipients, hprepared.senderBlocklistFrom,
        hprepared.pending.imp_right ?_⟩
      rintro ⟨found, hdefers, hpending⟩
      exact ⟨found, ⟨hdefers.found_match, hdefers.enforce, hdefers.remaining, hdefers.negotiated⟩,
        hpending⟩
    · rw [bind_run, writes_append, writes_of_silent (lastChunk_silent env.command payload s)]
      exact hwritten
    · refine List.forall_mem_append.mpr ⟨fun e he => ?_, fun e he => ?_⟩
      · exact Or.inr (Or.inr (Or.inr (lastChunk_events env.command payload s e he)))
      · rcases hother e he with h | h | h
        · exact Or.inl h
        · exact Or.inr (Or.inl h)
        · exact Or.inr (Or.inr (Or.inl h))
  · rw [if_neg hphase]
    exact ⟨s.session, [], [responseTempfail], ⟨⟨rfl, rfl, rfl, Or.inl hidle⟩, by simp, by decide,
      Or.inr ⟨rfl, 0, rfl⟩, by simp⟩⟩

section Concludes

variable {d : Deps} {env : FinishEnv} {collected ss : Session} {notes : List Bytes} {last : Bytes}
  {o : Outcome Event St Bool}

section

variable (h : Concludes d env collected ss notes last o)

include h

theorem Concludes.mem_written {frame : Bytes} (hframe : .wrote frame ∈ o.events) :
    noteFrame frame ∨ frame ∈ deletions ss last ∨
      frame = last ∧ writes o.events = notes ++ deletions ss last ++ [last] := by
  have hmem := (mem_writes o.events frame).mpr hframe
  rcases h.written with ⟨-, hwrites⟩ | ⟨-, k, hwrites⟩
  · rw [hwrites] at hmem
    simp only [List.mem_append, List.mem_singleton] at hmem
    rcases hmem with (hmem | hmem) | hmem
    · exact Or.inl (h.notes_note frame hmem)
    · exact Or.inr (Or.inl hmem)
    · exact Or.inr (Or.inr ⟨hmem, hwrites⟩)
  · rw [hwrites] at hmem
    rcases List.mem_append.mp (List.mem_of_mem_take hmem) with hmem | hmem
    · exact Or.inl (h.notes_note frame hmem)
    · exact Or.inr (Or.inl hmem)

/-- A final frame that was written is the last one. -/
theorem Concludes.final_written {frame : Bytes} (hframe : .wrote frame ∈ o.events)
    (hfinal : finalFrame frame) :
    frame = last ∧ writes o.events = notes ++ deletions ss last ++ [last] := by
  rcases h.mem_written hframe with hnote | hdeletion | hlast
  · exact absurd hfinal (not_final_of_intermediate frame (intermediateFrame_of_note frame hnote))
  · exact absurd hfinal
      (not_final_of_intermediate frame (deletions_intermediate ss last frame hdeletion))
  · exact hlast

omit h in
theorem deleteRecipientResponse_not_note (recipient : Bytes) :
    ¬ noteFrame (deleteRecipientResponse recipient) := by
  simp [noteFrame, deleteRecipientResponse, responseDeleteRecipient, responseProgress,
    responseChangeHeader, responseAddHeader]

omit h in
theorem deleteRecipientResponse_inj (recipient other : Bytes)
    (h : deleteRecipientResponse recipient = deleteRecipientResponse other) :
    recipient = other := by
  simpa [deleteRecipientResponse] using h

/-- A removal goes with the final frame. -/
theorem Concludes.removal_written {recipient : Bytes}
    (hframe : .wrote (deleteRecipientResponse recipient) ∈ o.events) :
    deleteRecipientResponse recipient ∈ deletions ss last := by
  rcases h.mem_written hframe with hnote | hdeletion | ⟨hlast, -⟩
  · exact absurd hnote (deleteRecipientResponse_not_note recipient)
  · exact hdeletion
  · have hfinal := h.final
    rw [← hlast] at hfinal
    simp [finalFrame, deleteRecipientResponse, responseDeleteRecipient, responseAccept,
      responseTempfail, responseDiscard, responseReply] at hfinal

theorem Concludes.prelude_of {e : Event} (he : e ∈ o.events) (hrecord : ¬ recordFor ss last e)
    (hframe : ∀ frame, e ≠ .wrote frame) (hstore : ∀ store, e ≠ .exactWritten store) :
    preludeEvent ss e := by
  rcases h.other e he with hprelude | hother | ⟨frame, hother⟩ | ⟨store, hother⟩
  · exact hprelude
  · exact absurd hother hrecord
  · exact absurd hother (hframe frame)
  · exact absurd hother (hstore store)

theorem Concludes.record_of {e : Event} (he : e ∈ o.events) (hprelude : ¬ preludeEvent ss e)
    (hframe : ∀ frame, e ≠ .wrote frame) (hstore : ∀ store, e ≠ .exactWritten store) :
    recordFor ss last e := by
  rcases h.other e he with hother | hrecord | ⟨frame, hother⟩ | ⟨store, hother⟩
  · exact absurd hother hprelude
  · exact hrecord
  · exact absurd hother (hframe frame)
  · exact absurd hother (hstore store)

theorem Concludes.deferred {pending : PendingSenderBlocklist}
    (hmem : .removalDeferred pending ∈ o.events) :
    ss.pendingSenderBlocks = some pending ∧ ∃ found, Defers d env collected found ∧
      pending = pendingBlocks d collected found := by
  have hpending : ss.pendingSenderBlocks = some pending := h.prelude_of hmem id nofun nofun
  refine ⟨hpending, ?_⟩
  rcases h.prepared.pending with hnone | ⟨found, hdefers, hsome⟩
  · rw [hnone] at hpending
    cases hpending
  · exact ⟨found, hdefers, (Option.some.inj (hsome.symm.trans hpending)).symm⟩

end

end Concludes

/-- The events learn a correspondent of the message for these recipients. -/
def Learns (events : List Event) (recipients : List Bytes) : Prop :=
  .correspondentsLearned recipients ∈ events ∨ .correspondentsTouched recipients ∈ events ∨
    .inboundClassified recipients ∈ events

/-- The protocol of partial blocking at the end of the body collected in `ss`. -/
structure PartialBlocking (d : Deps) (env : FinishEnv) (ss : Session) (events : List Event) :
    Prop where
  accepted : ∀ pending, .removalDeferred pending ∈ events → .wrote [responseAccept] ∈ events →
    pending.blockedRecipients.Nodup ∧ ∃ notes, (∀ frame ∈ notes, noteFrame frame) ∧
      writes events =
        notes ++ pending.blockedRecipients.map deleteRecipientResponse ++ [[responseAccept]]
  refused : ∀ frame, .wrote frame ∈ events → finalFrame frame → frame ≠ [responseAccept] →
    ∀ recipient, .wrote (deleteRecipientResponse recipient) ∉ events
  deferred : ∀ pending, .removalDeferred pending ∈ events →
    negotiated ss actionDeleteRecipient ∧ pending.blockedRecipients ≠ [] ∧
      pending.remainingRecipients ≠ [] ∧
      (∀ recipient ∈ pending.blockedRecipients, recipient ∉ pending.remainingRecipients) ∧
      ∀ recipient, recipient ∈ pending.blockedRecipients ∨ recipient ∈ pending.remainingRecipients ↔
        recipient ∈ normalizedRecipients d.platform ss.envelopeRecipients
  matching : ∀ pending recipients, .removalDeferred pending ∈ events →
    .correspondentMatch recipients ∈ events → recipients = pending.remainingRecipients
  learning : ∀ pending recipients, .removalDeferred pending ∈ events →
    .wrote [responseAccept] ∈ events → Learns events recipients →
      recipients = pending.remainingRecipients
  capacity : ∀ found, senderBlocklistMatch d env ss = some found →
    found.blockedRecipients.length ≤ (normalizedRecipients d.platform ss.envelopeRecipients).length

/-- A recipient that is blocked in the form it has after two normalizations has
that form after one, if only as another recipient. -/
def Settled : Prop :=
  ∀ recipient ∈ ss.envelopeRecipients,
    normalizeAddress d.platform (normalizeAddress d.platform recipient) ≠ [] →
    Blocked d env ss (normalizeAddress d.platform (normalizeAddress d.platform recipient)) →
    normalizeAddress d.platform (normalizeAddress d.platform recipient) ∈
      normalizedRecipients d.platform ss.envelopeRecipients

/-- The blocked and the remaining recipients are those of the message exactly
when the blocked ones settled. -/
theorem partition_iff (hroom : ss.envelopeRecipients.length ≤ 100)
    (h : senderBlocklistMatch d env ss = some found) :
    (∀ recipient, recipient ∈ found.blockedRecipients ∨
        recipient ∈ remainingRecipients d ss found ↔
      recipient ∈ normalizedRecipients d.platform ss.envelopeRecipients) ↔ Settled d env ss := by
  have hblocked := mem_matched d env ss found hroom h
  constructor
  · intro hpartition recipient hrecipient hne hblocks
    exact (hpartition _).mp (Or.inl ((hblocked _).mpr ⟨hne, ⟨recipient, hrecipient, rfl⟩, hblocks⟩))
  · intro hsettled recipient
    constructor
    · rintro (hmem | hmem)
      · obtain ⟨hne, ⟨original, horiginal, rfl⟩, hblocks⟩ := (hblocked _).mp hmem
        exact hsettled original horiginal hne hblocks
      · exact (List.mem_filter.mp hmem).1
    · intro hmem
      by_cases hblock : recipient ∈ found.blockedRecipients
      · exact Or.inl hblock
      · exact Or.inr (List.mem_filter.mpr ⟨hmem, by simpa using hblock⟩)

theorem Concludes.partialBlocking {d : Deps} {env : FinishEnv} {collected ss : Session}
    {notes : List Bytes} {last : Bytes} {o : Outcome Event St Bool}
    (h : Concludes d env collected ss notes last o)
    (hroom : collected.envelopeRecipients.length ≤ 100) (hsettled : Settled d env collected) :
    PartialBlocking d env collected o.events where
  accepted pending hdeferred haccept := by
    obtain ⟨hpending, found, hdefers, rfl⟩ := h.deferred hdeferred
    obtain ⟨rfl, hwrites⟩ := h.final_written haccept (by decide)
    refine ⟨matched_nodup d env collected found hdefers.found_match, notes, h.notes_note, ?_⟩
    simpa only [deletions, hpending, if_true] using hwrites
  refused frame hframe hfinal haccept recipient hremoval := by
    obtain ⟨rfl, -⟩ := h.final_written hframe hfinal
    have hmem := h.removal_written hremoval
    rw [deletions_eq_nil ss frame haccept] at hmem
    cases hmem
  deferred pending hdeferred := by
    obtain ⟨-, found, hdefers, rfl⟩ := h.deferred hdeferred
    obtain ⟨-, hne, -⟩ := senderBlocklistMatch_some d env collected found hdefers.found_match
    refine ⟨hdefers.negotiated, hne, hdefers.remaining, fun recipient hblocked hremaining => ?_,
      (partition_iff d env collected found hroom hdefers.found_match).mpr hsettled⟩
    exact of_decide_eq_true (List.mem_filter.mp hremaining).2 hblocked
  matching pending recipients hdeferred hmatch := by
    obtain ⟨hpending, -⟩ := h.deferred hdeferred
    have hprelude := h.prelude_of hmatch id (by simp) (by simp)
    simpa only [preludeEvent, policyEnvelopeRecipients, hpending] using hprelude
  learning pending recipients hdeferred haccept hlearns := by
    obtain ⟨hpending, -⟩ := h.deferred hdeferred
    obtain ⟨rfl, -⟩ := h.final_written haccept (by decide)
    have hpolicy : policyEnvelopeRecipients ss = pending.remainingRecipients := by
      simp only [policyEnvelopeRecipients, hpending]
    rw [← hpolicy]
    rcases hlearns with hmem | hmem | hmem
    · exact h.record_of hmem id (by simp) (by simp)
    · exact h.record_of hmem id (by simp) (by simp)
    · exact h.record_of hmem id (by simp) (by simp) rfl
  capacity found hfound := matched_length d env collected found hroom hfound

/-- A message from one sender to the recipients, up to the end of its headers. -/
def messageTo (recipients : List Bytes) : List Input :=
  opening ++ quietFrame commandMail (ascii "<sender@example.com>" ++ [0]) ::
    recipients.map (fun recipient => quietFrame commandRecipient (recipient ++ [0])) ++
    [quietFrame commandHeader (ascii "From" ++ 0 :: ascii "sender@example.com" ++ [0]),
      quietFrame commandEndHeaders []]

/-- A store with one row, which blocks that sender for the recipient. -/
def oneBlock (recipient : Bytes) : Table where
  rows := [⟨1, recipient, .exactMailbox, ascii "sender@example.com", 1⟩]
  unique := List.nodup_singleton _

def blockedFor (recipient : Bytes) : FinishEnv :=
  { quietFinish with blocklist := some (oneBlock recipient, 0) }

/-- The events of the end of such a message. -/
def endEvents (recipients : List Bytes) (blocked : Bytes) : List Event :=
  (handleCommand plainDeps noAddresses (blockedFor blocked) commandEndBody []
    (serve plainDeps noAddresses (messageTo recipients) (start plainDeps)).state).events

end MilterGuard.RecipientRemoval
