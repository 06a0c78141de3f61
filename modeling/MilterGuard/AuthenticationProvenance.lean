import MilterGuard.SessionSteps

/-!
Where the authenticated identity of a session comes from. A well-formed macro
frame is a target byte and a list of terminated names and values; it supplies an
identity when exactly one of them is the authentication macro. A session that is
marked authenticated holds the identity of the latest such frame since the
connection was opened.
-/
namespace MilterGuard.AuthenticationProvenance

open ByteStrings Procedures WireProtocol SessionState SessionCommands FinishMessage SessionRun
open SessionSteps

def encodePairs (pairs : List (Bytes × Bytes)) : Bytes :=
  pairs.flatMap fun pair => pair.1 ++ 0 :: pair.2 ++ [0]

def authenticationMacro (pair : Bytes × Bytes) : Bool :=
  equalFold (trimBraces pair.1) (ascii "auth_authen")

/-- The payload is read as a macro frame with these names and values. -/
structure MacroFrame (payload : Bytes) (target : UInt8) (pairs : List (Bytes × Bytes)) : Prop where
  parsed : (parseSessionMacros payload).isSome
  bytes : payload = target :: encodePairs pairs
  terminated : ∀ pair ∈ pairs, pair.1 ≠ [] ∧ 0 ∉ pair.1 ∧ 0 ∉ pair.2

/-- The frame carries exactly one authentication macro, for a command that may
carry one, and the identity is its cleaned value. -/
def CarriesIdentity (payload identity : Bytes) : Prop :=
  ∃ target pairs name value, MacroFrame payload target pairs ∧ authenticationTarget target ∧
    pairs.filter authenticationMacro = [(name, value)] ∧ identity = cleanSMTPIdentity value

/-- A stored macro adds its value to the authentication field only if it is the
authentication macro, and then the field was empty. -/
theorem addMacro_authentication (values values' : SessionMacroValues) (name value : Bytes)
    (h : addMacro values name value = some values') :
    values'.authenticationIdentity.toList = values.authenticationIdentity.toList ++
      ([(name, value)].filter authenticationMacro).map (·.2) := by
  unfold addMacro at h
  dsimp only at h
  by_cases hauth : equalFold (trimBraces name) (ascii "auth_authen")
  · rw [store] at h
    split_ifs at h with hfull
    · simp at h
    · obtain rfl : { values with authenticationIdentity := some value } = values' := by
        simpa using h
      have hnone : values.authenticationIdentity = none := by
        simpa using fun hsome => hfull (Or.inl hsome)
      simp [authenticationMacro, hauth, hnone]
  · have hsame : values'.authenticationIdentity = values.authenticationIdentity := by
      unfold store at h
      split_ifs at h <;> simp at h <;> rw [← h]
    simp [authenticationMacro, hauth, hsame]

theorem readMacros_pairs (n : ℕ) (values values' : SessionMacroValues) (remainder : Bytes)
    (h : readMacros n values remainder = some values') :
    ∃ pairs, remainder = encodePairs pairs ∧
      (∀ pair ∈ pairs, pair.1 ≠ [] ∧ 0 ∉ pair.1 ∧ 0 ∉ pair.2) ∧
      values'.authenticationIdentity.toList = values.authenticationIdentity.toList ++
        (pairs.filter authenticationMacro).map (·.2) := by
  induction n generalizing values remainder with
  | zero =>
    cases remainder with
    | nil =>
      obtain rfl : values = values' := by simpa [readMacros] using h
      exact ⟨[], rfl, by simp, by simp⟩
    | cons a rest => simp [readMacros] at h
  | succ n ih =>
    cases remainder with
    | nil =>
      obtain rfl : values = values' := by simpa [readMacros] using h
      exact ⟨[], rfl, by simp, by simp⟩
    | cons a rest =>
      simp only [readMacros] at h
      split at h
      · simp at h
      rename_i name afterName hname
      split_ifs at h with hempty
      split at h
      · simp at h
      rename_i value afterValue hvalue
      split at h
      · simp at h
      rename_i next hadd
      obtain ⟨hnameEq, hnameZero⟩ := eq_append_of_cut 0 _ _ _ hname
      obtain ⟨hvalueEq, hvalueZero⟩ := eq_append_of_cut 0 _ _ _ hvalue
      obtain ⟨pairs, hpairs, hterminated, hidentity⟩ := ih next afterValue h
      refine ⟨(name, value) :: pairs, ?_, ?_, ?_⟩
      · rw [hnameEq, hvalueEq, hpairs]
        simp [encodePairs]
      · exact List.forall_mem_cons.mpr ⟨⟨hempty, hnameZero, hvalueZero⟩, hterminated⟩
      · rw [hidentity, addMacro_authentication values next name value hadd, List.append_assoc,
          ← List.map_append, ← List.filter_append]
        rfl

theorem parseSessionMacros_frame (payload : Bytes) (target : UInt8) (values : SessionMacroValues)
    (h : parseSessionMacros payload = some (target, values)) :
    ∃ pairs, MacroFrame payload target pairs ∧
      values.authenticationIdentity.toList = (pairs.filter authenticationMacro).map (·.2) := by
  have hparsed : (parseSessionMacros payload).isSome := by simp [h]
  unfold parseSessionMacros at h
  cases payload with
  | nil => simp at h
  | cons first remainder =>
    dsimp only at h
    split_ifs at h with hremainder hlast
    · obtain ⟨rfl, rfl⟩ :
          first = target ∧ (⟨none, none, none, none⟩ : SessionMacroValues) = values :=
        by simpa using h
      exact ⟨[], ⟨hparsed, by simp [hremainder, encodePairs], by simp⟩, by simp⟩
    · obtain ⟨found, hread, hfound⟩ := Option.map_eq_some_iff.mp h
      obtain ⟨rfl, rfl⟩ := Prod.mk.inj hfound
      obtain ⟨pairs, hpairs, hterminated, hidentity⟩ := readMacros_pairs _ _ _ _ hread
      exact ⟨pairs, ⟨hparsed, by rw [hpairs], hterminated⟩, by simpa using hidentity⟩

/-- The bytes determine the names and values. -/
theorem encodePairs_inj (pairs pairs' : List (Bytes × Bytes))
    (h : ∀ pair ∈ pairs, 0 ∉ pair.1 ∧ 0 ∉ pair.2) (h' : ∀ pair ∈ pairs', 0 ∉ pair.1 ∧ 0 ∉ pair.2)
    (heq : encodePairs pairs = encodePairs pairs') : pairs = pairs' := by
  induction pairs generalizing pairs' with
  | nil =>
    cases pairs' with
    | nil => rfl
    | cons pair rest => simp [encodePairs] at heq
  | cons pair rest ih =>
    cases pairs' with
    | nil => simp [encodePairs] at heq
    | cons pair' rest' =>
      obtain ⟨hpair, hrest⟩ := List.forall_mem_cons.mp h
      obtain ⟨hpair', hrest'⟩ := List.forall_mem_cons.mp h'
      have hbytes : pair.1 ++ 0 :: (pair.2 ++ 0 :: encodePairs rest) =
          pair'.1 ++ 0 :: (pair'.2 ++ 0 :: encodePairs rest') := by
        simpa [encodePairs] using heq
      have hname := cut_append 0 pair.1 (pair.2 ++ 0 :: encodePairs rest) hpair.1
      rw [hbytes, cut_append 0 pair'.1 _ hpair'.1] at hname
      obtain ⟨hfirst, htail⟩ := Prod.mk.inj (Option.some.inj hname)
      have hvalue := cut_append 0 pair.2 (encodePairs rest) hpair.2
      rw [← htail, cut_append 0 pair'.2 _ hpair'.2] at hvalue
      obtain ⟨hsecond, htail'⟩ := Prod.mk.inj (Option.some.inj hvalue)
      rw [Prod.ext hfirst.symm hsecond.symm, ih rest' hrest hrest' htail'.symm]

theorem MacroFrame.unique {payload : Bytes} {target target' : UInt8}
    {pairs pairs' : List (Bytes × Bytes)} (h : MacroFrame payload target pairs)
    (h' : MacroFrame payload target' pairs') : target = target' ∧ pairs = pairs' := by
  obtain ⟨htarget, hpairs⟩ := List.cons.inj (h.bytes.symm.trans h'.bytes)
  exact ⟨htarget, encodePairs_inj pairs pairs' (fun p hp => (h.terminated p hp).2)
    (fun p hp => (h'.terminated p hp).2) hpairs⟩

/-- What the session takes from a macro frame is what the frame carries. -/
theorem suppliedIdentity_eq_some_iff (payload identity : Bytes) :
    suppliedIdentity payload = some identity ↔ CarriesIdentity payload identity := by
  constructor
  · intro h
    unfold suppliedIdentity at h
    cases hparse : parseSessionMacros payload with
    | none => simp [hparse] at h
    | some parsed =>
      obtain ⟨target, values⟩ := parsed
      obtain ⟨pairs, hframe, hidentity⟩ := parseSessionMacros_frame payload target values hparse
      rw [hparse] at h
      dsimp only at h
      split_ifs at h with htarget
      obtain ⟨value, hvalue, rfl⟩ := Option.map_eq_some_iff.mp h
      rw [hvalue] at hidentity
      obtain ⟨pair, hpair⟩ : ∃ pair, pairs.filter authenticationMacro = [pair] := by
        rw [← List.length_eq_one_iff]
        simpa using congrArg List.length hidentity.symm
      refine ⟨target, pairs, pair.1, value, hframe, htarget, ?_, rfl⟩
      have hsecond : pair.2 = value := by simpa [hpair] using hidentity.symm
      rw [hpair, ← hsecond]
  · rintro ⟨target, pairs, name, value, hframe, htarget, hpairs, rfl⟩
    obtain ⟨⟨target', values⟩, hparse⟩ := Option.isSome_iff_exists.mp hframe.parsed
    obtain ⟨pairs', hframe', hidentity⟩ := parseSessionMacros_frame payload target' values hparse
    obtain ⟨rfl, rfl⟩ := hframe.unique hframe'
    have hvalue : values.authenticationIdentity = some value := by
      rw [hpairs] at hidentity
      cases hfield : values.authenticationIdentity with
      | none => simp [hfield] at hidentity
      | some found => simpa [hfield] using hidentity
    simp [suppliedIdentity, hparse, htarget, hvalue]

/-- The commands read so far. -/
def reads (events : List Event) : List (UInt8 × Bytes) :=
  events.filterMap fun
    | .commandRead command payload => some (command, payload)
    | _ => none

/-- The connection was opened in the history and not closed or reopened since. -/
def Opened (history : List (UInt8 × Bytes)) : Prop :=
  ∃ before connect after, history = before ++ (commandConnect, connect) :: after ∧
    ∀ read ∈ after, read.1 ≠ commandConnect ∧ read.1 ≠ commandQuitSMTPConnection

/-- Since the connection was opened, the latest macro frame that carried an
identity carried this one. -/
def Supplied (history : List (UInt8 × Bytes)) (identity : Bytes) : Prop :=
  ∃ before connect between payload after,
    history = before ++ (commandConnect, connect) :: between ++ (commandMacro, payload) :: after ∧
    (∀ read ∈ between ++ after, read.1 ≠ commandConnect ∧ read.1 ≠ commandQuitSMTPConnection) ∧
    CarriesIdentity payload identity ∧
    ∀ read ∈ after, read.1 = commandMacro → ∀ other, ¬ CarriesIdentity read.2 other

/-- The session's connection and identity are those of the history. -/
structure Tracks (history : List (UInt8 × Bytes)) (ss : Session) : Prop where
  negotiating : ss.phase = .negotiation → ss.connected = false
  opened : ss.connected → Opened history
  supplied : ss.authentication.authenticated → ss.connected ∧ ss.authentication.identity ≠ [] ∧
    Supplied history ss.authentication.identity

variable (d : Deps) (net : NetIP) {history : List (UInt8 × Bytes)}

theorem Opened.snoc (h : Opened history) (read : UInt8 × Bytes)
    (hread : read.1 ≠ commandConnect ∧ read.1 ≠ commandQuitSMTPConnection) :
    Opened (history ++ [read]) := by
  obtain ⟨before, connect, after, rfl, hafter⟩ := h
  refine ⟨before, connect, after ++ [read], by simp, ?_⟩
  exact List.forall_mem_append.mpr ⟨hafter, by simpa using hread⟩

theorem Supplied.snoc {identity : Bytes} (h : Supplied history identity) (read : UInt8 × Bytes)
    (hread : read.1 ≠ commandConnect ∧ read.1 ≠ commandQuitSMTPConnection)
    (hmacros : read.1 = commandMacro → ∀ other, ¬ CarriesIdentity read.2 other) :
    Supplied (history ++ [read]) identity := by
  obtain ⟨before, connect, between, payload, after, rfl, hopen, hcarries, hlatest⟩ := h
  refine ⟨before, connect, between, payload, after ++ [read], by simp, ?_, hcarries, ?_⟩
  · rw [← List.append_assoc]
    exact List.forall_mem_append.mpr ⟨hopen, by simpa using hread⟩
  · exact List.forall_mem_append.mpr ⟨hlatest, by simpa using hmacros⟩

theorem Opened.supplied (h : Opened history) {payload identity : Bytes}
    (hcarries : CarriesIdentity payload identity) :
    Supplied (history ++ [(commandMacro, payload)]) identity := by
  obtain ⟨before, connect, after, rfl, hafter⟩ := h
  exact ⟨before, connect, after, payload, [], by simp, by simpa using hafter, hcarries, by simp⟩

theorem reads_append (es fs : List Event) : reads (es ++ fs) = reads es ++ reads fs :=
  List.filterMap_append

theorem reads_eq_nil (events : List Event) (h : ∀ e ∈ events, plain e) : reads events = [] := by
  refine List.filterMap_eq_nil_iff.mpr fun e he => ?_
  have hplain := h e he
  cases e <;> first | rfl | cases hplain

/-- No command is read, and connection and identity stay as they are. -/
def KeepsIdentity (s : St) (events : List Event) (t : St) : Prop :=
  reads events = [] ∧ t.session.connected = s.session.connected ∧
    t.session.authentication = s.session.authentication ∧
    (t.session.phase = .negotiation → s.session.phase = .negotiation)

theorem keepsIdentity_chains : Chains KeepsIdentity where
  refl _ := ⟨rfl, rfl, rfl, id⟩
  trans h h' := ⟨by rw [reads_append, h.1, h'.1]; rfl, h'.2.1.trans h.2.1,
    h'.2.2.1.trans h.2.2.1, fun hphase => h.2.2.2 (h'.2.2.2 hphase)⟩

theorem closeExactMessage_keepsIdentity (closeErr : Bool) :
    Follows KeepsIdentity (closeExactMessage closeErr) := by
  intro s
  unfold closeExactMessage
  split <;> exact ⟨rfl, rfl, rfl, id⟩

theorem keepsIdentity_respects : Respects d KeepsIdentity where
  chains := keepsIdentity_chains
  write payload s := by
    unfold writeFrame
    split_ifs <;> exact ⟨rfl, rfl, rfl, id⟩
  record events h s := ⟨reads_eq_nil events h, rfl, rfl, id⟩
  edit f h s := ⟨rfl, (h s.session).connected, (h s.session).authentication,
    (h s.session).negotiating⟩
  capture writeErr s := by
    unfold captureExact
    split
    · exact ⟨rfl, rfl, rfl, id⟩
    · split_ifs <;> exact ⟨rfl, rfl, rfl, id⟩
  readExact readErr s := by
    unfold readExactMessage
    split
    · exact ⟨rfl, rfl, rfl, id⟩
    · split_ifs <;> exact ⟨rfl, rfl, rfl, id⟩
  close := closeExactMessage_keepsIdentity
  reset phase closeErr createErr hphase := by
    have hopen : Follows KeepsIdentity (openExactMessage d createErr) := by
      intro s
      unfold openExactMessage
      split_ifs <;> exact ⟨rfl, rfl, rfl, id⟩
    refine Follows.bind keepsIdentity_chains (closeExactMessage_keepsIdentity closeErr) fun _ => ?_
    refine Follows.bind keepsIdentity_chains
      (fun s => ⟨rfl, rfl, rfl, fun h => absurd h hphase⟩) fun _ => ?_
    exact Follows.ite hopen (Follows.pure keepsIdentity_chains ())

theorem Tracks.of_disconnected {ss : Session} (history : List (UInt8 × Bytes))
    (hconnected : ss.connected = false) (hauthenticated : ss.authentication.authenticated = false) :
    Tracks history ss :=
  ⟨fun _ => hconnected, by simp [hconnected], by simp [hauthenticated]⟩

/-- A command that keeps the connection and is no macro only makes the history
longer. -/
theorem Tracks.snoc {history : List (UInt8 × Bytes)} {s t : St} {events : List Event}
    {command : UInt8} {payload : Bytes} (h : Tracks history s.session)
    (hkeeps : KeepsIdentity s events t)
    (hread : command ≠ commandConnect ∧ command ≠ commandQuitSMTPConnection)
    (hmacros : command ≠ commandMacro) : Tracks (history ++ [(command, payload)]) t.session := by
  obtain ⟨-, hconnected, hauthentication, hphase⟩ := hkeeps
  refine ⟨fun ht => hconnected.trans (h.negotiating (hphase ht)), ?_, ?_⟩
  · rw [hconnected]
    exact fun hs => (h.opened hs).snoc _ hread
  · rw [hconnected, hauthentication]
    intro hs
    obtain ⟨hopen, hne, hsupplied⟩ := h.supplied hs
    exact ⟨hopen, hne, hsupplied.snoc _ hread fun heq => absurd heq hmacros⟩

theorem captureSessionMacros_phase (table : Hostnames.CaseTable) (payload : Bytes) (ss : Session) :
    (captureSessionMacros net table payload ss).phase = ss.phase := by
  obtain ⟨_, _, _, _, _, hframe⟩ := captureSessionMacros_frame net table payload ss
  rw [hframe]

/-- A macro frame either supplies the identity or leaves it. -/
theorem macros_tracks (table : Hostnames.CaseTable) (payload : Bytes)
    (history : List (UInt8 × Bytes)) (ss : Session) (h : Tracks history ss) :
    Tracks (history ++ [(commandMacro, payload)]) (captureSessionMacros net table payload ss) := by
  obtain ⟨hconnected, hauthentication⟩ :=
    captureSessionMacros_authentication net table payload ss
  have hread : commandMacro ≠ commandConnect ∧ commandMacro ≠ commandQuitSMTPConnection := by decide
  refine ⟨?_, ?_, ?_⟩
  · rw [captureSessionMacros_phase, hconnected]
    exact h.negotiating
  · rw [hconnected]
    exact fun hs => (h.opened hs).snoc _ hread
  · rw [hconnected, hauthentication]
    have hnone : suppliedIdentity payload = none → ∀ other, ¬ CarriesIdentity payload other := by
      intro hnone other hcarries
      rw [(suppliedIdentity_eq_some_iff payload other).mpr hcarries] at hnone
      cases hnone
    have hkept : ss.authentication.authenticated → suppliedIdentity payload = none →
        ss.connected ∧ ss.authentication.identity ≠ [] ∧
          Supplied (history ++ [(commandMacro, payload)]) ss.authentication.identity := by
      intro hs hsupplies
      obtain ⟨hopen, hne, hsupplied⟩ := h.supplied hs
      exact ⟨hopen, hne, hsupplied.snoc _ hread fun _ => hnone hsupplies⟩
    cases hsupplies : suppliedIdentity payload with
    | none => exact fun hs => hkept hs hsupplies
    | some identity =>
      split_ifs with hopen
      · intro hs
        have hcarries := (suppliedIdentity_eq_some_iff payload identity).mp hsupplies
        exact ⟨hopen, by simpa using hs, (h.opened hopen).supplied hcarries⟩
      · exact fun hs => absurd (h.supplied hs).1 hopen

theorem quitSMTPConnection_disconnects (env : CommandEnv) (s : St) :
    reads (quitSMTPConnection d env s).events = [] ∧
      (quitSMTPConnection d env s).state.session.connected = false ∧
      (quitSMTPConnection d env s).state.session.authentication = ⟨false, []⟩ := by
  set next : St := { s with session := Session.disconnected s.session } with hnext
  obtain ⟨hreads, hconnected, hauthentication, -⟩ := (keepsIdentity_respects d).reset .connection
    env.closeErr env.createErr (by simp) next
  refine ⟨?_, hconnected, hauthentication⟩
  simpa [quitSMTPConnection, update] using hreads

/-- A refused CONNECT changes nothing; otherwise the connection is open and not
authenticated. -/
theorem connect_cases (env : CommandEnv) (payload : Bytes) (s : St) :
    reads (connect d net env payload s).events = [] ∧
      (((connect d net env payload s).value = false ∧ (connect d net env payload s).state = s) ∨
        (connect d net env payload s).state.session =
          Session.connectedTo net env payload s.session ∧
          s.session.phase = .connection) := by
  rw [connect, view_bind]
  by_cases hrefused : s.session.phase ≠ .connection ∨ s.session.connected
  · rw [id_eq, if_pos hrefused]
    exact ⟨rfl, Or.inl ⟨rfl, rfl⟩⟩
  · rw [id_eq, if_neg hrefused]
    set next : St := { s with session := Session.connectedTo net env payload s.session } with hnext
    have hrun : (update (Session.connectedTo net env payload) >>= fun _ => sendContinue d) s =
        sendContinue d next := rfl
    have hreads := ((keepsIdentity_respects d).write [responseContinue] next).1
    rw [hrun]
    refine ⟨hreads, Or.inr ⟨?_, ?_⟩⟩
    · unfold sendContinue writeFrame
      split_ifs <;> rfl
    · by_contra hphase
      exact hrefused (Or.inl hphase)

/-- One command, read in a session that tracks the history. The only command that
is not part of the new history is a refused CONNECT, which ends the session. -/
theorem handleCommand_tracks (env : FinishEnv) (command : UInt8) (payload : Bytes)
    (history : List (UInt8 × Bytes)) (s : St) (h : Tracks history s.session) :
    reads (handleCommand d net env command payload s).events = [] ∧
      (Tracks (history ++ [(command, payload)])
          (handleCommand d net env command payload s).state.session ∨
        (handleCommand d net env command payload s).value = false ∧ command = commandConnect ∧
          Tracks history (handleCommand d net env command payload s).state.session) := by
  rw [handleCommand, view_bind]
  by_cases hbefore : beforeNegotiation s.session.phase command
  · rw [if_pos hbefore]
    have hphase : s.session.phase = .negotiation := by
      simp only [beforeNegotiation, Bool.and_eq_true, decide_eq_true_eq] at hbefore
      exact hbefore.1.1.1
    have hconnected := h.negotiating hphase
    refine ⟨rfl, Or.inl (Tracks.of_disconnected _ hconnected ?_)⟩
    by_contra hauthenticated
    have hopen := (h.supplied (by simpa using hauthenticated)).1
    simp [hconnected] at hopen
  · rw [if_neg hbefore]
    by_cases hmacros : command = commandMacro
    · subst hmacros
      exact ⟨rfl, Or.inl (macros_tracks net d.platform.table payload history s.session h)⟩
    by_cases hquit : command = commandQuitSMTPConnection
    · subst hquit
      obtain ⟨hreads, hconnected, hauthentication⟩ :=
        quitSMTPConnection_disconnects d env.command s
      exact ⟨hreads, Or.inl (Tracks.of_disconnected _ hconnected (by
        change (quitSMTPConnection d env.command s).state.session.authentication.authenticated = _
        rw [hauthentication]))⟩
    by_cases hconnect : command = commandConnect
    · subst hconnect
      obtain ⟨hreads, ⟨hvalue, hstate⟩ | ⟨hsession, hphase⟩⟩ :=
        connect_cases d net env.command payload s
      · refine ⟨hreads, Or.inr ⟨hvalue, rfl, ?_⟩⟩
        change Tracks history (connect d net env.command payload s).state.session
        rw [hstate]
        exact h
      · refine ⟨hreads, Or.inl ?_⟩
        change Tracks _ (connect d net env.command payload s).state.session
        rw [hsession]
        exact ⟨fun hneg => by simp [Session.connectedTo, hphase] at hneg,
          fun _ => ⟨history, payload, [], rfl, by simp⟩, by simp [Session.connectedTo]⟩
    · have hkeeps := (keepsIdentity_respects d).dispatch net env command payload
        (fun heq => absurd heq hmacros) (fun heq => absurd heq hquit)
        (fun heq => absurd heq hconnect) s
      exact ⟨hkeeps.1, Or.inl (h.snoc hkeeps ⟨hconnect, hquit⟩ hmacros)⟩

/-- The session goes on with the next input when the command was accepted. -/
theorem serve_accepted (env : FinishEnv) (command : UInt8) (payload : Bytes) (rest : List Input)
    (s : St) (hvalue : (handleCommand d net env command payload s).value = true) :
    serve d net (.frame command payload env :: rest) s =
      let next := (handleCommand d net env command payload s).state
      ⟨(serve d net rest next).value, (serve d net rest next).state,
        .commandRead command payload :: (handleCommand d net env command payload s).events ++
          (serve d net rest next).events⟩ := by
  simp [serve, attemptAll, turn, hvalue]

theorem reads_command (command : UInt8) (payload : Bytes) (events rest : List Event)
    (h : reads events = []) :
    reads (.commandRead command payload :: events ++ rest) = (command, payload) :: reads rest := by
  rw [reads_append, ← List.singleton_append, reads_append, h]
  rfl

theorem serve_tracks (inputs : List Input) (history : List (UInt8 × Bytes)) (s : St)
    (h : Tracks history s.session) :
    ∃ history', Tracks history' (serve d net inputs s).state.session ∧
      (history ++ reads (serve d net inputs s).events = history' ∨
        (serve d net inputs s).value = false ∧ ∃ payload,
          history ++ reads (serve d net inputs s).events =
            history' ++ [(commandConnect, payload)]) := by
  induction inputs generalizing history s with
  | nil => exact ⟨history, h, Or.inl (by simp [serve, attemptAll, reads])⟩
  | cons input rest ih =>
    cases input with
    | deadlineFailed => exact ⟨history, h, Or.inl (by simp [serve, attemptAll, turn, reads])⟩
    | readFailed idle =>
      cases idle with
      | false => exact ⟨history, h, Or.inl (by simp [serve, attemptAll, turn, reads])⟩
      | true => exact ih history s h
    | frame command payload env =>
      obtain ⟨hreads, htracks⟩ := handleCommand_tracks d net env command payload history s h
      set o := handleCommand d net env command payload s with ho
      -- the session goes on with the next input exactly when the command was accepted
      cases hvalue : o.value with
      | false =>
        have hrun : serve d net (.frame command payload env :: rest) s =
            ⟨false, o.state, .commandRead command payload :: o.events⟩ := by
          simp [serve, attemptAll, turn, ← ho, hvalue]
        have hhistory :
            reads (.commandRead command payload :: o.events) = [(command, payload)] := by
          simpa [reads] using reads_command command payload o.events [] hreads
        rw [hrun]
        rw [hhistory]
        rcases htracks with htracks | ⟨-, hconnect, htracks⟩
        · exact ⟨_, htracks, Or.inl rfl⟩
        · exact ⟨history, htracks, Or.inr ⟨rfl, payload, by rw [hconnect]⟩⟩
      | true =>
        have htracks' : Tracks (history ++ [(command, payload)]) o.state.session := by
          rcases htracks with htracks | ⟨hfalse, -⟩
          · exact htracks
          · simp [hvalue] at hfalse
        rw [serve_accepted d net env command payload rest s hvalue]
        rw [reads_command _ _ _ _ hreads, List.append_cons]
        exact ih _ _ htracks'

theorem start_tracks : Tracks [] (start d).session :=
  Tracks.of_disconnected [] rfl rfl

/-- In every session, an authenticated state belongs to an open connection and
holds the identity of the latest macro frame that carried one since the
connection was opened; a refused CONNECT, which ends the session, is not counted.
A macro frame that carries no identity, or that comes while no connection is
open, leaves the authentication as it is. -/
theorem authenticated_identity_supplied (d : Deps) (net : NetIP) (inputs : List Input) :
    ((serve d net inputs (start d)).state.session.authentication.authenticated = true →
      (serve d net inputs (start d)).state.session.connected = true ∧
      (serve d net inputs (start d)).state.session.authentication.identity ≠ [] ∧
      ∃ history, Supplied history
          (serve d net inputs (start d)).state.session.authentication.identity ∧
        (reads (serve d net inputs (start d)).events = history ∨
          (serve d net inputs (start d)).value = false ∧ ∃ payload,
            reads (serve d net inputs (start d)).events = history ++ [(commandConnect, payload)])) ∧
    ∀ env payload, (serve d net inputs (start d)).value = true →
      ((∀ identity, ¬ CarriesIdentity payload identity) ∨
        ¬ Opened (reads (serve d net inputs (start d)).events)) →
      (handleCommand d net env commandMacro payload
        (serve d net inputs (start d)).state).state.session.authentication =
          (serve d net inputs (start d)).state.session.authentication := by
  obtain ⟨history, htracks, hhistory⟩ := serve_tracks d net inputs [] (start d) (start_tracks d)
  refine ⟨fun hauthenticated => ?_, fun env payload hopen hcondition => ?_⟩
  · obtain ⟨hconnected, hne, hsupplied⟩ := htracks.supplied hauthenticated
    exact ⟨hconnected, hne, history, hsupplied, hhistory⟩
  · have hreads : reads (serve d net inputs (start d)).events = history := by
      rcases hhistory with heq | ⟨hvalue, -⟩
      · exact heq
      · simp [hopen] at hvalue
    have hmacros : ∀ s, (handleCommand d net env commandMacro payload s).state.session =
        captureSessionMacros net d.platform.table payload s.session := by
      intro s
      rw [handleCommand, view_bind, if_neg (by simp [beforeNegotiation])]
      rfl
    rw [hmacros, (captureSessionMacros_authentication net _ payload _).2]
    cases hsupplies : suppliedIdentity payload with
    | none => rfl
    | some identity =>
      have hcarries := (suppliedIdentity_eq_some_iff payload identity).mp hsupplies
      rcases hcondition with hnone | hclosed
      · exact absurd hcarries (hnone identity)
      · rw [hreads] at hclosed
        exact if_neg fun hconnected => hclosed (htracks.opened hconnected)

/-- A macro frame for MAIL that names one user. -/
def aliceMacro : Input :=
  quietFrame commandMacro (commandMail :: ascii "{auth_authen}" ++ 0 :: ascii "alice" ++ [0])

theorem authenticated_identity_supplied_mail :
    ∃ history, Supplied history (serve plainDeps noAddresses (opening ++ [aliceMacro])
      (start plainDeps)).state.session.authentication.identity := by
  have hauthenticated : (serve plainDeps noAddresses (opening ++ [aliceMacro])
      (start plainDeps)).state.session.authentication.authenticated = true := by decide +kernel
  obtain ⟨-, -, history, hsupplied, -⟩ := (authenticated_identity_supplied plainDeps noAddresses
    (opening ++ [aliceMacro])).1 hauthenticated
  exact ⟨history, hsupplied⟩

end MilterGuard.AuthenticationProvenance
