import MilterGuard.SessionState

/-!
The commands of a session other than end-of-body. Each either ends the session
or answers with one frame; macros, aborts and the end of an SMTP connection are
not answered. Only a macro frame and the connection commands touch the
authentication of the session.
-/
namespace MilterGuard.SessionCommands

open ByteStrings Hostnames MailAddresses Procedures WireProtocol SessionState SenderPolicies

/-- netip as the session uses it: text to a canonical address, with its family. -/
structure NetIP where
  parseAddr : Bytes → Option Bytes
  is4 : Bytes → Bool
  is4In6 : Bytes → Bool
  is6 : Bytes → Bool
  canonical : Bytes → Bytes
  isLoopback : Bytes → Bool
  /-- netsafety.AddressRoutable of a valid address. -/
  addressRoutable : Bytes → Bool

def maxEnvelopeRecipients : ℕ := 100
def maxSenderBlockAddresses : ℕ := 100

variable (net : NetIP)

def parseConnectIP (payload : Bytes) : Option Bytes :=
  match cut 0 payload with
  | some (_, family :: _ :: _ :: text) =>
    if family ≠ 0x34 ∧ family ≠ 0x36 then none
    else if text.length < 2 ∨ text.getLast? ≠ some 0 ∨ 0 ∈ text.dropLast then none
    else match net.parseAddr text.dropLast with
      | none => none
      | some addr =>
        if family = 0x34 ∧ ¬ net.is4 addr ∧ ¬ net.is4In6 addr ∨ family = 0x36 ∧ ¬ net.is6 addr
        then none
        else some (net.canonical addr)
  | _ => none

variable (table : CaseTable)

def validMTAHostname (value : Bytes) : Bytes :=
  let value := dnsHostname table value
  if value = [] then [] else if (net.parseAddr value).isSome then [] else value

def canonicalMacroIP (value : Bytes) : Option Bytes :=
  let value := trimSuffix (trimPrefix (trimSpace value) [0x5B]) [0x5D]
  let value := if hasPrefix (toLower table value) (ascii "ipv6:") then value.drop 5 else value
  (net.parseAddr value).map net.canonical

/-- What the environment decides while one command is handled. -/
structure CommandEnv where
  closeErr : Bool
  createErr : Bool
  exactWriteErr : Bool
  dnsStarted : Bool
  dnsAnswer : ConnectionDNSResult
  ipAllowed : Bool
  usesDomainAllowlist : Bool
  domainAllowed : ConnectionDNSResult → Bool
  ipBlocked : Bool

def awaitConnectionDNS (env : CommandEnv) (ss : Session) : Session :=
  if ss.connectionDNSPending then
    { ss with connectionDNS := env.dnsAnswer, connectionDNSPending := false }
  else ss

variable (d : Deps)

def sendContinue : Run Bool := writeFrame d [responseContinue]

def negotiate (payload : Bytes) : Run Bool := do
  let phase ← view Session.phase
  if phase ≠ .negotiation ∨ payload.length ≠ optionPayloadBytes then pure false
  else
    let version := uint32 payload
    let offeredActions := uint32 (payload.drop 4)
    if version < minimumProtocolVersion then pure false
    else
      let version :=
        if version > supportedProtocolVersion then supportedProtocolVersion else version
      let requested := offeredActions &&& (resultHeaderActions ||| actionDeleteRecipient)
      update fun ss => { ss with negotiatedActions := requested }
      if ← writeFrame d (optionResponse version requested) then
        update fun ss => { ss with phase := .connection }
        pure true
      else pure false

/-- The end of the SMTP connection forgets the peer and its authentication. -/
def Session.disconnected (ss : Session) : Session :=
  { ss with
    connected := false
    peerIP := none
    peerHostname := []
    mtaHostname := []
    pendingMTAHostname := []
    receiverIP := none
    pendingReceiverIP := none
    heloIdentity := []
    smtpUTF8 := false
    authentication := ⟨false, []⟩
    connectionDNS := ⟨.notApplicable, []⟩
    connectionDNSPending := false }

def Session.connectedTo (env : CommandEnv) (payload : Bytes) (ss : Session) : Session :=
  { ss with
    connected := true
    mtaHostname := ss.pendingMTAHostname
    pendingMTAHostname := []
    receiverIP := ss.pendingReceiverIP
    pendingReceiverIP := none
    peerIP := parseConnectIP net payload
    peerHostname := ((parseConnectHostname payload).map cleanSMTPIdentity).getD []
    heloIdentity := []
    authentication := ⟨false, []⟩
    connectionDNS := ⟨.notApplicable, []⟩
    connectionDNSPending := (parseConnectIP net payload).isSome && env.dnsStarted }

def connect (net : NetIP) (env : CommandEnv) (payload : Bytes) : Run Bool := do
  let ss ← view id
  if ss.phase ≠ .connection ∨ ss.connected then pure false
  else
    update (Session.connectedTo net env payload)
    sendContinue d

def helo (payload : Bytes) : Run Bool := do
  let ss ← view id
  if ss.phase ≠ .connection ∨ ¬ ss.connected then pure false
  else
    update fun ss =>
      { ss with heloIdentity := ((parseSMTPIdentity payload).map cleanSMTPIdentity).getD [] }
    sendContinue d

variable (env : CommandEnv)

/-- The message to send when the peer is blocked, after the allowlists. -/
def reputationBlock (ss : Session) : Option Bytes :=
  if d.mode ≠ .enforce ∨ ss.authentication.authenticated ∨ env.ipAllowed then none
  else if env.usesDomainAllowlist ∧ env.domainAllowed (awaitConnectionDNS env ss).connectionDNS then
    none
  else if env.ipBlocked then
    some (if d.ipRejectMessage = [] then d.rejectMessage else d.ipRejectMessage)
  else none

/-- The lookup of the peer's name is awaited only for the domain allowlist. -/
def reputationWait (ss : Session) : Session :=
  if d.mode = .enforce ∧ ¬ ss.authentication.authenticated ∧ ¬ env.ipAllowed ∧
      env.usesDomainAllowlist
  then awaitConnectionDNS env ss
  else ss

variable (payload : Bytes)

def mail : Run Bool := do
  let ss ← view id
  if ss.phase ≠ .connection ∨ ¬ ss.connected then pure false
  else
    update (reputationWait d env)
    match reputationBlock d env ss with
    | some text =>
      let sent ← writeFrame d (replyCode (ascii "550") (ascii "5.7.1") text)
      log [.activityRecorded]
      pure sent
    | none =>
      resetMessage d .envelope env.closeErr env.createErr
      update fun ss =>
        match parseEnvelopeAddress payload with
        | none => ss
        | some sender => { ss with
            envelopeSender := sender
            smtpUTF8 := sender.any (0x80 ≤ ·) || envelopeHasSMTPUTF8 payload }
      sendContinue d

def Session.addRecipient (ss : Session) : Session :=
  match parseEnvelopeAddress payload with
  | none => { ss with envelopeRecipientsTruncated := true }
  | some recipient =>
    if ss.envelopeRecipients.length < maxEnvelopeRecipients then
      { ss with envelopeRecipients := ss.envelopeRecipients ++ [recipient] }
    else { ss with envelopeRecipientsTruncated := true }

def recipient : Run Bool := do
  let phase ← view Session.phase
  if phase ≠ .envelope then pure false
  else
    update (Session.addRecipient payload)
    sendContinue d

def data : Run Bool := do
  let phase ← view Session.phase
  if phase ≠ .envelope then pure false else sendContinue d

/-- Mailboxes are collected without repetition until the limit is passed. -/
def collectFrom : List Bytes → Session → Session
  | [], ss => ss
  | sender :: rest, ss =>
    if sender ∈ ss.senderBlocklistFrom then collectFrom rest ss
    else if ss.senderBlocklistFrom.length ≥ maxSenderBlockAddresses then
      { ss with senderBlocklistFromTruncated := true }
    else collectFrom rest { ss with senderBlocklistFrom := ss.senderBlocklistFrom ++ [sender] }

/-- What a From header adds to the sender policies. The first reserved domain
is kept. -/
def Session.readFrom (value : Bytes) (ss : Session) : Session :=
  let domain := if ss.protectedSenderDomain = [] then
      authenticatedOnlyFromValue d.platform value d.authenticatedOnlySenderDomains
    else ss.protectedSenderDomain
  collectFrom (strictVisibleFromMailboxes d.platform [value])
    { ss with protectedSenderDomain := domain }

def Session.addHeader (d : Deps) (name value : Bytes) (ss : Session) : Session :=
  let ss := if equalFold (trimSpace name) (ascii "From") then Session.readFrom d value ss else ss
  { ss with message := MessageBuffer.addHeader d.platform.table ss.message name value }

def addHeader : Run Bool := do
  let phase ← view Session.phase
  if phase ≠ .envelope then pure false
  else match parseHeader payload with
    | none => pure false
    | some (name, value) =>
      update (Session.addHeader d name value)
      captureExact env.exactWriteErr
      sendContinue d

def endHeaders : Run Bool := do
  let phase ← view Session.phase
  if phase ≠ .envelope then pure false
  else
    update fun ss => { ss with phase := .body }
    captureExact env.exactWriteErr
    sendContinue d

def bodyChunk : Run Unit := do
  update fun ss => { ss with message := MessageBuffer.addBody ss.message payload }
  captureExact env.exactWriteErr

def body : Run Bool := do
  let phase ← view Session.phase
  if phase ≠ .body then pure false
  else
    bodyChunk env payload
    sendContinue d

/-- The commands whose macros may carry the authenticated identity. -/
def authenticationTarget (target : UInt8) : Bool :=
  target = commandMail || target = commandData || target = commandEndHeaders ||
    target = commandEndBody

def captureMTAHostname (target : UInt8) (values : SessionMacroValues) (ss : Session) : Session :=
  match values.mtaHostname with
  | none => ss
  | some value =>
    if target = commandConnect then
      { ss with pendingMTAHostname := validMTAHostname net table value }
    else if ss.connected then { ss with mtaHostname := validMTAHostname net table value }
    else ss

def captureReceiver (target : UInt8) (values : SessionMacroValues) (ss : Session) : Session :=
  match values.receiverAddress with
  | none => ss
  | some value =>
    if target = commandConnect then
      { ss with pendingReceiverIP := canonicalMacroIP net table value }
    else if ss.connected then { ss with receiverIP := canonicalMacroIP net table value }
    else ss

def captureAuthentication (target : UInt8) (values : SessionMacroValues) (ss : Session) : Session :=
  match values.authenticationIdentity with
  | none => ss
  | some value =>
    if ss.connected && authenticationTarget target then
      { ss with authentication := ⟨cleanSMTPIdentity value ≠ [], cleanSMTPIdentity value⟩ }
    else ss

def captureSessionMacros (ss : Session) : Session :=
  match parseSessionMacros payload with
  | none => ss
  | some (target, values) =>
    captureAuthentication target values
      (captureReceiver net table target values (captureMTAHostname net table target values ss))

/-- The identity that a macro frame supplies to an active connection. -/
def suppliedIdentity : Option Bytes :=
  match parseSessionMacros payload with
  | none => none
  | some (target, values) =>
    if authenticationTarget target then values.authenticationIdentity.map cleanSMTPIdentity
    else none

theorem captureMTAHostname_frame (target : UInt8) (values : SessionMacroValues) (ss : Session) :
    ∃ pending hostname, captureMTAHostname net table target values ss = { ss with
      pendingMTAHostname := pending, mtaHostname := hostname } := by
  unfold captureMTAHostname
  split
  · exact ⟨_, _, rfl⟩
  · split_ifs <;> exact ⟨_, _, rfl⟩

theorem captureReceiver_frame (target : UInt8) (values : SessionMacroValues) (ss : Session) :
    ∃ pending receiver, captureReceiver net table target values ss = { ss with
      pendingReceiverIP := pending, receiverIP := receiver } := by
  unfold captureReceiver
  split
  · exact ⟨_, _, rfl⟩
  · split_ifs <;> exact ⟨_, _, rfl⟩

/-- A macro frame touches the names of the receiving host and the authentication. -/
theorem captureSessionMacros_frame (payload : Bytes) (ss : Session) :
    ∃ pendingHostname hostname pendingReceiver receiver authentication,
      captureSessionMacros net table payload ss = { ss with
        pendingMTAHostname := pendingHostname, mtaHostname := hostname
        pendingReceiverIP := pendingReceiver, receiverIP := receiver
        authentication := authentication } := by
  unfold captureSessionMacros
  split
  · exact ⟨_, _, _, _, _, rfl⟩
  · rename_i target values _
    obtain ⟨pendingHostname, hostname, hhost⟩ := captureMTAHostname_frame net table target values ss
    obtain ⟨pendingReceiver, receiver, hreceiver⟩ := captureReceiver_frame net table target values
      (captureMTAHostname net table target values ss)
    rw [hreceiver, hhost]
    unfold captureAuthentication
    split
    · exact ⟨_, _, _, _, _, rfl⟩
    · split_ifs <;> exact ⟨_, _, _, _, _, rfl⟩

/-- A macro frame sets the authentication exactly when the connection is active
and the frame supplies an identity; otherwise it leaves it as it is. -/
theorem captureSessionMacros_authentication (payload : Bytes) (ss : Session) :
    (captureSessionMacros net table payload ss).connected = ss.connected ∧
      (captureSessionMacros net table payload ss).authentication =
        match suppliedIdentity payload with
        | some identity => if ss.connected then ⟨identity ≠ [], identity⟩ else ss.authentication
        | none => ss.authentication := by
  unfold captureSessionMacros suppliedIdentity
  cases hparse : parseSessionMacros payload with
  | none => exact ⟨rfl, rfl⟩
  | some parsed =>
    obtain ⟨target, values⟩ := parsed
    dsimp only
    obtain ⟨pendingHostname, hostname, hhost⟩ := captureMTAHostname_frame net table target values ss
    obtain ⟨pendingReceiver, receiver, hframe⟩ := captureReceiver_frame net table target values
      (captureMTAHostname net table target values ss)
    obtain ⟨hreceiver, hreceiverConnected⟩ :
        (captureReceiver net table target values
          (captureMTAHostname net table target values ss)).authentication = ss.authentication ∧
        (captureReceiver net table target values
          (captureMTAHostname net table target values ss)).connected = ss.connected := by
      rw [hframe, hhost]
      exact ⟨rfl, rfl⟩
    unfold captureAuthentication
    cases hidentity : values.authenticationIdentity with
    | none =>
      refine ⟨hreceiverConnected, ?_⟩
      cases authenticationTarget target <;> simpa using hreceiver
    | some value =>
      cases htarget : authenticationTarget target <;> cases hconnected : ss.connected <;>
        simp [hreceiver, hreceiverConnected, hconnected]

end MilterGuard.SessionCommands
