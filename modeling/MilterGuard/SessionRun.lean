import MilterGuard.FinishMessage

/-!
The life of one Milter connection: commands are read and handled one at a time
until one of them ends the session, reading fails, or the connection closes. An
exact-message store that is still open is closed at the end.
-/
namespace MilterGuard.SessionRun

open ByteStrings Procedures WireProtocol SessionState SessionCommands FinishMessage

variable (d : Deps)

def abort (env : CommandEnv) : Run Bool := do
  resetMessage d .connection env.closeErr env.createErr
  pure true

def quitSMTPConnection (env : CommandEnv) : Run Bool := do
  update Session.disconnected
  resetMessage d .connection env.closeErr env.createErr
  pure true

variable (net : NetIP)

def macros (payload : Bytes) : Run Bool := do
  update (captureSessionMacros net d.platform.table payload)
  pure true

/-- The last chunk may come with the end of the body. -/
def lastChunk (env : CommandEnv) (payload : Bytes) : Run Unit :=
  if payload ≠ [] then bodyChunk env payload else pure ()

def endBody (env : FinishEnv) (payload : Bytes) : Run Bool := do
  let phase ← view Session.phase
  if phase ≠ .body then pure false
  else
    lastChunk env.command payload
    finishMessage d net env

/-- Macros are allowed before the negotiation; of the other commands only the
negotiation itself and the end of the connection are. -/
def beforeNegotiation (phase : ProtocolPhase) (command : UInt8) : Bool :=
  phase = .negotiation && command ≠ commandOptionNegotiation && command ≠ commandMacro &&
    command ≠ commandQuitMilterConnection

def dispatch (env : FinishEnv) (command : UInt8) (payload : Bytes) : Run Bool :=
  if command = commandOptionNegotiation then negotiate d payload
  else if command = commandMacro then macros d net payload
  else if command = commandAbort then abort d env.command
  else if command = commandQuitSMTPConnection then quitSMTPConnection d env.command
  else if command = commandConnect then connect d net env.command payload
  else if command = commandHelo then helo d payload
  else if command = commandMail then mail d env.command payload
  else if command = commandRecipient then recipient d payload
  else if command = commandData then data d
  else if command = commandUnknown then sendContinue d
  else if command = commandHeader then addHeader d env.command payload
  else if command = commandEndHeaders then endHeaders d env.command
  else if command = commandBody then body d env.command payload
  else if command = commandEndBody then endBody d net env payload
  else pure false

def handleCommand (env : FinishEnv) (command : UInt8) (payload : Bytes) :
    Run Bool := do
  let phase ← view Session.phase
  if beforeNegotiation phase command then pure false else dispatch d net env command payload

/-- One turn of the read loop. A timeout before the first byte of a frame is
not an error. -/
inductive Input
  | deadlineFailed
  | readFailed (idle : Bool)
  | frame (command : UInt8) (payload : Bytes) (env : FinishEnv)

def turn : Input → Run Bool
  | .deadlineFailed => pure false
  | .readFailed idle => pure idle
  | .frame command payload env => do
    log [.commandRead command payload]
    handleCommand d net env command payload

/-- Takes the turns in order and says whether the session is still open. -/
def serve (inputs : List Input) : Run Bool :=
  attemptAll (turn d net) inputs

def run (inputs : List Input) (closeErr : Bool) : Run Unit := do
  let _ ← serve d net inputs
  closeExactMessage closeErr

def handleReadError (bytesRead : ℕ) (err : ReadError) : Bool := err = .timeout ∧ bytesRead = 0

/-- The frames that so many rounds of the read loop hand on while no command ends it. -/
def framesRead : ℕ → Arrivals → List Bytes
  | 0, _ => []
  | rounds + 1, arrivals =>
    match readFrameProgress arrivals with
    | (frame, _, none, rest) => frame :: framesRead rounds rest
    | (_, bytesRead, some err, rest) =>
      if handleReadError bytesRead err then framesRead rounds rest else []

/-- A session before its first command. -/
def newSession : Session where
  phase := .negotiation
  connected := false
  peerIP := none
  peerHostname := []
  mtaHostname := []
  pendingMTAHostname := []
  receiverIP := none
  pendingReceiverIP := none
  heloIdentity := []
  smtpUTF8 := false
  authentication := ⟨false, []⟩
  envelopeSender := []
  envelopeRecipients := []
  envelopeRecipientsTruncated := false
  visibleSender := []
  visibleSenderDomain := []
  visibleFromInvalid := false
  protectedSenderDomain := []
  connectionDNS := ⟨.unset, []⟩
  connectionDNSPending := false
  message := MessageBuffer.new d.maxMessageSize
  exactMessage := none
  exactMessageErr := false
  negotiatedActions := 0
  pendingSenderBlocks := none
  senderBlocklistFrom := []
  senderBlocklistFromTruncated := false

def start : St := ⟨newSession d, 0, 0⟩

/-- A small enforcing configuration over ASCII addresses, for concrete runs. -/
def plainDeps : Deps where
  platform := MailAddresses.bareAddresses
  mode := .enforce
  maxMessageSize := 1000
  internalAuthentication := false
  exactFactory := true
  authenticatedOnlySenderDomains := []
  rejectMessage := ascii "rejected"
  ipRejectMessage := []
  addEmailHeaders := false
  scanAuthenticated := false
  attachmentsEnabled := false
  attachmentRejectMessage := ascii "rejected"
  attachmentIPStrike := false
  senderBlocklist := true
  senderBlocklistRejectMessage := ascii "blocked"
  includeSubdomains := true
  commandsEnabled := false
  commandRecipient := []
  commandAdministrators := []
  allowAuthenticatedUsers := false
  verifySenderViaAliases := false
  parses := fun _ _ => false
  sameFold := fun _ _ => false
  internalToken := []
  trustRequirement := .dkim
  senderDomainAllowlist := []
  senderDomainAllowlistRequireAuthentication := true
  useAllowlist := false
  scopePerSender := false
  recipientMatchAll := false
  requireAuthenticationForBypass := true
  bypassAI := false
  writeFails := fun _ => false

def noAddresses : NetIP where
  parseAddr := fun _ => none
  is4 := fun _ => false
  is4In6 := fun _ => false
  is6 := fun _ => false
  canonical := id
  isLoopback := fun _ => false
  addressRoutable := fun _ => false

/-- An environment in which nothing fails and nothing is found. -/
def quietCommand : CommandEnv where
  closeErr := false
  createErr := false
  exactWriteErr := false
  dnsStarted := false
  dnsAnswer := ⟨.notApplicable, []⟩
  ipAllowed := false
  usesDomainAllowlist := false
  domainAllowed := fun _ => false
  ipBlocked := false

def quietFinish : FinishEnv where
  command := quietCommand
  deadlineSet := true
  senderOwned := false
  commandLines := none
  replyAccepted := false
  blocklist := none
  attachment := ⟨false, false, false, .accept, false, []⟩
  exactReadErr := false
  authenticationTicks := 0
  evidence := ⟨false, false, false⟩
  correspondent := (false, false)
  analysisTicks := 0
  analyzerStart := some 0
  analyzerRaces := false
  interrupted := false
  result := ⟨false, .accept, .accept, .legitimate, ascii "0", false, false, false, []⟩

def quietFrame (command : UInt8) (payload : Bytes) : Input := .frame command payload quietFinish

/-- Negotiation with every action offered, and a connection. -/
def opening : List Input :=
  [quietFrame commandOptionNegotiation (putUint32 6 ++ putUint32 0x1FF ++ putUint32 0),
    quietFrame commandConnect (ascii "mail.example" ++ [0])]

end MilterGuard.SessionRun
