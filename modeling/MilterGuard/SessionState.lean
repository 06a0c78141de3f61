import MilterGuard.Procedures
import MilterGuard.SenderPolicies
import MilterGuard.AdminCommands
import MilterGuard.WireProtocol
import MilterGuard.MessageBuffer

/-!
The state of one Milter session, the events it logs, and the operations on the
message it collects. A frame write either sends its payload or fails, as the
connection decides for each attempt. An exact-message store is known by the
number under which it was created.
-/
namespace MilterGuard.SessionState

open ByteStrings Hostnames MailAddresses Procedures WireProtocol

inductive Mode
  | accept
  | enforce
  deriving DecidableEq

inductive Action
  | accept
  | reject
  | tempfail
  deriving DecidableEq

inductive ProtocolPhase
  | negotiation
  | connection
  | envelope
  | body
  deriving DecidableEq

structure AuthenticationState where
  authenticated : Bool
  identity : Bytes
  deriving DecidableEq

structure PendingSenderBlocklist where
  blockedRecipients : List Bytes
  remainingRecipients : List Bytes
  matchedSender : Bytes
  matchedKind : BlocklistTable.SenderBlockKind
  deriving DecidableEq

inductive ReverseDNSStatus
  | unset
  | notApplicable
  | absent
  | lookupFailed
  | available
  deriving DecidableEq

/-- Reverse DNS of the peer with the host names found for it. -/
structure ConnectionDNSResult where
  status : ReverseDNSStatus
  names : List Bytes
  deriving DecidableEq

structure Session where
  phase : ProtocolPhase
  connected : Bool
  peerIP : Option Bytes
  peerHostname : Bytes
  mtaHostname : Bytes
  pendingMTAHostname : Bytes
  receiverIP : Option Bytes
  pendingReceiverIP : Option Bytes
  heloIdentity : Bytes
  smtpUTF8 : Bool
  authentication : AuthenticationState
  envelopeSender : Bytes
  envelopeRecipients : List Bytes
  envelopeRecipientsTruncated : Bool
  visibleSender : Bytes
  visibleSenderDomain : Bytes
  visibleFromInvalid : Bool
  protectedSenderDomain : Bytes
  connectionDNS : ConnectionDNSResult
  connectionDNSPending : Bool
  message : MessageBuffer.Message
  exactMessage : Option ℕ
  exactMessageErr : Bool
  negotiatedActions : UInt32
  pendingSenderBlocks : Option PendingSenderBlocklist
  senderBlocklistFrom : List Bytes
  senderBlocklistFromTruncated : Bool
  deriving DecidableEq

/-- What a session does that can be observed outside it. Exact-message stores
and database updates are logged at the call. -/
inductive Event
  | commandRead (command : UInt8) (payload : Bytes)
  | wrote (payload : Bytes)
  | writeFailed
  | exactCreated (store : ℕ)
  | exactWritten (store : ℕ)
  | exactRead (store : ℕ)
  | exactClosed (store : ℕ)
  | removalDeferred (pending : PendingSenderBlocklist)
  | correspondentMatch (recipients : List Bytes)
  | analyzerStarted
  | rejectionRecorded (recipients : List Bytes)
  | ipStrike
  | ipLegitimate
  | correspondentsLearned (recipients : List Bytes)
  | correspondentsTouched (recipients : List Bytes)
  | inboundClassified (recipients : List Bytes)
  | senderBlocklistRecorded (quantity : ℕ)
  | activityRecorded
  | commandExecuted
  | replyQueued
  deriving DecidableEq

/-- The session with the counters of write attempts and of created stores. -/
structure St where
  session : Session
  attempts : ℕ
  stores : ℕ

abbrev Run (α : Type) := Proc Event St α

/-- Which aligned methods make a sender trusted. -/
inductive TrustRequirement
  | dkim
  | spf
  | either
  | both
  deriving DecidableEq

/-- The parts of the configuration that the session itself reads. -/
structure Deps where
  platform : Platform
  mode : Mode
  maxMessageSize : ℕ
  internalAuthentication : Bool
  exactFactory : Bool
  authenticatedOnlySenderDomains : List Bytes
  rejectMessage : Bytes
  ipRejectMessage : Bytes
  addEmailHeaders : Bool
  scanAuthenticated : Bool
  attachmentsEnabled : Bool
  attachmentRejectMessage : Bytes
  attachmentIPStrike : Bool
  senderBlocklist : Bool
  senderBlocklistRejectMessage : Bytes
  includeSubdomains : Bool
  commandsEnabled : Bool
  commandRecipient : Bytes
  commandAdministrators : List Bytes
  allowAuthenticatedUsers : Bool
  verifySenderViaAliases : Bool
  /-- Whether the command processor parses the line. -/
  parses : AdminCommands.Actor → Bytes → Bool
  /-- Whether two runes are equal under simple Unicode folding. -/
  sameFold : ℕ → ℕ → Bool
  internalToken : Bytes
  trustRequirement : TrustRequirement
  senderDomainAllowlist : List Bytes
  senderDomainAllowlistRequireAuthentication : Bool
  useAllowlist : Bool
  scopePerSender : Bool
  recipientMatchAll : Bool
  requireAuthenticationForBypass : Bool
  bypassAI : Bool
  /-- Whether the given write attempt on the connection fails. -/
  writeFails : ℕ → Bool

def update (f : Session → Session) : Run Unit := modify fun s => { s with session := f s.session }

def view {α : Type} (f : Session → α) : Run α := read fun s => f s.session

theorem view_bind {α β : Type} (g : Session → α) (f : α → Run β) (s : St) :
    (view g >>= f) s = f (g s.session) s := rfl

variable (d : Deps)

def writeFrame (payload : Bytes) : Run Bool := fun s =>
  let next := { s with attempts := s.attempts + 1 }
  if d.writeFails s.attempts then ⟨false, next, [.writeFailed]⟩
  else ⟨true, next, [.wrote payload]⟩

def writeFrames (payloads : List Bytes) : Run Bool := attemptAll (writeFrame d) payloads

theorem writeFrame_attempts :
    Attempts (writeFrame d) Event.wrote .writeFailed
      fun s => { s with attempts := s.attempts + 1 } where
  succeeds payload s h := by
    unfold writeFrame at h ⊢
    split_ifs at h ⊢
    rfl
  fails payload s h := by
    unfold writeFrame at h ⊢
    split_ifs at h ⊢
    rfl
  counts payload s := by
    unfold writeFrame
    split_ifs <;> rfl

theorem writeFrame_session (payload : Bytes) (s : St) :
    (writeFrame d payload s).state.session = s.session := by
  rw [(writeFrame_attempts d).counts payload s]

/-- Writing frames leaves the session itself alone. -/
theorem writeFrames_session (payloads : List Bytes) (s : St) :
    (writeFrames d payloads s).state.session = s.session ∧
      (writeFrames d payloads s).state.stores = s.stores :=
  attemptAll_state (writeFrame_attempts d)
    (fun t => t.session = s.session ∧ t.stores = s.stores) (fun _ h => h) payloads s ⟨rfl, rfl⟩

/-- Closing may fail; the store is gone either way. -/
def closeExactMessage (closeErr : Bool) : Run Unit := fun s =>
  match s.session.exactMessage with
  | none => ⟨(), s, []⟩
  | some store =>
    ⟨(), { s with session := { s.session with
        exactMessage := none
        exactMessageErr := s.session.exactMessageErr || closeErr } }, [.exactClosed store]⟩

def captureExact (writeErr : Bool) : Run Unit := fun s =>
  match s.session.exactMessage with
  | none => ⟨(), s, []⟩
  | some store =>
    if s.session.exactMessageErr then ⟨(), s, []⟩
    else ⟨(), { s with session := { s.session with exactMessageErr := writeErr } },
      [.exactWritten store]⟩

/-- The message-level fields as a new message starts with them. -/
def Session.cleared (phase : ProtocolPhase) (ss : Session) : Session :=
  { ss with
    message := MessageBuffer.new d.maxMessageSize
    exactMessage := none
    exactMessageErr := false
    envelopeSender := []
    envelopeRecipients := []
    envelopeRecipientsTruncated := false
    visibleSender := []
    visibleSenderDomain := []
    visibleFromInvalid := false
    protectedSenderDomain := []
    pendingSenderBlocks := none
    senderBlocklistFrom := []
    senderBlocklistFromTruncated := false
    smtpUTF8 := false
    phase := phase }

/-- The store of a new envelope; the factory may return no store and an error. -/
def openExactMessage (createErr : Bool) : Run Unit := fun s =>
  if d.exactFactory ∧ ¬ createErr then
    ⟨(), { s with
      session := { s.session with exactMessage := some s.stores }
      stores := s.stores + 1 }, [.exactCreated s.stores]⟩
  else ⟨(), { s with session := { s.session with exactMessageErr := true } }, []⟩

def resetMessage (phase : ProtocolPhase) (closeErr createErr : Bool) : Run Unit := do
  closeExactMessage closeErr
  update (Session.cleared d phase)
  if phase = .envelope ∧ d.internalAuthentication then openExactMessage d createErr else pure ()

end MilterGuard.SessionState
