import MilterGuard.SenderLists

/-!
What the policy does with the correspondents: authenticated mail teaches its recipients,
an inbound classification advances, refreshes or removes what was learned about a sender,
and a message is matched against the rows that qualify. Each operation is the sequence of
its statements, in the order in which the transaction runs them.
-/
namespace MilterGuard.CorrespondentLearning

open ByteStrings MailAddresses BlocklistTable SenderLists KeyedTables
open IPReputation (unixMillis)

def maxCorrespondentRecipients : ℕ := 100

inductive CorrespondentScope
  | global
  | perSender
  | invalid (text : Bytes)
  deriving DecidableEq

/-- The options of the correspondents that learning uses besides those of administration. -/
structure LearningOptions (Score : Type) extends CorrespondentOptions where
  learnAuthenticatedRecipients : Bool
  learnLegitimateSenders : Bool
  scope : CorrespondentScope
  maxEntries : ℤ
  legitimateSenderMinScore : Score
  legitimateSenderRequireAuthentication : Bool

inductive Failure
  | invalidScope (text : Bytes)
  /-- The authenticated envelope sender is unavailable or invalid. -/
  | senderUnavailable
  | invalidVerdict (text : Bytes)
  deriving DecidableEq

def validateScope : CorrespondentScope → Except Failure Unit
  | .invalid text => .error (.invalidScope text)
  | _ => .ok ()

/-- The sorted set of the normalized recipients. -/
def recipientList (p : Platform) (recipients : List Bytes) : List Bytes :=
  sortedSet (normalizedAddressSet p recipients maxCorrespondentRecipients)

variable {Score : Type} (o : CorrespondentOptions) (now : ℤ)

/-- The rows among the chosen keys that have been idle for too long. -/
def stale (target : Bytes × Bytes → Bool) (key : Bytes × Bytes) (row : Correspondent) : Bool :=
  target key && (staleCutoff o now).any (row.lastActivityAt < ·)

/-- A row that an insertion adds. -/
def newRow (ids : RowIds) (kind : CorrespondentKind) (count : ℕ) (table : Correspondents) :
    Correspondent :=
  ⟨ids.next (table.rows.map fun row => row.2.id), unixMillis now, unixMillis now, kind, count⟩

def touch (row : Correspondent) : Correspondent :=
  { row with lastActivityAt := unixMillis now }

/-! ### Authenticated mail -/

/-- The pairs of the local address with each of the recipients. -/
def sentTo (localAddress : Bytes) (recipients : List Bytes) (key : Bytes × Bytes) : Bool :=
  key.1 = localAddress && key.2 ∈ recipients

def deleteExactSenderBlocks (recipient : Bytes) (senders : List Bytes) (lists : Lists) : Lists :=
  lists.deleteBlocks fun row =>
    row.recipient = recipient && row.senderKind = .exactMailbox && row.senderValue ∈ senders

def learnRows (ids : RowIds) (localAddress : Bytes) (recipients : List Bytes)
    (table : Correspondents) : Correspondents :=
  let target := sentTo localAddress recipients
  let pruned := table.deleteWhere (stale o now target)
  let converted := pruned.updateWhere
    (fun key row => target key && row.whitelistType ≠ .manual)
    fun row => { row with
      whitelistType := .authenticatedOutbound
      legitimateEmailCount := 0
      lastActivityAt := unixMillis now }
  let touched := converted.updateWhere
    (fun key row => target key && row.whitelistType = .manual) (touch now)
  (Table.insertMissing (newRow now ids .authenticatedOutbound 0)
    (recipients.map (localAddress, ·)) touched).2

def learnAuthenticated (p : Platform) (o : LearningOptions Score) (now : ℤ) (ids : RowIds)
    (localAddress : Bytes) (recipients : List Bytes) (lists : Lists) : Except Failure Lists :=
  if ¬ o.learnAuthenticatedRecipients then .ok lists
  else do
    validateScope o.scope
    let localAddress := normalizeAddress p localAddress
    if localAddress = [] then .error .senderUnavailable
    else if recipientList p recipients = [] then return lists
    else
      let cleared := deleteExactSenderBlocks localAddress (recipientList p recipients) lists
      return { cleared with
        correspondents := learnRows o.toCorrespondentOptions now ids localAddress
          (recipientList p recipients) lists.correspondents }

/-! ### Inbound mail -/

/-- The global scope covers every local address. -/
def CorrespondentScope.covers (scope : CorrespondentScope) (addresses : List Bytes)
    (localAddress : Bytes) : Bool :=
  scope = .global || localAddress ∈ addresses

def touchInbound (p : Platform) (o : LearningOptions Score) (now : ℤ) (correspondent : Bytes)
    (recipients : List Bytes) (lists : Lists) : Except Failure Lists :=
  if ¬ o.useAllowlist then .ok lists
  else do
    validateScope o.scope
    if correspondent = [] then return lists
    else if o.scope = .perSender ∧ recipientList p recipients = [] then return lists
    else return { lists with
      correspondents := lists.correspondents.updateWhere
        (fun key row => key.2 = correspondent && qualifiedActive o.toCorrespondentOptions now row &&
          o.scope.covers (recipientList p recipients) key.1)
        (touch now) }

inductive InboundVerdict
  | legitimate
  | unwanted
  | invalid (text : Bytes)
  deriving DecidableEq

structure InboundClassification (Score : Type) where
  correspondent : Bytes
  recipients : List Bytes
  recipientsComplete : Bool
  verdict : InboundVerdict
  score : Score
  unwantedMinScore : Score
  authenticationSatisfied : Bool

inductive InboundLearningAction
  | ignore
  | refresh
  | advance
  | remove
  deriving DecidableEq

variable (atLeast : Score → Score → Bool)

/-- Unauthenticated mail must not damage the reputation of the claimed sender, even when
authentication is optional for positive learning. -/
def decideInboundLearning (o : LearningOptions Score) (input : InboundClassification Score) :
    Except Failure InboundLearningAction :=
  match input.verdict with
  | .unwanted =>
    if input.authenticationSatisfied && atLeast input.score input.unwantedMinScore then
      .ok .remove
    else .ok .ignore
  | .legitimate =>
    if o.learnLegitimateSenders && atLeast input.score o.legitimateSenderMinScore &&
        (!o.legitimateSenderRequireAuthentication || input.authenticationSatisfied) then
      .ok .advance
    else .ok .refresh
  | .invalid text => .error (.invalidVerdict text)

structure CandidateEvent where
  recipient : Bytes
  count : ℕ
  promoted : Bool
  deriving DecidableEq

def candidateEvent (recipient : Bytes) (count : ℕ) : CandidateEvent :=
  ⟨recipient, count, o.legitimateSenderMinMessages ≤ count⟩

/-- The pairs of each of the recipients with the correspondent. -/
def receivedFrom (correspondent : Bytes) (recipients : List Bytes) (key : Bytes × Bytes) : Bool :=
  key.2 = correspondent && key.1 ∈ recipients

def removable (scope : CorrespondentScope) (correspondent : Bytes) (recipients : List Bytes)
    (key : Bytes × Bytes) (row : Correspondent) : Bool :=
  key.2 = correspondent && row.whitelistType = .repeatedLegitimateInbound &&
    scope.covers recipients key.1

/-- The rows that a message brings nearer to qualification. -/
def advances (target : Bytes × Bytes → Bool) (key : Bytes × Bytes) (row : Correspondent) : Bool :=
  target key && row.whitelistType = .repeatedLegitimateInbound &&
    row.legitimateEmailCount < o.legitimateSenderMinMessages

/-- The table with what the update and the insertion return. -/
structure Recorded where
  updated : List CandidateEvent
  inserted : List CandidateEvent
  table : Correspondents

/-- The statements before the insertion: stale rows go, an advancing message counts, and
rows that qualify are touched. -/
def refreshRows (advance : Bool) (correspondent : Bytes) (recipients : List Bytes)
    (table : Correspondents) : Correspondents :=
  let target := receivedFrom correspondent recipients
  let pruned := table.deleteWhere (stale o now target)
  let advanced := if advance then
      pruned.updateWhere (advances o target) fun row =>
        { row with
          legitimateEmailCount := row.legitimateEmailCount + 1, lastActivityAt := unixMillis now }
    else pruned
  advanced.updateWhere
    (fun key row => target key && qualified o row && row.lastActivityAt ≠ unixMillis now)
    (touch now)

/-- What the counting update returns. -/
def updatedCandidates (correspondent : Bytes) (recipients : List Bytes) (table : Correspondents) :
    List CandidateEvent :=
  let target := receivedFrom correspondent recipients
  let pruned := table.deleteWhere (stale o now target)
  (pruned.selected fun key row => if advances o target key row then
    some (candidateEvent o key.1 (row.legitimateEmailCount + 1)) else none).map Prod.snd

/-- The transaction of an advancing or a refreshing message. -/
def recordRows (ids : RowIds) (advance : Bool) (correspondent : Bytes) (recipients : List Bytes)
    (table : Correspondents) : Recorded :=
  let refreshed := refreshRows o now advance correspondent recipients table
  if advance then
    let inserted := Table.insertMissing (newRow now ids .repeatedLegitimateInbound 1)
      (recipients.map (·, correspondent)) refreshed
    ⟨updatedCandidates o now correspondent recipients table,
      inserted.1.map fun key => candidateEvent o key.1 1, inserted.2⟩
  else ⟨[], [], refreshed⟩

/-- What each action does to the correspondents. -/
def recordAction (o : LearningOptions Score) (now : ℤ) (ids : RowIds) (correspondent : Bytes)
    (recipients : List Bytes) (table : Correspondents) : InboundLearningAction → Recorded
  | .ignore => ⟨[], [], table⟩
  | .remove => ⟨[], [], table.deleteWhere (removable o.scope correspondent recipients)⟩
  | .advance =>
    recordRows o.toCorrespondentOptions now ids true correspondent recipients table
  | .refresh =>
    recordRows o.toCorrespondentOptions now ids false correspondent recipients table

def recordInboundClassification (p : Platform) (o : LearningOptions Score) (now : ℤ) (ids : RowIds)
    (input : InboundClassification Score) (lists : Lists) : Except Failure Recorded :=
  if ¬ input.recipientsComplete then .ok ⟨[], [], lists.correspondents⟩
  else do
    validateScope o.scope
    let recipients := recipientList p input.recipients
    if input.correspondent = [] ∨ recipients = [] then return ⟨[], [], lists.correspondents⟩
    else
      let action ← decideInboundLearning atLeast o input
      return recordAction o now ids input.correspondent recipients lists.correspondents action

/-! ### Matching -/

structure CorrespondentMatch where
  known : Bool
  kinds : List CorrespondentKind
  allRecipientsMatched : Bool
  deriving DecidableEq

/-- The match and the number of local addresses of the chosen rows. -/
def queryMatch (table : Correspondents) (chosen : Bytes × Bytes → Correspondent → Bool) :
    CorrespondentMatch × ℕ :=
  let rows := table.rows.filter fun row => chosen row.1 row.2
  let matched := (rows.map fun row => row.1.1).dedup.length
  let kinds := [.authenticatedOutbound, .repeatedLegitimateInbound, .manual].filter fun kind =>
    rows.any fun row => row.2.whitelistType = kind
  (⟨0 < matched, kinds, false⟩, matched)

def matchCorrespondent (p : Platform) (o : LearningOptions Score) (now : ℤ)
    (correspondent : Bytes) (recipients : List Bytes) (lists : Lists) :
    Except Failure CorrespondentMatch :=
  let nothing : CorrespondentMatch := ⟨false, [], false⟩
  if ¬ o.useAllowlist then .ok nothing
  else if correspondent = [] then .ok nothing
  else do
    validateScope o.scope
    let addresses := recipientList p recipients
    let chosen key row := key.2 = correspondent &&
      qualifiedActive o.toCorrespondentOptions now row && o.scope.covers addresses key.1
    let found := queryMatch lists.correspondents chosen
    if o.scope = .global then return { found.1 with allRecipientsMatched := found.1.known }
    else if addresses = [] then return nothing
    else return { found.1 with allRecipientsMatched := found.2 = addresses.length }

/-! ### Maintenance -/

def capacityExcess (rows maximum : ℤ) : ℕ := (rows - maximum).toNat

/-- The ids of the chosen rows that were idle longest. -/
def idlest (chosen : Correspondent → Bool) (limit : ℕ) (table : Correspondents) : List ℕ :=
  (((table.rows.map Prod.snd).filter chosen).mergeSort
    fun a b => a.lastActivityAt < b.lastActivityAt ∨
      (a.lastActivityAt = b.lastActivityAt ∧ a.id ≤ b.id)).take limit |>.map Correspondent.id

def removeIds (ids : List ℕ) (table : Correspondents) : Correspondents :=
  table.deleteWhere fun _ row => row.id ∈ ids

/-- Inbound rows that do not qualify go first, then the others. -/
def enforceCapacity (o : LearningOptions Score) (table : Correspondents) : Correspondents :=
  let excess := capacityExcess table.rows.length o.maxEntries
  if excess = 0 then table
  else
    let left := removeIds (idlest (fun row =>
      row.whitelistType = .repeatedLegitimateInbound &&
        row.legitimateEmailCount < o.legitimateSenderMinMessages) excess table) table
    let removed := table.rows.length - left.rows.length
    if excess ≤ removed then left
    else removeIds (idlest (fun _ => true) (excess - removed) left) left

def cleanupCorrespondents (o : LearningOptions Score) (now : ℤ) (lists : Lists) : Lists :=
  let pruned := lists.correspondents.deleteWhere
    (stale o.toCorrespondentOptions now fun _ => true)
  { lists with correspondents := enforceCapacity o pruned }

structure BlocklistOptions extends SenderBlocklistOptions where
  maxEntries : ℤ

def cleanupBlocklist (o : BlocklistOptions) (now : ℤ) (lists : Lists) : Lists :=
  if ¬ o.available then lists
  else
    let live := lists.deleteBlocks fun row => (row.expiresAt : ℤ) ≤ unixMillis now
    let excess := capacityExcess live.blocklist.rows.length o.maxEntries
    let first := (live.blocklist.rows.mergeSort fun a b =>
      a.expiresAt < b.expiresAt ∨ (a.expiresAt = b.expiresAt ∧ a.id ≤ b.id)).take excess
    live.deleteBlocks fun row => row.id ∈ first.map Row.id

end MilterGuard.CorrespondentLearning
