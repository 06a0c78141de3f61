import MilterGuard.CommandReplies
import MilterGuard.Procedures

/-!
The execution of parsed commands over the stores. Every call of a repository is
logged with the scope it is given; a call that fails leaves the stores as they were.
-/
namespace MilterGuard.CommandExecution

open ByteStrings MailAddresses BlocklistTable AdminCommands SenderLists RejectionHistory
open CommandLines CommandReplies Procedures
open IPReputation (Addresses Reputations zeroTime)

/-! ### Texts -/

def userHelp : String :=
  "Send one or more commands, one per line:\n\nWHITELIST ADD sender@example.com\n" ++
  "WHITELIST DELETE sender@example.com\nWHITELIST LIST [day|week|month|year|all]\n" ++
  "BLOCKLIST ADD sender@example.com\nBLOCKLIST ADD *@example.com\nBLOCKLIST DELETE " ++
  "sender@example.com\nBLOCKLIST LIST\nREJECTIONS [day|week|month|year|all]\n" ++
  "REJECTION id\nHELP\n\nListing commands default to the previous week where " ++
  "applicable. The local address is taken from your authenticated envelope sender." ++
  "\n"

def commandModeHelp : String :=
  "Enter one command at a time:\n\nACTIVITY [day|week|month|year|all]\nWHITELIST " ++
  "ADD sender@example.com recipient@example.com\nWHITELIST DELETE " ++
  "sender@example.com [recipient@example.com|*]\nWHITELIST LIST " ++
  "[recipient@example.com|*] [day|week|month|year|all]\nBLOCKLIST ADD " ++
  "sender-pattern recipient@example.com|*\nBLOCKLIST DELETE sender-pattern " ++
  "recipient@example.com|*|ALL\nBLOCKLIST LIST [recipient@example.com|*]\n" ++
  "REJECTIONS [recipient@example.com|*] [day|week|month|year|all]\nREJECTION id\nIP" ++
  " LIST [day|week|month|year|all]\nIP LIST LOOKUP [day|week|month|year|all]\nIP " ++
  "ADD 192.0.2.1\nIP DELETE 192.0.2.1\nHELP\nEXIT\n\nSender patterns are exact " ++
  "addresses or *@domain. For blocklist mutations, * identifies the server-wide " ++
  "entry; DELETE with ALL removes matching entries at every recipient scope. " ++
  "Listing commands default to the previous week where applicable and all local " ++
  "recipients. WHITELIST ADD and BLOCKLIST mutations require an explicit scope.\n"

def administratorHelp : String :=
  "\nAdministrator commands:\nACTIVITY [day|week|month|year|all]\nBLOCKLIST ADD " ++
  "sender-pattern [recipient@example.com|*]\nBLOCKLIST DELETE sender-pattern " ++
  "[recipient@example.com|*|ALL]\nBLOCKLIST LIST [recipient@example.com|*]\nIP LIST" ++
  " [day|week|month|year|all]\nIP LIST LOOKUP [day|week|month|year|all]\nIP ADD " ++
  "192.0.2.1\nIP DELETE 192.0.2.1\n\nAdministrators may append a local recipient " ++
  "address before the period in WHITELIST LIST and REJECTIONS commands, and to " ++
  "modification commands. In BLOCKLIST mutations, * identifies the server-wide " ++
  "entry; DELETE with ALL removes matching entries at every recipient scope. For " ++
  "example:\n\nBLOCKLIST ADD *@example.com *\nBLOCKLIST DELETE *@example.com ALL\n" ++
  "WHITELIST LIST * month\nREJECTIONS * year\n"

def help (admin commandMode : Bool) : Bytes :=
  if admin ∧ commandMode then ascii commandModeHelp
  else if admin then ascii (userHelp ++ administratorHelp)
  else ascii userHelp

structure Attachment where
  filename : Bytes
  mediaType : Bytes
  contents : Bytes
  sourcePath : Bytes
  deriving DecidableEq

structure Response where
  text : Bytes
  attachments : List Attachment
  deriving DecidableEq

/-- What is left to do when the database part of a command is done. -/
inductive Deferred
  | text (body : Bytes)
  | detail (entry : Rejection)
  deriving DecidableEq

/-- The response, given the body text and attachments that the archive has for an
entry. -/
def Deferred.render (saved : Rejection → Bytes × List Attachment) : Deferred → Response
  | .text body => ⟨body, []⟩
  | .detail entry => ⟨formatRejectionDetail entry (saved entry).1, (saved entry).2⟩

/-! ### Stores and their calls -/

/-- The tables that commands can reach; `D` has the activity events and the service
status. -/
structure Stores (D : Type) where
  lists : Lists
  history : History
  reputations : Reputations
  activity : D

/-- What a processor is built from. A repository that may be missing is optional. -/
structure Setup (A D : Type) where
  platform : Platform
  net : Addresses A
  correspondents : CorrespondentOptions
  rejections : RejectionOptions
  ipReputation : IPReputation.Options
  senderBlocklist : Option SenderBlocklistOptions
  activityReport : Option (Period → ℤ → ℤ → D → Except String Bytes)
  activityExpiry : ℤ
  hostname : A → Bytes

/-- The times that the processor and the repository read from their clocks, and the
ids that new rows get. -/
structure Moment where
  now : ℤ
  storeNow : ℤ
  blockIds : RowIds
  correspondentIds : RowIds

inductive StoreCall (A : Type)
  | activitySummary
  | listRejections (scope : RecipientScope)
  | rejectionByID (id : ℕ) (scope : RecipientScope)
  | listCorrespondents (scope : RecipientScope)
  | addManual (sender recipient : Bytes)
  | deleteCorrespondent (sender : Bytes) (scope : RecipientScope)
  | listSenderBlocks (scope : RecipientScope)
  | addSenderBlock (recipient : Bytes) (kind : SenderBlockKind) (sender : Bytes)
  | deleteSenderBlocks (kind : SenderBlockKind) (sender : Bytes) (scope : RecipientScope)
  | listActiveBlocks
  | addManualBlock (ip : A)
  | deleteAddress (ip : A)
  deriving DecidableEq

variable {A D α β : Type}

abbrev Run (A D α : Type) := Proc (StoreCall A) (Stores D) α

variable (event : StoreCall A)

def call (f : Stores D → Except String (α × Stores D)) :
    Run A D (Except String α) := fun s =>
  match f s with
  | .ok (a, t) => ⟨.ok a, t, [event]⟩
  | .error text => ⟨.error text, s, [event]⟩

def query (f : Stores D → Except String α) : Run A D (Except String α) :=
  call event fun s => (f s).map fun a => (a, s)

def changeLists (f : Lists → Except String (α × Lists)) : Run A D (Except String α) :=
  call event fun s => (f s.lists).map fun done => (done.1, { s with lists := done.2 })

def replying (m : Run A D (Except String α)) (reply : α → Deferred) :
    Run A D (Except String Deferred) := do
  let answer ← m
  return answer.map reply

/-! ### Execute -/

/-- An actor with the order in which it wants listings. -/
structure Operator extends Actor where
  newestLast : Bool

def Operator.arrange (actor : Operator) (entries : List α) : List α :=
  if actor.newestLast then entries.reverse else entries

def storeErrorText : IPReputation.StoreError → String
  | .parseStored => "parse stored IP address"
  | .limitNotPositive => "IP block list limit must be positive"

variable (setup : Setup A D) (moment : Moment) (actor : Operator)

def executeActivity (period : Period) : Run A D (Except String Deferred) :=
  if ¬ actor.administrator then pure (.error "ACTIVITY is restricted to administrators")
  else match setup.activityReport with
    | none => pure (.error "activity repository is unavailable")
    | some report =>
      let cutoff := period.cutoff moment.now
      let retained := moment.now - setup.activityExpiry
      let since := if cutoff = zeroTime ∨ cutoff < retained then retained else cutoff
      replying (query .activitySummary fun s => report period since moment.now s.activity) .text

def executeRejection (id : ℕ) : Run A D (Except String Deferred) :=
  let scope : RecipientScope := if actor.administrator then ⟨true, []⟩
    else ⟨false, normalizeRecipient setup.platform actor.defaultRecipient⟩
  replying (query (.rejectionByID id scope) fun s =>
      rejectionByID setup.platform setup.rejections moment.storeNow id scope s.history) fun found =>
    match found with
    | none => .text (ascii "Rejection record not found.\n")
    | some entry => .detail entry

def executeAllowlist (verb : Verb) (sender recipient : Bytes) : Run A D (Except String Deferred) :=
  match verb with
  | .add => replying (changeLists (.addManual sender recipient) (addManual setup.platform
      setup.correspondents moment.storeNow moment.correspondentIds sender recipient)) fun created =>
    .text (ascii (if created then "allowlist entry added.\n"
      else "allowlist entry already existed and was refreshed.\n"))
  | .delete =>
    let scope := recipientScope recipient
    replying (changeLists (.deleteCorrespondent sender scope) (deleteCorrespondent setup.platform
      setup.correspondents sender scope)) fun removed =>
    .text (ascii "removed " ++ decimal removed ++ ascii " allowlist entries.\n")

def executeBlocklist (command : Command) : Run A D (Except String Deferred) :=
  match setup.senderBlocklist with
  | none => pure (.error "sender blocklist repository is unavailable")
  | some options => match command.verb with
    | .add => replying (changeLists
        (.addSenderBlock command.recipient command.senderKind command.sender)
        (addSenderBlock setup.platform options moment.storeNow moment.blockIds command.recipient
          command.senderKind command.sender)) fun (created, expiresAt) =>
      .text (ascii (if created then "sender blocklist entry added"
        else "sender blocklist entry already existed and was refreshed") ++ ascii "; expires " ++
        formatUTC expiresAt ++ ascii ".\n")
    | .delete =>
      let scope := if command.allRecipients then ⟨true, []⟩ else recipientScope command.recipient
      replying (changeLists (.deleteSenderBlocks command.senderKind command.sender scope)
        (deleteSenderBlocks setup.platform options command.senderKind command.sender
          scope)) fun removed =>
      .text (ascii "removed " ++ decimal removed ++ ascii " sender blocklist entries.\n")

def executeIPList (lookup : Bool) (period : Period) : Run A D (Except String Deferred) :=
  replying (query .listActiveBlocks fun s =>
      (IPReputation.listActiveBlocks setup.net setup.ipReputation moment.storeNow
        (period.cutoff moment.now) maxListRows s.reputations).mapError storeErrorText) fun page =>
    .text (formatActiveIPBlocks setup.net (actor.arrange page.entries)
      (if lookup then some setup.hostname else none) page.truncated)

def executeIPAdd (ip : A) : Run A D (Except String Deferred) :=
  replying (call (.addManualBlock ip) fun s =>
      (IPReputation.addManualBlock setup.net setup.ipReputation moment.storeNow ip
        s.reputations).map fun done => (done.1, { s with reputations := done.2 })) fun block =>
    .text (ascii "blocked " ++ setup.net.string block.address ++ ascii "; current expiry " ++
      formatUTC block.expiresAt ++
      ascii (" (delivery attempts may extend it when repeat-block refreshing is enabled).\n"))

def executeIPDelete (ip : A) : Run A D (Except String Deferred) :=
  replying (call (.deleteAddress ip) fun s =>
      match IPReputation.delete setup.net ip s.reputations with
      | (none, _) => .error "invalid IP address"
      | (some removed, left) => .ok (removed, { s with reputations := left })) fun removed =>
    .text (ascii (if removed then "IP reputation record deleted.\n"
      else "IP address was not present.\n"))

def execute (request : Request A) : Run A D (Except String Deferred) :=
  match request.kind with
  | .parseError text => pure (.ok (.text (ascii (text ++ ".\n"))))
  | .help => pure (.ok (.text (help actor.administrator actor.commandMode)))
  | .activity period => executeActivity setup moment actor period
  | .rejections recipient period =>
    let scope := recipientScope recipient
    replying (query (.listRejections scope) fun s => listRejections setup.platform
        setup.rejections moment.storeNow scope (period.cutoff moment.now) maxListRows
        s.history) fun page =>
      .text (formatRejectionHistory (actor.arrange page.1) page.2)
  | .rejection id => executeRejection setup moment actor id
  | .allowlistList recipient period =>
    let scope := recipientScope recipient
    replying (query (.listCorrespondents scope) fun s => listCorrespondents setup.platform
        setup.correspondents moment.storeNow scope (period.cutoff moment.now) maxListRows
        s.lists) fun page =>
      .text (formatAllowlist (actor.arrange page.1)
        (actor.administrator && recipient = everyone) page.2)
  | .blocklistList recipient => match setup.senderBlocklist with
    | none => pure (.error "sender blocklist repository is unavailable")
    | some options =>
      let scope := recipientScope recipient
      replying (query (.listSenderBlocks scope) fun s => listSenderBlocks setup.platform options
          moment.storeNow scope maxListRows s.lists) fun page =>
        .text (formatSenderBlocklist (actor.arrange page.1) page.2)
  | .ipList lookup period => executeIPList setup moment actor lookup period
  | .ipAdd ip => executeIPAdd setup moment ip
  | .ipDelete ip => executeIPDelete setup ip
  | .allowlist verb sender recipient => executeAllowlist setup moment verb sender recipient
  | .blocklist command => executeBlocklist setup moment command

/-- Parse followed by Execute. -/
def perform (line : Bytes) : Run A D (Except String Deferred) :=
  match parseLine setup.platform setup.net line actor.toActor with
  | .error text => pure (.error text)
  | .ok request => execute setup moment actor request

end MilterGuard.CommandExecution
