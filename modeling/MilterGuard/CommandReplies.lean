import MilterGuard.CommandLines
import MilterGuard.RejectionHistory

/-!
The texts of command replies. A reply of several records stops at the size limit, with
a notice in place of what does not fit.
-/
namespace MilterGuard.CommandReplies

open ByteStrings BlocklistTable SenderLists RejectionHistory CommandLines
open IPReputation (Addresses IPBlock IPBlockLevel timeFromMillis)

def maxListRows : ℕ := 1000

def maxResponseBytes : ℕ := 2 ^ 20

def responseTruncatedNotice : Bytes := ascii "\nCommand reply was truncated at 1 MiB.\n"

def listTruncatedNotice : Bytes :=
  ascii "Results were limited to " ++ decimal maxListRows ++ ascii " matching records.\n"

/-- A number with leading zeros. -/
def padded (width : ℕ) (n : ℤ) : Bytes :=
  let digits := decimal n.natAbs
  (if n < 0 then ascii "-" else []) ++ List.replicate (width - digits.length) 0x30 ++ digits

/-- A time in the layout 2006-01-02 15:04:05 UTC. -/
def formatUTC (time : ℤ) : Bytes :=
  let date := dateOfDays (time / daySpan)
  let seconds := time % daySpan / second
  padded 4 date.year ++ ascii "-" ++ padded 2 date.month ++ ascii "-" ++ padded 2 date.day ++
    ascii " " ++ padded 2 (seconds / 3600) ++ ascii ":" ++ padded 2 (seconds / 60 % 60) ++
    ascii ":" ++ padded 2 (seconds % 60) ++ ascii " UTC"

/-- The longest valid UTF-8 text of at most `limit` bytes at the start of a value. -/
def validStart (value : Bytes) : ℕ → Bytes
  | 0 => []
  | limit + 1 =>
    if validUTF8 (value.take (limit + 1)) then value.take (limit + 1) else validStart value limit

/-- The body with the text, and whether the text was appended whole. -/
def appendBoundedResponse (body text : Bytes) : Bytes × Bool :=
  if text.length ≤ maxResponseBytes - body.length then (body ++ text, true)
  else
    let contentLimit := maxResponseBytes - responseTruncatedNotice.length
    let kept :=
      if body.length > contentLimit then validStart body contentLimit
      else body ++ validStart text (min (contentLimit - body.length) text.length)
    (kept ++ responseTruncatedNotice, false)

def appendRecords (body : Bytes) : List Bytes → Bytes × Bool
  | [] => (body, true)
  | record :: rest =>
    let (next, whole) := appendBoundedResponse body record
    if whole then appendRecords next rest else (next, false)

/-- The records of a listing; the notice of a limited listing needs room as well. -/
def formatRecords (records : List Bytes) (truncated : Bool) : Bytes :=
  let (body, whole) := appendRecords [] records
  if whole ∧ truncated then (appendBoundedResponse body listTruncatedNotice).1 else body

def limitRows {α : Type} (entries : List α) : List α × Bool :=
  (entries.take maxListRows, maxListRows < entries.length)

/-! ### Listings -/

def blockRecord (row : Row) : Bytes :=
  ascii "Sender: " ++ blockPattern row.senderKind row.senderValue ++ ascii "\nRecipient: " ++
    row.recipient ++ ascii "\nExpires: " ++ formatUTC (timeFromMillis row.expiresAt) ++ ascii "\n\n"

def formatSenderBlocklist (entries : List Row) (truncated : Bool) : Bytes :=
  if entries = [] then ascii "No active sender blocklist entries were found.\n"
  else formatRecords (entries.map blockRecord) truncated

def allowlistAddedDescription : CorrespondentKind → String
  | .manual => "manually"
  | .authenticatedOutbound => "learned from authenticated outbound email"
  | .repeatedLegitimateInbound => "learned from repeated legitimate inbound emails"

def correspondentRecord (includeRecipient : Bool) (entry : (Bytes × Bytes) × Correspondent) :
    Bytes :=
  ascii "Sender: " ++ entry.1.2 ++ ascii "\n" ++
    (if includeRecipient then ascii "Recipient: " ++ entry.1.1 ++ ascii "\n" else []) ++
    ascii "Added: " ++ ascii (allowlistAddedDescription entry.2.whitelistType) ++ ascii "\n\n"

def formatAllowlist (entries : List ((Bytes × Bytes) × Correspondent))
    (includeRecipient truncated : Bool) : Bytes :=
  if entries = [] then ascii "No whitelisted correspondent addresses were found.\n"
  else
    let (shown, additional) := limitRows entries
    formatRecords (shown.map (correspondentRecord includeRecipient)) (truncated || additional)

variable (entry : Rejection)

def shownSubject : Bytes :=
  if entry.subject = [] then ascii "(no subject)" else entry.subject

def shownReason : Bytes :=
  if entry.reason = [] then ascii "Unavailable" else entry.reason

def rejectionRecord : Bytes :=
  ascii "From: " ++ entry.sender ++ ascii "\nTo: " ++ join (ascii ", ") entry.recipients ++
    ascii "\nSubject: " ++ shownSubject entry ++ ascii "\nDate: " ++ formatUTC entry.rejectedAt ++
    ascii "\nRejection ID: " ++ decimal entry.id ++ ascii "\nReason: " ++ shownReason entry ++
    ascii "\n\n"

def formatRejectionHistory (entries : List Rejection) (truncated : Bool) : Bytes :=
  if entries = [] then ascii "No retained rejected-email records were found.\n"
  else
    let (shown, additional) := limitRows entries
    formatRecords (shown.map rejectionRecord) (truncated || additional)

def formatRejectionDetail (body : Bytes) : Bytes :=
  ascii "Rejection ID: " ++ decimal entry.id ++ ascii "\nFrom: " ++ entry.sender ++
    ascii "\nTo: " ++ join (ascii ", ") entry.recipients ++ ascii "\nSubject: " ++
    shownSubject entry ++ ascii "\nDate: " ++ formatUTC entry.rejectedAt ++
    ascii "\nReason for rejection: " ++ shownReason entry ++
    ascii "\n\nVisible email body text:\n" ++ body ++ ascii "\n"

def levelText : Option IPBlockLevel → String
  | some .short => "short"
  | some .repeat => "repeat"
  | none => ""

/-- An address with its hostname when a lookup was asked for. -/
def ipRecord {A : Type} (net : Addresses A) (hostname : Option (A → Bytes)) (block : IPBlock A) :
    Bytes :=
  ascii "IP: " ++ net.string block.address ++
    (match hostname with
      | none => []
      | some hostname =>
        let found := hostname block.address
        ascii " (" ++ (if found = [] then ascii "not found" else found) ++ ascii ")") ++
    ascii " Type: " ++ ascii (levelText block.level) ++ ascii " Expires: " ++
    formatUTC block.expiresAt ++ ascii "\n"

def formatActiveIPBlocks {A : Type} (net : Addresses A) (entries : List (IPBlock A))
    (hostname : Option (A → Bytes)) (truncated : Bool) : Bytes :=
  if entries.isEmpty then ascii "No active IP blocks were found.\n"
  else formatRecords (entries.map (ipRecord net hostname)) truncated

end MilterGuard.CommandReplies
