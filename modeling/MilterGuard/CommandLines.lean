import MilterGuard.AdminCommands
import MilterGuard.IPReputation

/-!
The grammar of administration commands. The branches stand in the order of the
source, and each authorizes the recipient where it reads it. What a user who is no
administrator can ask for is summed up at the end.
-/
namespace MilterGuard.CommandLines

open ByteStrings Hostnames MailAddresses BlocklistTable AdminCommands
open IPReputation (Addresses zeroTime)

/-! ### Periods -/

inductive Period
  | day
  | week
  | month
  | year
  | all
  deriving DecidableEq

def Period.text : Period → String
  | .day => "day"
  | .week => "week"
  | .month => "month"
  | .year => "year"
  | .all => "all"

def parseCommandPeriod (p : Platform) (value : Bytes) : Option Period :=
  [Period.day, .week, .month, .year, .all].find? fun period =>
    toLower p.table value = ascii period.text

/-- A second in nanoseconds. -/
def second : ℤ := 1000000000

def daySpan : ℤ := 86400 * second

structure Date where
  year : ℤ
  month : ℤ
  day : ℤ
  deriving DecidableEq

/-- The date of a number of days after 1970-01-01. Years are counted from March, so
that a leap day is the last day of its year, in eras of 400 years. -/
def dateOfDays (days : ℤ) : Date :=
  let shifted := days + 719468
  let dayOfEra := shifted % 146097
  let yearOfEra := (dayOfEra - dayOfEra / 1460 + dayOfEra / 36524 - dayOfEra / 146096) / 365
  let dayOfYear := dayOfEra - (365 * yearOfEra + yearOfEra / 4 - yearOfEra / 100)
  let fromMarch := (5 * dayOfYear + 2) / 153
  let month := if fromMarch < 10 then fromMarch + 3 else fromMarch - 9
  ⟨yearOfEra + 400 * (shifted / 146097) + (if month ≤ 2 then 1 else 0), month,
    dayOfYear - (153 * fromMarch + 2) / 5 + 1⟩

/-- The days before the first day of a month. -/
def daysOfMonth (year month : ℤ) : ℤ :=
  let shifted := if month ≤ 2 then year - 1 else year
  let yearOfEra := shifted % 400
  let dayOfYear := (153 * (if month ≤ 2 then month + 9 else month - 3) + 2) / 5
  146097 * (shifted / 400) + 365 * yearOfEra + yearOfEra / 4 - yearOfEra / 100 + dayOfYear - 719468

/-- time.AddDate with a number of months: a day past the end of the month runs on into
the next one. -/
def addMonths (months time : ℤ) : ℤ :=
  let date := dateOfDays (time / daySpan)
  let index := 12 * date.year + (date.month - 1) + months
  (daysOfMonth (index / 12) (index % 12 + 1) + (date.day - 1)) * daySpan + time % daySpan

def Period.cutoff (period : Period) (now : ℤ) : ℤ :=
  match period with
  | .day => now - daySpan
  | .month => addMonths (-1) now
  | .year => addMonths (-12) now
  | .all => zeroTime
  | .week => now - 7 * daySpan

/-! ### Commands -/

inductive Kind (A : Type)
  | parseError (text : String)
  | help
  | activity (period : Period)
  | rejections (recipient : Bytes) (period : Period)
  | rejection (id : ℕ)
  | allowlistList (recipient : Bytes) (period : Period)
  | ipList (lookup : Bool) (period : Period)
  | ipAdd (ip : A)
  | ipDelete (ip : A)
  | allowlist (verb : Verb) (sender recipient : Bytes)
  | blocklistList (recipient : Bytes)
  | blocklist (command : Command)
  deriving DecidableEq

/-- A parsed command with the text it is reported as. -/
structure Request (A : Type) where
  kind : Kind A
  canonical : Bytes
  deriving DecidableEq

variable {A : Type}

def words (parts : List Bytes) : Bytes := join (ascii " ") parts

/-- strconv.FormatUint and the verb %d. -/
def decimal (n : ℕ) : Bytes := ascii (toString n)

/-- strconv.ParseUint with base 10. -/
def parseUint (bitSize : ℕ) (value : Bytes) : Option ℕ :=
  if value = [] ∨ value.any fun b => b < 0x30 || 0x39 < b then none
  else
    let n := value.foldl (fun n b => 10 * n + (b.toNat - 0x30)) 0
    if n < 2 ^ bitSize then some n else none

variable (p : Platform) (arguments : List Bytes)

/-- The period of a listing that takes nothing else. -/
def listPeriod : Option Period :=
  match arguments with
  | [] => some .week
  | [value] => parseCommandPeriod p value
  | _ => none

/-- What a branch says about a recipient that it does not accept. -/
structure RecipientTexts where
  invalid : String
  wildcardDenied : String
  otherDenied : String

def authorized (texts : RecipientTexts) : RecipientAuthorization → Except String Bytes
  | .authorized recipient => .ok recipient
  | .invalid => .error texts.invalid
  | .wildcardDenied => .error texts.wildcardDenied
  | .otherDenied => .error texts.otherDenied

/-- The arguments `[recipient] [period]` of a listing: the recipient, the fields of the
reported text that name it, and the period. A last argument that is a period is one. -/
def parseListing (texts : RecipientTexts) (tooMany : String) (arguments : List Bytes)
    (authenticatedSender : Bytes) (admin : Bool) : Except String (Bytes × List Bytes × Period) :=
  if arguments.length > 2 then .error tooMany
  else
    let last := arguments.getLast?.bind (parseCommandPeriod p)
    let period := last.getD .week
    match if last.isSome then arguments.dropLast else arguments with
    | [] => .ok (authenticatedSender, [], period)
    | [value] => do
      let recipient ← authorized texts (authorizeRecipient p value authenticatedSender admin)
      return (recipient, [recipient], period)
    | _ => .error tooMany

def parseActivity (admin : Bool) : Except String (Request A) :=
  if ¬ admin then .error "ACTIVITY is restricted to administrators"
  else match listPeriod p arguments with
    | none => .error "ACTIVITY period must be day, week, month, year, or all"
    | some period => .ok ⟨.activity period, words [ascii "ACTIVITY", ascii period.text]⟩

def parseRejection : Except String (Request A) :=
  match arguments with
  | [value] => match parseUint 63 value with
    | some (id + 1) => .ok ⟨.rejection (id + 1), words [ascii "REJECTION", decimal (id + 1)]⟩
    | _ => .error "REJECTION requires one positive rejection ID"
  | _ => .error "REJECTION requires one positive rejection ID"

def parseIPList : Except String (Request A) :=
  let lookup := match arguments with
    | first :: _ => equalFold first (ascii "LOOKUP")
    | [] => false
  match listPeriod p (if lookup then arguments.tail else arguments) with
  | none => .error "IP LIST period must be day, week, month, year, or all"
  | some period => .ok ⟨.ipList lookup period, words ([ascii "IP", ascii "LIST"] ++
      (if lookup then [ascii "LOOKUP"] else []) ++ [ascii period.text])⟩

variable (net : Addresses A)

def parseIPChange (arguments : List Bytes) : Except String (Request A) :=
  match arguments with
  | [operation, value] => match parseVerb operation with
    | none => .error ("IP command must be IP LIST, IP LIST LOOKUP, IP ADD address, " ++
        "or IP DELETE address")
    | some verb => match net.parseAddr value with
      | none => .error "IP command requires a valid IPv4 or IPv6 address"
      | some parsed =>
        let ip := net.canonicalIP parsed
        .ok ⟨match verb with
          | .add => .ipAdd ip
          | .delete => .ipDelete ip, words [ascii "IP", ascii verb.text, net.string ip]⟩
  | _ => .error ("IP command must be IP LIST, IP LIST LOOKUP, IP ADD address, " ++
      "or IP DELETE address")

def parseIP (arguments : List Bytes) (admin : Bool) : Except String (Request A) :=
  if ¬ admin then .error "IP commands are restricted to administrators"
  else match arguments with
    | operation :: rest =>
      if equalFold operation (ascii "LIST") then parseIPList p rest
      else parseIPChange net arguments
    | [] => parseIPChange net arguments

variable (authenticatedSender : Bytes) (admin : Bool)

def parseRejections : Except String (Request A) := do
  let (recipient, named, period) ← parseListing p
    ⟨"rejection-history recipient must be a valid email address",
      "wildcard rejection history is restricted to administrators",
      "users may view only their own rejection history"⟩
    "REJECTIONS accepts at most one recipient and one period" arguments authenticatedSender admin
  return ⟨.rejections recipient period,
    words ([ascii "REJECTIONS"] ++ named ++ [ascii period.text])⟩

/-- BLOCKLIST LIST authorizes the recipient also when it is not named. -/
def parseBlocklistList : Except String (Request A) :=
  if arguments.length > 1 then .error "BLOCKLIST LIST accepts at most one recipient"
  else do
    let recipient ← authorized
      ⟨"blocklist recipient must be a valid email address",
        "server-wide blocklist listing is restricted to administrators",
        "users may view only their own blocklist"⟩
      (authorizeRecipient p (arguments.headD authenticatedSender) authenticatedSender admin)
    return ⟨.blocklistList recipient, words [ascii "BLOCKLIST", ascii "LIST", recipient]⟩

def blockPattern (kind : SenderBlockKind) (value : Bytes) : Bytes :=
  match kind with
  | .exactMailbox => value
  | .domain => ascii "*@" ++ value

def parseBlocklistChange (commandMode : Bool) : Except String (Request A) := do
  let command ← parseBlocklist p arguments authenticatedSender admin commandMode
  return ⟨.blocklist command, words [ascii "BLOCKLIST", ascii command.verb.text,
    blockPattern command.senderKind command.sender,
    if command.allRecipients then ascii "ALL" else command.recipient]⟩

def parseAllowlistList : Except String (Request A) := do
  let (recipient, named, period) ← parseListing p
    ⟨"allowlist recipient must be a valid email address",
      "wildcard allowlist listing is restricted to administrators",
      "users may view only their own allowlist"⟩
    "WHITELIST LIST accepts at most one recipient and one period" arguments authenticatedSender
    admin
  return ⟨.allowlistList recipient period,
    words ([ascii "WHITELIST", ascii "LIST"] ++ named ++ [ascii period.text])⟩

/-- The change of one allowlist entry, after the count of the fields. -/
def parseAllowlistChange (operation value : Bytes) (scope : Option Bytes)
    (authenticatedSender : Bytes) (admin : Bool) : Except String (Request A) :=
  match parseVerb operation with
  | none => .error "operation must be ADD or DELETE"
  | some verb =>
    let sender := normalizeAddress p value
    let recipient := scope.getD authenticatedSender
    if sender = [] then .error "sender must be a valid email address"
    else if recipient = everyone ∧ verb = .add then
      .error "WHITELIST ADD requires an explicit local recipient"
    else do
      let recipient ← authorized
        ⟨"recipient must be a valid email address",
          "wildcard deletion is restricted to administrators",
          "users may modify only their authenticated envelope sender address"⟩
        (authorizeRecipient p recipient authenticatedSender admin)
      return ⟨.allowlist verb sender recipient,
        words [ascii "WHITELIST", ascii verb.text, sender, recipient]⟩

/-- The rest of parse: a command that no earlier branch took. -/
def parseAllowlist (name : Bytes) (arguments : List Bytes) (authenticatedSender : Bytes)
    (admin : Bool) : Except String (Request A) :=
  if arguments.length ≠ 2 ∧ arguments.length ≠ 3 then
    .error "invalid command; send HELP for syntax"
  else if ¬ equalFold name (ascii "WHITELIST") then
    .error "unknown command; send HELP for syntax"
  else match arguments with
    | operation :: value :: rest =>
      parseAllowlistChange p operation value rest.head? authenticatedSender admin
    | _ => .error "invalid command; send HELP for syntax"

def listsEntries : Bool :=
  arguments.head?.any (equalFold · (ascii "LIST"))

def parse (p : Platform) (net : Addresses A) (text authenticatedSender : Bytes)
    (admin commandMode : Bool) : Except String (Request A) :=
  match fields text with
  | [] => .error "invalid command; send HELP for syntax"
  | name :: arguments =>
    if arguments = [] ∧ equalFold name (ascii "HELP") then .ok ⟨.help, ascii "HELP"⟩
    else if equalFold name (ascii "ACTIVITY") then parseActivity p arguments admin
    else if equalFold name (ascii "REJECTION") then parseRejection arguments
    else if equalFold name (ascii "IP") then parseIP p net arguments admin
    else if equalFold name (ascii "REJECTIONS") then
      parseRejections p arguments authenticatedSender admin
    else if equalFold name (ascii "BLOCKLIST") ∧ listsEntries arguments then
      parseBlocklistList p arguments.tail authenticatedSender admin
    else if equalFold name (ascii "BLOCKLIST") then
      parseBlocklistChange p arguments authenticatedSender admin commandMode
    else if equalFold name (ascii "WHITELIST") ∧ listsEntries arguments then
      parseAllowlistList p arguments.tail authenticatedSender admin
    else parseAllowlist p name arguments authenticatedSender admin

/-- Processor.Parse. -/
def parseLine (line : Bytes) (actor : Actor) : Except String (Request A) :=
  parse p net (trimSpace line) (normalizeRecipient p actor.defaultRecipient) actor.administrator
    actor.commandMode

/-! ### What users can ask for -/

/-- A command that concerns one recipient only. -/
def Kind.Own (recipient : Bytes) : Kind A → Prop
  | .parseError _ | .help | .rejection _ => True
  | .rejections owner _ | .allowlistList owner _ | .allowlist _ _ owner | .blocklistList owner =>
    owner = recipient
  | .blocklist command => command.recipient = recipient ∧ command.allRecipients = false
  | .activity _ | .ipList _ _ | .ipAdd _ | .ipDelete _ => False

private theorem ok_of_bind {α β : Type} {x : Except String α} {f : α → Except String β} {b : β}
    (h : (x >>= f) = .ok b) : ∃ a, x = .ok a ∧ f a = .ok b := by
  cases x with
  | error text => cases h
  | ok a => exact ⟨a, rfl, h⟩

variable {command : Command} {arguments : List Bytes} {value recipient own : Bytes} {p : Platform}

/-- Without administration only the user's own address is authorized. -/
theorem authorizeRecipient_own (h : authorizeRecipient p value own false = .authorized recipient) :
    recipient = own := by
  unfold authorizeRecipient at h
  simp only [Bool.false_eq_true, if_false, not_false_eq_true, true_and] at h
  split_ifs at h with _ _ hother
  obtain rfl := RecipientAuthorization.authorized.inj h
  exact not_not.mp hother

private theorem authorized_own {texts : RecipientTexts}
    (h : authorized texts (authorizeRecipient p value own false) = .ok recipient) :
    recipient = own := by
  cases hauthorized : authorizeRecipient p value own false with
  | authorized found =>
    rw [hauthorized] at h
    obtain rfl := Except.ok.inj h
    exact authorizeRecipient_own hauthorized
  | invalid | wildcardDenied | otherDenied => simp [hauthorized, authorized] at h

private theorem parseListing_own {texts : RecipientTexts} {tooMany : String} {named : List Bytes}
    {period : Period}
    (h : parseListing p texts tooMany arguments own false = .ok (recipient, named, period)) :
    recipient = own := by
  unfold parseListing at h
  split at h
  · cases h
  · dsimp only at h
    split at h
    · exact (congrArg Prod.fst (Except.ok.inj h)).symm
    · obtain ⟨found, hfound, hresult⟩ := ok_of_bind h
      obtain rfl := authorized_own hfound
      exact (congrArg Prod.fst (Except.ok.inj hresult)).symm
    · cases h

private theorem parseScope_own {verb : Verb} {sender : Bytes} {kind : SenderBlockKind}
    (h : parseScope p verb sender kind value own false = .ok command) :
    command.recipient = own ∧ command.allRecipients = false := by
  unfold parseScope at h
  split_ifs at h with _ _ hadmin
  · exact absurd hadmin (by decide)
  · cases hauthorized : authorizeRecipient p value own false with
    | authorized found =>
      simp only [hauthorized] at h
      obtain rfl := Except.ok.inj h
      exact ⟨authorizeRecipient_own hauthorized, rfl⟩
    | invalid | wildcardDenied | otherDenied => simp [hauthorized] at h

private theorem parseOperation_own {operation pattern : Bytes} {scope : Option Bytes}
    {commandMode : Bool}
    (h : parseOperation p operation pattern scope own false commandMode = .ok command) :
    command.recipient = own ∧ command.allRecipients = false := by
  unfold parseOperation at h
  cases hverb : parseVerb operation with
  | none => simp [hverb] at h
  | some verb =>
    simp only [hverb] at h
    split at h
    · cases h
    · cases hpattern : parseSenderBlockPattern p pattern with
      | error text => simp [hpattern] at h
      | ok found =>
        simp only [hpattern] at h
        exact parseScope_own h

private theorem parseBlocklist_own {commandMode : Bool}
    (h : parseBlocklist p arguments own false commandMode = .ok command) :
    command.recipient = own ∧ command.allRecipients = false := by
  unfold parseBlocklist at h
  split at h
  · exact parseOperation_own h
  · exact parseOperation_own h
  · cases h

private theorem parseAllowlistChange_own {operation : Bytes} {scope : Option Bytes}
    {request : Request A}
    (h : parseAllowlistChange p operation value scope own false = .ok request) :
    request.kind.Own own := by
  unfold parseAllowlistChange at h
  cases hverb : parseVerb operation with
  | none => simp [hverb] at h
  | some verb =>
    simp only [hverb] at h
    split_ifs at h
    obtain ⟨recipient, hrecipient, hrequest⟩ := ok_of_bind h
    obtain rfl := Except.ok.inj hrequest
    exact authorized_own hrecipient

private theorem parseRejection_own {request : Request A}
    (h : parseRejection arguments = .ok request) : request.kind.Own own := by
  unfold parseRejection at h
  split at h
  · split at h
    · obtain rfl := Except.ok.inj h
      trivial
    · cases h
  · cases h

/-- A command parsed for a user who is no administrator is about the user's address. -/
theorem parse_own (p : Platform) (net : Addresses A) (text own : Bytes) (commandMode : Bool)
    (request : Request A) (h : parse p net text own false commandMode = .ok request) :
    request.kind.Own own := by
  unfold parse at h
  split at h
  · cases h
  split_ifs at h
  · obtain rfl := Except.ok.inj h
    trivial
  · simp [parseActivity] at h
  · exact parseRejection_own h
  · simp [parseIP] at h
  · obtain ⟨⟨recipient, named, period⟩, hlisting, hrequest⟩ := ok_of_bind h
    obtain rfl := Except.ok.inj hrequest
    exact parseListing_own hlisting
  · unfold parseBlocklistList at h
    split at h
    · cases h
    · obtain ⟨recipient, hrecipient, hrequest⟩ := ok_of_bind h
      obtain rfl := Except.ok.inj hrequest
      exact authorized_own hrecipient
  · obtain ⟨command, hcommand, hrequest⟩ := ok_of_bind h
    obtain rfl := Except.ok.inj hrequest
    exact parseBlocklist_own hcommand
  · obtain ⟨⟨recipient, named, period⟩, hlisting, hrequest⟩ := ok_of_bind h
    obtain rfl := Except.ok.inj hrequest
    exact parseListing_own hlisting
  · unfold parseAllowlist at h
    split_ifs at h
    split at h
    · exact parseAllowlistChange_own h
    · cases h

end MilterGuard.CommandLines
