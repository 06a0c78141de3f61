import MilterGuard.Hostnames
import MilterGuard.FoldedTexts

/-!
Trusted authentication evidence from header fields. An Authentication-Results field is
stripped of its comments, divided into clauses at the semicolons outside quoted strings,
and every clause is read as a method with an outcome and a list of assignments. A
Received-SPF field is searched for single parameters; it counts only when no trusted
Authentication-Results field has an SPF clause.
-/
namespace MilterGuard.AuthenticationHeaders

open ByteStrings Hostnames FoldedTexts

inductive SPFIdentity where
  | unspecified
  | mailFrom
  | helo
  deriving DecidableEq, Repr

/-- The fields that header evidence fills in. -/
structure Result where
  method : Bytes
  outcome : Bytes
  domain : Bytes
  spfIdentity : SPFIdentity
  deriving DecidableEq, Repr

structure Input where
  authenticationResults : List Bytes
  receivedSPF : List Bytes
  trustedAuthservIDs : List Bytes

def methodDKIM : Bytes := ascii "dkim"
def methodSPF : Bytes := ascii "spf"
def methodDMARC : Bytes := ascii "dmarc"

variable (table : CaseTable) (value : Bytes)

def normalizeDomain : Bytes := normalizeDNSName table value true

/-- strings.Trim with the two angle brackets. -/
def trimAngles : Bytes :=
  (value.dropWhile fun b => b = 0x3C || b = 0x3E).rdropWhile fun b => b = 0x3C || b = 0x3E

/-- The text behind the last at sign, the whole text when there is none. -/
def afterLastAt : Bytes := value.rtakeWhile fun b => b ≠ 0x40

def domainFromIdentity : Bytes :=
  normalizeDomain table (afterLastAt (trimAngles (trimSpace value)))

def normalizeAuthservID : Bytes :=
  trimSuffix (toLower table (trimSpace value)) [0x2E]

def normalizedAuthservIDs (table : CaseTable) (values : List Bytes) : List Bytes :=
  (values.map (normalizeAuthservID table)).filter fun value => value ≠ []

def normalizeHeaderOutcome (method value : Bytes) : Bytes :=
  let value := toLower table value
  if method = methodSPF ∧ value = ascii "tempfail" then ascii "temperror" else value

section Patterns

variable (b : UInt8)

/-- The class `\s`. -/
def regexSpace : Bool :=
  b = 0x20 || b = 0x09 || b = 0x0A || b = 0x0C || b = 0x0D

def letter : Bool := 0x41 ≤ b && b ≤ 0x5A || 0x61 ≤ b && b ≤ 0x7A

def digit : Bool := 0x30 ≤ b && b ≤ 0x39

/-- The characters that `\b` looks at. -/
def wordByte : Bool := letter b || digit b || b = 0x5F

variable (text : Bytes)

def startsWord : Bool := (text.head?.map wordByte).getD false

/-- The width of a character that folds to the given small letter, or zero. The long s
and the Kelvin sign fold to ASCII letters. -/
def foldedWidth (small : UInt8) : Bytes → ℕ
  | 0xC5 :: 0xBF :: _ => if small = 0x73 then 2 else 0
  | 0xE2 :: 0x84 :: 0xAA :: _ => if small = 0x6B then 3 else 0
  | b :: _ => if asciiLowerByte b = small then 1 else 0
  | [] => 0

def matchLetters : Bytes → Bytes → Option ℕ
  | [], _ => some 0
  | small :: name, text =>
    match foldedWidth small text with
    | 0 => none
    | width + 1 => (matchLetters name (text.drop (width + 1))).map (· + (width + 1))

/-- The width of a character of `[a-z]` without regard to case, or zero. -/
def letterWidth : Bytes → ℕ
  | 0xC5 :: 0xBF :: _ => 2
  | 0xE2 :: 0x84 :: 0xAA :: _ => 3
  | b :: _ => if letter b then 1 else 0
  | [] => 0

/-- The width of a character of `[a-z0-9_-]`, or zero. -/
def outcomeWidth : ℕ :=
  match letterWidth text with
  | 0 => if (text.head?.map fun b => digit b || b = 0x5F || b = 0x2D).getD false then 1 else 0
  | width + 1 => width + 1

/-- The longest run of at most `limit` outcome characters that ends at a word boundary. -/
def outcomeTail : ℕ → Bool → Bytes → Option ℕ
  | 0, inWord, text => if inWord != startsWord text then some 0 else none
  | limit + 1, inWord, text =>
    let longer := match outcomeWidth text with
      | 0 => none
      | width + 1 =>
        (outcomeTail limit (startsWord text) (text.drop (width + 1))).map (· + (width + 1))
    match longer with
    | some length => some length
    | none => if inWord != startsWord text then some 0 else none

/-- An outcome at the start of a text, and what follows it. -/
def matchOutcome : Option (Bytes × Bytes) :=
  match letterWidth text with
  | 0 => none
  | width + 1 =>
    (outcomeTail 31 (startsWord text) (text.drop (width + 1))).map fun length =>
      (text.take (width + 1 + length), text.drop (width + 1 + length))

def matchMethod : Option (Bytes × Bytes) :=
  [methodDKIM, methodSPF, methodDMARC].findSome? fun name =>
    (matchLetters name text).map fun width => (text.take width, text.drop width)

/-- The method and the outcome of a clause, and what follows them. -/
def authenticationMethodPattern (clause : Bytes) : Option (Bytes × Bytes × Bytes) :=
  match matchMethod (clause.dropWhile regexSpace) with
  | none => none
  | some (method, rest) =>
    match rest.dropWhile regexSpace with
    | 0x3D :: rest =>
      (matchOutcome (rest.dropWhile regexSpace)).map fun found => (method, found.1, found.2)
    | _ => none

def receivedSPFResultPattern (header : Bytes) : Option Bytes :=
  (matchOutcome (header.dropWhile regexSpace)).map Prod.fst

end Patterns

section Comments

/-- Where the comment stripper stands. Inside a comment `depth` counts the further
parentheses that are open. -/
inductive Place where
  | plain
  | quoted (escaped : Bool)
  | comment (depth : ℕ) (escaped : Bool)
  deriving DecidableEq

/-- The place after a byte and what is written for it; `none` for a stray parenthesis. -/
def Place.step : Place → UInt8 → Option (Place × Bytes)
  | .comment depth true, _ => some (.comment depth false, [])
  | .comment depth false, b =>
    if b = 0x5C then some (.comment depth true, [])
    else if b = 0x28 then some (.comment (depth + 1) false, [])
    else if b = 0x29 then
      match depth with
      | 0 => some (.plain, [0x20])
      | outer + 1 => some (.comment outer false, [])
    else some (.comment depth false, [])
  | .quoted true, b => some (.quoted false, [b])
  | .quoted false, b =>
    if b = 0x5C then some (.quoted true, [b])
    else if b = 0x22 then some (.plain, [b])
    else some (.quoted false, [b])
  | .plain, b =>
    if b = 0x28 then some (.comment 0 false, [])
    else if b = 0x29 then none
    else if b = 0x22 then some (.quoted false, [b])
    else some (.plain, [b])

def stripFrom : Place → Bytes → Option Bytes
  | place, [] => if place = .plain then some [] else none
  | place, b :: rest =>
    match place.step b with
    | none => none
    | some (next, written) => (stripFrom next rest).map (written ++ ·)

def stripAuthenticationComments : Option Bytes := stripFrom .plain value

/-- The clauses from here on, the first one unfinished. -/
def clausesFrom : Bool → Bool → Bytes → List Bytes
  | _, _, [] => [[]]
  | quoted, escaped, b :: rest =>
    if quoted && escaped then (clausesFrom quoted false rest).modifyHead (b :: ·)
    else if quoted && b = 0x5C then (clausesFrom quoted true rest).modifyHead (b :: ·)
    else if b = 0x22 then (clausesFrom (!quoted) escaped rest).modifyHead (b :: ·)
    else if b = 0x3B && !quoted then [] :: clausesFrom quoted escaped rest
    else (clausesFrom quoted escaped rest).modifyHead (b :: ·)

def splitAuthenticationClauses : List Bytes := clausesFrom false false value

end Comments

section Properties

def isAuthenticationWhitespace (b : UInt8) : Bool :=
  b = 0x20 || b = 0x09 || b = 0x0D || b = 0x0A

def isAuthenticationNameByte (b : UInt8) : Bool := letter b || digit b || b = 0x5F || b = 0x2D

def skipAuthenticationWhitespace (text : Bytes) : Bytes := text.dropWhile isAuthenticationWhitespace

/-- The rest of a quoted string behind its opening quote: the decoded content and what
follows the closing quote. -/
def readQuoted : Bytes → Option (Bytes × Bytes)
  | [] => none
  | 0x22 :: rest => some ([], rest)
  | 0x5C :: [] => none
  | 0x5C :: b :: rest => (readQuoted rest).map fun found => (b :: found.1, found.2)
  | b :: rest => (readQuoted rest).map fun found => (b :: found.1, found.2)

/-- A name, or two names around a dot, in small letters. -/
def readKey (text : Bytes) : Option (Bytes × Bytes) :=
  let name := text.takeWhile isAuthenticationNameByte
  if name = [] then none
  else
    match skipAuthenticationWhitespace (text.dropWhile isAuthenticationNameByte) with
    | 0x2E :: rest =>
      let rest := skipAuthenticationWhitespace rest
      let second := rest.takeWhile isAuthenticationNameByte
      if second = [] then none
      else some (toLower table name ++ [0x2E] ++ toLower table second,
        skipAuthenticationWhitespace (rest.dropWhile isAuthenticationNameByte))
    | rest => some (toLower table name, rest)

/-- Quotes and angle brackets delimit a whole value or make it malformed. -/
def readValue : Bytes → Option (Bytes × Bytes)
  | [] => none
  | 0x22 :: rest => readQuoted rest
  | 0x3C :: rest => cut 0x3E rest
  | text =>
    let value := text.takeWhile fun b => !isAuthenticationWhitespace b
    if value.any fun b => b = 0x22 || b = 0x3C || b = 0x3E then none
    else some (value, text.dropWhile fun b => !isAuthenticationWhitespace b)

/-- One assignment: its key, its value and what follows it. -/
def readAssignment (text : Bytes) : Option (Bytes × Bytes × Bytes) :=
  match readKey table text with
  | none => none
  | some (key, rest) =>
    match rest with
    | 0x3D :: rest =>
      (readValue (skipAuthenticationWhitespace rest)).map fun found => (key, found.1, found.2)
    | _ => none

/-- Every round takes at least one byte, so the length of the text is enough fuel. -/
def propertiesFrom (table : CaseTable) :
    ℕ → List (Bytes × Bytes) → Bytes → Option (List (Bytes × Bytes))
  | 0, properties, _ => some properties
  | fuel + 1, properties, text =>
    let next := skipAuthenticationWhitespace text
    if next = [] then some properties
    else if next.length = text.length then none
    else
      match readAssignment table next with
      | none => none
      | some (key, value, rest) =>
        if key ∈ properties.map Prod.fst then none
        else propertiesFrom table fuel (properties ++ [(key, value)]) rest

/-- The assignments of a clause. A malformed or repeated one leaves none of them. -/
def authenticationProperties (clause : Bytes) : List (Bytes × Bytes) :=
  (propertiesFrom table clause.length [] clause).getD []

def property? (properties : List (Bytes × Bytes)) (key : Bytes) : Option Bytes :=
  (properties.find? fun entry => entry.1 = key).map Prod.snd

def property (properties : List (Bytes × Bytes)) (key : Bytes) : Bytes :=
  (property? properties key).getD []

end Properties

section Clauses

variable (table : CaseTable)

def authenticationResultsSPFIdentity (properties : List (Bytes × Bytes)) : Bytes × SPFIdentity :=
  let domain := domainFromIdentity table (property properties (ascii "smtp.mailfrom"))
  if domain ≠ [] then (domain, .mailFrom)
  else match property? properties (ascii "smtp.helo") with
    | some identity => (domainFromIdentity table identity, .helo)
    | none => ([], .unspecified)

/-- The result of a clause from its method, its outcome and its assignments. -/
def clauseResult (method outcome : Bytes) (properties : List (Bytes × Bytes)) : Result :=
  let method := toLower table method
  let outcome := normalizeHeaderOutcome table method outcome
  if method = methodDKIM then
    ⟨method, outcome, normalizeDomain table (property properties (ascii "header.d")), .unspecified⟩
  else if method = methodSPF then
    let identity := authenticationResultsSPFIdentity table properties
    ⟨method, outcome, identity.1, identity.2⟩
  else if method = methodDMARC then
    ⟨method, outcome, normalizeDomain table (property properties (ascii "header.from")),
      .unspecified⟩
  else ⟨method, outcome, [], .unspecified⟩

def readClause (clause : Bytes) : Option Result :=
  (authenticationMethodPattern clause).map fun found =>
    clauseResult table found.1 found.2.1 (authenticationProperties table found.2.2)

def appendUnique (results : List Result) (candidate : Result) : List Result :=
  if candidate ∈ results then results else results ++ [candidate]

/-- The clauses of a well-formed field of a trusted service, empty for other fields. -/
def trustedClauses (trusted : List Bytes) (header : Bytes) : List Bytes :=
  match stripAuthenticationComments header with
  | none => []
  | some clean =>
    match splitAuthenticationClauses clean with
    | first :: clauses =>
      match fields first with
      | id :: _ => if normalizeAuthservID table id ∈ trusted then clauses else []
      | [] => []
    | [] => []

end Clauses

section ReceivedSPF

def isSPFTokenByte (b : UInt8) : Bool :=
  0x21 ≤ b && b ≤ 0x7E && !(ascii "()<>@,;:\\[]=\"").contains b

def skipBlanks (text : Bytes) : Bytes := text.dropWhile blank

/-- Behind a comment with `depth` parentheses open. -/
def skipSPFComment : ℕ → Bool → Bytes → Option Bytes
  | _, _, [] => none
  | depth, true, _ :: rest => skipSPFComment depth false rest
  | depth, false, b :: rest =>
    if b = 0x5C then skipSPFComment depth true rest
    else if b = 0x28 then skipSPFComment (depth + 1) false rest
    else if b = 0x29 then
      if depth - 1 = 0 then some rest else skipSPFComment (depth - 1) false rest
    else skipSPFComment depth false rest

/-- Behind the blanks, semicolons and comments between parameters. -/
def skipSPFSeparators : ℕ → Bytes → Option Bytes
  | 0, text => some text
  | fuel + 1, text =>
    match text.dropWhile (fun b => blank b || b = 0x3B) with
    | 0x28 :: rest => (skipSPFComment 0 false (0x28 :: rest)).bind (skipSPFSeparators fuel)
    | rest => some rest

def readSPFParameterValue : Bytes → Option (Bytes × Bytes)
  | [] => none
  | 0x22 :: rest => readQuoted rest
  | text =>
    let value := text.takeWhile fun b => !(blank b || b = 0x3B || b = 0x28)
    if value = [] then none
    else some (value, text.dropWhile fun b => !(blank b || b = 0x3B || b = 0x28))

def spfParameterFrom (wanted : Bytes) : ℕ → Bytes → Option Bytes
  | 0, _ => none
  | fuel + 1, text =>
    match skipSPFSeparators text.length text with
    | none => none
    | some text =>
      let key := text.takeWhile isSPFTokenByte
      if key = [] then none
      else
        match skipBlanks (text.dropWhile isSPFTokenByte) with
        | 0x3D :: rest =>
          match readSPFParameterValue (skipBlanks rest) with
          | none => none
          | some (parameter, rest) =>
            if equalFold key wanted then some parameter else spfParameterFrom wanted fuel rest
        | _ => none

def receivedSPFParameter (wanted : Bytes) : Option Bytes :=
  let text := skipBlanks value
  if text.takeWhile isSPFTokenByte = [] then none
  else spfParameterFrom wanted value.length (text.dropWhile isSPFTokenByte)

variable (table : CaseTable)

def receivedSPFEnvelopeDomain (header : Bytes) : Bytes :=
  domainFromIdentity table ((receivedSPFParameter header (ascii "envelope-from")).getD [])

/-- The result that one field adds. -/
def receivedSPFResult (trusted : List Bytes) (header : Bytes) : Option Result :=
  match receivedSPFParameter header (ascii "receiver") with
  | none => none
  | some receiver =>
    if normalizeAuthservID table receiver ∉ trusted then none
    else
      match receivedSPFResultPattern header with
      | none => none
      | some outcome =>
        let domain := receivedSPFEnvelopeDomain table header
        let scope := if domain ≠ [] then SPFIdentity.mailFrom else .unspecified
        let identity := receivedSPFParameter header (ascii "identity")
        let nullEnvelope := match receivedSPFParameter header (ascii "envelope-from") with
          | some envelope => trimSpace envelope = [] || trimSpace envelope = ascii "<>"
          | none => false
        let outcome := normalizeHeaderOutcome table methodSPF outcome
        if equalFold (identity.getD []) (ascii "helo") || identity.isNone && nullEnvelope then
          let helo := (receivedSPFParameter header (ascii "helo")).getD []
          some ⟨methodSPF, outcome, domainFromIdentity table helo, .helo⟩
        else some ⟨methodSPF, outcome, domain, scope⟩

def appendReceivedSPF (results : List Result) (headers : List Bytes) (trusted : List Bytes) :
    List Result :=
  (headers.filterMap (receivedSPFResult table trusted)).foldl appendUnique results

/-- A clause of a trusted field has the SPF method, whatever its assignments are. -/
def spfClause (clause : Bytes) : Bool :=
  match authenticationMethodPattern clause with
  | none => false
  | some found => toLower table found.1 = methodSPF

def parse (input : Input) : List Result :=
  let trusted := normalizedAuthservIDs table input.trustedAuthservIDs
  let clauses := input.authenticationResults.flatMap (trustedClauses table trusted)
  let results := (clauses.filterMap (readClause table)).foldl appendUnique []
  if clauses.any (spfClause table) then results
  else appendReceivedSPF table results input.receivedSPF trusted

end ReceivedSPF

end MilterGuard.AuthenticationHeaders
