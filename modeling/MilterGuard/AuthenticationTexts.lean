import MilterGuard.AuthenticationHeaders

/-!
Authentication-Results fields as services write them. White space and balanced comments
may stand between any two tokens. A field is rendered twice: as it is sent, and with
every comment replaced by a blank, which is what the comment stripper leaves of it.
-/
namespace MilterGuard.AuthenticationTexts

open ByteStrings Hostnames AuthenticationHeaders

/-- The parentheses of a comment body close again, those behind a backslash not counted. -/
def balancedFrom : ℕ → Bool → Bytes → Bool
  | depth, escaped, [] => depth = 0 && !escaped
  | depth, true, _ :: rest => balancedFrom depth false rest
  | depth, false, b :: rest =>
    if b = 0x5C then balancedFrom depth true rest
    else if b = 0x28 then balancedFrom (depth + 1) false rest
    else if b = 0x29 then
      match depth with
      | 0 => false
      | outer + 1 => balancedFrom outer false rest
    else balancedFrom depth false rest

def balanced (body : Bytes) : Bool := balancedFrom 0 false body

inductive GapPiece where
  | space (b : UInt8) (h : isAuthenticationWhitespace b = true)
  | comment (body : Bytes) (h : balanced body = true)

def GapPiece.text : GapPiece → Bytes
  | .space b _ => [b]
  | .comment body _ => [0x28] ++ body ++ [0x29]

def GapPiece.blank : GapPiece → UInt8
  | .space b _ => b
  | .comment _ _ => 0x20

/-- White space and comments between two tokens. -/
abbrev Gap := List GapPiece

def sent (gap : Gap) : Bytes := gap.flatMap GapPiece.text

/-- What the stripper leaves of a gap. -/
def cleaned (gap : Gap) : Bytes := gap.map GapPiece.blank

structure Name where
  text : Bytes
  ne_nil : text ≠ []
  bytes : ∀ b ∈ text, isAuthenticationNameByte b = true

/-- A byte of a quoted string, with or without a backslash in front. -/
structure QuotedByte where
  byte : UInt8
  escaped : Bool
  plain : escaped = false → byte ≠ 0x22 ∧ byte ≠ 0x5C

def QuotedByte.text (b : QuotedByte) : Bytes := if b.escaped then [0x5C, b.byte] else [b.byte]

/-- No white space, quotes, parentheses, semicolons or angle brackets. -/
def freeByte (b : UInt8) : Bool :=
  !isAuthenticationWhitespace b && !(ascii "\"();<>").contains b

inductive Value where
  | quoted (content : List QuotedByte)
  | plain (text : Bytes) (ne_nil : text ≠ []) (free : ∀ b ∈ text, freeByte b = true)
  | angled (text : Bytes) (ne_nil : text ≠ []) (free : ∀ b ∈ text, freeByte b = true)

def Value.content : Value → Bytes
  | .quoted content => content.map QuotedByte.byte
  | .plain text _ _ => text
  | .angled text _ _ => text

def Value.text : Value → Bytes
  | .quoted content => [0x22] ++ content.flatMap QuotedByte.text ++ [0x22]
  | .plain text _ _ => text
  | .angled text _ _ => [0x3C] ++ text ++ [0x3E]

/-- An assignment with what separates it from the text in front of it. Its name is one
word, or two words around a dot. -/
structure Assignment where
  before : Gap
  before_ne_nil : before ≠ []
  name : Name
  second : Option (Gap × Gap × Name)
  beforeEquals : Gap
  afterEquals : Gap
  value : Value

def lower (text : Bytes) : Bytes := text.map asciiLowerByte

def Assignment.key (a : Assignment) : Bytes :=
  match a.second with
  | none => lower a.name.text
  | some (_, _, second) => lower a.name.text ++ [0x2E] ++ lower second.text

inductive Method where
  | dkim
  | spf
  | dmarc

def Method.name : Method → Bytes
  | .dkim => ascii "dkim"
  | .spf => ascii "spf"
  | .dmarc => ascii "dmarc"

/-- A clause with a method in any letter case, an outcome of a letter and at most 31
further letters and digits, and assignments to different names. -/
structure Clause where
  lead : Gap
  method : Method
  spelling : Bytes
  spelling_lower : lower spelling = method.name
  beforeEquals : Gap
  afterEquals : Gap
  first : UInt8
  first_letter : letter first = true
  more : Bytes
  more_length : more.length ≤ 31
  more_bytes : ∀ b ∈ more, (letter b || digit b) = true
  assignments : List Assignment
  distinct : (assignments.map Assignment.key).Nodup
  trail : Gap

/-- A field of a service: its identifier, one word, and its clauses. -/
structure Field where
  lead : Gap
  id : Bytes
  id_word : fields id = [id]
  id_bytes : ∀ b ∈ id, (ascii "\"();").contains b = false
  trail : Gap
  clauses : List Clause

section Rendering

variable (gap : Gap → Bytes)

def Assignment.render (a : Assignment) : Bytes :=
  gap a.before ++ (a.name.text ++
    ((match a.second with
      | none => []
      | some (beforeDot, afterDot, second) =>
        gap beforeDot ++ [0x2E] ++ gap afterDot ++ second.text) ++
      (gap a.beforeEquals ++ ([0x3D] ++ (gap a.afterEquals ++ a.value.text)))))

/-- What follows the outcome of a clause. -/
def Clause.renderTail (c : Clause) : Bytes :=
  c.assignments.flatMap (Assignment.render gap) ++ gap c.trail

def Clause.render (c : Clause) : Bytes :=
  gap c.lead ++ (c.spelling ++ (gap c.beforeEquals ++ ([0x3D] ++ (gap c.afterEquals ++
    (c.first :: c.more ++ c.renderTail gap)))))

def Field.render (f : Field) : Bytes :=
  gap f.lead ++ f.id ++ gap f.trail ++ f.clauses.flatMap fun c => [0x3B] ++ c.render gap

end Rendering

def Field.text (f : Field) : Bytes := f.render sent

/-- The content assigned to a key. -/
def Clause.assigned (c : Clause) (key : String) : Option Bytes :=
  (c.assignments.find? fun a => a.key = ascii key).map fun a => a.value.content

def Clause.outcome (c : Clause) : Bytes := lower (c.first :: c.more)

/-- The result that a clause stands for. Each method has its own identity: the signing
domain, the envelope sender or else the greeting name, and the author domain. -/
def Clause.result (table : CaseTable) (c : Clause) : Result :=
  match c.method with
  | .dkim => ⟨ascii "dkim", c.outcome, normalizeDomain table ((c.assigned "header.d").getD []),
      .unspecified⟩
  | .dmarc => ⟨ascii "dmarc", c.outcome,
      normalizeDomain table ((c.assigned "header.from").getD []), .unspecified⟩
  | .spf =>
    let outcome := if c.outcome = ascii "tempfail" then ascii "temperror" else c.outcome
    let sender := domainFromIdentity table ((c.assigned "smtp.mailfrom").getD [])
    if sender ≠ [] then ⟨ascii "spf", outcome, sender, .mailFrom⟩
    else match c.assigned "smtp.helo" with
      | some greeting => ⟨ascii "spf", outcome, domainFromIdentity table greeting, .helo⟩
      | none => ⟨ascii "spf", outcome, [], .unspecified⟩

end MilterGuard.AuthenticationTexts
