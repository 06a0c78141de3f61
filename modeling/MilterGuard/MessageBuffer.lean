import MilterGuard.Hostnames

/-!
The bounded buffer for one message. Headers are kept by name up to a limit for
each name; the security headers and the From fields are counted even when their
values are not kept. Header lines and body share one budget of bytes.
-/
namespace MilterGuard.MessageBuffer

open ByteStrings Hostnames

def maxRetainedHeaderBytesPerName : ℕ := 16384
def maxAuthenticationHeaderBytes : ℕ := 32768
def maxHeaderValueBytes : ℕ := 8192
def maxMIMEHeaderValueBytes : ℕ := 65536

def retainedHeaders : List Bytes :=
  ["authentication-results", "content-disposition", "content-transfer-encoding", "content-type",
    "date", "from", "message-id", "x-milterguard-action", "x-milterguard-classification",
    "x-milterguard-confidence", "x-milterguard-policy", "x-milterguard-score",
    "x-milterguard-internal", "received-spf", "reply-to", "return-path", "subject", "to"].map ascii

def countedSecurityHeaders : List Bytes :=
  ["x-milterguard-action", "x-milterguard-classification", "x-milterguard-confidence",
    "x-milterguard-internal", "x-milterguard-policy", "x-milterguard-score"].map ascii

def structuralMIMEHeaders : List Bytes :=
  ["content-disposition", "content-transfer-encoding", "content-type"].map ascii

/-- Retained values in order of arrival, each with its lowered name. -/
structure Message where
  maxBytes : ℕ
  headers : List (Bytes × Bytes)
  counted : List Bytes
  fromHeaderCount : ℕ
  body : Bytes
  truncated : Bool
  bodyTruncated : Bool
  mimeHeadersTruncated : Bool
  archiveHeaders : Bytes
  archiveHeadersTruncated : Bool
  deriving DecidableEq

def new (maxBytes : ℕ) : Message :=
  ⟨maxBytes, [], [], 0, [], false, false, false, [], false⟩

/-- Line ends become CRLF with a continuation blank. -/
def archiveValue : Bytes → Bytes
  | [] => []
  | 0x0D :: 0x0A :: rest => [0x0D, 0x0A, 0x20] ++ archiveValue rest
  | 0x0D :: rest => [0x0D, 0x0A, 0x20] ++ archiveValue rest
  | 0x0A :: rest => [0x0D, 0x0A, 0x20] ++ archiveValue rest
  | b :: rest => b :: archiveValue rest

variable (m : Message) (name : Bytes)

def addArchiveHeader (value : Bytes) : Message :=
  let name := trimSpace name
  if name = [] ∨ name.any (fun b => b < 33 || 126 < b || b = 0x3A) then
    { m with archiveHeadersTruncated := true }
  else
    -- NUL bytes go first, so they cannot separate the two bytes of a line end.
    let line := name ++ [0x3A, 0x20] ++ archiveValue (value.filter (· ≠ 0)) ++ [0x0D, 0x0A]
    if m.archiveHeaders.length + line.length > m.maxBytes / 2 then
      { m with archiveHeadersTruncated := true }
    else { m with archiveHeaders := m.archiveHeaders ++ line }

def headerBytesByName : ℕ :=
  ((m.headers.filter (·.1 = name)).map fun h => h.1.length + h.2.length + 2).sum

def headerLimit : ℕ :=
  if name ∈ structuralMIMEHeaders then maxMIMEHeaderValueBytes + 256
  else if name = ascii "authentication-results" then maxAuthenticationHeaderBytes
  else maxRetainedHeaderBytesPerName

def markTruncated : Message :=
  { m with
    truncated := true
    mimeHeadersTruncated := m.mimeHeadersTruncated || name ∈ structuralMIMEHeaders }

/-- The part of AddHeader after the counters, for a retained name. -/
def retainHeader (value : Bytes) : Message :=
  let value := toValidUTF8 (trimSpace value)
  let valueLimit :=
    if name ∈ structuralMIMEHeaders then maxMIMEHeaderValueBytes else maxHeaderValueBytes
  let kept := if value.length > valueLimit then cutAtRune value valueLimit else value
  let m := if value.length > valueLimit then markTruncated m name else m
  if headerBytesByName m name + (name.length + kept.length + 2) > headerLimit name then
    markTruncated m name
  else { m with headers := m.headers ++ [(name, kept)] }

variable (table : CaseTable)

def addHeader (m : Message) (name value : Bytes) : Message :=
  let m := addArchiveHeader m name value
  let name := toLower table (trimSpace name)
  let m := if name = ascii "from" then { m with fromHeaderCount := m.fromHeaderCount + 1 } else m
  let m := if name ∈ countedSecurityHeaders then { m with counted := m.counted ++ [name] } else m
  if name ∈ retainedHeaders then retainHeader m name value else m

def headerOccurrences (m : Message) (name : Bytes) : ℕ :=
  m.counted.count (toLower table (trimSpace name))

def addBody (chunk : Bytes) : Message :=
  if chunk = [] then m
  else
    let remaining := m.maxBytes - m.archiveHeaders.length - 2 - m.body.length
    if remaining = 0 then { m with truncated := true, bodyTruncated := true }
    else if chunk.length > remaining then
      { m with body := m.body ++ chunk.take remaining, truncated := true, bodyTruncated := true }
    else { m with body := m.body ++ chunk }

def header (m : Message) (name : Bytes) : Bytes :=
  join (ascii ", ") ((m.headers.filter (·.1 = toLower table name)).map (·.2))

/-- The first retained value of a header, empty when there is none. -/
def firstHeader (m : Message) (name : Bytes) : Bytes :=
  (((m.headers.filter (·.1 = toLower table name)).map (·.2)).head?).getD []

end MilterGuard.MessageBuffer
