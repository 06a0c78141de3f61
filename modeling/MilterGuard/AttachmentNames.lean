import MilterGuard.Hostnames

/-!
File names and locations as the attachment scanner normalizes them, the check
of a name against the blocked extensions, and the file name that the header
fields of a MIME part declare. Media types, encoded words, character sets and
the Unicode normal form are services of libraries.
-/
namespace MilterGuard.AttachmentNames

open ByteStrings Hostnames

/-- Text services the scanner calls. Errors are given by their texts. -/
structure TextServices where
  table : CaseTable
  /-- norm.NFKC. -/
  nfkc : Bytes → Bytes
  /-- The quoted form of a text in an error message. -/
  quote : Bytes → Bytes
  /-- mime.ParseMediaType: the media type and its parameters. -/
  parseMediaType : Bytes → Except Bytes (Bytes × List (Bytes × Bytes))
  /-- WordDecoder.DecodeHeader with the readers of the charset package. -/
  decodeHeader : Bytes → Except Bytes Bytes
  /-- charset.NewReaderLabel; the reader it returns delivers a text or fails. -/
  charsetReader : Bytes → Except Bytes (Bytes → Except Bytes Bytes)

/-- The value of a parameter, empty when it is absent. -/
def parameter (params : List (Bytes × Bytes)) (key : Bytes) : Bytes :=
  (params.lookup key).getD []

/-- path.Base. -/
def pathBase (value : Bytes) : Bytes :=
  if value = [] then [0x2E]
  else
    let kept := (value.reverse.dropWhile (· = 0x2F)).takeWhile (· ≠ 0x2F)
    if kept = [] then [0x2F] else kept.reverse

/-- The runes of the Unicode category Cf. -/
def formatRunes : List (ℕ × ℕ) :=
  [(0xAD, 0xAD), (0x600, 0x605), (0x61C, 0x61C), (0x6DD, 0x6DD), (0x70F, 0x70F), (0x890, 0x891),
    (0x8E2, 0x8E2), (0x180E, 0x180E), (0x200B, 0x200F), (0x202A, 0x202E), (0x2060, 0x2064),
    (0x2066, 0x206F), (0xFEFF, 0xFEFF), (0xFFF9, 0xFFFB), (0x110BD, 0x110BD), (0x110CD, 0x110CD),
    (0x13430, 0x1343F), (0x1BCA0, 0x1BCA3), (0x1D173, 0x1D17A), (0xE0001, 0xE0001),
    (0xE0020, 0xE007F)]

def ignorable (r : ℕ) : Bool :=
  isControl r || formatRunes.any (fun range => range.1 ≤ r && r ≤ range.2) || r = 0x34F ||
    0xFE00 ≤ r && r ≤ 0xFE0F || 0xE0100 ≤ r && r ≤ 0xE01EF

def unnamed : Bytes := ascii "unnamed"

variable (text : TextServices) (value : Bytes)

def normalizeName : Bytes :=
  let value := text.nfkc (toValidUTF8 value)
  let value := pathBase (value.map fun b => if b = 0x5C then 0x2F else b)
  let value := trimSpace (mapRunes (fun r => if ignorable r then none else some r) value)
  if value = [0x2E] ∨ value = [0x2E, 0x2E] ∨ value = [0x2F] ∨ value = [] then unnamed else value

def cleanName : Bytes := truncateRunes 255 (normalizeName text value)

def cleanLocation : Bytes :=
  let parts := split 0x2F (value.map fun b => if b = 0x5C then 0x2F else b)
  let cleaned := (parts.map (cleanName text)).filter (· ≠ unnamed)
  if cleaned = [] then ascii "message" else join [0x2F] cleaned

def joinLocation (parent child : Bytes) : Bytes :=
  cleanLocation text parent ++ 0x2F :: cleanName text child

def replaceLocationBase (location filename : Bytes) : Bytes :=
  match cut 0x2F (cleanLocation text location).reverse with
  | some (_, parent) => parent.reverse ++ 0x2F :: cleanName text filename
  | none => cleanName text filename

def stripCompressionExtension (filename : Bytes) (extensions : List Bytes) : Bytes :=
  let filename := normalizeName text filename
  let lower := toLower text.table filename
  let stripped := extensions.filterMap fun extension =>
    let name := trimSpace (filename.take (filename.length - extension.length))
    if hasSuffix lower extension ∧ name ≠ [] then some (normalizeName text name) else none
  stripped.head?.getD unnamed

/-- The blocked extensions in the form `New` stores them. -/
def blockedSet (extensions : List Bytes) : List Bytes :=
  (extensions.map fun extension =>
    trimPrefix (toLower text.table (trimSpace extension)) [0x2E]).filter (· ≠ [])

/-- The extensions of one colon-delimited segment of a name. -/
def segmentExtensions (segment : Bytes) : List Bytes :=
  (split 0x2E (segment.reverse.dropWhile fun b => b = 0x2E || b = 0x20).reverse).drop 1

def blockedExtension (blocked : List Bytes) (filename : Bytes) : Option Bytes :=
  ((split 0x3A (toLower text.table (normalizeName text filename))).flatMap segmentExtensions).find?
    (· ∈ blocked)

/-- The parameters of a header between semicolons outside quoted strings. -/
def splitParametersFrom : Bool → Bool → Bytes → Bytes → List Bytes
  | _, _, current, [] => [current]
  | quoted, true, current, b :: rest => splitParametersFrom quoted false (current ++ [b]) rest
  | quoted, false, current, b :: rest =>
    if quoted ∧ b = 0x5C then splitParametersFrom quoted true (current ++ [b]) rest
    else if b = 0x22 then splitParametersFrom (!quoted) false (current ++ [b]) rest
    else if b = 0x3B ∧ quoted = false then current :: splitParametersFrom quoted false [] rest
    else splitParametersFrom quoted false (current ++ [b]) rest

def splitMIMEParameters (header : Bytes) : List Bytes := splitParametersFrom false false [] header

/-- The key of a parameter as it is compared, and its raw value when it has one. -/
def parameterKey (parameter : Bytes) : Bytes × Option Bytes :=
  match cut 0x3D parameter with
  | some (key, raw) => (toLower text.table (trimSpace key), some raw)
  | none => (toLower text.table (trimSpace parameter), none)

def hasFilenameParameter (header : Bytes) : Bool :=
  (splitMIMEParameters header).any fun parameter =>
    let key := (parameterKey text parameter).1
    key = ascii "filename" || key = ascii "name" || hasPrefix key (ascii "filename*") ||
      hasPrefix key (ascii "name*")

def decodeFilename : Except Bytes Bytes :=
  match text.decodeHeader value with
  | .ok decoded => .ok (normalizeName text decoded)
  | .error err =>
    if ascii "=?" <:+: value ∨ ascii "?=" <:+: value then
      .error (ascii "cannot decode encoded attachment filename: " ++ err)
    else .ok (normalizeName text value)

def hexDigit (b : UInt8) : Option UInt8 :=
  if 0x30 ≤ b ∧ b ≤ 0x39 then some (b - 0x30)
  else if 0x61 ≤ b ∧ b ≤ 0x66 then some (b - 0x61 + 10)
  else if 0x41 ≤ b ∧ b ≤ 0x46 then some (b - 0x41 + 10)
  else none

/-- url.PathUnescape. -/
def pathUnescape : Bytes → Except Bytes Bytes
  | [] => .ok []
  | 0x25 :: a :: b :: rest =>
    match hexDigit a, hexDigit b with
    | some high, some low => (pathUnescape rest).map fun decoded => (high * 16 + low) :: decoded
    | _, _ => .error (ascii "invalid URL escape " ++ text.quote [0x25, a, b])
  | 0x25 :: rest => .error (ascii "invalid URL escape " ++ text.quote (0x25 :: rest))
  | b :: rest => (pathUnescape rest).map fun decoded => b :: decoded

def unquoted : Bytes :=
  if 2 ≤ value.length ∧ value.head? = some 0x22 ∧ value.getLast? = some 0x22 then
    (value.drop 1).dropLast
  else value

def decodeExtendedFilename : Except Bytes Bytes :=
  match cut 0x27 (unquoted value) with
  | none => .error (ascii "encoded attachment filename has no character set")
  | some (label, remainder) =>
    if trimSpace label = [] then
      .error (ascii "encoded attachment filename has no character set")
    else
      match cut 0x27 remainder with
      | none => .error (ascii "encoded attachment filename has no language separator")
      | some (_, encoded) =>
        match pathUnescape text encoded with
        | .error err => .error (ascii "cannot unescape encoded attachment filename: " ++ err)
        | .ok bytes =>
          match text.charsetReader label with
          | .error err =>
            .error (ascii "unsupported attachment filename character set " ++ text.quote label ++
              ascii ": " ++ err)
          | .ok reader =>
            match reader bytes with
            | .error err =>
              .error (ascii "cannot decode attachment filename character set " ++
                text.quote label ++ ascii ": " ++ err)
            | .ok decoded => .ok decoded

/-- The extended form of a parameter, if the header has one. -/
def extendedFilenameParameter (header baseKey : Bytes) : Option (Except Bytes Bytes) :=
  (splitMIMEParameters header).findSome? fun parameter =>
    let (key, raw) := parameterKey text parameter
    if key = baseKey ++ [0x2A] then
      match raw with
      | none => some (.error (ascii "encoded attachment filename has no value"))
      | some raw =>
        some ((decodeExtendedFilename text (trimSpace raw)).map (normalizeName text))
    else if hasPrefix key (baseKey ++ [0x2A]) then
      some (.error (ascii "unsupported continued attachment filename encoding"))
    else none

/-- The file name that one header declares, if it declares one. -/
def headerFilename (header : Bytes) : Option (Except Bytes Bytes) :=
  match text.parseMediaType header with
  | .error err =>
    if hasFilenameParameter text header then
      some (.error (ascii "invalid encoded attachment filename: " ++ err))
    else none
  | .ok (_, params) =>
    [ascii "filename", ascii "name"].findSome? fun key =>
      let raw := trimSpace (parameter params key)
      if raw ≠ [] then some (decodeFilename text raw) else extendedFilenameParameter text header key

/-- The declared file name, empty when there is none. -/
def attachmentFilename (contentDisposition contentType : Bytes) : Except Bytes Bytes :=
  ([contentDisposition, contentType].findSome? (headerFilename text)).getD (.ok [])

def explicitAttachment (contentDisposition : Bytes) : Bool :=
  match text.parseMediaType contentDisposition with
  | .ok (disposition, _) => equalFold disposition (ascii "attachment")
  | .error _ => false

end MilterGuard.AttachmentNames
