import MilterGuard.AnnotationTags
import MilterGuard.AttachmentNames
import MilterGuard.ValidTexts

/-!
The texts an HTML extraction writes: sender text freed of reserved tags and of long
formatting padding, links as they are shown in a prompt, and Markdown escapes. A
text with a printable ASCII byte never passes for formatting padding.
-/
namespace MilterGuard.HtmlTexts

open ByteStrings Hostnames AnnotationTags Utf8 ValidTexts

/-- A URL as net/url reads it, with the text it prints. -/
structure ParsedURL where
  scheme : Bytes
  hostname : Bytes
  text : Bytes

/-- What the texts take from libraries: case mapping, net/url, the compaction of
a URL and the reading of a number. A base and a reference are given as written. -/
structure Library where
  table : CaseTable
  parseURL : Bytes → Option ParsedURL
  resolveReference : Bytes → Bytes → Bytes
  compactURL : Bytes → Bytes
  parseFloat : Bytes → Option ℚ

variable (value : Bytes)

/-- The runes, an invalid byte read as U+FFFD. -/
def decoded : List ℕ := (runes value).map fun r => r.getD replacement

def preheaderPaddingRune (r : ℕ) : Bool :=
  Utf8.spaceRune r || [0xAD, 0x34F, 0x61C, 0x180E, 0x200B, 0x200C, 0x200D, 0x200E, 0x200F, 0x2060,
    0xFEFF].contains r

def annotationWhitespaceOnly : Bool :=
  !value.isEmpty && (decoded value).all preheaderPaddingRune

/-- Padding that is cut: long, and not made of white space alone. -/
def longPadding (run : List ℕ) : Bool :=
  32 ≤ run.length && run.all preheaderPaddingRune && run.any fun r => !Utf8.spaceRune r

def paddingRuns : List (List ℕ) :=
  (decoded value).splitBy fun a b => preheaderPaddingRune a == preheaderPaddingRune b

def compactFormattingPadding : Bytes :=
  if (paddingRuns value).any longPadding then
    ((paddingRuns value).flatMap fun run =>
      if longPadding run then run.take 8 else run).flatMap encodeRune
  else value

def prepareVisibleText : Bytes :=
  compactFormattingPadding (sanitizeSenderText value)

/-- ASCII white space of HTML. -/
def formattingSpace (r : ℕ) : Bool := r = 0x20 || r = 0x09 || r = 0x0A || r = 0x0C || r = 0x0D

def collapseRunes : Bool → List ℕ → Bytes
  | pendingSpace, [] => if pendingSpace then [0x20] else []
  | pendingSpace, r :: rest =>
    if formattingSpace r then collapseRunes true rest
    else (if pendingSpace then [0x20] else []) ++ encodeRune r ++ collapseRunes false rest

def collapseHTMLFormattingWhitespace : Bytes := collapseRunes false (decoded value)

def normalizeRunes : Bool → ℕ → Bytes → List ℕ → Bytes
  | _, _, out, [] => out
  | space, newlines, out, r :: rest =>
    if r = 0x20 || r = 0x09 || r = 0x0C then normalizeRunes true newlines out rest
    else if r = 0x0D || r = 0x0A then
      if !out.isEmpty && newlines < 2 then normalizeRunes false (newlines + 1) (out ++ [0x0A]) rest
      else normalizeRunes false newlines out rest
    else
      let gap := if space && !out.isEmpty && newlines = 0 then [0x20] else []
      normalizeRunes false 0 (out ++ gap ++ encodeRune r) rest

/-- strings.Trim with the ASCII white space of HTML. -/
def trimFormatting : Bytes :=
  ((value.dropWhile annotationSpace).reverse.dropWhile annotationSpace).reverse

/-- A run of invalid bytes counts as a single U+FFFD. -/
def normalizeHTMLText : Bytes :=
  trimFormatting (normalizeRunes false 0 [] (repairRunes (runes value)))

def upperHex (n : UInt8) : UInt8 := if n < 10 then 0x30 + n else 0x37 + n

variable (c : UInt8)

def percentEncoded : Bytes := [0x25, upperHex (c >>> 4), upperHex (c &&& 15)]

def escapedByte (urlMode : Bool) (c : UInt8) : Bytes :=
  if urlMode then
    if c = 0x5C || c = 0x20 || c = 0x28 || c = 0x29 || c = 0x3C || c = 0x3E then percentEncoded c
    else [c]
  else if c = 0x5C || c = 0x5B || c = 0x5D then [0x5C, c]
  else [c]

def escapeMarkdown (urlMode : Bool) : Bytes := value.flatMap (escapedByte urlMode)

def maxExtractedLinks : ℕ := 100

def maxExtractedLinkChars : ℕ := 8192

def maxExtractedReferenceLength : ℕ := 2048

/-- The links of a message part. A text that was seen is one of the links. -/
structure LinkCollector where
  links : List Bytes
  rendered : List (Bytes × Bytes)
  chars : ℕ
  full : Bool

def LinkCollector.empty : LinkCollector := ⟨[], [], 0, false⟩

def LinkCollector.isFull (collector : LinkCollector) : Bool :=
  collector.full || maxExtractedLinks ≤ collector.links.length

variable (lib : Library) (compact : Bool)

def promptURL (value : Bytes) : Bytes :=
  if compact then lib.compactURL value else value

/-- The text shown for a destination, and the collector behind it. -/
def LinkCollector.addDestination (collector : LinkCollector) (candidate : Bytes) :
    Bytes × LinkCollector :=
  let raw := trimSpace candidate
  if raw.isEmpty then ([], collector)
  else match collector.rendered.lookup raw with
    | some rendered => (rendered, collector)
    | none =>
      if collector.isFull then (raw, collector)
      else
        let shown := promptURL lib compact raw
        let characters := (runes shown).length
        if collector.links.contains shown then (shown, collector)
        else if maxExtractedLinks ≤ collector.links.length ||
            maxExtractedLinkChars < collector.chars + characters then
          (shown, { collector with full := true })
        else
          (shown, { collector with
            links := collector.links ++ [shown]
            rendered := (raw, shown) :: collector.rendered
            chars := collector.chars + characters })

def hasHTTPPrefix : Bool :=
  7 ≤ value.length && equalFold (value.take 7) (ascii "http://") ||
    8 ≤ value.length && equalFold (value.take 8) (ascii "https://")

/-- The text before the next plain link and the text that starts with it. -/
def nextHTTPPrefix : Bytes → Option (Bytes × Bytes)
  | [] => none
  | c :: rest =>
    if (c = 0x68 || c = 0x48) && hasHTTPPrefix (c :: rest) then some ([], c :: rest)
    else (nextHTTPPrefix rest).map fun parts => (c :: parts.1, parts.2)

def plainURLDelimiter : Bool :=
  c = 0x20 || c = 0x09 || c = 0x0A || c = 0x0C || c = 0x0D || c = 0x3C || c = 0x3E || c = 0x22 ||
    c = 0x27

/-- The text before the first bracket that closes nothing. -/
def balancedPrefix : ℕ → ℕ → ℕ → Bytes → Bytes
  | _, _, _, [] => []
  | parentheses, brackets, braces, c :: rest =>
    if c = 0x28 then c :: balancedPrefix (parentheses + 1) brackets braces rest
    else if c = 0x29 then
      if parentheses = 0 then [] else c :: balancedPrefix (parentheses - 1) brackets braces rest
    else if c = 0x5B then c :: balancedPrefix parentheses (brackets + 1) braces rest
    else if c = 0x5D then
      if brackets = 0 then [] else c :: balancedPrefix parentheses (brackets - 1) braces rest
    else if c = 0x7B then c :: balancedPrefix parentheses brackets (braces + 1) rest
    else if c = 0x7D then
      if braces = 0 then [] else c :: balancedPrefix parentheses brackets (braces - 1) rest
    else c :: balancedPrefix parentheses brackets braces rest

def trailingPunctuation : Bool := (ascii ".,;:!?").contains c

def trimPlainURLPunctuation : Bytes :=
  ((balancedPrefix 0 0 0 value).reverse.dropWhile trailingPunctuation).reverse

/-- The links of a text as they are shown. Without a collector nothing is
recorded and nothing limits the search. -/
def rewriteFrom (lib : Library) (compact : Bool) :
    ℕ → Option LinkCollector → Bytes → Bytes × Option LinkCollector
  | 0, links, text => (text, links)
  | fuel + 1, links, text =>
    match nextHTTPPrefix text with
    | none => (text, links)
    | some (before, found) =>
      let link := trimPlainURLPunctuation (found.takeWhile fun c => !plainURLDelimiter c)
      if link.isEmpty then
        let (after, links) := rewriteFrom lib compact fuel links (found.drop 1)
        (before ++ found.take 1 ++ after, links)
      else
        let (displayed, links) :=
          match links with
          | some collector =>
            let (displayed, collector) := collector.addDestination lib compact link
            (displayed, some collector)
          | none => (promptURL lib compact link, none)
        let rest := found.drop link.length
        if links.any LinkCollector.isFull then (before ++ displayed ++ rest, links)
        else
          let (after, links) := rewriteFrom lib compact fuel links rest
          (before ++ displayed ++ after, links)

/-- Every link takes a byte of the text, so the length is enough fuel. -/
def rewritePlainTextURLs (links : Option LinkCollector) (text : Bytes) :
    Bytes × Option LinkCollector :=
  if links.any LinkCollector.isFull then (text, links)
  else rewriteFrom lib compact text.length links text

/-- strings.Index. -/
def indexOf (pattern : Bytes) : Option ℕ :=
  (List.range (value.length + 1)).find? fun i => hasPrefix (value.drop i) pattern

/-- Line breaks, tabs and zero bytes are dropped, an invalid byte becomes U+FFFD. -/
def cleanDestination (raw : Bytes) : Bytes :=
  let removed (r : ℕ) : Bool := r = 0x0D || r = 0x0A || r = 0x09 || r = 0
  trimSpace (mapRunes (fun r => if removed r then none else some r) raw)

/-- Where the authority of a URL with a scheme ends; zero without a scheme. -/
def authorityEnd (raw : Bytes) : ℕ :=
  match indexOf raw (ascii "://") with
  | none => 0
  | some scheme =>
    scheme + 3 + ((raw.drop (scheme + 3)).takeWhile fun c =>
      !(c = 0x2F || c = 0x3F || c = 0x23)).length

def controlByte : Bool := c < 0x20 || c = 0x7F

/-- A control byte is escaped; in an authority it makes the URL unusable. -/
def encodeControls (raw : Bytes) : Option Bytes :=
  if (raw.take (authorityEnd raw)).any controlByte then none
  else some (raw.flatMap fun c => if controlByte c then percentEncoded c else [c])

def destination (base : Option Bytes) (raw : Bytes) : Option Bytes :=
  match encodeControls (cleanDestination raw) with
  | none => none
  | some raw =>
    if raw.isEmpty then none
    else match lib.parseURL raw with
      | none => none
      | some parsed =>
        if !parsed.scheme.isEmpty then
          let scheme := toLower lib.table parsed.scheme
          if scheme ≠ ascii "http" ∧ scheme ≠ ascii "https" ∧ scheme ≠ ascii "mailto" ∧
              scheme ≠ ascii "tel" then none
          else if (scheme = ascii "http" ∨ scheme = ascii "https") ∧ parsed.hostname = [] then none
          else some parsed.text
        else match base with
          | some base => some (lib.resolveReference base raw)
          | none => some raw

/-- The value of the first attribute with a name. -/
def attrPresent (attrs : List (Bytes × Bytes)) (key : Bytes) : Option Bytes :=
  (attrs.find? fun attr => equalFold attr.1 key).map Prod.snd

def firstAttr (attrs : List (Bytes × Bytes)) (key : Bytes) : Bytes :=
  (attrPresent attrs key).getD []

/-- url.PathUnescape, without the text of its error. -/
def pathUnescape : Bytes → Option Bytes
  | [] => some []
  | 0x25 :: a :: b :: rest =>
    match AttachmentNames.hexDigit a, AttachmentNames.hexDigit b with
    | some high, some low => (pathUnescape rest).map fun decoded => (high * 16 + low) :: decoded
    | _, _ => none
  | 0x25 :: _ => none
  | c :: rest => (pathUnescape rest).map fun decoded => c :: decoded

variable (table : CaseTable)

def normalizeContentID (value : Bytes) : Bytes :=
  let value := trimSpace value
  let value :=
    if 2 ≤ value.length ∧ value.head? = some 0x3C ∧ value.getLast? = some 0x3E then
      trimSpace (value.drop 1).dropLast
    else value
  toLower table ((pathUnescape value).getD value)

/-- The image references of a message part. -/
structure ImageRefs where
  refs : List Bytes
  chars : ℕ

def ImageRefs.empty : ImageRefs := ⟨[], 0⟩

def ImageRefs.add (collector : ImageRefs) (candidate : Bytes) : ImageRefs :=
  let candidate := normalizeContentID table candidate
  let characters := (runes candidate).length
  if candidate.isEmpty || collector.refs.contains candidate then collector
  else if maxExtractedLinks ≤ collector.refs.length || maxExtractedReferenceLength < characters ||
      maxExtractedLinkChars < collector.chars + characters then collector
  else ⟨collector.refs ++ [candidate], collector.chars + characters⟩

def conditionalHTMLComment (value : Bytes) : Bool :=
  hasPrefix (toLower table (trimSpace value)) (ascii "[if ")

/-- The last place where a marker stands, letters of both cases alike. -/
def lastIndexASCIIFold (marker : Bytes) : Option ℕ :=
  if marker.length ≤ value.length then
    (List.range (value.length - marker.length + 1)).reverse.find? fun start =>
      ((value.drop start).take marker.length).map asciiLowerByte = marker.map asciiLowerByte
  else none

/-- An ASCII byte is decoded as a rune of its own. -/
private theorem mem_runes (hc : c < 0x80) (hmem : c ∈ value) : some c.toNat ∈ runes value := by
  obtain ⟨before, after, rfl⟩ := List.append_of_mem hmem
  have hlow : c.toNat < 0x80 := UInt8.lt_iff_toNat_lt.mp hc
  have hfirst := runes_of_encodes (.one hlow rfl : Encodes c.toNat [c]) after
  rw [List.singleton_append] at hfirst
  simp [runes_append_ascii before hlow, hfirst]

/-- A text with an ASCII byte that is no white space is not padding. -/
theorem annotationWhitespaceOnly_of_mem (hc : c < 0x80)
    (hspace : preheaderPaddingRune c.toNat = false) (hmem : c ∈ value) :
    annotationWhitespaceOnly value = false := by
  have hrune : c.toNat ∈ decoded value :=
    List.mem_map.mpr ⟨some c.toNat, mem_runes _ _ hc hmem, rfl⟩
  have hall : (decoded value).all preheaderPaddingRune = false := by
    rw [List.all_eq_false]
    exact ⟨c.toNat, hrune, by simp [hspace]⟩
  simp [annotationWhitespaceOnly, hall]

end MilterGuard.HtmlTexts
