import MilterGuard.ByteStrings
import MilterGuard.NestedSpans

/-!
What the extraction of a MIME part yields, and how the contents of several parts become
one. A content has three variants of its text, each with the spans of its attachments.
Texts are joined with an empty line between them, and an attachment is wrapped in a
section of its own.
-/
namespace MilterGuard.MimeContents

open ByteStrings NestedSpans

/-- The two tags that attachments are wrapped in. -/
inductive AttachmentTag
  | attachedFile
  | attachedEmail
  deriving DecidableEq

def AttachmentTag.name : AttachmentTag → Bytes
  | .attachedFile => ascii "attached-file"
  | .attachedEmail => ascii "attached-email"

abbrev AttachmentSpan := Span AttachmentTag

variable (tag : AttachmentTag)

def openingLine : Bytes := ascii "<" ++ tag.name ++ ascii ">\n"

def closingLine : Bytes := ascii "\n</" ++ tag.name ++ ascii ">"

/-- A variant of the text with its attachments. -/
structure Marked where
  text : Bytes := []
  spans : List AttachmentSpan := []
  deriving DecidableEq

structure Content where
  attachment : Bool := false
  text : Marked := {}
  visible : Marked := {}
  stripped : Marked := {}
  links : List Bytes := []
  imageRefs : List Bytes := []
  images : List Bytes := []
  html : Bool := false
  mimeIncomplete : Bool := false
  transferIncomplete : Bool := false
  extractionIncomplete : Bool := false
  htmlFallbackUsed : Bool := false
  htmlCPULimitExceeded : Bool := false
  htmlMemoryLimitExceeded : Bool := false
  htmlPrimaryMemoryLimitExceeded : Bool := false
  htmlFallbackMemoryLimitExceeded : Bool := false
  cssIncomplete : Bool := false
  hasConcealedContent : Bool := false
  deriving DecidableEq

variable (c : Content)

def Content.incomplete : Bool :=
  c.mimeIncomplete || c.transferIncomplete || c.extractionIncomplete

def hasExtractedContent : Bool :=
  trimSpace c.text.text ≠ [] || c.links ≠ [] || c.imageRefs ≠ [] || c.images ≠ []

def sanitize (value : Bytes) : Bytes :=
  replaceAll (replaceAll value (ascii "\r") (ascii " ")) (ascii "\n") (ascii " ")

def attachmentMarker (mediaType name : Bytes) : Bytes :=
  ascii "[attachment: " ++ sanitize name ++ ascii "; type=" ++ mediaType ++ ascii "]"

variable (storage : Bytes → Bytes → Bool)

/-- Equal storage is only ever found for equal texts; which equal texts share it is
left open. -/
def sameStringStorage (a b : Bytes) : Bool :=
  a = b && (a = [] || storage a b)

def maxAttachmentFieldBytes : ℕ := 1024

variable (decodeHeaderValue : Bytes → Bytes)

def attachmentMetadataValue (value : Bytes) : Bytes :=
  let decoded := decodeHeaderValue (value.take maxAttachmentFieldBytes)
  let spaced := mapRunes (fun r => some (if isControl r then 0x20 else r)) decoded
  let escaped := replaceAll (replaceAll spaced (ascii "<") (ascii "&lt;")) (ascii ">")
    (ascii "&gt;")
  if escaped.length > maxAttachmentFieldBytes then
    cutAtRune escaped maxAttachmentFieldBytes ++ ascii " [metadata truncated]"
  else if value.length > maxAttachmentFieldBytes then escaped ++ ascii " [metadata truncated]"
  else escaped

/-- The opening line, what is known about the attachment, and an empty line. -/
def attachmentPrefix (tag : AttachmentTag) (filename mediaType headers : Bytes) : Bytes :=
  openingLine tag ++
    (if filename ≠ [] then
      ascii "Filename: " ++ attachmentMetadataValue decodeHeaderValue filename ++ ascii "\n"
    else []) ++
    (if mediaType ≠ [] then ascii "Content-Type: " ++ mediaType ++ ascii "\n" else []) ++
    (if headers ≠ [] then ascii "Original headers (unverified claims):\n" ++ headers else []) ++
    ascii "\n"

def appendAttachmentSpans (dst src : List AttachmentSpan) (offset : ℕ) : List AttachmentSpan :=
  dst ++ src.map (Span.shift offset)

def Marked.wrap (header : Bytes) (tag : AttachmentTag) (m : Marked) : Marked :=
  let result := header ++ m.text ++ closingLine tag
  ⟨result, appendAttachmentSpans
    [⟨0, header.length, header.length + m.text.length, result.length, tag⟩] m.spans header.length⟩

def Content.wrap (storage : Bytes → Bytes → Bool) (header : Bytes) (tag : AttachmentTag)
    (c : Content) : Content :=
  let text := c.text.wrap header tag
  { c with
    text := text
    visible :=
      if sameStringStorage storage c.text.text c.visible.text then text
      else c.visible.wrap header tag
    stripped := if c.hasConcealedContent then c.stripped.wrap header tag else text
    links := []
    attachment := true }

/-- The constant marker that stands for an attachment which could not be wrapped. -/
def incompleteMarker : Marked :=
  let marker := openingLine tag ++ ascii "[attachment extraction incomplete]" ++ closingLine tag
  ⟨marker, [⟨0, (openingLine tag).length, marker.length - (closingLine tag).length,
    marker.length, tag⟩]⟩

def Content.markIncomplete : Content :=
  { c with
    text := incompleteMarker tag
    visible := incompleteMarker tag
    stripped := incompleteMarker tag
    links := []
    attachment := true
    extractionIncomplete := true }

/-- Texts to be joined, with the offset that has been reached. -/
structure Joined where
  offset : ℕ
  texts : List Bytes
  spans : List AttachmentSpan

def Joined.add (j : Joined) (m : Marked) : Joined :=
  let offset := if j.texts = [] then j.offset else j.offset + 2
  ⟨offset + m.text.length, j.texts ++ [m.text], appendAttachmentSpans j.spans m.spans offset⟩

def joinExtractedText (parts : List Bytes) : Bytes := join (ascii "\n\n") parts

/-- The text that a part gives to the stripped variant, and the spans that go with it. -/
def strippedPart (part : Content) : Marked :=
  ⟨if part.stripped.text = [] && !part.hasConcealedContent then part.text.text
    else part.stripped.text,
    if part.hasConcealedContent then part.stripped.spans else part.text.spans⟩

structure Assembly where
  combined : Content
  text : Joined
  visible : Joined
  stripped : Joined
  visibleMatchesText : Bool
  links : List Bytes
  imageRefs : List Bytes

def Assembly.start (combined : Content) : Assembly :=
  ⟨combined, ⟨0, [], combined.text.spans⟩, ⟨0, [], combined.visible.spans⟩,
    ⟨0, [], combined.stripped.spans⟩, true, [], []⟩

/-- Flags come from every part, texts only from parts with content. -/
def Assembly.add (storage : Bytes → Bytes → Bool) (a : Assembly) (part : Content) : Assembly :=
  let combined :=
    { a.combined with
      html := a.combined.html || part.html
      hasConcealedContent := a.combined.hasConcealedContent || part.hasConcealedContent
      extractionIncomplete := a.combined.extractionIncomplete || part.extractionIncomplete
      htmlFallbackUsed := a.combined.htmlFallbackUsed || part.htmlFallbackUsed
      htmlCPULimitExceeded := a.combined.htmlCPULimitExceeded || part.htmlCPULimitExceeded
      cssIncomplete := a.combined.cssIncomplete || part.cssIncomplete }
  if !hasExtractedContent part then { a with combined := combined }
  else
    { combined := { combined with images := combined.images ++ part.images }
      text := a.text.add part.text
      visible := a.visible.add part.visible
      stripped :=
        if (strippedPart part).text = [] then a.stripped else a.stripped.add (strippedPart part)
      visibleMatchesText :=
        a.visibleMatchesText && sameStringStorage storage part.text.text part.visible.text
      links := a.links ++ part.links
      imageRefs := a.imageRefs ++ part.imageRefs }

/-- The three variants once every part has been added. A walk that was stopped before it
had a text keeps the variants it began with. -/
def Assembly.finish (processingStopped : Bool) (a : Assembly) : Content :=
  let text := if a.text.texts = [] then a.combined.text.text else joinExtractedText a.text.texts
  let kept := a.text.texts = [] && processingStopped
  { a.combined with
    text := ⟨text, a.text.spans⟩
    stripped :=
      if kept then ⟨a.combined.stripped.text, a.stripped.spans⟩
      else if a.combined.hasConcealedContent then
        ⟨joinExtractedText a.stripped.texts, a.stripped.spans⟩
      else ⟨text, a.text.spans⟩
    visible :=
      if kept then ⟨a.combined.visible.text, a.visible.spans⟩
      else if a.visibleMatchesText then ⟨text, a.visible.spans⟩
      else ⟨joinExtractedText a.visible.texts, a.visible.spans⟩
    links := a.links
    imageRefs := a.imageRefs }

/-- The last part with content, else the last part. -/
def retainedMIMEPart (parts : List Content) : Content :=
  ((parts.filter hasExtractedContent).getLast?.or parts.getLast?).getD {}

def retainMIMEPartFlags (parts : List Content) : Content :=
  { c with
    htmlFallbackUsed := c.htmlFallbackUsed || parts.any (·.htmlFallbackUsed)
    cssIncomplete := c.cssIncomplete || parts.any (·.cssIncomplete)
    hasConcealedContent := c.hasConcealedContent || parts.any (·.hasConcealedContent) }

def Content.cutShort : Content :=
  { c with extractionIncomplete := true, mimeIncomplete := true }

/-- What the loop over the parts of a multipart body has found. -/
structure Collected where
  parts : List Content := []
  alternativeHTML : Content := {}
  alternativePlain : Content := {}
  mimeIncomplete : Bool := false
  nestedTransferIncomplete : Bool := false
  nestedExtractionIncomplete : Bool := false
  processingStopped : Bool := false
  hasAttachmentParts : Bool := false

variable (acc : Collected)

/-- A part of the loop has found something missing. -/
def Collected.incomplete : Bool :=
  acc.mimeIncomplete || acc.nestedTransferIncomplete || acc.nestedExtractionIncomplete

/-- The flags of a part that has been extracted. -/
def Collected.visit (content : Content) : Collected :=
  { acc with
    hasAttachmentParts := acc.hasAttachmentParts || content.attachment
    mimeIncomplete := acc.mimeIncomplete || content.mimeIncomplete
    nestedTransferIncomplete := acc.nestedTransferIncomplete || content.transferIncomplete
    nestedExtractionIncomplete := acc.nestedExtractionIncomplete || content.extractionIncomplete }

def Collected.stop : Collected :=
  { acc with mimeIncomplete := true, processingStopped := true }

/-- A direct alternative is remembered by its kind. -/
def Collected.remember (partMediaType : Bytes) (content : Content) : Collected :=
  if content.html then { acc with alternativeHTML := content }
  else if partMediaType = ascii "text/plain" then { acc with alternativePlain := content }
  else acc

/-- What is kept when the extraction has ended inside a part. -/
def returnedPart (content : Content) (parts : List Content) : Content :=
  (retainMIMEPartFlags (if hasExtractedContent content then content else retainedMIMEPart parts)
    parts).cutShort

/-- The HTML alternative comes before the plain one and both before any other part. -/
def selectAlternative : Content :=
  if hasExtractedContent acc.alternativeHTML then acc.alternativeHTML
  else if hasExtractedContent acc.alternativePlain then acc.alternativePlain
  else ((acc.parts.filter fun part => !part.attachment).getLast?).getD {}

/-- Failures in any branch remain with the alternative that is chosen. -/
def selectedContent (transferIncomplete htmlSeen cpuLimitExceeded : Bool) : Content :=
  let selected := selectAlternative acc
  { selected with
    mimeIncomplete := acc.mimeIncomplete
    extractionIncomplete :=
      selected.extractionIncomplete || acc.processingStopped || acc.nestedExtractionIncomplete
    transferIncomplete := transferIncomplete || acc.nestedTransferIncomplete
    html := selected.html || htmlSeen
    htmlCPULimitExceeded := selected.htmlCPULimitExceeded || cpuLimitExceeded }

/-- The attachments in order and, at its place, the alternative that is chosen. -/
def selectParts (storage : Bytes → Bytes → Bool) (selected : Content) :
    Bool → List Content → List Content × Bool
  | added, [] => ([], added)
  | added, part :: rest =>
    if part.attachment then
      let others := selectParts storage selected added rest
      (part :: others.1, others.2)
    else if !added && sameStringStorage storage part.text.text selected.text.text &&
        hasExtractedContent selected then
      let others := selectParts storage selected true rest
      (selected :: others.1, others.2)
    else selectParts storage selected added rest

def combine (transferIncomplete htmlSeen cpuLimitExceeded : Bool) : Content :=
  let first :=
    if acc.parts = [] && hasExtractedContent acc.alternativePlain then acc.alternativePlain else {}
  let combined :=
    (acc.parts.foldl (Assembly.add storage) (Assembly.start first)).finish acc.processingStopped
  { combined with
    mimeIncomplete := acc.mimeIncomplete
    extractionIncomplete :=
      combined.extractionIncomplete || acc.processingStopped || acc.nestedExtractionIncomplete
    transferIncomplete := transferIncomplete || acc.nestedTransferIncomplete
    html := combined.html || htmlSeen
    htmlCPULimitExceeded := combined.htmlCPULimitExceeded || cpuLimitExceeded }

end MilterGuard.MimeContents
