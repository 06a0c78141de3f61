import MilterGuard.ExtractionRuns

/-!
The extraction of text from a MIME message. An entity holds what its header says and
what its body reads as: a text, the parts of a multipart body, or an attached message.
Extraction descends at most nine levels and shares one budget among all parts.
-/
namespace MilterGuard.MimeExtraction

open ByteStrings Interruptions ExtractionStages MimeContents ExtractionRuns

/-- A Content-Disposition field; `given` says that it is not empty. -/
structure Disposition where
  given : Bool
  kind : Bytes
  filename : Bytes

/-- The media type as ParseMediaType returns it with the parameters that are used, and
how the transfer encoding of the body decodes. -/
structure Head where
  blank : Bool
  mediaType : Bytes
  malformed : Bool
  name : Bytes
  boundary : Bytes
  disposition : Disposition
  opaqueIncomplete : Bool
  transferIncomplete : Bool

/-- A part of a multipart body comes with the error of reading it, and the parts end
properly if they are framed. An attached message has the headers that are shown for it. -/
inductive Entity
  | mk (head : Head) (value : Bytes) (parts : List (Entity × Bool)) (framed : Bool)
      (attached : Option (Bytes × Entity))

def Entity.head : Entity → Head
  | .mk head _ _ _ _ => head

def Entity.value : Entity → Bytes
  | .mk _ value _ _ _ => value

def Entity.parts : Entity → List (Entity × Bool)
  | .mk _ _ parts _ _ => parts

def Entity.framed : Entity → Bool
  | .mk _ _ _ framed _ => framed

def Entity.attached : Entity → Option (Bytes × Entity)
  | .mk _ _ _ _ attached => attached

/-- A part of a digest without a type of its own is an attached message. -/
def Entity.inDigest : Entity → Entity
  | .mk head value parts framed attached =>
    .mk (if head.blank then
        { head with
          mediaType := ascii "message/rfc822", malformed := false, name := [], boundary := [] }
      else head) value parts framed attached

structure Info where
  disposition : Disposition := ⟨false, [], []⟩
  parentType : Bytes := []

structure Settings where
  policy : Policy
  discardImages : Bool
  omitAttachmentContext : Bool

def maxMIMEParts : ℕ := 256

def maxHTMLParts : ℕ := 32

def fileAttachmentInfo (mediaType : Bytes) (head : Head) (info : Info) : Bool × Bytes :=
  if !info.disposition.given && head.name = [] then (false, [])
  else
    let filename := if info.disposition.filename = [] then head.name else info.disposition.filename
    let attached := info.disposition.kind = ascii "attachment" ||
      info.disposition.kind = [] && filename ≠ [] &&
        info.parentType ≠ ascii "multipart/alternative" &&
        info.parentType ≠ ascii "multipart/related"
    (attached && (mediaType = ascii "text/plain" || mediaType = ascii "text/html"), filename)

/-- The part of a decoded text that fits, and whether all of it does. -/
def boundedText (value : Bytes) (maxBytes : ℕ) : Bytes × Bool :=
  let text := if validUTF8 value then value else toValidUTF8 value
  if text.length ≤ maxBytes then (text, true) else (cutAtRune text maxBytes, false)

section

variable (env : Environment) (settings : Settings)

def wrapAttachment (content : Content) (tag : AttachmentTag)
    (filename mediaType headers : Bytes) : Extraction Content := do
  if settings.omitAttachmentContext then pure content
  else do
    let wrapping : Extraction Content := do
      guarded env
      let storage ← ask env.storage
      pure (content.wrap storage
        (attachmentPrefix env.decodeHeaderValue tag filename mediaType headers) tag)
    match ← runExtraction env settings.policy wrapping wrapping with
    | some wrapped => pure wrapped
    | none => do
      report .extraction true
      pure (content.markIncomplete tag)

def wrapFile (content : Content) (mediaType : Bytes) (file : Bool × Bytes) : Extraction Content :=
  if file.1 then wrapAttachment env settings content .attachedFile file.2 mediaType []
  else pure content

variable (source : Bytes)

/-- The text of an interrupted fallback is kept if it is valid and opens no tag. -/
def fallbackContent : Extraction Content := do
  let lexical : Extraction Lexical := do
    guarded env
    ask fun n => env.lexical n source
  match ← runExtraction env settings.policy lexical lexical with
  | some found => do
    report .extraction (!found.complete)
    pure
      { text := ⟨found.text, []⟩, htmlFallbackUsed := true, links := found.links,
        imageRefs := found.imageRefs, extractionIncomplete := !found.complete }
  | none => do
    report .extraction true
    let kept ← ask env.lexicalPrefix
    pure
      { text := ⟨if kept.contains 0x3C || !validUTF8 kept then [] else kept, []⟩,
        htmlFallbackUsed := true, extractionIncomplete := true }

def extractFallback : Extraction Content := do
  let begun ← staged (beginFallback settings.policy none (← ask env.contextDone))
  if begun then do
    let content ← fallbackContent env settings source
    staged observeFallback
    let b ← read fun s => s.stage
    pure
      { content with
        htmlCPULimitExceeded := content.htmlCPULimitExceeded || b.cpuLimitExceeded
        htmlMemoryLimitExceeded := content.htmlMemoryLimitExceeded || b.fallbackMemoryExceeded
        htmlFallbackMemoryLimitExceeded := b.fallbackMemoryExceeded }
  else do
    report .extraction true
    let b ← read fun s => s.stage
    pure
      { extractionIncomplete := true, htmlMemoryLimitExceeded := b.memoryLimitExceeded,
        htmlCPULimitExceeded := b.cpuLimitExceeded }

/-- Fallback in place of a tree that could not be built is incomplete, and is reported
before it begins. -/
def insteadOfTree (r : Report) : Extraction Content := do
  report r true
  let content ← extractFallback env settings source
  pure { content with extractionIncomplete := true }

def noteHTMLMemory (analysis : Analysis) : Extraction Unit :=
  if analysis.memoryLimitExceeded then staged noteMemoryLimit else pure ()

def consumeHTML (analysis : Analysis) : Extraction Unit := do
  noteHTMLMemory analysis
  modify fun s =>
    { s with progress :=
      { s.progress with
        cssBytesRemaining := s.progress.cssBytesRemaining - analysis.cssBytes } }

def extractTreeHTML : Extraction Content := do
  let analysis ← ask fun n => env.analysis n source
  consumeHTML analysis
  guarded env
  match analysis.rendering with
  | none => insteadOfTree env settings source .extraction
  | some r => do
    guarded env
    report .extraction r.extractionIncomplete
    let cpu ← read fun s => s.stage.cpuLimitExceeded
    pure
      { text := ⟨r.text, []⟩, visible := ⟨r.visible, []⟩,
        stripped := ⟨if r.hasConcealedContent then r.stripped else [], []⟩,
        links := r.links, imageRefs := r.imageRefs, hasConcealedContent := r.hasConcealedContent,
        cssIncomplete := r.cssIncomplete, extractionIncomplete := r.extractionIncomplete,
        htmlCPULimitExceeded := cpu }

/-- More HTML than the budget admits. -/
def exceedsHTMLLimits (p : Progress) : Bool :=
  p.htmlParts > maxHTMLParts || source.length > p.htmlBytesRemaining || p.cssBytesRemaining = 0

/-- In fallback the allowance for HTML is not asked for, so a source that was cut short
shows only in what is written down. -/
def htmlToTextWithBudget : Extraction Content := do
  modify fun s => { s with progress := { s.progress with htmlParts := s.progress.htmlParts + 1 } }
  guarded env
  let s ← read id
  if s.stage.fallback then do
    report .decodingLimit (source.length > s.progress.htmlBytesRemaining)
    extractFallback env settings source
  else do
    guarded env
    if exceedsHTMLLimits source s.progress then do
      modify fun s => { s with progress := { s.progress with htmlBytesRemaining := 0 } }
      insteadOfTree env settings source .decodingLimit
    else do
      modify fun s =>
        { s with progress :=
          { s.progress with
            htmlBytesRemaining := s.progress.htmlBytesRemaining - source.length } }
      extractTreeHTML env settings source

variable (mediaType : Bytes)

def extractOpaque (head : Head) : Extraction Content := do
  guarded env
  report .transfer head.opaqueIncomplete
  let cpu ← read fun s => s.stage.cpuLimitExceeded
  pure
    { text := ⟨attachmentMarker mediaType head.name, []⟩,
      transferIncomplete := head.opaqueIncomplete, htmlCPULimitExceeded := cpu }

def extractHTML (file : Bool × Bytes) (entity : Entity) :
    Extraction Content := do
  guarded env
  let remaining ← read fun s => s.progress.htmlBytesRemaining
  let content ← htmlToTextWithBudget env settings (entity.value.take (remaining + 1))
  wrapFile env settings
    { content with html := true, transferIncomplete := entity.head.transferIncomplete }
    mediaType file

def extractPlain (file : Bool × Bytes) (entity : Entity) :
    Extraction Content := do
  guarded env
  let remaining ← read fun s => s.progress.decodedTextBytesRemaining
  let bounded := boundedText entity.value remaining
  report .decodingLimit (!bounded.2)
  modify fun s =>
    { s with progress :=
      { s.progress with decodedTextBytesRemaining := remaining - bounded.1.length } }
  guarded env
  let b ← read fun s => s.stage
  let rewritten := env.rewritePlainTextURLs bounded.1
  wrapFile env settings
    { text := ⟨rewritten.1, []⟩, visible := ⟨bounded.1, []⟩, links := rewritten.2,
      transferIncomplete := entity.head.transferIncomplete, extractionIncomplete := !bounded.2,
      htmlMemoryLimitExceeded := b.memoryLimitExceeded || b.fallbackMemoryExceeded,
      htmlCPULimitExceeded := b.cpuLimitExceeded }
    mediaType file

/-- Nested extraction goes one level deeper. -/
abbrev Nested := Info → Entity → Extraction Content

variable (nested : Nested)

def extractAttachedMessage (filename : Bytes) (entity : Entity) :
    Extraction Content := do
  guarded env
  match entity.attached with
  | none => do
    report .mime true
    let text : Marked := ⟨ascii "[attached message could not be parsed]", []⟩
    wrapAttachment env settings { text := text, visible := text, mimeIncomplete := true }
      .attachedEmail filename [] []
  | some (headers, message) => do
    let content ← nested ⟨message.head.disposition, []⟩ message
    wrapAttachment env settings content .attachedEmail filename [] headers

/-- The loop over the parts returns a content at once or ends with what it has found. -/
inductive Walked
  | returned (content : Content)
  | ended (acc : Collected)

def appendMIMEPart (parts : List Content) (content : Content) :
    Extraction (Option (List Content)) :=
  let growing : Extraction (List Content) := do
    guarded env
    pure (parts ++ [content])
  runExtraction env settings.policy growing growing

def rememberAlternative (partMediaType : Bytes) (content : Content) (acc : Collected) :
    Extraction Collected :=
  if mediaType = ascii "multipart/alternative" && !content.attachment then do
    guarded env
    pure (acc.remember partMediaType content)
  else pure acc

/-- Keeps an extracted part and goes on, unless the extraction has ended. -/
def keepPart (partMediaType : Bytes) (content : Content) (acc : Collected)
    (next : Collected → Extraction Walked) : Extraction Walked := do
  let terminal ← read fun s => s.stage.terminal.isSome
  if terminal then pure (.returned (returnedPart content acc.parts))
  else if !hasExtractedContent content && mediaType = ascii "multipart/alternative" then next acc
  else
    match ← appendMIMEPart env settings acc.parts content with
    | none =>
      pure (.ended
        (if hasExtractedContent content && acc.parts = [] then
          { acc with alternativePlain := content }
        else acc).stop)
    | some parts =>
      if hasExtractedContent content then do
        let acc ← rememberAlternative env mediaType partMediaType content
          { acc with parts := parts }
        next acc
      else next { acc with parts := parts }

def visitPart (mediaType : Bytes) (part : Entity × Bool) (acc : Collected)
    (next : Collected → Extraction Walked) : Extraction Walked := do
  modify fun s => { s with progress := { s.progress with parts := s.progress.parts + 1 } }
  report .mime part.2
  let entity := if mediaType = ascii "multipart/digest" then part.1.inDigest else part.1
  let content ← nested ⟨entity.head.disposition, mediaType⟩ entity
  modify fun s => if hasExtractedContent content then { s with retained := content } else s
  keepPart env settings mediaType entity.head.mediaType content
    ({ acc with mimeIncomplete := acc.mimeIncomplete || part.2 }.visit content) next

def readParts (nested : Nested) (mediaType : Bytes) (framed : Bool) :
    List (Entity × Bool) → Collected → Extraction Walked
  | rest, acc => do
    let parts ← read fun s => s.progress.parts
    if parts ≥ maxMIMEParts then do
      report .partLimit true
      pure (.ended { acc with mimeIncomplete := true })
    else
      match ← runExtraction env settings.policy (guarded env) (guarded env) with
      | none => pure (.ended acc.stop)
      | some () =>
        match rest with
        | [] => do
          report .mime (!framed)
          pure (.ended { acc with mimeIncomplete := acc.mimeIncomplete || !framed })
        | part :: rest =>
          visitPart env settings nested mediaType part acc fun acc =>
            readParts nested mediaType framed rest acc

def assemble (transferIncomplete : Bool) (acc : Collected) : Extraction Content := do
  let combining : Extraction Content := do
    guarded env
    let storage ← ask env.storage
    let s ← read id
    pure (combine storage acc transferIncomplete (s.progress.htmlParts > 0)
      s.stage.cpuLimitExceeded)
  match ← runExtraction env settings.policy combining combining with
  | some combined => pure combined
  | none => pure (retainedMIMEPart acc.parts).cutShort

/-- Attachments are kept beside the alternative that is chosen. -/
def chooseAlternative (transferIncomplete : Bool) (acc : Collected) : Extraction Content := do
  let s ← read id
  let selected := selectedContent acc transferIncomplete (s.progress.htmlParts > 0)
    s.stage.cpuLimitExceeded
  if !acc.hasAttachmentParts then pure selected
  else do
    guarded env
    let storage ← ask env.storage
    let chosen := selectParts storage selected false acc.parts
    if chosen.1.length ≤ 1 && chosen.2 then pure selected
    else assemble env settings transferIncomplete { acc with parts := chosen.1 }

def finishMultipart (transferIncomplete : Bool) :
    Walked → Extraction Content
  | .returned content => pure content
  | .ended acc => do
    let terminal ← read fun s => s.stage.terminal.isSome
    if terminal then
      pure (retainMIMEPartFlags (retainedMIMEPart acc.parts) acc.parts).cutShort
    else if mediaType = ascii "multipart/alternative" then
      chooseAlternative env settings transferIncomplete acc
    else assemble env settings transferIncomplete acc

def extractMultipart (mediaType : Bytes) (entity : Entity) :
    Extraction Content := do
  if entity.head.boundary = [] then do
    report .mime true
    pure
      { text := ⟨ascii "[multipart message has no boundary]", []⟩, mimeIncomplete := true,
        transferIncomplete := entity.head.transferIncomplete }
  else do
    guarded env
    let walked ← readParts env settings nested mediaType entity.framed entity.parts {}
    finishMultipart env settings mediaType entity.head.transferIncomplete walked

/-- A part whose body has to be decoded. -/
def extractDecoded (mediaType : Bytes) (file : Bool × Bytes) (entity : Entity) :
    Extraction Content := do
  guarded env
  report .transfer entity.head.transferIncomplete
  if hasPrefix mediaType (ascii "multipart/") then
    extractMultipart env settings nested mediaType entity
  else if mediaType = ascii "message/rfc822" then do
    let content ← extractAttachedMessage env settings nested file.2 entity
    pure
      { content with
        transferIncomplete := content.transferIncomplete || entity.head.transferIncomplete }
  else if mediaType = ascii "text/html" then extractHTML env settings mediaType file entity
  else if mediaType = ascii "text/plain" then extractPlain env settings mediaType file entity
  else
    pure
      { text := ⟨attachmentMarker mediaType entity.head.name, []⟩,
        transferIncomplete := entity.head.transferIncomplete,
        images := if hasPrefix mediaType (ascii "image/") then [entity.value] else [] }

def effectiveMediaType (head : Head) : Bytes :=
  if head.malformed || head.mediaType = [] then ascii "text/plain" else head.mediaType

/-- Types that contribute a marker only. -/
def opaqueType : Bool :=
  mediaType ≠ ascii "text/plain" && mediaType ≠ ascii "text/html" &&
    mediaType ≠ ascii "message/rfc822" && !hasPrefix mediaType (ascii "multipart/") &&
    (settings.discardImages || !hasPrefix mediaType (ascii "image/"))

def extractMIMEOnce (info : Info) (entity : Entity) : Extraction Content := do
  guarded env
  let mediaType := effectiveMediaType entity.head
  if opaqueType settings mediaType then extractOpaque env mediaType entity.head
  else
    extractDecoded env settings nested mediaType (fileAttachmentInfo mediaType entity.head info)
      entity

/-- Runs the extraction of one part behind a boundary. Its replay rewinds the progress,
and a part that cannot be completed leaves what it has retained. -/
def extractMIMEWithBudget (once : Extraction Content) : Extraction Content := do
  let outer ← read fun s => s.retained
  let progress ← read fun s => s.progress
  modify fun s => { s with retained := {} }
  let again : Extraction Content := do
    modify fun s => { s with progress := progress }
    once
  let result ← runExtraction env settings.policy once again
  let s ← read id
  modify fun s => { s with retained := outer }
  let result := result.getD s.retained.cutShort
  pure
    { result with
      htmlCPULimitExceeded := result.htmlCPULimitExceeded || s.stage.cpuLimitExceeded
      htmlPrimaryMemoryLimitExceeded := s.stage.memoryLimitExceeded
      htmlFallbackMemoryLimitExceeded := s.stage.fallbackMemoryExceeded
      htmlMemoryLimitExceeded := result.htmlMemoryLimitExceeded || s.stage.memoryLimitExceeded ||
        s.stage.fallbackMemoryExceeded }

def nestingLimit : Extraction Content := do
  report .depthLimit true
  pure { text := ⟨ascii "[MIME nesting limit reached]", []⟩, mimeIncomplete := true }

/-- The number of levels that may still be entered. -/
def extractMIME : ℕ → Nested
  | 0, _, _ => extractMIMEWithBudget env settings nestingLimit
  | levels + 1, info, entity =>
    extractMIMEWithBudget env settings
      (extractMIMEOnce env settings (extractMIME levels) info entity)

end

/-- Depths from zero to eight are extracted. -/
def maxLevels : ℕ := 9

def newState (decodedTextBytes : ℕ) : State :=
  { progress :=
      { parts := 0, htmlParts := 0, htmlBytesRemaining := 8 * 2 ^ 20,
        decodedTextBytesRemaining := decodedTextBytes, cssBytesRemaining := 512 * 2 ^ 10 }
    stage := newBudget
    retained := {}
    reports := []
    now := 0 }

end MilterGuard.MimeExtraction
