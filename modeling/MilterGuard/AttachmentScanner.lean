import MilterGuard.ArchiveScanner

/-!
The walk over the MIME structure of a message. A multipart entity is scanned
part by part: a finding ends the walk, the first failure is kept and returned
after the last part. Any other entity is decoded and inspected as a file, as an
attached message, or not at all when it is visible text.
-/
namespace MilterGuard.AttachmentScanner

open Procedures ByteStrings Hostnames AttachmentNames ContentSignatures
open ArchiveBudgets ArchiveScanner

def maxMIMEDepth : ℕ := 16

/-- Inspection of an entity given by content type, transfer encoding, disposition,
body and location. -/
abbrev MIMEScan := Bytes → Bytes → Bytes → Bytes → Bytes → Scan ScanResult

variable (s : Scanner)

def readLimited (stream : Stream) (limit : ℤ) : Scan Stream := do
  if limit < 1 then pure ⟨[], some (ascii "invalid attachment size limit")⟩
  else
    let stream ← readContext stream
    if limit.toNat < stream.data.length then
      exhaust ⟨stream.data.take limit.toNat, some (ascii "attachment size limit exceeded")⟩
    else pure stream

/-- The reader for a transfer encoding, or the error for an unknown one. -/
def transferReader (encoding data : Bytes) : Except Bytes Stream :=
  let name := toLower s.text.table (trimSpace encoding)
  if name = ascii "base64" then .ok (s.library.base64 data)
  else if name = ascii "quoted-printable" then .ok (s.library.quotedPrintable data)
  else if name ∈ [[], ascii "7bit", ascii "8bit", ascii "binary"] then .ok ⟨data, none⟩
  else .error (ascii "unsupported content-transfer-encoding " ++ s.text.quote encoding)

def decodeTransferStrict (encoding data : Bytes) : Scan Stream :=
  match transferReader s encoding data with
  | .error err => pure ⟨[], some err⟩
  | .ok stream => readLimited stream s.options.maxAttachmentBytes

def disguisedBinaryContent (data : Bytes) : Bool :=
  s.options.inspectSignatures && ((binaryExecutableSignature data).isSome ||
    (configuredFormatSignature s.blocked data).isSome) ||
  s.options.inspectArchives && (archiveFormat s.text.table [] [] data).isSome

/-- scanFile as the MIME walk calls it, with all archive levels left. -/
def scanTopFile : FileScan := scanFile s s.options.maxArchiveDepth.toNat

/-- The media type in lower case with its parameters, or what is wrong with it. -/
def declaredMediaType (contentType : Bytes) : Except Bytes (Bytes × List (Bytes × Bytes)) :=
  if trimSpace contentType = [] then .ok (ascii "text/plain", [])
  else
    match s.text.parseMediaType contentType with
    | .error err => .error (ascii "invalid Content-Type: " ++ err)
    | .ok (mediaType, params) =>
      if mediaType = [] then .error (ascii "empty Content-Type")
      else .ok (toLower s.text.table mediaType, params)

def partContentType (mediaType : Bytes) (part : Part) : Bytes :=
  if mediaType = ascii "multipart/digest" ∧ trimSpace part.contentType = [] then
    ascii "message/rfc822"
  else part.contentType

def partLocation (location : Bytes) (index : ℕ) (contentDisposition contentType : Bytes) : Bytes :=
  match attachmentFilename s.text contentDisposition contentType with
  | .ok filename =>
    if filename ≠ [] then joinLocation s.text location filename
    else location ++ ascii "/part-" ++ ascii (toString index)
  | .error _ => location ++ ascii "/part-" ++ ascii (toString index)

variable (inner : MIMEScan)

/-- One part: its own result, or the error that cut its body off. -/
def scanPart (mediaType location : Bytes) (index : ℕ) (part : Part) :
    Scan ScanResult := do
  let contents ← readContext part.body
  let contentType := partContentType mediaType part
  let path := partLocation s location index part.contentDisposition contentType
  match ← inner contentType part.transferEncoding part.contentDisposition contents.data path with
  | .clear => pure (match contents.err with
    | none => .clear
    | some err => failure path err)
  | .finding found => pure (.finding found)
  | .failure e => pure (.failure e)

/-- The result after the last part that could be read. -/
def endParts (location : Bytes) (firstError : Option ScanError) (err : Option Bytes) : ScanResult :=
  match firstError, err with
  | some e, _ => .failure e
  | none, none => .clear
  | none, some err => malformed location (ascii "cannot read MIME part: " ++ err)

/-- The loop over the parts from `index` on. -/
def scanParts (inner : MIMEScan) (mediaType location : Bytes) (err : Option Bytes) :
    ℕ → Option ScanError → List Part → Scan ScanResult
  | _, firstError, [] =>
    unlessHandled (stopIfDone s location) (pure (endParts location firstError err))
  | index, firstError, part :: rest =>
    unlessHandled (stopIfDone s location) do
      match ← scanPart s inner mediaType location index part with
      | .finding found => pure (.finding found)
      | .failure e =>
        scanParts inner mediaType location err (index + 1) (firstError.or (some e)) rest
      | .clear => scanParts inner mediaType location err (index + 1) firstError rest

def scanMultipart (mediaType boundary location data : Bytes) : Scan ScanResult :=
  if boundary = [] then
    pure (malformed location (ascii "multipart content has no boundary"))
  else
    scanParts s inner mediaType location (s.library.multipart boundary data).2 1 none
      (s.library.multipart boundary data).1

def scanRFC822 (mimeDepth : ℕ) (data location : Bytes) : Scan ScanResult :=
  unlessHandled (stopIfDone s location) <|
    if maxMIMEDepth ≤ mimeDepth then
      pure (failure location (ascii "attached-message nesting limit exceeded"))
    else
      match s.library.readMessage data with
      | .error err => pure (malformed location (ascii "invalid attached email: " ++ err))
      | .ok attached => do
        let body ← readContext attached.body
        match body.err with
        | some err => pure (failure location (ascii "cannot read attached email: " ++ err))
        | none =>
          inner attached.contentType attached.transferEncoding attached.contentDisposition
            body.data location

/-- What is known of a single entity before it is decoded. -/
structure Attachment where
  mediaType : Bytes
  contentType : Bytes
  contentDisposition : Bytes
  filename : Bytes
  location : Bytes

def attachedEmail (a : Attachment) : Bool :=
  a.mediaType = ascii "message/rfc822" ||
    hasSuffix (toLower s.text.table a.filename) (ascii ".eml")

/-- A failure or finding; a clear result lets the caller go on. -/
def unlessClear (m : Scan ScanResult) : Scan (Option ScanResult) := do
  match ← m with
  | .clear => pure none
  | .finding found => pure (some (.finding found))
  | .failure e => pure (some (.failure e))

variable (message : Bytes → Bytes → Scan ScanResult)

/-- The partial contents of an entity that cannot be decoded: only a finding or the
failure of an attached message may replace the decoding error. -/
def scanUndecoded (a : Attachment) (decoded err : Bytes) : Scan ScanResult :=
  match signatureFinding s (cleanLocation s.text a.location) decoded with
  | some found => pure found
  | none =>
    unlessHandled (if attachedEmail s a then unlessClear (message decoded a.location)
      else pure none) <|
    unlessHandled
      (if s.options.inspectArchives ∧
          (archiveFormat s.text.table a.filename a.mediaType decoded).isSome then
        findingOnly (scanTopFile s a.location a.filename a.mediaType decoded)
      else pure none) <|
    pure (failure a.location err)

variable (nested : Bool) (a : Attachment)

/-- Text without a file name is visible text, unless it is marked as an attachment,
is nested without a content type, or has the contents of a binary file. -/
def visibleText (decoded : Bytes) : Bool :=
  !(nested && trimSpace a.contentType = []) &&
    !(explicitAttachment s.text a.contentDisposition ||
      nested && disguisedBinaryContent s decoded)

def scanDecoded (decoded : Bytes) : Scan ScanResult :=
  if a.filename = [] ∧ (a.mediaType = ascii "text/plain" ∨ a.mediaType = ascii "text/html") then
    if visibleText s nested a decoded then pure .clear
    else scanTopFile s a.location [] a.mediaType decoded
  else if attachedEmail s a then message decoded a.location
  else scanTopFile s a.location a.filename a.mediaType decoded

def scanAttachment (transferEncoding data : Bytes) : Scan ScanResult := do
  let decoded ← decodeTransferStrict s transferEncoding data
  match decoded.err with
  | some err => scanUndecoded s message a decoded.data err
  | none => scanDecoded s message nested a decoded.data

/-- An entity that is not multipart: the declared file name comes first. -/
def scanSingle (mediaType contentType transferEncoding contentDisposition data location : Bytes) :
    Scan ScanResult :=
  match attachmentFilename s.text contentDisposition contentType with
  | .error err => pure (malformed (cleanLocation s.text location) err)
  | .ok filename =>
    if filename = [] then
      scanAttachment s message nested ⟨mediaType, contentType, contentDisposition, [], location⟩
        transferEncoding data
    else
      let location := replaceLocationBase s.text location filename
      match nameFinding s (cleanLocation s.text location) filename with
      | some found => pure found
      | none =>
        scanAttachment s message nested
          ⟨mediaType, contentType, contentDisposition, filename, location⟩ transferEncoding data

/-- scanMIME at a depth below the limit, above the scanner for what it contains. -/
def scanEntity (mimeDepth : ℕ) (inner : MIMEScan) : MIMEScan :=
  fun contentType transferEncoding contentDisposition data location =>
    unlessHandled (stopIfDone s location) <|
      match declaredMediaType s contentType with
      | .error err => pure (malformed location err)
      | .ok (mediaType, params) =>
        if hasPrefix mediaType (ascii "multipart/") then
          scanMultipart s inner mediaType (parameter params (ascii "boundary")) location data
        else
          scanSingle s (scanRFC822 s inner mimeDepth) (0 < mimeDepth) mediaType contentType
            transferEncoding contentDisposition data location

/-- scanMIME with the MIME levels that are left. -/
def scanMIME : ℕ → MIMEScan
  | 0 => fun _ _ _ _ location =>
    unlessHandled (stopIfDone s location) <|
      pure (failure location (ascii "MIME nesting limit exceeded"))
  | levels + 1 => scanEntity s (maxMIMEDepth - (levels + 1)) (scanMIME levels)

/-- ScanContext with the state it leaves and what it logged. -/
def scanContext (ctx : Context) (contentType transferEncoding contentDisposition body : Bytes) :
    Outcome Event ScanState ScanResult :=
  scanMIME s maxMIMEDepth contentType transferEncoding contentDisposition body (ascii "message")
    (ScanState.new ctx)

end MilterGuard.AttachmentScanner
