import MilterGuard.ZipDirectories

/-!
Inspection of one file and of the archives it contains. Every archive level
hands the files it finds to the scanner of the next level, until the configured
depth is reached. A ZIP file whose directory cannot be read is followed from
local header to local header, which never ends without a finding or an error.
-/
namespace MilterGuard.ArchiveScanner

open Procedures ByteStrings AttachmentNames ContentSignatures ArchiveBudgets ZipDirectories

/-- Inspection of a file given by location, name, media type and contents. -/
abbrev FileScan := Bytes → Bytes → Bytes → Bytes → Scan ScanResult

def octetStream : Bytes := ascii "application/octet-stream"

def blockedFinding (path extension : Bytes) : ScanResult :=
  .finding ⟨path, ascii "blocked extension ." ++ extension⟩

def encryptedEntry (path : Bytes) : ScanResult :=
  .failure ⟨path, true, false, ascii "encrypted archive entry cannot be inspected"⟩

/-- Passes an error text on as a failure at a location. -/
def refusing (path : Bytes) (m : Scan (Option Bytes)) : Scan (Option ScanResult) := do
  pure ((← m).map (failure path))

/-- Keeps a finding and drops every other result. -/
def findingOnly (m : Scan ScanResult) : Scan (Option ScanResult) := do
  match ← m with
  | .finding found => pure (some (.finding found))
  | _ => pure none

/-- Inspects the items in order up to the first finding or failure. -/
def scanEach {α : Type} (scan : α → Scan ScanResult) : List α → Scan ScanResult
  | [] => pure .clear
  | a :: rest => do
    match ← scan a with
    | .clear => scanEach scan rest
    | .finding found => pure (.finding found)
    | .failure e => pure (.failure e)

variable (s : Scanner)

def signatureFinding (path data : Bytes) : Option ScanResult :=
  if s.options.inspectSignatures then
    (prohibitedSignature s.text.table s.blocked data).map fun signature =>
      .finding ⟨path, signature⟩
  else none

def nameFinding (path filename : Bytes) : Option ScanResult :=
  (blockedExtension s.text s.blocked filename).map (blockedFinding path)

/-- Passes the name of an archive entry to blockedExtension. -/
def checkEntryName (entry : Entry) (path name : Bytes) : Scan (Option ScanResult) := do
  log [.nameChecked entry]
  pure (nameFinding s path name)

variable (inner : FileScan)

/-- The end of both entry loops: the contents are read, searched for a signature
even when they are incomplete, and handed to scanFile. -/
def scanEntry (entry : Entry) (path name : Bytes) (stream : Stream) :
    Scan ScanResult := do
  let contents ← readArchiveEntry s stream
  match signatureFinding s path contents.data, contents.err with
  | some found, _ => pure found
  | none, some err => pure (failure path err)
  | none, none =>
    log [.passedOn entry contents.data]
    inner path name octetStream contents.data

variable (location : Bytes)

/-- The body of the loop over reader.File. -/
def scanZIPFile (file : ZipFile) : Scan ScanResult :=
  unlessHandled (stopIfDone s location) <|
    let path := joinLocation s.text location file.name
    if file.isDir then pure .clear
    else if file.flags &&& 1 ≠ 0 then pure (encryptedEntry path)
    else
      unlessHandled (checkEntryName s (.zip file) path file.name) <|
      unlessHandled (refusing path (checkArchiveFileSize s file.uncompressedSize64)) <|
      match file.contents with
      | .error err => pure (failure path (ascii "cannot open ZIP entry: " ++ err))
      | .ok stream => scanEntry s inner (.zip file) path file.name stream

/-- The fields of a local file header at an offset. -/
structure LocalHeader where
  flags : ℕ
  method : ℕ
  compressedSize : ℕ
  uncompressedSize : ℕ
  name : Bytes
  dataStart : ℕ

def localHeader (data : Bytes) (offset : ℕ) : LocalHeader :=
  let nameLength := uint16 data (offset + 26)
  let extraLength := uint16 data (offset + 28)
  { flags := uint16 data (offset + 6)
    method := uint16 data (offset + 8)
    compressedSize := uint32 data (offset + 18)
    uncompressedSize := uint32 data (offset + 22)
    name := slice data (offset + 30) (offset + 30 + nameLength)
    dataStart := offset + 30 + nameLength + extraLength }

/-- The reader for the compressed bytes, or the error for an unknown method. -/
def entryReader (method : ℕ) (compressed : Bytes) : Except Bytes Stream :=
  if method = 0 then .ok ⟨compressed, none⟩
  else if method = 8 then .ok (s.library.inflate compressed)
  else .error (ascii "unsupported ZIP compression method " ++ ascii (toString method))

/-- What remains to be said after the contents of a local entry were inspected. -/
def partialOutcome (path : Bytes) (h : LocalHeader) (available : ℕ) (readErr : Option Bytes) :
    ScanResult :=
  match readErr with
  | some err => failure path err
  | none =>
    if h.compressedSize = 0 ∨ available < h.compressedSize ∨ h.flags / 8 % 2 = 1 then
      failure path (ascii "incomplete ZIP entry")
    else .clear

def scanPartialContents (path : Bytes) (h : LocalHeader) (available : ℕ) (stream : Stream) :
    Scan ScanResult := do
  let contents ← readArchiveEntry s stream
  match signatureFinding s path contents.data with
  | some found => pure found
  | none =>
    unlessHandled
      (if s.options.inspectArchives ∧
          (archiveFormat s.text.table h.name octetStream contents.data).isSome then
        findingOnly (inner path h.name octetStream contents.data)
      else pure none)
      (pure (partialOutcome path h available contents.err))

variable (data : Bytes)

/-- One local entry; without a finding or failure the next one follows its data. -/
def scanPartialEntry (h : LocalHeader) : Scan ScanResult :=
  let path := joinLocation s.text location h.name
  let available := data.length - h.dataStart
  let stop :=
    if 0 < h.compressedSize ∧ h.compressedSize ≤ available then h.dataStart + h.compressedSize
    else data.length
  if data.length < h.dataStart then
    pure (failure (cleanLocation s.text location) (ascii "invalid partial ZIP entry header"))
  else if h.flags % 2 = 1 then pure (encryptedEntry path)
  else
    match nameFinding s path h.name with
    | some found => pure found
    | none =>
      unlessHandled (refusing path (beginArchiveFile s h.uncompressedSize)) <|
      match entryReader s h.method (slice data h.dataStart stop) with
      | .error err => pure (failure path err)
      | .ok stream => scanPartialContents s inner path h available stream

/-- The loop over local headers. Each is at least 30 bytes long, so the length of
the data is enough fuel. -/
def scanPartialFrom (inner : FileScan) (location data : Bytes) : ℕ → ℕ → Scan ScanResult
  | 0, _ => pure (failure (cleanLocation s.text location) (ascii "incomplete ZIP archive"))
  | fuel + 1, offset =>
    if offset + 30 ≤ data.length ∧ uint32 data offset = 0x04034B50 then
      unlessHandled (stopIfDone s location) do
        let h := localHeader data offset
        match ← scanPartialEntry s inner location data h with
        | .clear => scanPartialFrom inner location data fuel (h.dataStart + h.compressedSize)
        | .finding found => pure (.finding found)
        | .failure e => pure (.failure e)
    else pure (failure (cleanLocation s.text location) (ascii "incomplete ZIP archive"))

/-- None when the data does not start with a local header. -/
def scanPartialZIP : Scan (Option ScanResult) :=
  unlessHandled (do pure ((← stopIfDone s location).map some)) <|
    if data.length < 30 ∨ uint32 data 0 ≠ 0x04034B50 then pure none
    else do pure (some (← scanPartialFrom s inner location data (data.length + 1) 0))

/-- A ZIP file without a readable directory. -/
def scanUnreadableZIP (err : Bytes) : Scan ScanResult :=
  unlessHandled (stopIfDone s location) <|
  unlessHandled (scanPartialZIP s inner location data) <|
    pure (failure (cleanLocation s.text location) (ascii "invalid ZIP archive: " ++ err))

/-- zip.NewReader on data whose reads ask the context first. -/
def openZIP : Scan (Except Bytes (List ZipFile)) := do
  match ← check s (ascii "ZIP archive") with
  | some e => pure (.error e.text)
  | none => pure (s.library.zipReader data)

def scanZIP : Scan ScanResult :=
  unlessHandled (stopIfDone s location) do
    match ← admitZIPDirectory s data with
    | .error (.refused err) => pure (failure (cleanLocation s.text location) err)
    | .error .format =>
      scanUnreadableZIP s inner location data (ascii "zip: not a valid zip file")
    | .ok () =>
      match ← openZIP s data with
      | .error err => scanUnreadableZIP s inner location data err
      | .ok files => scanEach (scanZIPFile s inner location) files

/-- The body of the loop over the headers of a TAR file. -/
def scanTAREntry (entry : TarEntry) : Scan ScanResult :=
  unlessHandled (stopIfDone s location) <|
    let path := joinLocation s.text location entry.name
    if entry.isRegular = false then pure .clear
    else if entry.size < 0 then
      pure (failure path (ascii "invalid negative archive entry size"))
    else
      unlessHandled (refusing path (beginArchiveFile s (uint64 entry.size))) <|
      unlessHandled (checkEntryName s (.tar entry) path entry.name) <|
      scanEntry s inner (.tar entry) path entry.name entry.contents

/-- What follows the last header that could be read. -/
def endTAR (err : Option Bytes) : Scan ScanResult :=
  unlessHandled (stopIfDone s location) <|
    match err with
    | none => pure .clear
    | some err =>
      pure (failure (cleanLocation s.text location) (ascii "invalid TAR archive: " ++ err))

def scanTAR : Scan ScanResult := do
  match ← scanEach (scanTAREntry s inner location) (s.library.tarReader data).1 with
  | .clear => endTAR s location (s.library.tarReader data).2
  | .finding found => pure (.finding found)
  | .failure e => pure (.failure e)

/-- The single file of a compressed stream. -/
def scanCompressed (inner : FileScan) (location innerName : Bytes) (stream : Stream) :
    Scan ScanResult :=
  unlessHandled (refusing (cleanLocation s.text location) (beginArchiveFile s 0)) do
    let contents ← readArchiveEntry s stream
    match contents.err with
    | some err => pure (failure (cleanLocation s.text location) err)
    | none => inner (joinLocation s.text location innerName) innerName octetStream contents.data

def scanGzip (filename data : Bytes) : Scan ScanResult :=
  match s.library.gunzip data with
  | .error err =>
    pure (failure (cleanLocation s.text location) (ascii "invalid gzip archive: " ++ err))
  | .ok (stored, stream) =>
    let storedName := trimSpace stored
    let innerName :=
      if storedName ≠ [] then normalizeName s.text storedName
      else stripCompressionExtension s.text filename [ascii ".gz", ascii ".gzip"]
    scanCompressed s inner location innerName stream

def scanBzip2 (filename data : Bytes) : Scan ScanResult :=
  scanCompressed s inner location
    (stripCompressionExtension s.text filename [ascii ".bz2", ascii ".bzip2"])
    (s.library.bunzip2 data)

/-- Opens an archive one level below the files handed to `inner`. -/
def scanArchive (format : ArchiveFormat) (location filename data : Bytes) : Scan ScanResult :=
  within format data <|
    match format with
    | .zip => scanZIP s inner location data
    | .tar => scanTAR s inner location data
    | .gzip => scanGzip s inner location filename data
    | .bzip2 => scanBzip2 s inner location filename data

/-- scanFile above the scanner for nested files, which is absent at the depth limit. -/
def scanFileOver (deeper : Option FileScan) : FileScan := fun location filename mediaType data =>
  unlessHandled (stopIfDone s location) <|
    let path := cleanLocation s.text location
    match nameFinding s path filename, signatureFinding s path data with
    | some found, _ => pure found
    | none, some found => pure found
    | none, none =>
      if s.options.inspectArchives = false then pure .clear
      else
        match archiveFormat s.text.table filename mediaType data, deeper with
        | none, _ => pure .clear
        | some _, none => pure (failure path (ascii "archive nesting limit exceeded"))
        | some format, some inner => scanArchive s inner format location filename data

/-- scanFile with the archive levels that are left. -/
def scanFile : ℕ → FileScan
  | 0 => scanFileOver s none
  | levels + 1 => scanFileOver s (some (scanFile levels))

end MilterGuard.ArchiveScanner
