import MilterGuard.ClearScans

/-!
Attachment inspection fails closed. What a scan visits is described by the decoders:
the parts of a multipart entity, the message or the file in an entity, the entries of
an archive, the file in an entry. A scan that ends clear read every node it visited
without a failure, apart from three things that it passes over.
-/
namespace MilterGuard.FailClosed

open Procedures ByteStrings AttachmentNames ContentSignatures ArchiveBudgets ZipDirectories
open ArchiveScanner AttachmentScanner ArchiveCoverage ScanLimits ClearScans

/-! ### What a scan visits -/

inductive Node
  | entity (mimeDepth : ℕ) (contentType transferEncoding contentDisposition data : Bytes)
  | part (mimeDepth : ℕ) (mediaType : Bytes) (part : Part)
  | file (archiveDepth : ℕ) (filename mediaType data : Bytes)
  | entry (archiveDepth : ℕ) (entry : Entry)

variable (s : Scanner)

def isMultipart (mediaType : Bytes) : Bool := hasPrefix mediaType (ascii "multipart/")

/-- The parts of a multipart entity, and the error that ends them before the end. -/
def partsOf (params : List (Bytes × Bytes)) (data : Bytes) : List Part × Option Bytes :=
  s.library.multipart (parameter params (ascii "boundary")) data

/-- The contents of an entity, when they can be decoded and are within the limit. -/
def decodedContents (transferEncoding data : Bytes) : Option Bytes :=
  match transferReader s transferEncoding data with
  | .error _ => none
  | .ok stream =>
    if stream.err = none ∧ 1 ≤ s.options.maxAttachmentBytes ∧
        stream.data.length ≤ s.options.maxAttachmentBytes then some stream.data
    else none

/-- An entity that is not multipart, with the name it declares and its contents. -/
structure Single (contentType transferEncoding contentDisposition data : Bytes) (a : Attachment)
    (contents : Bytes) : Prop where
  media : ∃ params, declaredMediaType s contentType = .ok (a.mediaType, params)
  single : isMultipart a.mediaType = false
  typed : a.contentType = contentType
  disposed : a.contentDisposition = contentDisposition
  filename : attachmentFilename s.text contentDisposition contentType = .ok a.filename
  decoded : decodedContents s transferEncoding data = some contents

/-- Visible text, which is not inspected: it has no name, is not an explicit attachment,
and below the top level it has a content type and does not disguise a binary file. -/
structure Exempt (mimeDepth : ℕ) (a : Attachment) (contents : Bytes) : Prop where
  unnamed : a.filename = []
  text : a.mediaType = ascii "text/plain" ∨ a.mediaType = ascii "text/html"
  shown : explicitAttachment s.text a.contentDisposition = false
  nested : 0 < mimeDepth →
    trimSpace a.contentType ≠ [] ∧ disguisedBinaryContent s contents = false

/-- The entity is scanned as a message. Text without a name never is. -/
def IsMessage (a : Attachment) : Prop :=
  ¬ (a.filename = [] ∧ (a.mediaType = ascii "text/plain" ∨ a.mediaType = ascii "text/html")) ∧
    attachedEmail s a = true

/-- The name of the file in a gzip stream. -/
def gzipName (stored filename : Bytes) : Bytes :=
  if trimSpace stored ≠ [] then normalizeName s.text (trimSpace stored)
  else stripCompressionExtension s.text filename [ascii ".gz", ascii ".gzip"]

def bzip2Name (filename : Bytes) : Bytes :=
  stripCompressionExtension s.text filename [ascii ".bz2", ascii ".bzip2"]

def entryName : Entry → Bytes
  | .zip file => file.name
  | .tar entry => entry.name

/-- The scan of the first node goes on to the second. -/
inductive Child : Node → Node → Prop
  | part {mimeDepth : ℕ} {contentType transferEncoding contentDisposition data mediaType : Bytes}
      {params : List (Bytes × Bytes)} {part : Part}
      (hmedia : declaredMediaType s contentType = .ok (mediaType, params))
      (hmultipart : isMultipart mediaType = true) (hpart : part ∈ (partsOf s params data).1) :
      Child (.entity mimeDepth contentType transferEncoding contentDisposition data)
        (.part mimeDepth mediaType part)
  | body (mimeDepth : ℕ) (mediaType : Bytes) (part : Part) :
      Child (.part mimeDepth mediaType part)
        (.entity (mimeDepth + 1) (partContentType mediaType part) part.transferEncoding
          part.contentDisposition part.body.data)
  | message {mimeDepth : ℕ} {contentType transferEncoding contentDisposition data : Bytes}
      {a : Attachment} {contents : Bytes} {attached : Part}
      (hsingle : Single s contentType transferEncoding contentDisposition data a contents)
      (hmessage : IsMessage s a) (hattached : s.library.readMessage contents = .ok attached) :
      Child (.entity mimeDepth contentType transferEncoding contentDisposition data)
        (.entity (mimeDepth + 1) attached.contentType attached.transferEncoding
          attached.contentDisposition attached.body.data)
  | leaf {mimeDepth : ℕ} {contentType transferEncoding contentDisposition data : Bytes}
      {a : Attachment} {contents : Bytes}
      (hsingle : Single s contentType transferEncoding contentDisposition data a contents)
      (hfile : ¬ IsMessage s a) (hinspected : ¬ Exempt s mimeDepth a contents) :
      Child (.entity mimeDepth contentType transferEncoding contentDisposition data)
        (.file 0 a.filename a.mediaType contents)
  | listed {archiveDepth : ℕ} {filename mediaType data : Bytes} {format : ArchiveFormat}
      {entry : Entry} (hinspect : s.options.inspectArchives = true)
      (hformat : archiveFormat s.text.table filename mediaType data = some format)
      (hlists : Lists s format data entry) :
      Child (.file archiveDepth filename mediaType data) (.entry (archiveDepth + 1) entry)
  | gzip {archiveDepth : ℕ} {filename mediaType data stored : Bytes} {stream : Stream}
      (hinspect : s.options.inspectArchives = true)
      (hformat : archiveFormat s.text.table filename mediaType data = some .gzip)
      (hopened : s.library.gunzip data = .ok (stored, stream)) :
      Child (.file archiveDepth filename mediaType data)
        (.file (archiveDepth + 1) (gzipName s stored filename) octetStream stream.data)
  | bzip2 {archiveDepth : ℕ} {filename mediaType data : Bytes}
      (hinspect : s.options.inspectArchives = true)
      (hformat : archiveFormat s.text.table filename mediaType data = some .bzip2) :
      Child (.file archiveDepth filename mediaType data)
        (.file (archiveDepth + 1) (bzip2Name s filename) octetStream
          (s.library.bunzip2 data).data)
  | contents {archiveDepth : ℕ} {entry : Entry} {stream : Stream}
      (hvisible : visible entry = true) (hcontents : contentsOf entry = some stream) :
      Child (.entry archiveDepth entry)
        (.file archiveDepth (entryName entry) octetStream stream.data)

/-- The nodes that are reached from a node. -/
abbrev Visited : Node → Node → Prop := Relation.ReflTransGen (Child s)

/-! ### What may go wrong at a node -/

/-- The header is absent or can be parsed. -/
def headerParses (header : Bytes) : Prop :=
  trimSpace header = [] ∨ ∃ parsed, s.text.parseMediaType header = .ok parsed

/-- The archive can be opened and read to its end. A ZIP file is read through its directory,
which was admitted. -/
def Opens (data : Bytes) : ArchiveFormat → Prop
  | .zip => (∃ state, (admitZIPDirectory s data state).value = .ok ()) ∧
      ∃ files, s.library.zipReader data = .ok files
  | .tar => (s.library.tarReader data).2 = none
  | .gzip => ∃ stored stream, s.library.gunzip data = .ok (stored, stream) ∧ stream.err = none
  | .bzip2 => (s.library.bunzip2 data).err = none

/-- The entry is not encrypted, has no blocked name, and its contents can be read. -/
def Readable : Entry → Prop
  | .zip file => file.flags &&& 1 = 0 ∧ blockedExtension s.text s.blocked file.name = none ∧
      ∃ stream, file.contents = .ok stream ∧ stream.err = none
  | .tar entry => 0 ≤ entry.size ∧ blockedExtension s.text s.blocked entry.name = none ∧
      entry.contents.err = none

/-- A multipart entity has a boundary, and all its parts can be read. -/
structure FineMultipart (params : List (Bytes × Bytes)) (data : Bytes) : Prop where
  boundary : parameter params (ascii "boundary") ≠ []
  parts : (partsOf s params data).2 = none

/-- The headers of a single entity can be parsed, its name is not blocked, its contents can
be decoded, and a message in it can be read. -/
structure FineSingle (contentType transferEncoding contentDisposition data : Bytes) : Prop where
  disposition : headerParses s contentDisposition
  decoded : ∃ a contents, Single s contentType transferEncoding contentDisposition data a contents ∧
    (a.filename ≠ [] → blockedExtension s.text s.blocked a.filename = none) ∧
    (IsMessage s a → ∃ attached, s.library.readMessage contents = .ok attached ∧
      attached.body.err = none)

/-- No failure, no blocked extension and no prohibited signature at the node itself. -/
def Fine : Node → Prop
  | .entity mimeDepth contentType transferEncoding contentDisposition data =>
    mimeDepth < maxMIMEDepth ∧ ∃ mediaType params,
      declaredMediaType s contentType = .ok (mediaType, params) ∧
      (isMultipart mediaType = true → FineMultipart s params data) ∧
      (isMultipart mediaType = false →
        FineSingle s contentType transferEncoding contentDisposition data)
  | .part _ mediaType part =>
    part.body.err = none ∧ headerParses s part.contentDisposition ∧
      ∃ filename, attachmentFilename s.text part.contentDisposition
        (partContentType mediaType part) = .ok filename
  | .file archiveDepth filename mediaType data =>
    blockedExtension s.text s.blocked filename = none ∧
      (s.options.inspectSignatures = true →
        prohibitedSignature s.text.table s.blocked data = none) ∧
      (s.options.inspectArchives = true →
        ∀ format, archiveFormat s.text.table filename mediaType data = some format →
          archiveDepth < s.options.maxArchiveDepth ∧ Opens s data format)
  | .entry _ entry =>
    (holdsFile entry = true → visible entry = true) ∧ (visible entry = true → Readable s entry)

/-- What a scan passes over: an entry that carries a file and is marked as something else,
a Content-Disposition that cannot be parsed, and the name of a part that is multipart. -/
def Overlooked : Node → Prop
  | .entity _ contentType _ contentDisposition _ =>
    ¬ headerParses s contentDisposition ∧
      ∃ mediaType params, declaredMediaType s contentType = .ok (mediaType, params) ∧
        isMultipart mediaType = false
  | .part _ mediaType part =>
    ¬ headerParses s part.contentDisposition ∨
      (∃ own params, declaredMediaType s (partContentType mediaType part) = .ok (own, params) ∧
        isMultipart own = true) ∧
      ∃ err, attachmentFilename s.text part.contentDisposition (partContentType mediaType part) =
        .error err
  | .file _ _ _ _ => False
  | .entry _ entry => holdsFile entry = true ∧ markedOther entry = true

/-! ### Inverting a clear scan -/

/-- The scan can end clear. -/
def Clears (m : Scan ScanResult) : Prop := ∃ state, (m state).value = .clear

section Rules

variable {α : Type} {m : Scan α} {f : α → Scan ScanResult} {first rest : Scan ScanResult}
  {r : ScanResult}

theorem clears_pure (h : Clears (pure r)) : r = .clear := by
  obtain ⟨state, hclear⟩ := h
  exact hclear

theorem Clears.bind (h : Clears (m >>= f)) : ∃ state, Clears (f (m state).value) := by
  obtain ⟨state, hclear⟩ := h
  exact ⟨state, (m state).state, hclear⟩

theorem NeverClear.not_clears (h : NeverClear first) : ¬ Clears first := by
  rintro ⟨state, hclear⟩
  exact h state hclear

theorem Clears.unlessHandled {m : Scan (Option ScanResult)} (h : Clears (unlessHandled m rest))
    (hrefuses : Refuses m) : (∃ state, (m state).value = none) ∧ Clears rest := by
  obtain ⟨state, hclear⟩ := h.bind
  cases hvalue : (m state).value with
  | none =>
    rw [hvalue] at hclear
    exact ⟨⟨state, hvalue⟩, hclear⟩
  | some r =>
    rw [hvalue] at hclear
    exact absurd (clears_pure hclear) (hrefuses state r hvalue)

theorem clears_unlessDone {s : Scanner} {location : Bytes}
    (h : Clears (unlessHandled (stopIfDone s location) rest)) : Clears rest :=
  (h.unlessHandled (stopIfDone_refuses s location)).2

theorem Clears.ite {c : Prop} [Decidable c] (h : Clears (if c then first else rest)) :
    c ∧ Clears first ∨ ¬ c ∧ Clears rest := by
  by_cases hc : c
  · rw [if_pos hc] at h
    exact Or.inl ⟨hc, h⟩
  · rw [if_neg hc] at h
    exact Or.inr ⟨hc, h⟩

/-- A choice whose first branch cannot end clear. -/
theorem Clears.else {c : Prop} [Decidable c] (h : Clears (if c then first else rest))
    (hfirst : ¬ Clears first) : ¬ c ∧ Clears rest := by
  rcases h.ite with ⟨-, h⟩ | h
  · exact absurd h hfirst
  · exact h

theorem not_clears_failure (path err : Bytes) : ¬ Clears (pure (failure path err)) :=
  fun h => ScanResult.noConfusion (clears_pure h)

theorem Clears.afterClear (h : Clears (do
      match ← first with
      | .clear => rest
      | .finding found => pure (.finding found)
      | .failure e => pure (.failure e))) : Clears first ∧ Clears rest := by
  obtain ⟨state, hclear⟩ := h.bind
  cases hvalue : (first state).value with
  | clear =>
    rw [hvalue] at hclear
    exact ⟨⟨state, hvalue⟩, hclear⟩
  | finding found | failure e =>
    rw [hvalue] at hclear
    exact ScanResult.noConfusion (clears_pure hclear)

theorem clears_within {format : ArchiveFormat} {data : Bytes}
    (h : Clears (within format data first)) : Clears first := h

theorem scanEach_clears {scan : α → Scan ScanResult} {items : List α}
    (h : Clears (scanEach scan items)) : ∀ a ∈ items, Clears (scan a) := by
  induction items with
  | nil => simp
  | cons a rest ih =>
    obtain ⟨hfirst, hrest⟩ := h.afterClear
    exact List.forall_mem_cons.mpr ⟨hfirst, ih hrest⟩

end Rules

section Archives

variable {s} {inner : FileScan}

variable {path data location : Bytes}

theorem nameFinding_eq_none {filename : Bytes} (h : nameFinding s path filename = none) :
    blockedExtension s.text s.blocked filename = none := Option.map_eq_none_iff.mp h

theorem checkEntryName_eq_none {entry : Entry} {name : Bytes} {state : ScanState}
    (h : (checkEntryName s entry path name state).value = none) :
    blockedExtension s.text s.blocked name = none := by
  refine nameFinding_eq_none (?_ : nameFinding s path name = none)
  simpa [checkEntryName] using h

theorem signatureFinding_eq_none (h : signatureFinding s path data = none)
    (hinspect : s.options.inspectSignatures = true) :
    prohibitedSignature s.text.table s.blocked data = none := by
  rw [signatureFinding, if_pos hinspect] at h
  exact Option.map_eq_none_iff.mp h

/-- The whole contents are searched and handed on. -/
theorem scanEntry_clears {entry : Entry} {name : Bytes} {stream : Stream}
    (hclears : Clears (scanEntry s inner entry path name stream)) :
    stream.err = none ∧ Clears (inner path name octetStream stream.data) := by
  obtain ⟨state, h⟩ := hclears.bind
  generalize hcontents : (readArchiveEntry s stream state).value = contents at h
  have hwhole : contents.err = none → contents = stream :=
    hcontents ▸ readArchiveEntry_whole s stream state
  cases hfinding : signatureFinding s path contents.data with
  | some found =>
    rw [hfinding] at h
    exact absurd (clears_pure h) (signatureFinding_ne_clear s path _ found hfinding)
  | none =>
    cases herr : contents.err with
    | some err =>
      rw [hfinding, herr] at h
      exact absurd h (not_clears_failure path err)
    | none =>
      rw [hfinding, herr] at h
      obtain rfl := hwhole herr
      obtain ⟨_, hinner⟩ := h.bind
      exact ⟨herr, hinner⟩

theorem scanZIPFile_clears {file : ZipFile} (h : Clears (scanZIPFile s inner location file))
    (hvisible : visible (.zip file) = true) :
    Readable s (.zip file) ∧ ∃ stream path, file.contents = .ok stream ∧
      Clears (inner path file.name octetStream stream.data) := by
  have hdir : ¬ file.isDir = true := by simpa [visible] using hvisible
  replace h := clears_unlessDone h
  rcases h.ite with ⟨hskipped, -⟩ | ⟨-, h⟩
  · exact absurd hskipped hdir
  obtain ⟨hplain, h⟩ := h.else fun h => ScanResult.noConfusion (clears_pure h)
  obtain ⟨⟨state, hname⟩, h⟩ := h.unlessHandled (checkEntryName_refuses s _ _ _)
  obtain ⟨-, h⟩ := h.unlessHandled (refusing_refuses _ _)
  cases hcontents : file.contents with
  | error err =>
    rw [hcontents] at h
    exact absurd h (not_clears_failure _ _)
  | ok stream =>
    rw [hcontents] at h
    obtain ⟨herr, h⟩ := scanEntry_clears h
    have hflag : file.flags &&& 1 = 0 := by simpa using hplain
    exact ⟨⟨hflag, checkEntryName_eq_none hname, stream, hcontents, herr⟩, stream, _, rfl, h⟩

theorem scanTAREntry_clears {entry : TarEntry} (h : Clears (scanTAREntry s inner location entry))
    (hvisible : visible (.tar entry) = true) :
    Readable s (.tar entry) ∧ ∃ path, Clears (inner path entry.name octetStream
      entry.contents.data) := by
  have hregular : ¬ entry.isRegular = false := by simpa [visible] using hvisible
  replace h := clears_unlessDone h
  rcases h.ite with ⟨hskipped, -⟩ | ⟨-, h⟩
  · exact absurd hskipped hregular
  obtain ⟨hsize, h⟩ := h.else (not_clears_failure _ _)
  obtain ⟨-, h⟩ := h.unlessHandled (refusing_refuses _ _)
  obtain ⟨⟨state, hname⟩, h⟩ := h.unlessHandled (checkEntryName_refuses s _ _ _)
  obtain ⟨herr, h⟩ := scanEntry_clears h
  exact ⟨⟨Int.not_lt.mp hsize, checkEntryName_eq_none hname, herr⟩, _, h⟩

theorem scanZIP_clears (h : Clears (scanZIP s inner location data)) :
    Opens s data .zip ∧ ∃ files, s.library.zipReader data = .ok files ∧
      ∀ file ∈ files, Clears (scanZIPFile s inner location file) := by
  replace h := clears_unlessDone h
  obtain ⟨state, h⟩ := h.bind
  match hadmitted : (admitZIPDirectory s data state).value with
  | .error (.refused err) =>
    rw [hadmitted] at h
    exact absurd h (not_clears_failure _ _)
  | .error .format =>
    rw [hadmitted] at h
    exact absurd h (NeverClear.not_clears (scanUnreadableZIP_neverClear s inner location data _))
  | .ok () =>
    rw [hadmitted] at h
    obtain ⟨state', h⟩ := h.bind
    cases hopen : (openZIP s data state').value with
    | error err =>
      rw [hopen] at h
      exact absurd h
        (NeverClear.not_clears (scanUnreadableZIP_neverClear s inner location data err))
    | ok files =>
      rw [hopen] at h
      have hfiles := openZIP_reads s data state' files hopen
      exact ⟨⟨⟨state, hadmitted⟩, files, hfiles⟩, files, hfiles, scanEach_clears h⟩

theorem scanTAR_clears (h : Clears (scanTAR s inner location data)) :
    Opens s data .tar ∧
      ∀ entry ∈ (s.library.tarReader data).1, Clears (scanTAREntry s inner location entry) := by
  obtain ⟨hentries, h⟩ := h.afterClear
  refine ⟨?_, scanEach_clears hentries⟩
  replace h := clears_unlessDone h
  cases herr : (s.library.tarReader data).2 with
  | none => exact herr
  | some err =>
    rw [herr] at h
    exact absurd h (not_clears_failure _ _)

theorem scanCompressed_clears {innerName : Bytes} {stream : Stream}
    (h : Clears (scanCompressed s inner location innerName stream)) :
    stream.err = none ∧ ∃ path, Clears (inner path innerName octetStream stream.data) := by
  obtain ⟨-, h⟩ := h.unlessHandled (refusing_refuses _ _)
  obtain ⟨state, h⟩ := h.bind
  have hwhole := readArchiveEntry_whole s stream state
  cases herr : (readArchiveEntry s stream state).value.err with
  | some err =>
    rw [herr] at h
    exact absurd h (not_clears_failure _ _)
  | none =>
    rw [herr, hwhole herr] at h
    rw [hwhole herr] at herr
    exact ⟨herr, _, h⟩

end Archives

section Files

/-- scanFile at an archive depth. -/
def scanFileAt (archiveDepth : ℕ) : FileScan :=
  scanFile s (s.options.maxArchiveDepth.toNat - archiveDepth)

/-- scanMIME at a MIME depth. -/
def scanMIMEAt (mimeDepth : ℕ) : MIMEScan := scanMIME s (maxMIMEDepth - mimeDepth)

/-- The body of the loop over entries, by the kind of the archive. -/
def scanListed (inner : FileScan) (location : Bytes) : Entry → Scan ScanResult
  | .zip file => scanZIPFile s inner location file
  | .tar entry => scanTAREntry s inner location entry

variable {s} {inner : FileScan}

theorem scanListed_clears {location : Bytes} {entry : Entry}
    (h : Clears (scanListed s inner location entry)) (hvisible : visible entry = true) :
    Readable s entry ∧ ∀ stream, contentsOf entry = some stream →
      ∃ path, Clears (inner path (entryName entry) octetStream stream.data) := by
  cases entry with
  | zip file =>
    obtain ⟨hreadable, stream, path, hcontents, h⟩ := scanZIPFile_clears h hvisible
    refine ⟨hreadable, fun stream' hstream => ⟨path, ?_⟩⟩
    obtain rfl : stream = stream' := by simpa [contentsOf, hcontents, Except.toOption] using hstream
    exact h
  | tar entry =>
    obtain ⟨hreadable, path, h⟩ := scanTAREntry_clears h hvisible
    refine ⟨hreadable, fun stream hstream => ⟨path, ?_⟩⟩
    obtain rfl : entry.contents = stream := by simpa [contentsOf] using hstream
    exact h

/-- An archive that ends clear was opened, and its entries and its single file ended
clear. -/
structure ClearArchive (s : Scanner) (inner : FileScan) (location filename data : Bytes)
    (format : ArchiveFormat) : Prop where
  opens : Opens s data format
  entries : ∀ entry, Lists s format data entry → Clears (scanListed s inner location entry)
  gzip : format = .gzip → ∀ stored stream, s.library.gunzip data = .ok (stored, stream) →
    ∃ path, Clears (inner path (gzipName s stored filename) octetStream stream.data)
  bzip2 : format = .bzip2 →
    ∃ path, Clears (inner path (bzip2Name s filename) octetStream (s.library.bunzip2 data).data)

theorem scanArchive_clears {format : ArchiveFormat} {location filename data : Bytes}
    (hclears : Clears (scanArchive s inner format location filename data)) :
    ClearArchive s inner location filename data format := by
  have h := clears_within hclears
  cases format with
  | zip =>
    obtain ⟨hopens, files, hfiles, h⟩ := scanZIP_clears h
    refine ⟨hopens, fun entry hlists => ?_, nofun, nofun⟩
    cases entry with
    | tar entry => exact hlists.elim
    | zip file =>
      obtain ⟨files', hfiles', hfile⟩ := hlists
      obtain rfl := Except.ok.inj (hfiles.symm.trans hfiles')
      exact h file hfile
  | tar =>
    obtain ⟨hopens, h⟩ := scanTAR_clears h
    refine ⟨hopens, fun entry hlists => ?_, nofun, nofun⟩
    cases entry with
    | zip file => exact hlists.elim
    | tar entry => exact h entry hlists
  | gzip =>
    unfold scanGzip at h
    cases hopened : s.library.gunzip data with
    | error err =>
      rw [hopened] at h
      exact absurd h (not_clears_failure _ _)
    | ok opened =>
      rw [hopened] at h
      obtain ⟨herr, path, h⟩ := scanCompressed_clears h
      refine ⟨⟨opened.1, opened.2, hopened, herr⟩, fun entry hlists => ?_, ?_, nofun⟩
      · cases entry <;> exact hlists.elim
      · rintro - stored stream hstored
        obtain rfl := Except.ok.inj (hopened.symm.trans hstored)
        exact ⟨path, h⟩
  | bzip2 =>
    obtain ⟨herr, path, h⟩ := scanCompressed_clears h
    refine ⟨herr, fun entry hlists => ?_, nofun, fun _ => ⟨path, h⟩⟩
    cases entry <;> exact hlists.elim

/-- A file that ends clear has no finding of its own, and an archive was opened above the
depth limit. -/
theorem scanFileAt_clears {archiveDepth : ℕ} {location filename mediaType data : Bytes}
    (hclears : Clears (scanFileAt s archiveDepth location filename mediaType data)) :
    blockedExtension s.text s.blocked filename = none ∧
      (s.options.inspectSignatures = true →
        prohibitedSignature s.text.table s.blocked data = none) ∧
      (s.options.inspectArchives = true →
        ∀ format, archiveFormat s.text.table filename mediaType data = some format →
          archiveDepth < s.options.maxArchiveDepth ∧
            ClearArchive s (scanFileAt s (archiveDepth + 1)) location filename data format) := by
  rw [scanFileAt, scanFile_solves] at hclears
  have h := clears_unlessDone hclears
  dsimp only at h
  cases hname : nameFinding s (cleanLocation s.text location) filename with
  | some found =>
    rw [hname] at h
    exact absurd (clears_pure h) (nameFinding_ne_clear s _ _ found hname)
  | none =>
    cases hsignature : signatureFinding s (cleanLocation s.text location) data with
    | some found =>
      rw [hname, hsignature] at h
      exact absurd (clears_pure h) (signatureFinding_ne_clear s _ _ found hsignature)
    | none =>
      rw [hname, hsignature] at h
      refine ⟨nameFinding_eq_none hname, signatureFinding_eq_none hsignature,
        fun hinspect format hformat => ?_⟩
      rw [if_neg (by simp [hinspect]), hformat] at h
      by_cases hlimit : s.options.maxArchiveDepth ≤ archiveDepth
      · rw [if_pos hlimit] at h
        exact absurd h (not_clears_failure _ _)
      · rw [if_neg hlimit] at h
        exact ⟨Int.not_le.mp hlimit, scanArchive_clears h⟩

end Files

section Entities

variable {s} {inner : MIMEScan}

variable {mediaType location : Bytes} {mimeDepth : ℕ}

/-- A part that ends clear was read to its end. -/
theorem scanPart_clears {index : ℕ} {part : Part}
    (hclears : Clears (scanPart s inner mediaType location index part)) :
    part.body.err = none ∧ ∃ path, Clears (inner (partContentType mediaType part)
      part.transferEncoding part.contentDisposition part.body.data path) := by
  obtain ⟨state, h⟩ := hclears.bind
  have hwhole := readContext_whole part.body state
  obtain ⟨hinner, h⟩ := h.afterClear
  have hresult := clears_pure h
  cases herr : (readContext part.body state).value.err with
  | some err =>
    rw [herr] at hresult
    exact ScanResult.noConfusion hresult
  | none =>
    rw [hwhole herr] at hinner herr
    exact ⟨herr, _, hinner⟩

theorem scanParts_clears {err : Option Bytes} {parts : List Part} (index : ℕ)
    (hclears : Clears (scanParts s inner mediaType location err index none parts)) :
    err = none ∧
      ∀ part ∈ parts, ∃ place, Clears (scanPart s inner mediaType location place part) := by
  induction parts generalizing index with
  | nil =>
    have h := clears_unlessDone hclears
    have hresult := clears_pure h
    cases err with
    | none => exact ⟨rfl, by simp⟩
    | some err => exact ScanResult.noConfusion hresult
  | cons part rest ih =>
    have h := clears_unlessDone hclears
    obtain ⟨state, h⟩ := h.bind
    cases hvalue : (scanPart s inner mediaType location index part state).value with
    | finding found =>
      rw [hvalue] at h
      exact ScanResult.noConfusion (clears_pure h)
    | failure e =>
      rw [hvalue] at h
      exact absurd h
        (NeverClear.not_clears (scanParts_neverClear s inner mediaType location err _ e rest))
    | clear =>
      rw [hvalue] at h
      obtain ⟨herr, hrest⟩ := ih _ h
      exact ⟨herr, List.forall_mem_cons.mpr ⟨⟨index, state, hvalue⟩, hrest⟩⟩

theorem scanRFC822_clears {data : Bytes}
    (hclears : Clears (scanRFC822 s inner mimeDepth data location)) :
    ∃ attached, s.library.readMessage data = .ok attached ∧ attached.body.err = none ∧
      ∃ path, Clears (inner attached.contentType attached.transferEncoding
        attached.contentDisposition attached.body.data path) := by
  have h := clears_unlessDone hclears
  obtain ⟨-, h⟩ := h.else (not_clears_failure _ _)
  cases hattached : s.library.readMessage data with
  | error err =>
    rw [hattached] at h
    exact ScanResult.noConfusion (clears_pure h)
  | ok attached =>
    rw [hattached] at h
    obtain ⟨state, h⟩ := h.bind
    have hwhole := readContext_whole attached.body state
    cases herr : (readContext attached.body state).value.err with
    | some err =>
      rw [herr] at h
      exact absurd h (not_clears_failure _ _)
    | none =>
      rw [herr, hwhole herr] at h
      rw [hwhole herr] at herr
      exact ⟨attached, rfl, herr, location, h⟩

theorem decodeTransferStrict_decoded (transferEncoding data : Bytes) :
    Ensures (fun decoded => decoded.err = none →
      decodedContents s transferEncoding data = some decoded.data)
      (decodeTransferStrict s transferEncoding data) := by
  unfold decodeTransferStrict decodedContents
  cases transferReader s transferEncoding data with
  | error err => exact Ensures.pure (by simp)
  | ok stream =>
    refine Ensures.ite (fun _ => Ensures.pure (by simp)) fun hlimit => ?_
    refine Ensures.bind (readContext_whole stream) fun contents hwhole => ?_
    refine Ensures.ite (fun _ => Ensures.after fun _ => Ensures.pure (by simp)) fun hlength => ?_
    refine Ensures.pure fun herr => ?_
    obtain rfl := hwhole herr
    exact if_pos ⟨herr, by omega, by omega⟩

/-- Visible text is what the scanner takes for it. -/
theorem exempt_of_visibleText {a : Attachment} {contents : Bytes} (hunnamed : a.filename = [])
    (htext : a.mediaType = ascii "text/plain" ∨ a.mediaType = ascii "text/html")
    (h : visibleText s (0 < mimeDepth) a contents = true) : Exempt s mimeDepth a contents := by
  simp only [visibleText, Bool.and_eq_true, Bool.not_eq_true', Bool.or_eq_false_iff,
    Bool.and_eq_false_iff, decide_eq_false_iff_not] at h
  obtain ⟨htype, hshown, hbinary⟩ := h
  refine ⟨hunnamed, htext, hshown, fun hnested => ⟨?_, ?_⟩⟩
  · exact htype.resolve_left fun h => h hnested
  · exact hbinary.resolve_left fun h => h hnested

/-- Decoded contents are scanned as a message or as a file, or they are visible text. -/
theorem scanDecoded_clears {message : Bytes → Bytes → Scan ScanResult} {a : Attachment}
    {contents : Bytes} (hclears : Clears (scanDecoded s message (0 < mimeDepth) a contents)) :
    (IsMessage s a → Clears (message contents a.location)) ∧
      (¬ IsMessage s a → ¬ Exempt s mimeDepth a contents →
        Clears (scanFileAt s 0 a.location a.filename a.mediaType contents)) := by
  rcases hclears.ite with ⟨⟨hunnamed, htext⟩, h⟩ | ⟨hother, h⟩
  · refine ⟨fun hmessage => absurd ⟨hunnamed, htext⟩ hmessage.1, fun _ hexempt => ?_⟩
    rcases h.ite with ⟨hvisible, -⟩ | ⟨-, h⟩
    · exact absurd (exempt_of_visibleText hunnamed htext hvisible) hexempt
    · rw [hunnamed]
      exact h
  · rcases h.ite with ⟨hemail, h⟩ | ⟨hemail, h⟩
    · exact ⟨fun _ => h, fun hfile => absurd ⟨hother, hemail⟩ hfile⟩
    · exact ⟨fun hmessage => absurd hmessage.2 hemail, fun _ _ => h⟩

/-- An entity that is not multipart ends clear only with a decodable name that is not
blocked and with contents that can be decoded. -/
theorem scanSingle_clears {params : List (Bytes × Bytes)}
    {contentType transferEncoding contentDisposition data : Bytes}
    (hmedia : declaredMediaType s contentType = .ok (mediaType, params))
    (hsingle : isMultipart mediaType = false)
    (hclears : Clears (scanSingle s (scanRFC822 s inner mimeDepth) (0 < mimeDepth) mediaType
      contentType transferEncoding contentDisposition data location)) :
    ∃ a contents, Single s contentType transferEncoding contentDisposition data a contents ∧
      (a.filename ≠ [] → blockedExtension s.text s.blocked a.filename = none) ∧
      Clears (scanDecoded s (scanRFC822 s inner mimeDepth) (0 < mimeDepth) a contents) := by
  have hattachment : ∀ a : Attachment, a.mediaType = mediaType → a.contentType = contentType →
      a.contentDisposition = contentDisposition →
      attachmentFilename s.text contentDisposition contentType = .ok a.filename →
      Clears (scanAttachment s (scanRFC822 s inner mimeDepth) (0 < mimeDepth) a transferEncoding
        data) →
      ∃ contents, Single s contentType transferEncoding contentDisposition data a contents ∧
        Clears (scanDecoded s (scanRFC822 s inner mimeDepth) (0 < mimeDepth) a contents) := by
    intro a htype htyped hdisposed hfilename hattached
    obtain ⟨state, h⟩ := hattached.bind
    have hdecoded := decodeTransferStrict_decoded (s := s) transferEncoding data state
    cases herr : (decodeTransferStrict s transferEncoding data state).value.err with
    | some err =>
      rw [herr] at h
      exact absurd h (NeverClear.not_clears (scanUndecoded_neverClear s _ a _ err))
    | none =>
      rw [herr] at h
      exact ⟨_, ⟨⟨params, htype ▸ hmedia⟩, htype ▸ hsingle, htyped, hdisposed, hfilename,
        hdecoded herr⟩, h⟩
  unfold scanSingle at hclears
  cases hfilename : attachmentFilename s.text contentDisposition contentType with
  | error err =>
    rw [hfilename] at hclears
    exact ScanResult.noConfusion (clears_pure hclears)
  | ok filename =>
    rw [hfilename] at hclears
    rcases hclears.ite with ⟨rfl, h⟩ | ⟨hnamed, h⟩
    · obtain ⟨contents, hcontents, h⟩ := hattachment _ rfl rfl rfl hfilename h
      exact ⟨_, contents, hcontents, fun hnamed => absurd rfl hnamed, h⟩
    · dsimp only at h
      cases hname : nameFinding s (cleanLocation s.text
          (replaceLocationBase s.text location filename)) filename with
      | some found =>
        rw [hname] at h
        exact absurd (clears_pure h) (nameFinding_ne_clear s _ _ found hname)
      | none =>
        rw [hname] at h
        obtain ⟨contents, hcontents, h⟩ := hattachment _ rfl rfl rfl hfilename h
        exact ⟨_, contents, hcontents, fun _ => nameFinding_eq_none hname, h⟩

end Entities

/-! ### Every visited node -/

/-- The scan of the node can end clear. -/
def Passes : Node → Prop
  | .entity mimeDepth contentType transferEncoding contentDisposition data =>
    ∃ location, Clears (scanMIMEAt s mimeDepth contentType transferEncoding contentDisposition data
      location)
  | .part mimeDepth mediaType part =>
    ∃ location index, Clears (scanPart s (scanMIMEAt s (mimeDepth + 1)) mediaType location index
      part)
  | .file archiveDepth filename mediaType data =>
    ∃ location, Clears (scanFileAt s archiveDepth location filename mediaType data)
  | .entry archiveDepth entry =>
    ∃ location, Clears (scanListed s (scanFileAt s archiveDepth) location entry)

/-- What a clear entity shows: its media type, and either all its parts or its contents. -/
structure ClearEntity (mimeDepth : ℕ)
    (contentType transferEncoding contentDisposition data mediaType : Bytes)
    (params : List (Bytes × Bytes)) : Prop where
  depth : mimeDepth < maxMIMEDepth
  media : declaredMediaType s contentType = .ok (mediaType, params)
  multipart : isMultipart mediaType = true → FineMultipart s params data ∧
    ∀ part ∈ (partsOf s params data).1, Passes s (.part mimeDepth mediaType part)
  single : isMultipart mediaType = false → ∃ a contents,
    Single s contentType transferEncoding contentDisposition data a contents ∧
      (a.filename ≠ [] → blockedExtension s.text s.blocked a.filename = none) ∧
      Clears (scanDecoded s (scanRFC822 s (scanMIMEAt s (mimeDepth + 1)) mimeDepth)
        (0 < mimeDepth) a contents)

variable {s}

theorem passes_entity {mimeDepth : ℕ} {contentType transferEncoding contentDisposition data : Bytes}
    (h : Passes s (.entity mimeDepth contentType transferEncoding contentDisposition data)) :
    ∃ mediaType params, ClearEntity s mimeDepth contentType transferEncoding contentDisposition
      data mediaType params := by
  obtain ⟨location, h⟩ := h
  rw [scanMIMEAt, scanMIME_solves, scanMIMEBody] at h
  by_cases hlimit : maxMIMEDepth ≤ mimeDepth
  · rw [if_pos hlimit] at h
    replace h := clears_unlessDone h
    exact absurd h (not_clears_failure _ _)
  · rw [if_neg hlimit] at h
    replace h := clears_unlessDone h
    cases hmedia : declaredMediaType s contentType with
    | error err =>
      rw [hmedia] at h
      exact ScanResult.noConfusion (clears_pure h)
    | ok declared =>
      obtain ⟨mediaType, params⟩ := declared
      rw [hmedia] at h
      refine ⟨mediaType, params, Nat.not_le.mp hlimit, hmedia, fun hmultipart => ?_,
        fun hsingle => ?_⟩
      · rcases h.ite with ⟨-, h⟩ | ⟨hnot, -⟩
        · obtain ⟨hboundary, h⟩ := h.else fun h => ScanResult.noConfusion (clears_pure h)
          obtain ⟨hend, hparts⟩ := scanParts_clears 1 h
          exact ⟨⟨hboundary, hend⟩, fun part hpart => ⟨location, hparts part hpart⟩⟩
        · exact absurd hmultipart hnot
      · rcases h.ite with ⟨hmultipart, -⟩ | ⟨-, h⟩
        · exact absurd hmultipart (by simpa [isMultipart] using hsingle)
        · exact scanSingle_clears hmedia hsingle h

/-- The contents of an entity are the same however they are described. -/
theorem Single.unique {contentType transferEncoding contentDisposition data contents contents' :
    Bytes} {a a' : Attachment}
    (h : Single s contentType transferEncoding contentDisposition data a contents)
    (h' : Single s contentType transferEncoding contentDisposition data a' contents') :
    contents = contents' ∧ a.mediaType = a'.mediaType ∧ a.filename = a'.filename ∧
      a.contentType = a'.contentType ∧ a.contentDisposition = a'.contentDisposition := by
  obtain ⟨params, hmedia⟩ := h.media
  obtain ⟨params', hmedia'⟩ := h'.media
  have hsame := Except.ok.inj (hmedia.symm.trans hmedia')
  refine ⟨Option.some.inj (h.decoded.symm.trans h'.decoded), congrArg Prod.fst hsame,
    Except.ok.inj (h.filename.symm.trans h'.filename), h.typed.trans h'.typed.symm,
    h.disposed.trans h'.disposed.symm⟩

/-- Whether the contents are a message does not depend on the location. -/
theorem isMessage_congr {a a' : Attachment} (hmedia : a.mediaType = a'.mediaType)
    (hname : a.filename = a'.filename) : IsMessage s a ↔ IsMessage s a' := by
  rw [IsMessage, IsMessage, attachedEmail, attachedEmail, hmedia, hname]

theorem Exempt.congr {a a' : Attachment} {mimeDepth : ℕ} {contents : Bytes}
    (h : Exempt s mimeDepth a contents) (hmedia : a.mediaType = a'.mediaType)
    (hname : a.filename = a'.filename) (htype : a.contentType = a'.contentType)
    (hdisposition : a.contentDisposition = a'.contentDisposition) :
    Exempt s mimeDepth a' contents :=
  ⟨hname ▸ h.unnamed, hmedia ▸ h.text, hdisposition ▸ h.shown, htype ▸ h.nested⟩

theorem Passes.child {node next : Node} (h : Passes s node) (hchild : Child s node next) :
    Passes s next := by
  cases hchild with
  | part hmedia hmultipart hpart =>
    obtain ⟨mediaType, params, hclear⟩ := passes_entity h
    obtain ⟨rfl, rfl⟩ := Prod.mk.inj (Except.ok.inj (hclear.media.symm.trans hmedia))
    exact (hclear.multipart hmultipart).2 _ hpart
  | body mimeDepth mediaType part =>
    obtain ⟨location, index, h⟩ := h
    exact (scanPart_clears h).2
  | message hsingle hmessage hattached =>
    obtain ⟨mediaType, params, hclear⟩ := passes_entity h
    obtain ⟨params', hmedia⟩ := hsingle.media
    obtain ⟨rfl, -⟩ := Prod.mk.inj (Except.ok.inj (hmedia.symm.trans hclear.media))
    obtain ⟨a', contents', hsingle', -, h⟩ := hclear.single hsingle.single
    obtain ⟨rfl, hmedia, hname, -, -⟩ := hsingle.unique hsingle'
    obtain ⟨attached', hattached', -, hinner⟩ :=
      scanRFC822_clears ((scanDecoded_clears h).1 ((isMessage_congr hmedia hname).mp hmessage))
    obtain rfl := Except.ok.inj (hattached.symm.trans hattached')
    exact hinner
  | leaf hsingle hfile hinspected =>
    obtain ⟨mediaType, params, hclear⟩ := passes_entity h
    obtain ⟨params', hmedia⟩ := hsingle.media
    obtain ⟨rfl, -⟩ := Prod.mk.inj (Except.ok.inj (hmedia.symm.trans hclear.media))
    obtain ⟨a', contents', hsingle', -, h⟩ := hclear.single hsingle.single
    obtain ⟨rfl, hmedia, hname, htype, hdisposition⟩ := hsingle.unique hsingle'
    refine ⟨a'.location, ?_⟩
    rw [hname, hmedia]
    refine (scanDecoded_clears h).2 (fun hmessage => hfile ?_) fun hexempt => hinspected ?_
    · exact (isMessage_congr hmedia hname).mpr hmessage
    · exact hexempt.congr hmedia.symm hname.symm htype.symm hdisposition.symm
  | listed hinspect hformat hlists =>
    obtain ⟨location, h⟩ := h
    have hclear := ((scanFileAt_clears h).2.2 hinspect _ hformat).2
    exact ⟨location, hclear.entries _ hlists⟩
  | gzip hinspect hformat hopened =>
    obtain ⟨location, h⟩ := h
    exact ((scanFileAt_clears h).2.2 hinspect _ hformat).2.gzip rfl _ _ hopened
  | bzip2 hinspect hformat =>
    obtain ⟨location, h⟩ := h
    exact ((scanFileAt_clears h).2.2 hinspect _ hformat).2.bzip2 rfl
  | contents hvisible hcontents =>
    obtain ⟨location, h⟩ := h
    exact (scanListed_clears h hvisible).2 _ hcontents

theorem Passes.visited {node next : Node} (h : Passes s node) (hvisited : Visited s node next) :
    Passes s next := by
  induction hvisited with
  | refl => exact h
  | tail _ hchild ih => exact ih.child hchild

/-- A clear node is fine unless it has something that a scan passes over. -/
theorem Passes.fine {node : Node} (h : Passes s node) (hnot : ¬ Overlooked s node) :
    Fine s node := by
  cases node with
  | entity mimeDepth contentType transferEncoding contentDisposition data =>
    obtain ⟨mediaType, params, hclear⟩ := passes_entity h
    refine ⟨hclear.depth, mediaType, params, hclear.media, fun h => (hclear.multipart h).1,
      fun hsingle => ⟨?_, ?_⟩⟩
    · by_contra hparses
      exact hnot ⟨hparses, mediaType, params, hclear.media, hsingle⟩
    · obtain ⟨a, contents, hcontents, hname, h⟩ := hclear.single hsingle
      refine ⟨a, contents, hcontents, hname, fun hmessage => ?_⟩
      obtain ⟨attached, hattached, herr, -⟩ := scanRFC822_clears ((scanDecoded_clears h).1 hmessage)
      exact ⟨attached, hattached, herr⟩
  | part mimeDepth mediaType part =>
    have hbody := h.child (.body mimeDepth mediaType part)
    obtain ⟨location, index, h⟩ := h
    obtain ⟨hparses, hname⟩ := not_or.mp hnot
    refine ⟨(scanPart_clears h).1, not_not.mp hparses, ?_⟩
    obtain ⟨own, params, hclear⟩ := passes_entity hbody
    cases hmultipart : isMultipart own with
    | false =>
      obtain ⟨a, contents, hcontents, -⟩ := hclear.single hmultipart
      exact ⟨a.filename, hcontents.filename⟩
    | true =>
      cases hfilename : attachmentFilename s.text part.contentDisposition
          (partContentType mediaType part) with
      | ok filename => exact ⟨filename, rfl⟩
      | error err => exact absurd ⟨⟨own, params, hclear.media, hmultipart⟩, err, hfilename⟩ hname
  | file archiveDepth filename mediaType data =>
    obtain ⟨location, h⟩ := h
    obtain ⟨hname, hsignature, harchive⟩ := scanFileAt_clears h
    refine ⟨hname, hsignature, fun hinspect format hformat => ?_⟩
    obtain ⟨hdepth, hclear⟩ := harchive hinspect format hformat
    exact ⟨hdepth, hclear.opens⟩
  | entry archiveDepth entry =>
    obtain ⟨location, h⟩ := h
    refine ⟨fun hfile => ?_, fun hvisible => (scanListed_clears h hvisible).1⟩
    rw [visible_of_holdsFile hfile]
    by_contra hmarked
    exact hnot ⟨hfile, by simpa using hmarked⟩

theorem Fine.not_overlooked {node : Node} (h : Fine s node) : ¬ Overlooked s node := by
  cases node with
  | entity mimeDepth contentType transferEncoding contentDisposition data =>
    rintro ⟨hparses, mediaType, params, hmedia, hsingle⟩
    obtain ⟨-, mediaType', params', hmedia', -, hfine⟩ := h
    obtain ⟨rfl, -⟩ := Prod.mk.inj (Except.ok.inj (hmedia.symm.trans hmedia'))
    exact hparses (hfine hsingle).disposition
  | part mimeDepth mediaType part =>
    obtain ⟨-, hparses, filename, hfilename⟩ := h
    rintro (hnot | ⟨-, err, herr⟩)
    · exact hnot hparses
    · rw [hfilename] at herr
      simp at herr
  | file archiveDepth filename mediaType data => exact not_false
  | entry archiveDepth entry =>
    rintro ⟨hfile, hmarked⟩
    have hvisible := h.1 hfile
    rw [visible_of_holdsFile hfile, hmarked] at hvisible
    exact Bool.noConfusion hvisible

/-- The message that is the disguised archive, as a single entity. -/
theorem disguisedZIP_single :
    Single plainScanner (ascii "application/zip") [] [] disguisedZIP
      ⟨ascii "application/zip", ascii "application/zip", [], [], []⟩ disguisedZIP where
  media := ⟨[], by decide +kernel⟩
  single := by decide +kernel
  typed := rfl
  disposed := rfl
  filename := by decide +kernel
  decoded := by decide +kernel

end MilterGuard.FailClosed
