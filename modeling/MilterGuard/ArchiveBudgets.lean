import MilterGuard.Procedures
import MilterGuard.ContentSignatures

/-!
The state of one attachment scan and its budgets. Decoders of the standard
library are functions from bytes to what their readers deliver. A scan logs the
names it checks, the contents it passes on, the archives it opens with all that
happens inside them, and every budget that runs out.
-/
namespace MilterGuard.ArchiveBudgets

open Procedures ByteStrings AttachmentNames ContentSignatures

/-- What a reader delivers up to its end, with the error that ends it early. -/
structure Stream where
  data : Bytes
  err : Option Bytes
  deriving DecidableEq

/-- A MIME part or an attached message: the fields the scanner reads and its body. -/
structure Part where
  contentType : Bytes
  transferEncoding : Bytes
  contentDisposition : Bytes
  body : Stream
  deriving DecidableEq

/-- zip.File: a central-directory entry, with what opening it gives. -/
structure ZipFile where
  name : Bytes
  flags : UInt16
  creatorVersion : UInt16
  externalAttrs : UInt32
  compressedSize64 : ℕ
  uncompressedSize64 : ℕ
  contents : Except Bytes Stream
  deriving DecidableEq

/-- FileInfo().IsDir(). The system that wrote the entry decides how its attributes
are read; a name with a final slash is a directory on every system. -/
def ZipFile.isDir (file : ZipFile) : Bool :=
  let creator := file.creatorVersion >>> 8
  file.name.getLast? = some 0x2F ||
    (creator = 3 || creator = 19) && (file.externalAttrs >>> 16) &&& 0xF000 = 0x4000 ||
    (creator = 11 || creator = 14 || creator = 0) && file.externalAttrs &&& 0x10 ≠ 0

/-- The central directory gives the entry a size. -/
def ZipFile.carriesData (file : ZipFile) : Bool :=
  file.compressedSize64 ≠ 0 || file.uncompressedSize64 ≠ 0

/-- tar.Header with the contents that follow it. -/
structure TarEntry where
  name : Bytes
  typeflag : UInt8
  mode : UInt32
  size : ℤ
  contents : Stream
  deriving DecidableEq

variable (entry : TarEntry)

/-- The type flag of a regular file, in either spelling. -/
def TarEntry.regularFlag : Bool :=
  entry.typeflag = 0x30 || entry.typeflag = 0

/-- The file-type bits of the stored mode name something else than a file. -/
def TarEntry.specialMode : Bool :=
  entry.mode &&& 0xFFFFF000 ∈ [0x4000, 0x1000, 0xA000, 0x6000, 0x2000, 0xC000]

/-- FileInfo().Mode().IsRegular(). -/
def TarEntry.isRegular : Bool :=
  !entry.specialMode && !(entry.typeflag ∈ [0x32, 0x33, 0x34, 0x35, 0x36])

/-- Decoders of the standard library, each given by what it delivers. -/
structure Library extends TextServices where
  /-- The parts that NextPart returns, and the error that ends them before the end. -/
  multipart : Bytes → Bytes → List Part × Option Bytes
  readMessage : Bytes → Except Bytes Part
  base64 : Bytes → Stream
  quotedPrintable : Bytes → Stream
  inflate : Bytes → Stream
  /-- gzip.NewReader with the stored name. -/
  gunzip : Bytes → Except Bytes (Bytes × Stream)
  bunzip2 : Bytes → Stream
  zipReader : Bytes → Except Bytes (List ZipFile)
  /-- The entries that Next returns, and the error that ends them before the end. -/
  tarReader : Bytes → List TarEntry × Option Bytes

structure Options where
  blockedExtensions : List Bytes
  inspectSignatures : Bool
  inspectArchives : Bool
  maxAttachmentBytes : ℤ
  maxArchiveDepth : ℤ
  maxArchiveFiles : ℤ
  maxArchiveUncompressedBytes : ℤ

structure Scanner where
  library : Library
  options : Options
  blocked : List Bytes

def Scanner.new (library : Library) (options : Options) : Scanner :=
  ⟨library, options, blockedSet library.toTextServices options.blockedExtensions⟩

def Scanner.text (s : Scanner) : TextServices := s.library.toTextServices

structure Finding where
  path : Bytes
  detection : Bytes
  deriving DecidableEq

structure ScanError where
  path : Bytes
  encrypted : Bool
  malformed : Bool
  err : Bytes
  deriving DecidableEq

/-- ScanError.Error. -/
def ScanError.text (e : ScanError) : Bytes :=
  if e.path = [] then e.err else e.path ++ ascii ": " ++ e.err

/-- The pair of a finding and an error; the scanner never returns both. -/
inductive ScanResult
  | clear
  | finding (found : Finding)
  | failure (e : ScanError)
  deriving DecidableEq

/-- An inspection that failed without a more special kind. -/
def failure (path err : Bytes) : ScanResult := .failure ⟨path, false, false, err⟩

def malformed (path err : Bytes) : ScanResult := .failure ⟨path, false, true, err⟩

inductive Entry
  | zip (file : ZipFile)
  | tar (entry : TarEntry)

inductive Event
  | nameChecked (entry : Entry)
  /-- The contents were read to their end and handed to scanFile. -/
  | passedOn (entry : Entry) (data : Bytes)
  | exhausted
  | archive (format : ArchiveFormat) (data : Bytes) (log : List Event)

/-- An event is in a log or in the log of an archive opened there. -/
inductive Occurs (e : Event) : List Event → Prop
  | here {log : List Event} (h : e ∈ log) : Occurs e log
  | inside {log : List Event} {format : ArchiveFormat} {data : Bytes} {inner : List Event}
      (harchive : .archive format data inner ∈ log) (h : Occurs e inner) : Occurs e log

theorem occurs_append {e : Event} {first second : List Event} :
    Occurs e (first ++ second) ↔ Occurs e first ∨ Occurs e second := by
  constructor
  · intro h
    cases h with
    | here h => exact (List.mem_append.mp h).imp .here .here
    | inside harchive h =>
      exact (List.mem_append.mp harchive).imp (.inside · h) (.inside · h)
  · rintro (h | h)
    · cases h with
      | here h => exact .here (List.mem_append_left _ h)
      | inside harchive h => exact .inside (List.mem_append_left _ harchive) h
    · cases h with
      | here h => exact .here (List.mem_append_right _ h)
      | inside harchive h => exact .inside (List.mem_append_right _ harchive) h

theorem occurs_archive {e : Event} {format : ArchiveFormat} {data : Bytes} {inner : List Event} :
    Occurs e [.archive format data inner] ↔ e = .archive format data inner ∨ Occurs e inner := by
  constructor
  · intro h
    cases h with
    | here h => exact Or.inl (List.mem_singleton.mp h)
    | inside harchive h =>
      obtain ⟨rfl, rfl, rfl⟩ := Event.archive.inj (List.mem_singleton.mp harchive)
      exact Or.inr h
  · rintro (rfl | h)
    · exact .here (List.mem_singleton.mpr rfl)
    · exact .inside (List.mem_singleton.mpr rfl) h

mutual

/-- Whether a budget ran out in the event. -/
def Event.runsOut : Event → Bool
  | .exhausted => true
  | .archive _ _ log => logRunsOut log
  | _ => false

def logRunsOut : List Event → Bool
  | [] => false
  | e :: rest => e.runsOut || logRunsOut rest

end

theorem logRunsOut_of_mem {log : List Event} {e : Event} (h : e ∈ log) (he : e.runsOut = true) :
    logRunsOut log = true := by
  induction log with
  | nil => exact absurd h List.not_mem_nil
  | cons first rest ih =>
    rw [logRunsOut, Bool.or_eq_true]
    rcases List.mem_cons.mp h with rfl | h
    · exact Or.inl he
    · exact Or.inr (ih h)

theorem logRunsOut_of_occurs {log : List Event} (h : Occurs .exhausted log) :
    logRunsOut log = true := by
  induction h with
  | here h => exact logRunsOut_of_mem h (by rw [Event.runsOut])
  | inside harchive _ ih => exact logRunsOut_of_mem harchive (by rw [Event.runsOut, ih])

/-- The cause and the number of bytes read when a context is found done. -/
structure Interruption where
  err : Bytes
  after : ℕ

/-- What the context answers each time it is asked. -/
abbrev Context := ℕ → Option Interruption

def background : Context := fun _ => none

structure ScanState where
  archiveFiles : ℤ
  archiveBytes : ℤ
  zipMetadataBytes : ℤ
  ctx : Context
  looks : ℕ

def ScanState.new (ctx : Context) : ScanState := ⟨0, 0, 0, ctx, 0⟩

abbrev Scan (α : Type) := Proc Event ScanState α

def look : Scan (Option Interruption) := fun state =>
  ⟨state.ctx state.looks, { state with looks := state.looks + 1 }, []⟩

/-- Runs a procedure inside an archive: its log becomes one event. -/
def within (format : ArchiveFormat) (data : Bytes) {α : Type} (m : Scan α) : Scan α := fun state =>
  ⟨(m state).value, (m state).state, [.archive format data (m state).events]⟩

/-- Notes that a budget ran out. -/
def exhaust {α : Type} (a : α) : Scan α := do
  log [.exhausted]
  pure a

variable (s : Scanner)

/-- scanState.check. -/
def check (location : Bytes) : Scan (Option ScanError) := do
  match ← look with
  | none => pure none
  | some interruption =>
    pure (some ⟨cleanLocation s.text location, false, false, interruption.err⟩)

def stopIfDone (location : Bytes) : Scan (Option ScanResult) := do
  pure ((← check s location).map .failure)

variable (stream : Stream)

/-- io.ReadAll through a contextReader. -/
def readContext : Scan Stream := do
  match ← look with
  | none => pure stream
  | some interruption => pure ⟨stream.data.take interruption.after, some interruption.err⟩

/-- The conversion of a signed number to uint64. -/
def uint64 (x : ℤ) : ℕ := (x % 2 ^ 64).toNat

def errUncompressedSize : Bytes := ascii "archive uncompressed-size limit exceeded"
def errEntrySize : Bytes := ascii "archive entry size limit exceeded"
def errArchiveFileCount : Bytes := ascii "archive file-count limit exceeded"
def errZIPMetadataLimit : Bytes := ascii "ZIP metadata size limit exceeded"

/-- Reads at most the limit and then looks for one byte more. -/
def readLimitedEntry (remaining : ℤ) : Scan Stream := do
  let stream ← readContext stream
  let limit := (min s.options.maxAttachmentBytes remaining).toNat
  let data := stream.data.take limit
  modify fun state => { state with archiveBytes := state.archiveBytes + data.length }
  if limit < stream.data.length then
    exhaust ⟨data, some (if remaining ≤ s.options.maxAttachmentBytes then errUncompressedSize
      else errEntrySize)⟩
  else pure ⟨data, stream.err⟩

def readArchiveEntry : Scan Stream := do
  match ← check s (ascii "archive entry") with
  | some e => pure ⟨[], some e.text⟩
  | none =>
    let remaining ← read fun state => s.options.maxArchiveUncompressedBytes - state.archiveBytes
    if remaining ≤ 0 then exhaust ⟨[], some errUncompressedSize⟩
    else readLimitedEntry s stream remaining

def checkArchiveFileSize (declaredSize : ℕ) : Scan (Option Bytes) := do
  let remaining ← read fun state => s.options.maxArchiveUncompressedBytes - state.archiveBytes
  if uint64 s.options.maxAttachmentBytes < declaredSize then exhaust (some errEntrySize)
  -- A negative remainder is below every declared size.
  else if remaining < declaredSize then exhaust (some errUncompressedSize)
  else pure none

def beginArchiveFile (declaredSize : ℕ) : Scan (Option Bytes) := do
  let files ← read ScanState.archiveFiles
  if s.options.maxArchiveFiles ≤ files then exhaust (some errArchiveFileCount)
  else
    match ← checkArchiveFileSize s declaredSize with
    | some err => pure (some err)
    | none =>
      modify fun state => { state with archiveFiles := state.archiveFiles + 1 }
      pure none

/-- The relation is kept by looks at the context and by budgets that run out. Both end
what goes well. -/
structure Watches (R : Prop → ScanState → List Event → ScanState → Prop) : Prop where
  chains : GradedChains R
  look : Graded R (· = none) look
  exhausted : Follows (R False) (log [.exhausted])

section Watches

variable {s} {R : Prop → ScanState → List Event → ScanState → Prop} (hR : Watches R)

include hR

theorem exhaust_watches {α : Type} (a : α) : Follows (R False) (exhaust a) :=
  Follows.bind hR.chains.falls hR.exhausted fun _ => Follows.pure hR.chains.falls a

/-- A budget that runs out shows in the value. -/
theorem exhaust_fails {α : Type} {good : α → Prop} {a : α} (h : ¬ good a) :
    Fails R good (exhaust a) :=
  ⟨Ensures.after fun _ => Ensures.pure h, exhaust_watches hR a⟩

theorem check_watches (location : Bytes) : Graded R (· = none) (check s location) :=
  Graded.bind_option hR.chains hR.look (fun _ => Fails.pure hR.chains (by simp))
    (Graded.pure hR.chains none)

theorem stopIfDone_watches (location : Bytes) : Graded R (· = none) (stopIfDone s location) :=
  Graded.bind_option hR.chains (check_watches hR location)
    (fun _ => Fails.pure hR.chains (by simp)) (Graded.pure hR.chains _)

theorem readContext_watches (stream : Stream) : Graded R (·.err = none) (readContext stream) :=
  Graded.bind_option hR.chains hR.look (fun _ => Fails.pure hR.chains (by simp))
    (Graded.pure hR.chains stream)

theorem checkArchiveFileSize_watches (declaredSize : ℕ) :
    Graded R (· = none) (checkArchiveFileSize s declaredSize) := by
  refine Graded.after hR.chains (Graded.read hR.chains _) fun remaining => ?_
  refine Graded.ite (fun _ => (exhaust_fails hR (by simp)).graded) fun _ => ?_
  exact Graded.ite (fun _ => (exhaust_fails hR (by simp)).graded) fun _ =>
    Graded.pure hR.chains none

end Watches

end MilterGuard.ArchiveBudgets
