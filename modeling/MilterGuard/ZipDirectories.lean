import MilterGuard.ArchiveBudgets

/-!
Admission of a ZIP directory before archive/zip may allocate for it. The end
record is searched from the back in two windows, the central headers are
counted, and all entries are reserved against the budgets of the scan.
-/
namespace MilterGuard.ZipDirectories

open Procedures ByteStrings ArchiveBudgets

/-- The little-endian number in `count` bytes from `offset` on. -/
def littleEndian (data : Bytes) (offset count : ℕ) : ℕ :=
  ((data.drop offset).take count).foldr (fun b rest => b.toNat + 256 * rest) 0

def uint16 (data : Bytes) (offset : ℕ) : ℕ := littleEndian data offset 2

def uint32 (data : Bytes) (offset : ℕ) : ℕ := littleEndian data offset 4

/-- Why a directory is not admitted: zip.ErrFormat or another error. -/
inductive AdmissionError
  | format
  | refused (err : Bytes)
  deriving DecidableEq

def maxZIPMetadataBytes : ℤ := 2 ^ 20

variable (s : Scanner)

/-- The search asks the context at every page of positions. -/
def checkPage (p : ℕ) : Scan (Option ScanError) :=
  if p % 4096 = 0 then check s (ascii "ZIP directory") else pure none

/-- Searches the window from its end; `count` positions from `start` are left. -/
def searchWindow (data : Bytes) (start : ℕ) : ℕ → Scan (Except Bytes (Option ℕ))
  | 0 => pure (.ok none)
  | count + 1 => do
    let p := start + count
    match ← checkPage s p with
    | some e => pure (.error e.text)
    | none =>
      if uint32 data p ≠ 0x06054B50 then searchWindow data start count
      -- A truncated comment ends the search of this window.
      else if data.length - p - 22 < uint16 data (p + 20) then pure (.ok none)
      else pure (.ok (some p))

/-- The windows still to be searched, each by its size. -/
def zipDirectoryEndIn (data : Bytes) : List ℕ → Scan (Except AdmissionError ℕ)
  | [] => pure (.error .format)
  | window :: rest => do
    let start := data.length - window
    match ← searchWindow s data start (data.length - 21 - start) with
    | .error err => pure (.error (.refused err))
    | .ok (some p) => pure (.ok p)
    | .ok none => if start = 0 then pure (.error .format) else zipDirectoryEndIn data rest

variable (data : Bytes)

def zipDirectoryEnd : Scan (Except AdmissionError ℕ) :=
  zipDirectoryEndIn s data [1024, 65 * 1024]

/-- Counts central headers from `offset` on. Each is at least 46 bytes long, so the
length of the data is enough fuel. -/
def countZIPDirectoryFrom (data : Bytes) (entryLimit byteLimit : ℤ) :
    ℕ → ℕ → ℕ → ℕ → Scan (Except AdmissionError (ℕ × ℕ))
  | 0, _, count, used => pure (.ok (count, used))
  | fuel + 1, offset, count, used => do
    if offset + 46 ≤ data.length ∧ uint32 data offset = 0x02014B50 then
      match ← check s (ascii "ZIP directory") with
      | some e => pure (.error (.refused e.text))
      | none =>
        let length := 46 + uint16 data (offset + 28) + uint16 data (offset + 30) +
          uint16 data (offset + 32)
        if entryLimit ≤ count then exhaust (.error (.refused errArchiveFileCount))
        else if byteLimit - used < length then exhaust (.error (.refused errZIPMetadataLimit))
        else if data.length - offset < length then pure (.error .format)
        else
          countZIPDirectoryFrom data entryLimit byteLimit fuel (offset + length) (count + 1)
            (used + length)
    else pure (.ok (count, used))

def countZIPDirectory (offset : ℕ) (entryLimit byteLimit : ℤ) :
    Scan (Except AdmissionError (ℕ × ℕ)) :=
  countZIPDirectoryFrom s data entryLimit byteLimit (data.length + 1) offset 0 0

/-- What the end records say about the directory. -/
structure EndRecord where
  records : ℕ
  size : ℕ
  offset : ℕ
  endOffset : ℕ
  metadata : ℕ

/-- Reads the end record, and the ZIP64 record when a locator points to it. -/
def endRecord (stop : ℕ) : Option EndRecord :=
  let records := uint16 data (stop + 10)
  let size := uint32 data (stop + 12)
  let offset := uint32 data (stop + 16)
  let metadata := 22 + uint16 data (stop + 20)
  let locator := stop - 20
  if (records = 0xFFFF ∨ size = 0xFFFF ∨ offset = 0xFFFFFFFF) ∧ 20 ≤ stop ∧
      uint32 data locator = 0x07064B50 ∧ uint32 data (locator + 4) = 0 ∧
      uint32 data (locator + 16) = 1 then
    let p := littleEndian data (locator + 8) 8
    if data.length < 56 ∨ data.length - 56 < p ∨ uint32 data p ≠ 0x06064B50 then none
    else some ⟨littleEndian data (p + 32) 8, littleEndian data (p + 40) 8,
      littleEndian data (p + 48) 8, p, metadata + 76⟩
  else some ⟨records, size, offset, stop, metadata⟩

/-- Both places where archive/zip may look for the directory, the inferred one first. -/
def countCandidates (start offset : ℕ) (entryLimit byteLimit : ℤ) :
    Scan (Except AdmissionError (ℕ × ℕ)) := do
  match ← countZIPDirectory s data start entryLimit byteLimit with
  | .error e => pure (.error e)
  | .ok (count, headerBytes) =>
    if offset < start then
      match ← countZIPDirectory s data offset entryLimit byteLimit with
      | .error e => pure (.error e)
      | .ok (otherCount, otherBytes) =>
        pure (.ok (max count otherCount, max headerBytes otherBytes))
    else pure (.ok (count, headerBytes))

/-- Reserves the counted entries and their metadata. -/
def reserve (records count metadata : ℕ) : Scan (Except AdmissionError Unit) := do
  if count < records then pure (.error .format)
  else
    modify fun state =>
      { state with
        archiveFiles := state.archiveFiles + count
        zipMetadataBytes := state.zipMetadataBytes + metadata }
    pure (.ok ())

def admitRecord (record : EndRecord) : Scan (Except AdmissionError Unit) := do
  let remaining ← read fun state => s.options.maxArchiveFiles - state.archiveFiles
  let metadataLeft ← read fun state => maxZIPMetadataBytes - state.zipMetadataBytes
  if remaining < record.records then exhaust (.error (.refused errArchiveFileCount))
  else if record.endOffset < record.size ∨ data.length < record.offset ∨
      data.length ≤ record.endOffset - record.size then pure (.error .format)
  else if metadataLeft < record.metadata then exhaust (.error (.refused errZIPMetadataLimit))
  else
    match ← countCandidates s data (record.endOffset - record.size) record.offset remaining
        (metadataLeft - record.metadata) with
    | .error e => pure (.error e)
    | .ok (count, headerBytes) => reserve record.records count (record.metadata + headerBytes)

def admitZIPDirectory : Scan (Except AdmissionError Unit) := do
  match ← zipDirectoryEnd s data with
  | .error e => pure (.error e)
  | .ok stop =>
    match endRecord data stop with
    | none => pure (.error .format)
    | some record => admitRecord s data record

section Watches

variable {s} {data : Bytes} {R : Prop → ScanState → List Event → ScanState → Prop}
  (hR : Watches R)

include hR

theorem checkPage_watches (p : ℕ) : Graded R (· = none) (checkPage s p) :=
  Graded.ite (fun _ => check_watches hR _) fun _ => Graded.pure hR.chains none

theorem searchWindow_watches (start count : ℕ) :
    Graded R (fun r => ∃ place, r = .ok place) (searchWindow s data start count) := by
  have hc := hR.chains
  induction count with
  | zero => exact Graded.pure hc _
  | succ count ih =>
    refine Graded.bind_option hc (checkPage_watches hR _) (fun _ => Fails.pure hc (by simp)) ?_
    refine Graded.ite (fun _ => ih) fun _ => ?_
    exact Graded.ite (fun _ => Graded.pure hc _) fun _ => Graded.pure hc _

theorem zipDirectoryEndIn_watches (windows : List ℕ) :
    Graded R (fun r => ∃ stop, r = .ok stop) (zipDirectoryEndIn s data windows) := by
  have hc := hR.chains
  induction windows with
  | nil => exact Graded.pure hc _
  | cons window rest ih =>
    refine Graded.bind_except hc (searchWindow_watches hR _ _)
      (fun _ => Fails.pure hc (by simp)) fun place => ?_
    cases place with
    | some p => exact Graded.pure hc _
    | none => exact Graded.ite (fun _ => Graded.pure hc _) fun _ => ih

theorem countZIPDirectoryFrom_watches (entryLimit byteLimit : ℤ) (fuel offset count used : ℕ) :
    Graded R (fun r => ∃ counts, r = .ok counts)
      (countZIPDirectoryFrom s data entryLimit byteLimit fuel offset count used) := by
  have hc := hR.chains
  induction fuel generalizing offset count used with
  | zero => exact Graded.pure hc _
  | succ fuel ih =>
    refine Graded.ite (fun _ => ?_) fun _ => Graded.pure hc _
    refine Graded.bind_option hc (check_watches hR _) (fun _ => Fails.pure hc (by simp)) ?_
    refine Graded.ite (fun _ => (exhaust_fails hR (by simp)).graded) fun _ => ?_
    refine Graded.ite (fun _ => (exhaust_fails hR (by simp)).graded) fun _ => ?_
    exact Graded.ite (fun _ => Graded.pure hc _) fun _ => ih _ _ _

theorem countCandidates_watches (start offset : ℕ) (entryLimit byteLimit : ℤ) :
    Graded R (fun r => ∃ counts, r = .ok counts)
      (countCandidates s data start offset entryLimit byteLimit) := by
  have hc := hR.chains
  refine Graded.bind_except hc (countZIPDirectoryFrom_watches hR _ _ _ _ _ _)
    (fun _ => Fails.pure hc (by simp)) fun counts => ?_
  refine Graded.ite (fun _ => ?_) fun _ => Graded.pure hc _
  exact Graded.bind_except hc (countZIPDirectoryFrom_watches hR _ _ _ _ _ _)
    (fun _ => Fails.pure hc (by simp)) fun _ => Graded.pure hc _

end Watches

end MilterGuard.ZipDirectories
