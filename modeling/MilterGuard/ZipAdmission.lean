import MilterGuard.PartialProcedures
import MilterGuard.ArchiveCoverage

/-!
Soundness of the admission of ZIP directories. The admission is stated a second time
with every slice and every fixed-width read checked against the length of the data
and with offsets as signed 64-bit numbers, and no check ever fails. What is admitted
covers every walk of a reader over the central headers.
-/
namespace MilterGuard.ZipAdmission

open Procedures PartialProcedures ByteStrings ArchiveBudgets ZipDirectories
open ArchiveCoverage (noteZIP plainScanner)

/-! ### The admission with checked accesses -/

/-- The conversion of uint64 to int. -/
def int (value : ℕ) : ℤ := if value < 2 ^ 63 then value else (value : ℤ) - 2 ^ 64

/-- A little-endian number read from a slice; `none` is a panic. -/
def fixedAt (data : Bytes) (offset : ℤ) (count : ℕ) : Option ℕ :=
  if 0 ≤ offset ∧ offset + count ≤ data.length then some (littleEndian data offset.toNat count)
  else none

/-- The slice between two offsets; `none` is a panic. -/
def slice (data : Bytes) (low high : ℤ) : Option Bytes :=
  if 0 ≤ low ∧ low ≤ high ∧ high ≤ data.length then
    some ((data.drop low.toNat).take (high - low).toNat)
  else none

abbrev Checked (α : Type) := Partial Event ScanState α

variable (s : Scanner)

def searchWindowChecked (data : Bytes) (start : ℕ) : ℕ → Checked (Except Bytes (Option ℕ))
  | 0 => pure (.ok none)
  | count + 1 => do
    let p := start + count
    match ← OptionT.lift (checkPage s p) with
    | some e => pure (.error e.text)
    | none => do
      let signature ← fetch (fixedAt data p 4)
      if signature ≠ 0x06054B50 then searchWindowChecked data start count
      else do
        let comment ← fetch (fixedAt data (p + 20) 2)
        if (data.length : ℤ) - p - 22 < comment then pure (.ok none)
        else pure (.ok (some p))

def zipDirectoryEndChecked (data : Bytes) : List ℕ → Checked (Except AdmissionError ℕ)
  | [] => pure (.error .format)
  | window :: rest => do
    let start := data.length - window
    match ← searchWindowChecked s data start (data.length - 21 - start) with
    | .error err => pure (.error (.refused err))
    | .ok (some p) => pure (.ok p)
    | .ok none => if start = 0 then pure (.error .format) else zipDirectoryEndChecked data rest

/-- What the end records say, with signed offsets. -/
structure SignedRecord where
  records : ℕ
  size : ℕ
  offset : ℕ
  endOffset : ℤ
  metadata : ℕ

variable (data : Bytes)

/-- The three fields of a ZIP64 locator, tested from the left. -/
def locatorChecked (locator : ℤ) : Option Bool :=
  if locator < 0 then some false
  else do
    if (← fixedAt data locator 4) ≠ 0x07064B50 then return false
    if (← fixedAt data (locator + 4) 4) ≠ 0 then return false
    return (← fixedAt data (locator + 16) 4) = 1

/-- The ZIP64 end record that a locator points to. The outer `none` is a panic, the
inner one zip.ErrFormat. -/
def zip64RecordChecked (locator : ℤ) (metadata : ℕ) :
    Option (Option SignedRecord) := do
  let position ← fixedAt data (locator + 8) 8
  if data.length < 56 ∨ data.length - 56 < position then return none
  else do
    let p := int position
    let signature ← fixedAt data p 4
    if signature ≠ 0x06064B50 then return none
    else do
      let records ← fixedAt data (p + 32) 8
      let size ← fixedAt data (p + 40) 8
      let offset ← fixedAt data (p + 48) 8
      return some ⟨records, size, offset, p, metadata + 76⟩

def endRecordChecked (stop : ℤ) : Option (Option SignedRecord) := do
  let records ← fixedAt data (stop + 10) 2
  let size ← fixedAt data (stop + 12) 4
  let offset ← fixedAt data (stop + 16) 4
  let comment ← fixedAt data (stop + 20) 2
  if records = 0xFFFF ∨ size = 0xFFFF ∨ offset = 0xFFFFFFFF then do
    let located ← locatorChecked data (stop - 20)
    if located then zip64RecordChecked data (stop - 20) (22 + comment)
    else return some ⟨records, size, offset, stop, 22 + comment⟩
  else return some ⟨records, size, offset, stop, 22 + comment⟩

def countZIPDirectoryChecked (data : Bytes) (entryLimit byteLimit : ℤ) :
    ℕ → ℤ → ℕ → ℕ → Checked (Except AdmissionError (ℕ × ℕ))
  | 0, _, count, used => pure (.ok (count, used))
  | fuel + 1, offset, count, used =>
    if offset ≤ (data.length : ℤ) - 46 then do
      let signature ← fetch (fixedAt data offset 4)
      if signature = 0x02014B50 then do
        match ← OptionT.lift (check s (ascii "ZIP directory")) with
        | some e => pure (.error (.refused e.text))
        | none =>
          if entryLimit ≤ count then OptionT.lift (exhaust (.error (.refused errArchiveFileCount)))
          else do
            let header ← fetch (slice data offset (offset + 46))
            let name ← fetch (fixedAt header 28 2)
            let extra ← fetch (fixedAt header 30 2)
            let comment ← fetch (fixedAt header 32 2)
            let length := 46 + name + extra + comment
            if byteLimit - used < length then
              OptionT.lift (exhaust (.error (.refused errZIPMetadataLimit)))
            else if (data.length : ℤ) - offset < length then pure (.error .format)
            else
              countZIPDirectoryChecked data entryLimit byteLimit fuel (offset + length) (count + 1)
                (used + length)
      else pure (.ok (count, used))
    else pure (.ok (count, used))

def countCandidatesChecked (start : ℤ) (offset : ℕ) (entryLimit byteLimit : ℤ) :
    Checked (Except AdmissionError (ℕ × ℕ)) := do
  match ← countZIPDirectoryChecked s data entryLimit byteLimit (data.length + 1) start 0 0 with
  | .error e => pure (.error e)
  | .ok (count, headerBytes) =>
    if (offset : ℤ) < start then do
      match ← countZIPDirectoryChecked s data entryLimit byteLimit (data.length + 1) (int offset) 0
          0 with
      | .error e => pure (.error e)
      | .ok (otherCount, otherBytes) =>
        pure (.ok (max count otherCount, max headerBytes otherBytes))
    else pure (.ok (count, headerBytes))

def admitRecordChecked (record : SignedRecord) :
    Checked (Except AdmissionError Unit) := do
  let remaining ← OptionT.lift (read fun state => s.options.maxArchiveFiles - state.archiveFiles)
  let metadataLeft ← OptionT.lift (read fun state => maxZIPMetadataBytes - state.zipMetadataBytes)
  if remaining < record.records then
    OptionT.lift (exhaust (.error (.refused errArchiveFileCount)))
  else if record.endOffset < record.size ∨ data.length < record.offset ∨
      data.length ≤ record.endOffset - int record.size then pure (.error .format)
  else if metadataLeft < record.metadata then
    OptionT.lift (exhaust (.error (.refused errZIPMetadataLimit)))
  else do
    match ← countCandidatesChecked s data (record.endOffset - int record.size) record.offset
        remaining (metadataLeft - record.metadata) with
    | .error e => pure (.error e)
    | .ok (count, headerBytes) =>
      OptionT.lift (reserve record.records count (record.metadata + headerBytes))

def admitZIPDirectoryChecked : Checked (Except AdmissionError Unit) := do
  match ← zipDirectoryEndChecked s data [1024, 65 * 1024] with
  | .error e => pure (.error e)
  | .ok stop => do
    match ← fetch (endRecordChecked data stop) with
    | none => pure (.error .format)
    | some record => admitRecordChecked s data record

/-! ### No access is out of range -/

variable {s} {data : Bytes}

theorem fixedAt_eq {offset : ℤ} {n count : ℕ} (h : n + count ≤ data.length)
    (hoffset : offset = n := by push_cast; rfl) :
    fixedAt data offset count = some (littleEndian data n count) := by
  subst hoffset
  rw [fixedAt, if_pos (by omega), Int.toNat_natCast]

theorem searchWindowChecked_completes (start count : ℕ) (h : start + count + 21 ≤ data.length) :
    Completes (searchWindowChecked s data start count) (searchWindow s data start count) := by
  induction count with
  | zero => exact Completes.pure _
  | succ count ih =>
    refine (Completes.lift _).bind fun found => ?_
    cases found with
    | some e => exact Completes.pure _
    | none =>
      refine Completes.fetch (fixedAt_eq (by omega) rfl) ?_
      refine Completes.ite (fun _ => ih (by omega)) fun _ => ?_
      refine Completes.fetch (fixedAt_eq (n := start + count + 20) (by omega)) ?_
      have hcomment : ((data.length : ℤ) - ↑(start + count) - 22 <
          littleEndian data (start + count + 20) 2) ↔
            data.length - (start + count) - 22 < uint16 data (start + count + 20) := by
        unfold uint16
        omega
      simp only [hcomment]
      exact Completes.ite (fun _ => Completes.pure _) fun _ => Completes.pure _

theorem searchWindow_found (start count : ℕ) :
    Ensures (fun found => ∀ p, found = .ok (some p) → start ≤ p ∧ p < start + count)
      (searchWindow s data start count) := by
  induction count with
  | zero => exact Ensures.pure (by simp)
  | succ count ih =>
    unfold searchWindow
    refine Ensures.after fun found => ?_
    cases found with
    | some e => exact Ensures.pure (by simp)
    | none =>
      refine Ensures.ite (fun _ state p hp => ?_) fun _ => Ensures.ite (fun _ => ?_) fun _ => ?_
      · obtain ⟨hstart, hend⟩ := ih state p hp
        exact ⟨hstart, by omega⟩
      · exact Ensures.pure (by simp)
      · refine Ensures.pure fun p hp => ?_
        obtain rfl : start + count = p := by simpa using hp
        exact ⟨Nat.le_add_right _ _, Nat.lt_succ_self _⟩

private theorem window_fits {length window : ℕ} (h : 0 < length - 21 - (length - window)) :
    length - window + (length - 21 - (length - window)) + 21 ≤ length := by omega

theorem zipDirectoryEndChecked_completes (windows : List ℕ) :
    Completes (zipDirectoryEndChecked s data windows) (zipDirectoryEndIn s data windows) := by
  induction windows with
  | nil => exact Completes.pure _
  | cons window rest ih =>
    unfold zipDirectoryEndChecked zipDirectoryEndIn
    have hsearch : Completes
        (searchWindowChecked s data (data.length - window)
          (data.length - 21 - (data.length - window)))
        (searchWindow s data (data.length - window)
          (data.length - 21 - (data.length - window))) := by
      rcases Nat.eq_zero_or_pos (data.length - 21 - (data.length - window)) with hzero | hpos
      · rw [hzero]
        exact Completes.pure _
      · exact searchWindowChecked_completes _ _ (window_fits hpos)
    refine hsearch.bind fun found => ?_
    match found with
    | .error err => exact Completes.pure _
    | .ok (some p) => exact Completes.pure _
    | .ok none => exact Completes.ite (fun _ => Completes.pure _) fun _ => ih

/-- An end record that is found lies within the data. -/
theorem zipDirectoryEndIn_fits (windows : List ℕ) :
    Ensures (fun found => ∀ stop, found = .ok stop → stop + 22 ≤ data.length)
      (zipDirectoryEndIn s data windows) := by
  induction windows with
  | nil => exact Ensures.pure (by simp)
  | cons window rest ih =>
    unfold zipDirectoryEndIn
    refine Ensures.bind (searchWindow_found _ _) fun found hfound => ?_
    match found with
    | .error err => exact Ensures.pure (by simp)
    | .ok none => exact Ensures.ite (fun _ => Ensures.pure (by simp)) fun _ => ih
    | .ok (some p) =>
      refine Ensures.pure fun stop hstop => ?_
      obtain rfl : p = stop := by simpa using hstop
      have hp := hfound p rfl
      omega

def EndRecord.signed (record : EndRecord) : SignedRecord :=
  ⟨record.records, record.size, record.offset, record.endOffset, record.metadata⟩

theorem int_of_lt {value : ℕ} (h : value < 2 ^ 63) : int value = value := if_pos h

variable {stop : ℕ} (record : EndRecord) (entryLimit byteLimit : ℤ)

theorem endRecord_endOffset {record : EndRecord} (hstop : stop + 22 ≤ data.length)
    (h : endRecord data stop = some record) :
    record.endOffset < data.length := by
  unfold endRecord at h
  dsimp only at h
  split_ifs at h with hlocator hbad
  · obtain rfl := Option.some.inj h
    change littleEndian data (stop - 20 + 8) 8 < data.length
    omega
  · obtain rfl := Option.some.inj h
    change stop < data.length
    omega

private theorem locatorChecked_eq (hstop : stop + 22 ≤ data.length) :
    locatorChecked data ((stop : ℤ) - 20) =
      some (decide (20 ≤ stop ∧ uint32 data (stop - 20) = 0x07064B50 ∧
        uint32 data (stop - 20 + 4) = 0 ∧ uint32 data (stop - 20 + 16) = 1)) := by
  unfold locatorChecked
  by_cases hroom : 20 ≤ stop
  · have hlocator : (stop : ℤ) - 20 = ((stop - 20 : ℕ) : ℤ) := by omega
    rw [if_neg (by omega), hlocator, fixedAt_eq (by omega) rfl,
      fixedAt_eq (n := stop - 20 + 4) (by omega),
      fixedAt_eq (n := stop - 20 + 16) (by omega)]
    unfold uint32
    by_cases hsignature : littleEndian data (stop - 20) 4 = 0x07064B50
    · by_cases hdisk : littleEndian data (stop - 20 + 4) 4 = 0 <;>
        simp [hroom, hsignature, hdisk]
    · simp [hsignature]
  · rw [if_pos (by omega)]
    simp [hroom]

private theorem zip64RecordChecked_eq {locator : ℕ} (metadata : ℕ)
    (hlocator : locator + 42 ≤ data.length) (hfits : data.length < 2 ^ 63) :
    zip64RecordChecked data locator metadata =
      let p := littleEndian data (locator + 8) 8
      some ((if data.length < 56 ∨ data.length - 56 < p ∨ uint32 data p ≠ 0x06064B50 then none
        else some ⟨littleEndian data (p + 32) 8, littleEndian data (p + 40) 8,
          littleEndian data (p + 48) 8, p, metadata + 76⟩ : Option EndRecord).map
            EndRecord.signed) := by
  unfold zip64RecordChecked
  rw [fixedAt_eq (n := locator + 8) (by omega)]
  simp only [Option.bind_eq_bind, Option.bind_some, Option.pure_def]
  generalize littleEndian data (locator + 8) 8 = p
  by_cases houtside : data.length < 56 ∨ data.length - 56 < p
  · rw [if_pos houtside, if_pos (by tauto)]
    rfl
  · have hp : p + 56 ≤ data.length := by omega
    rw [if_neg houtside, int_of_lt (by omega), fixedAt_eq (by omega) rfl]
    simp only [Option.bind_some]
    by_cases hsignature : uint32 data p = 0x06064B50
    · rw [if_neg (by simpa [uint32] using hsignature), if_neg (by tauto),
        fixedAt_eq (n := p + 32) (by omega),
        fixedAt_eq (n := p + 40) (by omega),
        fixedAt_eq (n := p + 48) (by omega)]
      rfl
    · rw [if_pos (by simpa [uint32] using hsignature), if_pos (by tauto)]
      rfl

theorem endRecordChecked_eq (hstop : stop + 22 ≤ data.length) (hfits : data.length < 2 ^ 63) :
    endRecordChecked data stop = some ((endRecord data stop).map EndRecord.signed) := by
  unfold endRecordChecked endRecord
  rw [fixedAt_eq (n := stop + 10) (by omega),
    fixedAt_eq (n := stop + 12) (by omega),
    fixedAt_eq (n := stop + 16) (by omega),
    fixedAt_eq (n := stop + 20) (by omega), locatorChecked_eq hstop]
  simp only [Option.bind_eq_bind, Option.bind_some, Option.pure_def, decide_eq_true_eq]
  change (if uint16 data (stop + 10) = 0xFFFF ∨ uint32 data (stop + 12) = 0xFFFF ∨
    uint32 data (stop + 16) = 0xFFFFFFFF then _ else _) = _
  by_cases htrigger : uint16 data (stop + 10) = 0xFFFF ∨ uint32 data (stop + 12) = 0xFFFF ∨
      uint32 data (stop + 16) = 0xFFFFFFFF
  · by_cases hlocated : 20 ≤ stop ∧ uint32 data (stop - 20) = 0x07064B50 ∧
        uint32 data (stop - 20 + 4) = 0 ∧ uint32 data (stop - 20 + 16) = 1
    · have hlocator : (stop : ℤ) - 20 = ((stop - 20 : ℕ) : ℤ) := by omega
      rw [if_pos htrigger, if_pos hlocated, if_pos ⟨htrigger, hlocated⟩, hlocator,
        zip64RecordChecked_eq _ (by omega) hfits]
      rfl
    · rw [if_pos htrigger, if_neg hlocated, if_neg fun h => hlocated h.2]
      rfl
  · rw [if_neg htrigger, if_neg fun h => htrigger h.1]
    rfl

private theorem slice_header {offset : ℕ} (h : offset + 46 ≤ data.length) :
    slice data offset (offset + 46) = some ((data.drop offset).take 46) := by
  rw [slice, if_pos (by omega), Int.toNat_natCast]
  congr 2
  omega

private theorem header_field {offset : ℕ} (h : offset + 46 ≤ data.length) (field : ℕ)
    (hfield : field + 2 ≤ 46) :
    fixedAt ((data.drop offset).take 46) field 2 = some (uint16 data (offset + field)) := by
  have hlength : ((data.drop offset).take 46).length = 46 := by
    rw [List.length_take, List.length_drop]
    omega
  rw [fixedAt_eq (by omega) rfl]
  congr 1
  unfold uint16 littleEndian
  rw [List.drop_take, List.take_take, List.drop_drop, Nat.min_eq_left (by omega)]

theorem countZIPDirectoryChecked_completes (fuel offset count used : ℕ) :
    Completes (countZIPDirectoryChecked s data entryLimit byteLimit fuel offset count used)
      (countZIPDirectoryFrom s data entryLimit byteLimit fuel offset count used) := by
  induction fuel generalizing offset count used with
  | zero => exact Completes.pure _
  | succ fuel ih =>
    unfold countZIPDirectoryChecked countZIPDirectoryFrom
    by_cases hroom : offset + 46 ≤ data.length
    · rw [if_pos (by omega)]
      refine Completes.fetch (fixedAt_eq (by omega) rfl) ?_
      by_cases hsignature : uint32 data offset = 0x02014B50
      · have hheader : offset + 46 ≤ data.length ∧ uint32 data offset = 0x02014B50 :=
          ⟨hroom, hsignature⟩
        rw [if_pos (by simpa [uint32] using hsignature), if_pos hheader]
        refine (Completes.lift _).bind fun found => ?_
        cases found with
        | some e => exact Completes.pure _
        | none =>
          refine Completes.ite (fun _ => Completes.lift _) fun _ => ?_
          refine Completes.fetch (slice_header hroom) ?_
          refine Completes.fetch (header_field hroom 28 (by omega)) ?_
          refine Completes.fetch (header_field hroom 30 (by omega)) ?_
          refine Completes.fetch (header_field hroom 32 (by omega)) ?_
          refine Completes.ite (fun _ => Completes.lift _) fun _ => ?_
          generalize 46 + uint16 data (offset + 28) + uint16 data (offset + 30) +
            uint16 data (offset + 32) = length
          have hrest : ((data.length : ℤ) - offset < length) ↔ data.length - offset < length := by
            omega
          have hnext : (offset : ℤ) + length = ((offset + length : ℕ) : ℤ) := by push_cast; rfl
          simp only [hrest, hnext]
          exact Completes.ite (fun _ => Completes.pure _) fun _ => ih _ _ _
      · rw [if_neg (by simpa [uint32] using hsignature), if_neg fun h => hsignature h.2]
        exact Completes.pure _
    · rw [if_neg (by omega), if_neg fun h => hroom h.1]
      exact Completes.pure _

theorem countCandidatesChecked_completes (start offset : ℕ) (entryLimit byteLimit : ℤ)
    (hoffset : offset < 2 ^ 63) :
    Completes (countCandidatesChecked s data start offset entryLimit byteLimit)
      (countCandidates s data start offset entryLimit byteLimit) := by
  refine (countZIPDirectoryChecked_completes entryLimit byteLimit _ start 0 0).bind
    fun counted => ?_
  match counted with
  | .error e => exact Completes.pure _
  | .ok (count, headerBytes) =>
    simp only [Int.ofNat_lt, int_of_lt hoffset]
    refine Completes.ite (fun _ => ?_) fun _ => Completes.pure _
    refine (countZIPDirectoryChecked_completes entryLimit byteLimit _ offset 0 0).bind
      fun other => ?_
    match other with
    | .error e => exact Completes.pure _
    | .ok (otherCount, otherBytes) => exact Completes.pure _

theorem admitRecordChecked_completes (hend : record.endOffset < data.length)
    (hfits : data.length < 2 ^ 63) :
    Completes (admitRecordChecked s data (EndRecord.signed record))
      (admitRecord s data record) := by
  refine (Completes.lift _).bind fun remaining => (Completes.lift _).bind fun metadataLeft => ?_
  refine Completes.ite (fun _ => Completes.lift _) fun _ => ?_
  have hformat : ((EndRecord.signed record).endOffset < (EndRecord.signed record).size ∨
        data.length < (EndRecord.signed record).offset ∨
        (data.length : ℤ) ≤ (EndRecord.signed record).endOffset -
          int (EndRecord.signed record).size) ↔
      (record.endOffset < record.size ∨ data.length < record.offset ∨
        data.length ≤ record.endOffset - record.size) := by
    unfold EndRecord.signed int
    dsimp only
    split_ifs <;> omega
  simp only [hformat]
  refine Completes.ite (fun _ => Completes.pure _) fun hsound => ?_
  refine Completes.ite (fun _ => Completes.lift _) fun _ => ?_
  have hstart : (EndRecord.signed record).endOffset - int (EndRecord.signed record).size =
      ((record.endOffset - record.size : ℕ) : ℤ) := by
    have hsize : int record.size = record.size := int_of_lt (by omega)
    change (record.endOffset : ℤ) - int record.size = _
    omega
  rw [hstart]
  refine (countCandidatesChecked_completes _ _ _ _ (by omega)).bind fun counted => ?_
  cases counted with
  | error e => exact Completes.pure _
  | ok found => exact Completes.lift _

/-- No access of the admission is out of range, and the checks change nothing. -/
theorem admitZIPDirectoryChecked_completes (hfits : data.length < 2 ^ 63) :
    Completes (admitZIPDirectoryChecked s data) (admitZIPDirectory s data) := by
  refine (zipDirectoryEndChecked_completes _).bind_of (zipDirectoryEndIn_fits _)
    fun found hfound => ?_
  match found with
  | .error e => exact Completes.pure _
  | .ok stop =>
    have hstop := hfound stop rfl
    refine Completes.fetch (endRecordChecked_eq hstop hfits) ?_
    dsimp only
    cases hrecord : endRecord data stop with
    | none => exact Completes.pure _
    | some record =>
      exact admitRecordChecked_completes record (endRecord_endOffset hstop hrecord) hfits

/-! ### What is reserved -/

/-- The state has the same counts. -/
structure SameCounts (state state' : ScanState) : Prop where
  files : state'.archiveFiles = state.archiveFiles
  bytes : state'.archiveBytes = state.archiveBytes
  metadata : state'.zipMetadataBytes = state.zipMetadataBytes

def Uncharged (state : ScanState) (_ : List Event) (state' : ScanState) : Prop :=
  SameCounts state state'

theorem uncharged_chains : Chains Uncharged where
  refl _ := ⟨rfl, rfl, rfl⟩
  trans h h' := ⟨h'.files.trans h.files, h'.bytes.trans h.bytes, h'.metadata.trans h.metadata⟩

theorem uncharged_watches : Watches fun _ => Uncharged where
  chains := uncharged_chains.graded
  look _ := ⟨rfl, rfl, rfl⟩
  exhausted _ := ⟨rfl, rfl, rfl⟩

/-- The length of the central header at an offset, with its variable fields. -/
def headerLength (data : Bytes) (offset : ℕ) : ℕ :=
  46 + uint16 data (offset + 28) + uint16 data (offset + 30) + uint16 data (offset + 32)

/-- A reader starts at an offset and reads a number of headers with all their bytes. It
may stop after any header, and has to stop at a different signature or when the data
has no room for the fixed part of a header. -/
inductive Walk (data : Bytes) : ℕ → ℕ → ℕ → Prop
  | stop (offset : ℕ) : Walk data offset 0 0
  | header {offset headers bytes : ℕ} (hroom : offset + 46 ≤ data.length)
      (hsignature : uint32 data offset = 0x02014B50)
      (hrest : Walk data (offset + headerLength data offset) headers bytes) :
      Walk data offset (headers + 1) (headerLength data offset + bytes)

/-- A count that is not refused covers every walk from its offset. -/
theorem countZIPDirectoryFrom_covers (fuel offset count used : ℕ)
    (hfuel : data.length < offset + fuel) :
    Ensures (fun counted => ∀ total size, counted = .ok (total, size) →
      ∀ headers bytes, Walk data offset headers bytes →
        count + headers ≤ total ∧ used + bytes ≤ size)
      (countZIPDirectoryFrom s data entryLimit byteLimit fuel offset count used) := by
  induction fuel generalizing offset count used with
  | zero =>
    refine Ensures.pure ?_
    rintro total size hcounted headers bytes (_ | ⟨hroom, -, -⟩)
    · obtain ⟨rfl, rfl⟩ : count = total ∧ used = size := by simpa using hcounted
      exact ⟨le_rfl, le_rfl⟩
    · omega
  | succ fuel ih =>
    unfold countZIPDirectoryFrom
    refine Ensures.ite (fun hheader => Ensures.after fun found => ?_) fun hnone => ?_
    · cases found with
      | some e => exact Ensures.pure (by simp)
      | none =>
        refine Ensures.ite (fun _ _ => by simp [exhaust]) fun _ => ?_
        refine Ensures.ite (fun _ _ => by simp [exhaust]) fun _ => ?_
        refine Ensures.ite (fun _ => Ensures.pure (by simp)) fun _ state total size hcounted => ?_
        have hshorter : data.length < offset + headerLength data offset + fuel := by
          unfold headerLength
          omega
        have hnext := ih (offset + headerLength data offset) (count + 1)
          (used + headerLength data offset) hshorter state total size hcounted
        rintro headers bytes (_ | ⟨-, -, hrest⟩)
        · obtain ⟨hcount, hused⟩ := hnext 0 0 (.stop _)
          omega
        · obtain ⟨hcount, hused⟩ := hnext _ _ hrest
          omega
    · refine Ensures.pure ?_
      rintro total size hcounted headers bytes (_ | ⟨hroom, hsignature, -⟩)
      · obtain ⟨rfl, rfl⟩ : count = total ∧ used = size := by simpa using hcounted
        exact ⟨le_rfl, le_rfl⟩
      · exact absurd ⟨hroom, hsignature⟩ hnone

/-- Where a reader may start: at the inferred start, or at the advertised offset when
that is smaller. -/
def Candidate (start : ℕ) : Prop :=
  start = record.endOffset - record.size ∨
    (record.offset < record.endOffset - record.size ∧ start = record.offset)

theorem countCandidates_covers :
    Ensures (fun counted => ∀ count headerBytes, counted = .ok (count, headerBytes) →
      ∀ start, Candidate record start → ∀ headers bytes, Walk data start headers bytes →
        headers ≤ count ∧ bytes ≤ headerBytes)
      (countCandidates s data (record.endOffset - record.size) record.offset entryLimit
        byteLimit) := by
  have hcount : ∀ offset, Ensures (fun counted => ∀ total size, counted = .ok (total, size) →
      ∀ headers bytes, Walk data offset headers bytes → 0 + headers ≤ total ∧ 0 + bytes ≤ size)
      (countZIPDirectory s data offset entryLimit byteLimit) := fun offset =>
    countZIPDirectoryFrom_covers entryLimit byteLimit _ offset 0 0 (by omega)
  refine Ensures.bind (hcount _) fun counted hinferred => ?_
  match counted with
  | .error e => exact Ensures.pure (by simp)
  | .ok (count, headerBytes) =>
    refine Ensures.ite (fun _ => ?_) fun hlarger => Ensures.pure ?_
    · refine Ensures.bind (hcount _) fun other hadvertised => ?_
      match other with
      | .error e => exact Ensures.pure (by simp)
      | .ok (otherCount, otherBytes) =>
        refine Ensures.pure ?_
        rintro total size hcounted start hstart headers bytes hwalk
        obtain ⟨rfl, rfl⟩ : max count otherCount = total ∧ max headerBytes otherBytes = size := by
          simpa using hcounted
        rcases hstart with rfl | ⟨-, rfl⟩
        · obtain ⟨hheaders, hbytes⟩ := hinferred count headerBytes rfl headers bytes hwalk
          omega
        · obtain ⟨hheaders, hbytes⟩ := hadvertised otherCount otherBytes rfl headers bytes hwalk
          omega
    · rintro total size hcounted start hstart headers bytes hwalk
      obtain ⟨rfl, rfl⟩ : count = total ∧ headerBytes = size := by simpa using hcounted
      rcases hstart with rfl | ⟨hsmaller, rfl⟩
      · obtain ⟨hheaders, hbytes⟩ := hinferred count headerBytes rfl headers bytes hwalk
        omega
      · exact absurd hsmaller hlarger

/-- The counts of the second state were reserved for the directory. -/
structure Reserved (data : Bytes) (record : EndRecord) (state state' : ScanState) : Prop where
  bytes : state'.archiveBytes = state.archiveBytes
  records : (record.records : ℤ) ≤ state'.archiveFiles - state.archiveFiles
  walks : ∀ start, Candidate record start → ∀ headers bytes, Walk data start headers bytes →
    (headers : ℤ) ≤ state'.archiveFiles - state.archiveFiles ∧
      (record.metadata + bytes : ℤ) ≤ state'.zipMetadataBytes - state.zipMetadataBytes

/-- What the admission of one end record does to the counts. -/
def Settles (data : Bytes) (record : EndRecord) (state : ScanState) :
    Except AdmissionError Unit → ScanState → Prop
  | .ok (), state' => Reserved data record state state'
  | .error _, state' => SameCounts state state'

theorem admitRecord_settles (state : ScanState) :
    Leads (admitRecord s data record) state (Settles data record state) := by
  have hsame : ∀ {state : ScanState}, SameCounts state state := ⟨rfl, rfl, rfl⟩
  refine Leads.ite (fun _ => hsame) fun _ => Leads.ite (fun _ => hsame) fun _ => ?_
  refine Leads.ite (fun _ => hsame) fun _ => ?_
  refine Leads.bind (P := fun counted next => SameCounts state next ∧
      ∀ count headerBytes, counted = .ok (count, headerBytes) → ∀ start, Candidate record start →
        ∀ headers bytes, Walk data start headers bytes → headers ≤ count ∧ bytes ≤ headerBytes)
    ⟨countCandidates_watches uncharged_watches _ _ _ _ state,
      countCandidates_covers record _ _ state⟩
    fun counted next hcounted => ?_
  obtain ⟨huncharged, hcovers⟩ := hcounted
  match counted with
  | .error e => exact huncharged
  | .ok (count, headerBytes) =>
    refine Leads.ite (fun _ => huncharged) fun hrecords => ?_
    refine ⟨huncharged.bytes, ?_, fun start hstart headers bytes hwalk => ?_⟩
    · change (record.records : ℤ) ≤ next.archiveFiles + count - state.archiveFiles
      rw [huncharged.files]
      omega
    · obtain ⟨hheaders, hbytes⟩ := hcovers count headerBytes rfl start hstart headers bytes hwalk
      change (headers : ℤ) ≤ next.archiveFiles + count - state.archiveFiles ∧
        (record.metadata + bytes : ℤ) ≤ next.zipMetadataBytes +
          ((record.metadata + headerBytes : ℕ) : ℤ) - state.zipMetadataBytes
      rw [huncharged.files, huncharged.metadata]
      omega

theorem SameCounts.settles {record : EndRecord} {state next : ScanState} (h : SameCounts state next)
    {result : Except AdmissionError Unit} {last : ScanState}
    (hsettles : Settles data record next result last) : Settles data record state result last := by
  match result with
  | .error e =>
    exact ⟨hsettles.files.trans h.files, hsettles.bytes.trans h.bytes,
      hsettles.metadata.trans h.metadata⟩
  | .ok () =>
    refine ⟨hsettles.bytes.trans h.bytes, h.files ▸ hsettles.records, ?_⟩
    rw [← h.files, ← h.metadata]
    exact hsettles.walks

/-- The admission of a ZIP directory makes no access out of range, reserves nothing when
it refuses, and otherwise reserves at least what any reader of the central headers and
the advertised number of entries can use. A slice is shorter than 2^63 bytes. -/
theorem zip_admission_sound (s : Scanner) (data : Bytes) (state : ScanState)
    (hfits : data.length < 2 ^ 63) :
    ((admitZIPDirectoryChecked s data).run state).value =
        some (admitZIPDirectory s data state).value ∧
      (∀ err, (admitZIPDirectory s data state).value = .error err →
        SameCounts state (admitZIPDirectory s data state).state) ∧
      ((admitZIPDirectory s data state).value = .ok () →
        ∃ stop record, (zipDirectoryEnd s data state).value = .ok stop ∧
          endRecord data stop = some record ∧
          Reserved data record state (admitZIPDirectory s data state).state) := by
  refine ⟨(admitZIPDirectoryChecked_completes hfits).value_isSome state, ?_⟩
  have hend : SameCounts state (zipDirectoryEnd s data state).state :=
    zipDirectoryEndIn_watches uncharged_watches _ state
  change Leads (admitZIPDirectory s data) state fun result last =>
    (∀ err, result = .error err → SameCounts state last) ∧
      (result = .ok () → ∃ stop record, (zipDirectoryEnd s data state).value = .ok stop ∧
        endRecord data stop = some record ∧ Reserved data record state last)
  refine Leads.bind (P := fun found next => found = (zipDirectoryEnd s data state).value ∧
    SameCounts state next) ⟨rfl, hend⟩ fun found next hfound => ?_
  obtain ⟨hfound, hsame⟩ := hfound
  match found with
  | .error e => exact ⟨fun _ _ => hsame, fun h => by simp at h⟩
  | .ok stop =>
    dsimp only
    cases hrecord : endRecord data stop with
    | none => exact ⟨fun _ _ => hsame, fun h => by simp at h⟩
    | some record =>
      refine (admitRecord_settles record next).imp fun result last hsettles => ?_
      have hsettles := hsame.settles hsettles
      match result with
      | .error e => exact ⟨fun _ _ => hsettles, fun h => by simp at h⟩
      | .ok () =>
        exact ⟨fun _ h => by simp at h, fun _ => ⟨stop, record, hfound.symm, hrecord, hsettles⟩⟩

/-- A ZIP with one stored file is admitted. -/
theorem zip_admission_sound_note :
    noteZIP.length < 2 ^ 63 ∧
      (admitZIPDirectory plainScanner noteZIP (ScanState.new background)).value = .ok () ∧
      ∃ stop record,
        (zipDirectoryEnd plainScanner noteZIP (ScanState.new background)).value = .ok stop ∧
          endRecord noteZIP stop = some record ∧
          Reserved noteZIP record (ScanState.new background)
            (admitZIPDirectory plainScanner noteZIP (ScanState.new background)).state :=
  have hfits : noteZIP.length < 2 ^ 63 := by decide +kernel
  have hok : (admitZIPDirectory plainScanner noteZIP (ScanState.new background)).value =
      .ok () := by decide +kernel
  ⟨hfits, hok, (zip_admission_sound plainScanner noteZIP (ScanState.new background) hfits).2.2 hok⟩

end MilterGuard.ZipAdmission
