import MilterGuard.BoundedRecursion
import MilterGuard.ZipAdmission

/-!
The limits of one scan. The shared counters only grow and stay within their limits,
archives nest at most as deep as configured, and the recursion over files and MIME
entities ends.
-/
namespace MilterGuard.ScanLimits

open Procedures BoundedRecursion ByteStrings ArchiveBudgets ZipDirectories
open ArchiveScanner AttachmentScanner ArchiveCoverage ScanTraversal
open ZipAdmission (SameCounts uncharged_watches)

/-! ### The shared counters -/

/-- One change of the shared state, as the scanner makes them. -/
inductive Change : ScanState → ScanState → Prop
  | looked (state : ScanState) : Change state { state with looks := state.looks + 1 }
  | readBytes (state : ScanState) (count : ℕ) :
    Change state { state with archiveBytes := state.archiveBytes + count }
  | beganFile (state : ScanState) :
    Change state { state with archiveFiles := state.archiveFiles + 1 }
  | reserved (state : ScanState) (count metadata : ℕ) :
    Change state
      { state with
        archiveFiles := state.archiveFiles + count
        zipMetadataBytes := state.zipMetadataBytes + metadata }

/-- A sequence of changes leads from one state to the other. -/
abbrev Changes : ScanState → ScanState → Prop := Relation.ReflTransGen Change

structure WithinLimits (options : Options) (state : ScanState) : Prop where
  files : state.archiveFiles ≤ options.maxArchiveFiles
  bytes : state.archiveBytes ≤ options.maxArchiveUncompressedBytes
  metadata : state.zipMetadataBytes ≤ maxZIPMetadataBytes

/-- No counter of the second state is smaller. -/
structure Grown (state state' : ScanState) : Prop where
  files : state.archiveFiles ≤ state'.archiveFiles
  bytes : state.archiveBytes ≤ state'.archiveBytes
  metadata : state.zipMetadataBytes ≤ state'.zipMetadataBytes

theorem Change.grown {state state' : ScanState} (h : Change state state') :
    Grown state state' := by
  cases h with
  | looked => exact ⟨le_rfl, le_rfl, le_rfl⟩
  | readBytes count => exact ⟨le_rfl, by dsimp only; omega, le_rfl⟩
  | beganFile => exact ⟨by dsimp only; omega, le_rfl, le_rfl⟩
  | reserved count metadata => exact ⟨by dsimp only; omega, le_rfl, by dsimp only; omega⟩

theorem Changes.grown {state state' : ScanState} (h : Changes state state') :
    Grown state state' := by
  induction h with
  | refl => exact ⟨le_rfl, le_rfl, le_rfl⟩
  | tail _ hlast ih =>
    have hstep := hlast.grown
    exact ⟨ih.files.trans hstep.files, ih.bytes.trans hstep.bytes,
      ih.metadata.trans hstep.metadata⟩

/-- Limits that hold in the end held all the way. -/
theorem WithinLimits.of_grown {options : Options} {state state' : ScanState}
    (h : WithinLimits options state') (hgrown : Grown state state') :
    WithinLimits options state :=
  ⟨hgrown.files.trans h.files, hgrown.bytes.trans h.bytes, hgrown.metadata.trans h.metadata⟩

/-- The state is changed step by step, and limits that held still hold. -/
structure Charged (options : Options) (state state' : ScanState) : Prop where
  changes : Changes state state'
  limits : WithinLimits options state → WithinLimits options state'

theorem Charged.trans {options : Options} {first second third : ScanState}
    (h : Charged options first second) (h' : Charged options second third) :
    Charged options first third :=
  ⟨h.changes.trans h'.changes, fun hlimits => h'.limits (h.limits hlimits)⟩

def Charges (options : Options) (state : ScanState) (_ : List Event) (state' : ScanState) : Prop :=
  Charged options state state'

theorem charges_chains (options : Options) : Chains (Charges options) :=
  ⟨fun _ => ⟨.refl, id⟩, Charged.trans⟩

theorem charges_watches (options : Options) : Watches fun _ => Charges options where
  chains := (charges_chains options).graded
  look state := ⟨.single (.looked state), fun h => ⟨h.files, h.bytes, h.metadata⟩⟩
  exhausted _ := ⟨.refl, id⟩

section Charges

variable {s : Scanner}

/-- Reading charges what it delivers, which is no more than what is left. -/
theorem readLimitedEntry_charged (stream : Stream) {remaining : ℤ} {state : ScanState}
    (hroom : 0 ≤ remaining)
    (hleft : state.archiveBytes + remaining ≤ s.options.maxArchiveUncompressedBytes) :
    Leads (readLimitedEntry s stream remaining) state
      fun _ last => Charged s.options state last := by
  refine Leads.bind (P := fun _ next => Charged s.options state next ∧ SameCounts state next)
    ⟨readContext_watches (charges_watches s.options) stream state,
      readContext_watches uncharged_watches stream state⟩ fun contents next hnext => ?_
  obtain ⟨hcharged, hsame⟩ := hnext
  let delivered := contents.data.take (min s.options.maxAttachmentBytes remaining).toNat
  have hdelivered : (delivered.length : ℤ) ≤ remaining := by
    have hlength : delivered.length ≤ (min s.options.maxAttachmentBytes remaining).toNat :=
      List.length_take_le _ _
    omega
  have hread : Charged s.options next
      { next with archiveBytes := next.archiveBytes + delivered.length } := by
    refine ⟨.single (.readBytes next delivered.length), fun h => ⟨h.files, ?_, h.metadata⟩⟩
    have hbytes : next.archiveBytes = state.archiveBytes := hsame.bytes
    dsimp only
    omega
  refine Leads.bind (P := fun _ last => Charged s.options state last) (hcharged.trans hread)
    fun _ last hlast => ?_
  exact Leads.ite (fun _ => hlast) fun _ => hlast

theorem readArchiveEntry_charges (stream : Stream) :
    Follows (Charges s.options) (readArchiveEntry s stream) := by
  have hc := charges_chains s.options
  refine Follows.bind hc (check_watches (charges_watches s.options) _) fun cancelled => ?_
  cases cancelled with
  | some e => exact Follows.pure hc _
  | none =>
    intro state
    change Leads _ state fun _ last => Charged s.options state last
    refine Leads.read (Leads.ite (fun _ => hc.refl state) fun hleft => ?_)
    exact readLimitedEntry_charged stream (by omega) (by omega)

theorem beginArchiveFile_charges (size : ℕ) :
    Follows (Charges s.options) (beginArchiveFile s size) := by
  have hc := charges_chains s.options
  intro state
  change Leads _ state fun _ last => Charged s.options state last
  refine Leads.read (Leads.ite (fun _ => hc.refl state) fun hroom => ?_)
  refine Leads.bind (P := fun _ next => Charged s.options state next ∧ SameCounts state next)
    ⟨checkArchiveFileSize_watches (charges_watches s.options) size state,
      checkArchiveFileSize_watches uncharged_watches size state⟩ fun refused next hnext => ?_
  obtain ⟨hcharged, hsame⟩ := hnext
  cases refused with
  | some err => exact hcharged
  | none =>
    refine hcharged.trans ⟨.single (.beganFile next), fun h => ⟨?_, h.bytes, h.metadata⟩⟩
    have hfiles : next.archiveFiles = state.archiveFiles := hsame.files
    change next.archiveFiles + 1 ≤ s.options.maxArchiveFiles
    omega

/-- A count never passes the limits it was given. -/
theorem countZIPDirectoryFrom_bounded (data : Bytes) (entryLimit byteLimit : ℤ)
    (fuel offset count used : ℕ) (hcount : (count : ℤ) ≤ entryLimit)
    (hused : (used : ℤ) ≤ byteLimit) :
    Ensures (fun counted => ∀ total size : ℕ, counted = .ok (total, size) →
      (total : ℤ) ≤ entryLimit ∧ (size : ℤ) ≤ byteLimit)
      (countZIPDirectoryFrom s data entryLimit byteLimit fuel offset count used) := by
  have hstop : ∀ total size : ℕ, (Except.ok (count, used) : Except AdmissionError (ℕ × ℕ)) =
      .ok (total, size) → (total : ℤ) ≤ entryLimit ∧ (size : ℤ) ≤ byteLimit := by
    intro total size h
    obtain ⟨rfl, rfl⟩ : count = total ∧ used = size := by simpa using h
    exact ⟨hcount, hused⟩
  induction fuel generalizing offset count used with
  | zero => exact Ensures.pure hstop
  | succ fuel ih =>
    refine Ensures.ite (fun _ => Ensures.after fun found => ?_) fun _ => Ensures.pure hstop
    cases found with
    | some e => exact Ensures.pure (by simp)
    | none =>
      refine Ensures.ite (fun _ _ => by simp [exhaust]) fun hentry => ?_
      refine Ensures.ite (fun _ _ => by simp [exhaust]) fun hbytes => ?_
      refine Ensures.ite (fun _ => Ensures.pure (by simp)) fun _ => ?_
      have hcount' : ((count + 1 : ℕ) : ℤ) ≤ entryLimit := by omega
      have hused' : ((used + (46 + uint16 data (offset + 28) + uint16 data (offset + 30) +
          uint16 data (offset + 32)) : ℕ) : ℤ) ≤ byteLimit := by omega
      refine ih _ _ _ hcount' hused' fun total size h => ?_
      obtain ⟨rfl, rfl⟩ := Prod.mk.inj (Except.ok.inj h)
      exact ⟨hcount', hused'⟩

/-- Both places of the directory are counted within the limits. -/
theorem countCandidates_bounded (data : Bytes) (start offset : ℕ) {entryLimit byteLimit : ℤ}
    (hentries : 0 ≤ entryLimit) (hbytes : 0 ≤ byteLimit) :
    Ensures (fun counted => ∀ count headerBytes : ℕ, counted = .ok (count, headerBytes) →
      (count : ℤ) ≤ entryLimit ∧ (headerBytes : ℤ) ≤ byteLimit)
      (countCandidates s data start offset entryLimit byteLimit) := by
  have hcount : ∀ place, Ensures (fun counted => ∀ total size : ℕ, counted = .ok (total, size) →
      (total : ℤ) ≤ entryLimit ∧ (size : ℤ) ≤ byteLimit)
      (countZIPDirectory s data place entryLimit byteLimit) := fun place =>
    countZIPDirectoryFrom_bounded data entryLimit byteLimit _ place 0 0 hentries hbytes
  refine Ensures.bind (hcount _) fun counted hinferred => ?_
  match counted with
  | .error e => exact Ensures.pure (by simp)
  | .ok (count, headerBytes) =>
    refine Ensures.ite (fun _ => ?_) fun _ => Ensures.pure hinferred
    refine Ensures.bind (hcount _) fun other hadvertised => ?_
    match other with
    | .error e => exact Ensures.pure (by simp)
    | .ok (otherCount, otherBytes) =>
      refine Ensures.pure fun total size h => ?_
      obtain ⟨rfl, rfl⟩ : max count otherCount = total ∧ max headerBytes otherBytes = size := by
        simpa using h
      have hfirst := hinferred count headerBytes rfl
      have hsecond := hadvertised otherCount otherBytes rfl
      omega

theorem admitRecord_charges (data : Bytes) (record : EndRecord) :
    Follows (Charges s.options) (admitRecord s data record) := by
  have hc := charges_chains s.options
  intro state
  change Leads _ state fun _ last => Charged s.options state last
  refine Leads.read (Leads.read ?_)
  refine Leads.ite (fun _ => hc.refl state) fun hrecords => ?_
  refine Leads.ite (fun _ => hc.refl state) fun _ => ?_
  refine Leads.ite (fun _ => hc.refl state) fun hmetadata => ?_
  refine Leads.bind (P := fun counted next => (Charged s.options state next ∧
      SameCounts state next) ∧ ∀ count headerBytes : ℕ, counted = .ok (count, headerBytes) →
        (count : ℤ) ≤ s.options.maxArchiveFiles - state.archiveFiles ∧
          (headerBytes : ℤ) ≤ maxZIPMetadataBytes - state.zipMetadataBytes - record.metadata)
    ⟨⟨countCandidates_watches (charges_watches s.options) _ _ _ _ state,
      countCandidates_watches uncharged_watches _ _ _ _ state⟩,
      countCandidates_bounded data _ _ (by omega) (by omega) state⟩ fun counted next hnext => ?_
  obtain ⟨⟨hcharged, hsame⟩, hbounded⟩ := hnext
  match counted with
  | .error e => exact hcharged
  | .ok (count, headerBytes) =>
    refine Leads.ite (fun _ => hcharged) fun _ => ?_
    obtain ⟨hcount, hheaders⟩ := hbounded count headerBytes rfl
    refine hcharged.trans ⟨.single (.reserved next count (record.metadata + headerBytes)),
      fun h => ⟨?_, h.bytes, ?_⟩⟩
    · have hfiles : next.archiveFiles = state.archiveFiles := hsame.files
      change next.archiveFiles + count ≤ s.options.maxArchiveFiles
      omega
    · have hspent : next.zipMetadataBytes = state.zipMetadataBytes := hsame.metadata
      change next.zipMetadataBytes + (record.metadata + headerBytes : ℕ) ≤ maxZIPMetadataBytes
      omega

theorem admitZIPDirectory_charges (data : Bytes) :
    Follows (Charges s.options) (admitZIPDirectory s data) := by
  have hc := charges_chains s.options
  refine Follows.bind hc (zipDirectoryEndIn_watches (charges_watches s.options) _) fun found => ?_
  cases found with
  | error e => exact Follows.pure hc _
  | ok stop =>
    dsimp only
    cases endRecord data stop with
    | none => exact Follows.pure hc _
    | some record => exact admitRecord_charges data record

/-- The limits are kept at every archive level alike. -/
theorem charges_steps (s : Scanner) : Steps s fun _ _ => Charges s.options where
  watches _ := charges_watches s.options
  named _ _ _ := ⟨.refl, id⟩
  passed _ _ _ _ := ⟨.refl, id⟩
  readEntry _ := readArchiveEntry_charges
  beginFile _ := beginArchiveFile_charges
  admission _ := admitZIPDirectory_charges
  within _ _ h := h

end Charges

/-! ### Nesting of archives -/

mutual

/-- How many archives are open at once in the event. -/
def Event.depth : Event → ℕ
  | .archive _ _ log => logDepth log + 1
  | _ => 0

def logDepth : List Event → ℕ
  | [] => 0
  | e :: rest => max (Event.depth e) (logDepth rest)

end

theorem logDepth_append (first second : List Event) :
    logDepth (first ++ second) = max (logDepth first) (logDepth second) := by
  induction first with
  | nil => simp [logDepth]
  | cons e rest ih => rw [List.cons_append, logDepth, logDepth, ih, max_assoc]

theorem logDepth_of_exhausted {log : List Event} (h : ∀ e ∈ log, e = .exhausted) :
    logDepth log = 0 := by
  induction log with
  | nil => rw [logDepth]
  | cons e rest ih =>
    obtain ⟨rfl, hrest⟩ := List.forall_mem_cons.mp h
    simp [logDepth, Event.depth, ih hrest]

/-- The log nests no deeper than the number of levels. -/
def Nests (n : ℕ) (_ : ScanState) (log : List Event) (_ : ScanState) : Prop := logDepth log ≤ n

theorem nests_chains (n : ℕ) : Chains (Nests n) where
  refl _ := by simp [Nests, logDepth]
  trans h h' := by
    rw [Nests, logDepth_append]
    exact max_le h h'

theorem nests_of_quiet {α : Type} {m : Scan α} (h : Quiet m) (n : ℕ) : Follows (Nests n) m := by
  intro state
  rw [Nests, logDepth_of_exhausted (h state)]
  exact Nat.zero_le n

theorem nests_steps (s : Scanner) : Steps s fun n _ => Nests n where
  watches n :=
    ⟨(nests_chains n).graded, nests_of_quiet quiet_uncounted.look n,
      nests_of_quiet quiet_uncounted.exhausted n⟩
  named n entry state := by simp [Nests, logDepth, Event.depth]
  passed n entry data state := by simp [Nests, logDepth, Event.depth]
  readEntry n stream := nests_of_quiet (readArchiveEntry_quiet s stream) n
  beginFile n size := nests_of_quiet (beginArchiveFile_quiet s size) n
  admission n data := nests_of_quiet (admitZIPDirectory_quiet s data) n
  within format data h := by
    simpa [Nests, logDepth, Event.depth] using h

/-! ### Recursion -/

variable (s : Scanner)

/-- The body of scanFile over its recursive calls. -/
def scanFileBody (self : ℕ → FileScan) (archiveDepth : ℕ) : FileScan :=
  scanFileOver s (if s.options.maxArchiveDepth ≤ archiveDepth then none
    else some (self (archiveDepth + 1)))

/-- The body of scanMIME over its recursive calls, which scanRFC822 makes as well. -/
def scanMIMEBody (self : ℕ → MIMEScan) (mimeDepth : ℕ) : MIMEScan :=
  if maxMIMEDepth ≤ mimeDepth then fun _ _ _ _ location =>
    unlessHandled (stopIfDone s location) <|
      pure (failure location (ascii "MIME nesting limit exceeded"))
  else scanEntity s mimeDepth (self (mimeDepth + 1))

theorem scanFileBody_stays : Stays s.options.maxArchiveDepth.toNat (scanFileBody s) := by
  intro f g depth hcall
  unfold scanFileBody
  by_cases hlimit : s.options.maxArchiveDepth ≤ depth
  · rw [if_pos hlimit, if_pos hlimit]
  · rw [if_neg hlimit, if_neg hlimit, hcall (by omega)]

theorem scanMIMEBody_stays : Stays maxMIMEDepth (scanMIMEBody s) := by
  intro f g depth hcall
  unfold scanMIMEBody
  by_cases hlimit : maxMIMEDepth ≤ depth
  · rw [if_pos hlimit, if_pos hlimit]
  · rw [if_neg hlimit, if_neg hlimit, hcall (by omega)]

/-- The levels that are left solve the recursive equation of scanFile. -/
theorem scanFile_solves (depth : ℕ) :
    scanFile s (s.options.maxArchiveDepth.toNat - depth) =
      scanFileBody s (fun d => scanFile s (s.options.maxArchiveDepth.toNat - d)) depth := by
  unfold scanFileBody
  by_cases hlimit : s.options.maxArchiveDepth ≤ depth
  · have hzero : s.options.maxArchiveDepth.toNat - depth = 0 := by omega
    rw [if_pos hlimit, hzero, scanFile]
  · have hsucc : s.options.maxArchiveDepth.toNat - depth =
        s.options.maxArchiveDepth.toNat - (depth + 1) + 1 := by omega
    rw [if_neg hlimit, hsucc, scanFile]

theorem scanMIME_solves (depth : ℕ) :
    scanMIME s (maxMIMEDepth - depth) =
      scanMIMEBody s (fun d => scanMIME s (maxMIMEDepth - d)) depth := by
  unfold scanMIMEBody
  by_cases hlimit : maxMIMEDepth ≤ depth
  · rw [if_pos hlimit, Nat.sub_eq_zero_of_le hlimit, scanMIME]
  · have hsucc : maxMIMEDepth - depth = maxMIMEDepth - (depth + 1) + 1 := by omega
    have hdepth : maxMIMEDepth - (maxMIMEDepth - (depth + 1) + 1) = depth := by omega
    rw [if_neg hlimit, hsucc, scanMIME, hdepth]

variable {s}

/-- Every local header moves on, so that more fuel than data changes nothing. -/
theorem scanPartialFrom_fuel (inner : FileScan) (location data : Bytes) (fuel fuel' offset : ℕ)
    (h : data.length < offset + fuel) (h' : data.length < offset + fuel') :
    scanPartialFrom s inner location data fuel offset =
      scanPartialFrom s inner location data fuel' offset := by
  induction fuel generalizing fuel' offset with
  | zero =>
    cases fuel' with
    | zero => rfl
    | succ fuel' =>
      have hend : ¬ (offset + 30 ≤ data.length ∧ uint32 data offset = 0x04034B50) := by omega
      rw [scanPartialFrom, scanPartialFrom, if_neg hend]
  | succ fuel ih =>
    cases fuel' with
    | zero =>
      have hend : ¬ (offset + 30 ≤ data.length ∧ uint32 data offset = 0x04034B50) := by omega
      rw [scanPartialFrom, scanPartialFrom, if_neg hend]
    | succ fuel' =>
      have hstart : offset + 30 ≤ (localHeader data offset).dataStart := by
        change offset + 30 ≤ offset + 30 + uint16 data (offset + 26) + uint16 data (offset + 28)
        omega
      have hnext := ih fuel'
        ((localHeader data offset).dataStart + (localHeader data offset).compressedSize)
        (by omega) (by omega)
      unfold scanPartialFrom
      simp [hnext]

theorem countZIPDirectoryFrom_fuel (data : Bytes) (entryLimit byteLimit : ℤ)
    (fuel fuel' offset count used : ℕ) (h : data.length < offset + fuel)
    (h' : data.length < offset + fuel') :
    countZIPDirectoryFrom s data entryLimit byteLimit fuel offset count used =
      countZIPDirectoryFrom s data entryLimit byteLimit fuel' offset count used := by
  induction fuel generalizing fuel' offset count used with
  | zero =>
    cases fuel' with
    | zero => rfl
    | succ fuel' =>
      have hend : ¬ (offset + 46 ≤ data.length ∧ uint32 data offset = 0x02014B50) := by omega
      rw [countZIPDirectoryFrom, countZIPDirectoryFrom, if_neg hend]
  | succ fuel ih =>
    cases fuel' with
    | zero =>
      have hend : ¬ (offset + 46 ≤ data.length ∧ uint32 data offset = 0x02014B50) := by omega
      rw [countZIPDirectoryFrom, countZIPDirectoryFrom, if_neg hend]
    | succ fuel' =>
      have hnext := ih fuel'
        (offset + (46 + uint16 data (offset + 28) + uint16 data (offset + 30) +
          uint16 data (offset + 32))) (count + 1) (used + (46 + uint16 data (offset + 28) +
          uint16 data (offset + 30) + uint16 data (offset + 32))) (by omega) (by omega)
      unfold countZIPDirectoryFrom
      simp [hnext]

/-- The recursion of the scanner ends. Whatever stands for calls below the limits, enough
unfoldings give the scan, and more fuel than data changes no loop over headers. -/
structure Terminates (s : Scanner) : Prop where
  files : ∀ beyond calls, s.options.maxArchiveDepth.toNat < calls →
    unfolded (scanFileBody s) beyond calls 0 = scanTopFile s
  entities : ∀ beyond calls, maxMIMEDepth < calls →
    unfolded (scanMIMEBody s) beyond calls 0 = scanMIME s maxMIMEDepth
  localHeaders : ∀ inner location data fuel, data.length < fuel →
    scanPartialFrom s inner location data fuel 0 =
      scanPartialFrom s inner location data (data.length + 1) 0
  centralHeaders : ∀ data offset entryLimit byteLimit fuel, data.length < offset + fuel →
    countZIPDirectoryFrom s data entryLimit byteLimit fuel offset 0 0 =
      countZIPDirectory s data offset entryLimit byteLimit

theorem terminates (s : Scanner) : Terminates s where
  files beyond calls hcalls :=
    unfolded_eq (scanFileBody_stays s) (scanFile_solves s) beyond (Nat.zero_le _) (by omega)
  entities beyond calls hcalls :=
    unfolded_eq (scanMIMEBody_stays s) (scanMIME_solves s) beyond (Nat.zero_le _) (by omega)
  localHeaders inner location data fuel hfuel :=
    scanPartialFrom_fuel inner location data _ _ 0 (by omega) (by omega)
  centralHeaders data offset entryLimit byteLimit fuel hfuel :=
    countZIPDirectoryFrom_fuel data entryLimit byteLimit _ _ offset 0 0 hfuel (by omega)

/-- One scan changes the shared state only by the changes listed, every state on the way
from its first to its last is within the limits, archives nest at most as deep as
configured, scanFile and scanMIME call themselves only above their limits, and the
recursion ends. -/
theorem scan_stays_within_limits (s : Scanner) (ctx : Context)
    (contentType transferEncoding contentDisposition body : Bytes)
    (hfiles : 0 ≤ s.options.maxArchiveFiles) (hbytes : 0 ≤ s.options.maxArchiveUncompressedBytes)
    (hdepth : 0 ≤ s.options.maxArchiveDepth) :
    let run := scanContext s ctx contentType transferEncoding contentDisposition body
    (Changes (ScanState.new ctx) run.state ∧
      ∀ state, Changes (ScanState.new ctx) state → Changes state run.state →
        WithinLimits s.options state) ∧
      (logDepth run.events : ℤ) ≤ s.options.maxArchiveDepth ∧
      Stays s.options.maxArchiveDepth.toNat (scanFileBody s) ∧
      Stays maxMIMEDepth (scanMIMEBody s) ∧ Terminates s := by
  intro run
  have hcharged : Charged s.options (ScanState.new ctx) run.state :=
    scan_keeps (charges_steps s) maxMIMEDepth _ _ _ _ _ _
  have hnested : logDepth run.events ≤ s.options.maxArchiveDepth.toNat :=
    scan_keeps (nests_steps s) maxMIMEDepth _ _ _ _ _ _
  have hstart : WithinLimits s.options (ScanState.new ctx) :=
    ⟨hfiles, hbytes, by change (0 : ℤ) ≤ 2 ^ 20; omega⟩
  refine ⟨⟨hcharged.changes, fun state _ hrest => ?_⟩, by omega, scanFileBody_stays s,
    scanMIMEBody_stays s, terminates s⟩
  exact (hcharged.limits hstart).of_grown (Changes.grown hrest)

/-- A ZIP with one stored file takes one of the hundred files and nests once. -/
theorem scan_stays_within_limits_note :
    let run := scanContext plainScanner background (ascii "application/zip") [] [] noteZIP
    (0 ≤ plainScanner.options.maxArchiveFiles ∧
      0 ≤ plainScanner.options.maxArchiveUncompressedBytes ∧
      0 ≤ plainScanner.options.maxArchiveDepth) ∧
      run.state.archiveFiles = 1 ∧ WithinLimits plainScanner.options run.state ∧
      (logDepth run.events : ℤ) ≤ plainScanner.options.maxArchiveDepth := by
  have h := scan_stays_within_limits plainScanner background (ascii "application/zip") [] [] noteZIP
    (by decide) (by decide) (by decide)
  exact ⟨by decide, by decide +kernel, h.1.2 _ h.1.1 .refl, h.2.1⟩

end MilterGuard.ScanLimits
