import MilterGuard.Lockstep
import MilterGuard.AttachmentScanner

/-!
The kind of result that an inspection gives does not depend on what was scanned
before it, nor on where it takes place, as long as no budget runs out and the
scan is not cancelled: two inspections of the same contents agree when the first
has at least as much of each budget left.
-/
namespace MilterGuard.BudgetIndependence

open Procedures Lockstep ByteStrings AttachmentNames ContentSignatures ArchiveBudgets ZipDirectories
open ArchiveScanner AttachmentScanner

/-- How an inspection ends, as far as the policy looks at it. -/
inductive Kind
  | clear
  | finding
  | malformed
  | encrypted
  | unscannable
  deriving DecidableEq

def errorKind (e : ScanError) : Kind :=
  if e.malformed then .malformed else if e.encrypted then .encrypted else .unscannable

def kindOf : ScanResult → Kind
  | .clear => .clear
  | .finding _ => .finding
  | .failure e => errorKind e

/-- Nothing is cancelled, and what is counted is not below a start of zero. -/
structure Ready (state : ScanState) : Prop where
  ctx : state.ctx = background
  files : 0 ≤ state.archiveFiles
  bytes : 0 ≤ state.archiveBytes
  metadata : 0 ≤ state.zipMetadataBytes

/-- The first state has at least as much of every budget left as the second. -/
structure Roomier (state state' : ScanState) : Prop where
  ctx : state.ctx = background
  ready : Ready state'
  files : state.archiveFiles ≤ state'.archiveFiles
  bytes : state.archiveBytes ≤ state'.archiveBytes
  metadata : state.zipMetadataBytes ≤ state'.zipMetadataBytes

theorem Ready.roomier {state : ScanState} (h : Ready state) :
    Roomier (ScanState.new background) state := ⟨rfl, h, h.files, h.bytes, h.metadata⟩

def budgets : Setting Event ScanState where
  related := Roomier
  bad log := Occurs .exhausted log
  bad_append _ _ := occurs_append

/-- What was scanned before does not change the value. -/
def Unaffected {α : Type} (m : Scan α) : Prop := Agree budgets id m m

theorem exhaust_bad {α : Type} (a : α) (state : ScanState) :
    budgets.bad (exhaust a state).events := .here (by simp [exhaust])

variable (s : Scanner)

theorem good_nil : ¬ budgets.bad [] := by
  intro h
  cases h with
  | here h | inside h _ => exact List.not_mem_nil h

theorem look_none {state : ScanState} (h : state.ctx = background) : (look state).value = none := by
  simp [look, h, background]

theorem look_agree : Unaffected look := by
  intro state state' h _
  refine ⟨?_, h.ctx, ⟨h.ready.ctx, h.ready.files, h.ready.bytes, h.ready.metadata⟩, h.files,
    h.bytes,
    h.metadata⟩
  rw [look_none h.ctx, look_none h.ready.ctx]

/-- The context is asked at the same places, and it never ends the scan. -/
theorem check_agree (location location' : Bytes) :
    Agree budgets id (check s location) (check s location') := by
  intro state state' h _
  simp only [check, bind_run, look_none h.ctx, look_none h.ready.ctx, pure_run]
  exact ⟨trivial, (look_agree state state' h good_nil).2⟩

theorem stopIfDone_agree (location location' : Bytes) :
    Agree budgets (Option.map kindOf) (stopIfDone s location) (stopIfDone s location') := by
  refine (check_agree s location location').bind_same fun cancelled => Agree.pure ?_
  rfl

theorem unlessDone_agree {location location' : Bytes} {m n : Scan ScanResult}
    (h : Agree budgets kindOf m n) :
    Agree budgets kindOf (unlessHandled (stopIfDone s location) m)
      (unlessHandled (stopIfDone s location') n) :=
  Agree.unlessHandled (stopIfDone_agree s location location') h

variable (stream : Stream)

theorem readContext_agree : Unaffected (readContext stream) :=
  Agree.bind_option look_agree (fun _ => Agree.pure rfl) (Agree.pure rfl)

theorem readLimitedEntry_agree {room room' : ℤ} (h : room' ≤ room) :
    Agree budgets id (readLimitedEntry s stream room) (readLimitedEntry s stream room') := by
  refine (readContext_agree stream).bind_same fun contents => ?_
  by_cases hlong : (min s.options.maxAttachmentBytes room').toNat < contents.data.length
  · refine Agree.of_bad fun state => ?_
    simp only [if_pos hlong]
    exact exhaust_bad _ _
  · have hshort : ¬ (min s.options.maxAttachmentBytes room).toNat < contents.data.length := by omega
    dsimp only
    rw [List.take_of_length_le (Nat.not_lt.mp hlong), List.take_of_length_le (Nat.not_lt.mp hshort),
      if_neg hlong, if_neg hshort]
    refine Agree.bind_same (Agree.modify fun state state' hroom => ?_) fun _ => Agree.pure rfl
    have hready := hroom.ready
    refine ⟨hroom.ctx, ⟨hready.ctx, hready.files, ?_, hready.metadata⟩, hroom.files, ?_,
      hroom.metadata⟩
    · exact Int.add_nonneg hready.bytes (Int.natCast_nonneg _)
    · exact Int.add_le_add_right hroom.bytes _

theorem readArchiveEntry_agree : Unaffected (readArchiveEntry s stream) := by
  refine Agree.bind_option (check_agree s _ _) (fun _ => Agree.pure rfl) ?_
  refine Agree.read (r := fun room room' => room' ≤ room) (fun state state' h => ?_)
    fun room room' hroom => ?_
  · have := h.bytes
    omega
  · exact Agree.limit (fun h => by omega) (exhaust_bad _) (readLimitedEntry_agree s stream hroom)

theorem checkArchiveFileSize_agree (declaredSize : ℕ) :
    Unaffected (checkArchiveFileSize s declaredSize) := by
  refine Agree.read (r := fun room room' => room' ≤ room) (fun state state' h => ?_)
    fun room room' hroom => ?_
  · have := h.bytes
    omega
  · exact Agree.limit id (exhaust_bad _)
      (Agree.limit (fun h => by omega) (exhaust_bad _) (Agree.pure rfl))

theorem beginArchiveFile_agree (declaredSize : ℕ) :
    Unaffected (beginArchiveFile s declaredSize) := by
  refine Agree.read (r := (· ≤ ·)) (fun _ _ h => h.files) fun files files' hfiles => ?_
  refine Agree.limit (fun h => by omega) (exhaust_bad _) ?_
  refine Agree.bind_option (checkArchiveFileSize_agree s declaredSize) (fun _ => Agree.pure rfl) ?_
  refine Agree.bind_same (Agree.modify fun state state' hroom => ?_) fun _ => Agree.pure rfl
  have hready := hroom.ready
  refine ⟨hroom.ctx, ⟨hready.ctx, ?_, hready.bytes, hready.metadata⟩, ?_, hroom.bytes,
    hroom.metadata⟩
  · exact Int.add_nonneg hready.files Int.one_nonneg
  · exact Int.add_le_add_right hroom.files 1

theorem refusing_agree (path path' : Bytes) {m n : Scan (Option Bytes)} (h : Agree budgets id m n) :
    Agree budgets (Option.map kindOf) (refusing path m) (refusing path' n) :=
  h.bind_option (fun _ => Agree.pure rfl) (Agree.pure rfl)

section Directories

variable (data : Bytes)

theorem checkPage_agree (p : ℕ) : Unaffected (checkPage s p) :=
  Agree.when rfl (check_agree s _ _)

theorem searchWindow_agree (start count : ℕ) : Unaffected (searchWindow s data start count) := by
  induction count with
  | zero => exact Agree.pure rfl
  | succ count ih =>
    refine Agree.bind_option (checkPage_agree s _) (fun _ => Agree.pure rfl) ?_
    exact Agree.ite (fun _ => ih) fun _ => Agree.guard rfl (Agree.pure rfl)

theorem zipDirectoryEndIn_agree (windows : List ℕ) :
    Unaffected (zipDirectoryEndIn s data windows) := by
  induction windows with
  | nil => exact Agree.pure rfl
  | cons window rest ih =>
    refine (searchWindow_agree s data _ _).bind_same fun found => ?_
    match found with
    | .error err => exact Agree.pure rfl
    | .ok (some p) => exact Agree.pure rfl
    | .ok none => exact Agree.guard rfl ih

variable {entries entries' bytes bytes' : ℤ}

/-- Larger limits count the same headers. -/
theorem countZIPDirectoryFrom_agree (hentries : entries' ≤ entries) (hbytes : bytes' ≤ bytes)
    (fuel offset count used : ℕ) :
    Agree budgets id (countZIPDirectoryFrom s data entries bytes fuel offset count used)
      (countZIPDirectoryFrom s data entries' bytes' fuel offset count used) := by
  induction fuel generalizing offset count used with
  | zero => exact Agree.pure rfl
  | succ fuel ih =>
    refine Agree.when rfl ?_
    refine Agree.bind_option (check_agree s _ _) (fun _ => Agree.pure rfl) ?_
    refine Agree.limit (fun h => by omega) (exhaust_bad _) ?_
    refine Agree.limit (fun h => by omega) (exhaust_bad _) ?_
    exact Agree.guard rfl (ih _ _ _)

theorem countCandidates_agree (hentries : entries' ≤ entries) (hbytes : bytes' ≤ bytes)
    (start offset : ℕ) :
    Agree budgets id (countCandidates s data start offset entries bytes)
      (countCandidates s data start offset entries' bytes') := by
  have hcount := countZIPDirectoryFrom_agree s data hentries hbytes
  refine (hcount _ _ _ _).bind_except (fun _ => Agree.pure rfl) fun first => ?_
  refine Agree.when rfl ?_
  exact (hcount _ _ _ _).bind_except (fun _ => Agree.pure rfl) fun _ => Agree.pure rfl

theorem reserve_agree (records count metadata : ℕ) :
    Unaffected (reserve records count metadata) := by
  refine Agree.guard rfl ?_
  refine Agree.bind_same (Agree.modify fun state state' h => ?_) fun _ => Agree.pure rfl
  have hready := h.ready
  refine ⟨h.ctx, ⟨hready.ctx, ?_, hready.bytes, ?_⟩, ?_, h.bytes, ?_⟩
  · exact Int.add_nonneg hready.files (Int.natCast_nonneg _)
  · exact Int.add_nonneg hready.metadata (Int.natCast_nonneg _)
  · exact Int.add_le_add_right h.files _
  · exact Int.add_le_add_right h.metadata _

theorem admitRecord_agree (record : EndRecord) : Unaffected (admitRecord s data record) := by
  refine Agree.read (r := fun room room' => room' ≤ room) (fun state state' h => ?_)
    fun room room' hroom => ?_
  · exact Int.sub_le_sub_left h.files _
  refine Agree.read (r := fun left left' => left' ≤ left) (fun state state' h => ?_)
    fun left left' hleft => ?_
  · exact Int.sub_le_sub_left h.metadata _
  refine Agree.limit (fun h => by omega) (exhaust_bad _) ?_
  refine Agree.guard rfl ?_
  refine Agree.limit (fun h => by omega) (exhaust_bad _) ?_
  exact (countCandidates_agree s data hroom (by omega) _ _).bind_except (fun _ => Agree.pure rfl)
    fun _ => reserve_agree _ _ _

theorem admitZIPDirectory_agree : Unaffected (admitZIPDirectory s data) := by
  refine (zipDirectoryEndIn_agree s data _).bind_except (fun _ => Agree.pure rfl) fun stop => ?_
  dsimp only
  cases endRecord data stop with
  | none => exact Agree.pure rfl
  | some record => exact admitRecord_agree s data record

theorem openZIP_agree : Unaffected (openZIP s data) :=
  Agree.bind_option (check_agree s _ _) (fun _ => Agree.pure rfl) (Agree.pure rfl)

end Directories

section Results

/-- The kinds of findings do not depend on the path they are reported with. -/
theorem nameFinding_kind (path path' filename : Bytes) :
    (nameFinding s path filename).map kindOf = (nameFinding s path' filename).map kindOf := by
  rw [nameFinding, nameFinding, Option.map_map, Option.map_map]
  rfl

theorem signatureFinding_kind (path path' data : Bytes) :
    (signatureFinding s path data).map kindOf = (signatureFinding s path' data).map kindOf := by
  unfold signatureFinding
  split
  · rw [Option.map_map, Option.map_map]
    rfl
  · rfl

theorem findings_cases {o o' : Option ScanResult} (h : o.map kindOf = o'.map kindOf) :
    (o = none ∧ o' = none) ∨ ∃ r r', o = some r ∧ o' = some r' ∧ kindOf r = kindOf r' := by
  cases o with
  | none => exact Or.inl ⟨rfl, by simpa using h.symm⟩
  | some r =>
    obtain ⟨r', hr', hkind⟩ := Option.map_eq_some_iff.mp h.symm
    exact Or.inr ⟨r, r', rfl, hr', hkind.symm⟩

/-- A finding ends both runs with results of one kind. -/
theorem agree_unlessFound {m m' : Scan ScanResult} (hm : Agree budgets kindOf m m')
    {o o' : Option ScanResult} :
    o.map kindOf = o'.map kindOf → Agree budgets kindOf
      (match o with
        | some found => pure found
        | none => m)
      (match o' with
        | some found => pure found
        | none => m') := by
  intro h
  rcases findings_cases h with ⟨rfl, rfl⟩ | ⟨r, r', rfl, rfl, hkind⟩
  · exact hm
  · exact Agree.pure hkind

theorem errorKind_ne_clear (e : ScanError) : errorKind e ≠ .clear := by
  unfold errorKind
  split_ifs <;> simp

theorem errorKind_ne_finding (e : ScanError) : errorKind e ≠ .finding := by
  unfold errorKind
  split_ifs <;> simp

variable {m n : Scan ScanResult}

/-- Two results of one kind are continued in the same way. -/
theorem agree_bind {β δ : Type} {view : β → δ} {f g : ScanResult → Scan β}
    (h : Agree budgets kindOf m n) (hclear : Agree budgets view (f .clear) (g .clear))
    (hfinding : ∀ found found', Agree budgets view (f (.finding found)) (g (.finding found')))
    (hfailure : ∀ e e', errorKind e = errorKind e' →
      Agree budgets view (f (.failure e)) (g (.failure e'))) :
    Agree budgets view (m >>= f) (n >>= g) := by
  refine h.bind fun r r' hkind => ?_
  cases r with
  | clear =>
    cases r' with
    | clear => exact hclear
    | finding found => exact absurd hkind (by simp [kindOf])
    | failure e => exact absurd hkind.symm (errorKind_ne_clear e)
  | finding found =>
    cases r' with
    | clear => exact absurd hkind (by simp [kindOf])
    | finding found' => exact hfinding found found'
    | failure e => exact absurd hkind.symm (errorKind_ne_finding e)
  | failure e =>
    cases r' with
    | clear => exact absurd hkind (errorKind_ne_clear e)
    | finding found => exact absurd hkind (errorKind_ne_finding e)
    | failure e' => exact hfailure e e' hkind

theorem findingOnly_agree (h : Agree budgets kindOf m n) :
    Agree budgets (Option.map kindOf) (findingOnly m) (findingOnly n) :=
  agree_bind h (Agree.pure rfl) (fun _ _ => Agree.pure rfl) fun _ _ _ => Agree.pure rfl

theorem unlessClear_agree (h : Agree budgets kindOf m n) :
    Agree budgets (Option.map kindOf) (unlessClear m) (unlessClear n) :=
  agree_bind h (Agree.pure rfl) (fun _ _ => Agree.pure rfl) fun _ _ hkind =>
    Agree.pure (congrArg some hkind)

theorem scanEach_agree {α : Type} {scan scan' : α → Scan ScanResult}
    (h : ∀ a, Agree budgets kindOf (scan a) (scan' a)) (items : List α) :
    Agree budgets kindOf (scanEach scan items) (scanEach scan' items) := by
  induction items with
  | nil => exact Agree.pure rfl
  | cons a rest ih =>
    exact agree_bind (h a) ih (fun _ _ => Agree.pure rfl) fun _ _ hkind => Agree.pure hkind

end Results

/-- The kind of result does not depend on where a file is found. -/
def FileAgree (inner : FileScan) : Prop :=
  ∀ location location' filename mediaType data,
    Agree budgets kindOf (inner location filename mediaType data)
      (inner location' filename mediaType data)

section Archives

variable {inner : FileScan} (hinner : FileAgree inner)

theorem checkEntryName_agree (entry : Entry) (path path' name : Bytes) :
    Agree budgets (Option.map kindOf) (checkEntryName s entry path name)
      (checkEntryName s entry path' name) :=
  (Agree.log _ _).bind_same fun _ => Agree.pure (nameFinding_kind s path path' name)

variable (location location' data : Bytes)

theorem endTAR_agree (err : Option Bytes) :
    Agree budgets kindOf (endTAR s location err) (endTAR s location' err) := by
  refine unlessDone_agree s ?_
  cases err with
  | none | some err => exact Agree.pure rfl

include hinner

theorem scanEntry_agree (entry : Entry) (path path' name : Bytes) (stream : Stream) :
    Agree budgets kindOf (scanEntry s inner entry path name stream)
      (scanEntry s inner entry path' name stream) := by
  refine Agree.bind_same (readArchiveEntry_agree s stream) fun contents => ?_
  rcases findings_cases (signatureFinding_kind s path path' contents.data) with
    ⟨hfirst, hsecond⟩ | ⟨r, r', hfirst, hsecond, hkind⟩
  · rw [hfirst, hsecond]
    cases contents.err with
    | some err => exact Agree.pure rfl
    | none =>
      refine (Agree.log _ _).bind_same fun _ => ?_
      exact hinner path path' name octetStream contents.data
  · rw [hfirst, hsecond]
    exact Agree.pure hkind

theorem scanZIPFile_agree (file : ZipFile) :
    Agree budgets kindOf (scanZIPFile s inner location file)
      (scanZIPFile s inner location' file) := by
  refine unlessDone_agree s ?_
  refine Agree.guard rfl (Agree.guard rfl ?_)
  refine Agree.unlessHandled (checkEntryName_agree s _ _ _ _) ?_
  refine Agree.unlessHandled (refusing_agree _ _ (checkArchiveFileSize_agree s _)) ?_
  cases file.contents with
  | error err => exact Agree.pure rfl
  | ok stream => exact scanEntry_agree s hinner _ _ _ _ stream

theorem scanTAREntry_agree (entry : TarEntry) :
    Agree budgets kindOf (scanTAREntry s inner location entry)
      (scanTAREntry s inner location' entry) := by
  refine unlessDone_agree s ?_
  refine Agree.guard rfl (Agree.guard rfl ?_)
  refine Agree.unlessHandled (refusing_agree _ _ (beginArchiveFile_agree s _)) ?_
  refine Agree.unlessHandled (checkEntryName_agree s _ _ _ _) ?_
  exact scanEntry_agree s hinner _ _ _ _ _

theorem scanPartialContents_agree (path path' : Bytes) (h : LocalHeader) (available : ℕ)
    (stream : Stream) :
    Agree budgets kindOf (scanPartialContents s inner path h available stream)
      (scanPartialContents s inner path' h available stream) := by
  refine Agree.bind_same (readArchiveEntry_agree s stream) fun contents => ?_
  refine agree_unlessFound ?_ (signatureFinding_kind s path path' contents.data)
  refine Agree.unlessHandled (Agree.when rfl ?_) (Agree.pure ?_)
  · exact findingOnly_agree (hinner path path' h.name octetStream contents.data)
  · unfold partialOutcome
    cases contents.err with
    | some err => rfl
    | none =>
      dsimp only
      split <;> rfl

theorem scanPartialEntry_agree (h : LocalHeader) :
    Agree budgets kindOf (scanPartialEntry s inner location data h)
      (scanPartialEntry s inner location' data h) := by
  refine Agree.guard rfl (Agree.guard rfl ?_)
  rcases findings_cases (nameFinding_kind s (joinLocation s.text location h.name)
    (joinLocation s.text location' h.name) h.name) with
    ⟨hfirst, hsecond⟩ | ⟨r, r', hfirst, hsecond, hkind⟩
  · rw [hfirst, hsecond]
    refine Agree.unlessHandled (refusing_agree _ _ (beginArchiveFile_agree s _)) ?_
    cases entryReader s h.method _ with
    | error err => exact Agree.pure rfl
    | ok stream => exact scanPartialContents_agree s hinner _ _ h _ stream
  · rw [hfirst, hsecond]
    exact Agree.pure hkind

theorem scanPartialFrom_agree (fuel offset : ℕ) :
    Agree budgets kindOf (scanPartialFrom s inner location data fuel offset)
      (scanPartialFrom s inner location' data fuel offset) := by
  induction fuel generalizing offset with
  | zero => exact Agree.pure rfl
  | succ fuel ih =>
    refine Agree.when rfl ?_
    refine unlessDone_agree s ?_
    exact agree_bind (scanPartialEntry_agree s hinner location location' data _) (ih _)
      (fun _ _ => Agree.pure rfl) fun _ _ hkind => Agree.pure hkind

theorem scanPartialZIP_agree :
    Agree budgets (Option.map kindOf) (scanPartialZIP s inner location data)
      (scanPartialZIP s inner location' data) := by
  refine Agree.unlessHandled ?_ (Agree.guard rfl ?_)
  · refine (stopIfDone_agree s location location').bind fun r r' hkind => Agree.pure ?_
    rcases findings_cases hkind with ⟨rfl, rfl⟩ | ⟨a, a', rfl, rfl, ha⟩
    · rfl
    · exact congrArg (fun k => some (some k)) ha
  · refine (scanPartialFrom_agree s hinner location location' data _ 0).bind fun r r' hkind => ?_
    exact Agree.pure (congrArg some hkind)

theorem scanUnreadableZIP_agree (err : Bytes) :
    Agree budgets kindOf (scanUnreadableZIP s inner location data err)
      (scanUnreadableZIP s inner location' data err) :=
  unlessDone_agree s
    (Agree.unlessHandled (scanPartialZIP_agree s hinner location location' data) (Agree.pure rfl))

theorem scanZIP_agree :
    Agree budgets kindOf (scanZIP s inner location data) (scanZIP s inner location' data) := by
  refine unlessDone_agree s ?_
  refine (admitZIPDirectory_agree s data).bind_same fun admitted => ?_
  match admitted with
  | .error (.refused err) => exact Agree.pure rfl
  | .error .format => exact scanUnreadableZIP_agree s hinner location location' data _
  | .ok () =>
    refine (openZIP_agree s data).bind_same fun opened => ?_
    cases opened with
    | error err => exact scanUnreadableZIP_agree s hinner location location' data err
    | ok files => exact scanEach_agree (scanZIPFile_agree s hinner location location') files

theorem scanTAR_agree :
    Agree budgets kindOf (scanTAR s inner location data) (scanTAR s inner location' data) :=
  agree_bind (scanEach_agree (scanTAREntry_agree s hinner location location') _)
    (endTAR_agree s location location' _) (fun _ _ => Agree.pure rfl)
    fun _ _ hkind => Agree.pure hkind

theorem scanCompressed_agree (innerName : Bytes) (stream : Stream) :
    Agree budgets kindOf (scanCompressed s inner location innerName stream)
      (scanCompressed s inner location' innerName stream) := by
  refine Agree.unlessHandled (refusing_agree _ _ (beginArchiveFile_agree s 0)) ?_
  refine (readArchiveEntry_agree s stream).bind_same fun contents => ?_
  cases contents.err with
  | some err => exact Agree.pure rfl
  | none => exact hinner _ _ _ _ _

omit hinner in
theorem within_agree {format : ArchiveFormat} {data : Bytes} {m n : Scan ScanResult}
    (h : Agree budgets kindOf m n) :
    Agree budgets kindOf (within format data m) (within format data n) :=
  fun state state' hroom hgood =>
    h state state' hroom fun hbad => hgood (occurs_archive.mpr (Or.inr hbad))

theorem scanArchive_agree (format : ArchiveFormat) (location location' filename data : Bytes) :
    Agree budgets kindOf (scanArchive s inner format location filename data)
      (scanArchive s inner format location' filename data) := by
  cases format with
  | zip => exact within_agree (scanZIP_agree s hinner location location' data)
  | tar => exact within_agree (scanTAR_agree s hinner location location' data)
  | gzip =>
    refine within_agree ?_
    unfold scanGzip
    cases s.library.gunzip data with
    | error err => exact Agree.pure rfl
    | ok opened => exact scanCompressed_agree s hinner location location' _ opened.2
  | bzip2 => exact within_agree (scanCompressed_agree s hinner location location' _ _)

end Archives

theorem scanFileOver_agree (deeper : Option FileScan)
    (hdeeper : ∀ inner, deeper = some inner → FileAgree inner) :
    FileAgree (scanFileOver s deeper) := by
  intro location location' filename mediaType data
  refine unlessDone_agree s ?_
  rcases findings_cases (nameFinding_kind s (cleanLocation s.text location)
    (cleanLocation s.text location') filename) with
    ⟨hname, hname'⟩ | ⟨r, r', hname, hname', hkind⟩
  · rcases findings_cases (signatureFinding_kind s (cleanLocation s.text location)
      (cleanLocation s.text location') data) with
      ⟨hsign, hsign'⟩ | ⟨r, r', hsign, hsign', hkind⟩
    · simp only [hname, hname', hsign, hsign']
      refine Agree.guard rfl ?_
      cases archiveFormat s.text.table filename mediaType data with
      | none => exact Agree.pure rfl
      | some format =>
        cases deeper with
        | none => exact Agree.pure rfl
        | some inner =>
          exact scanArchive_agree s (hdeeper inner rfl) format location location' filename data
    · simp only [hname, hname', hsign, hsign']
      exact Agree.pure hkind
  · simp only [hname, hname']
    exact Agree.pure hkind

theorem scanFile_agree (levels : ℕ) : FileAgree (scanFile s levels) := by
  induction levels with
  | zero => exact scanFileOver_agree s none nofun
  | succ levels ih => exact scanFileOver_agree s _ fun inner h => Option.some.inj h ▸ ih

/-- The kind of result does not depend on where an entity stands in the message. -/
def EntityAgree (inner : MIMEScan) : Prop :=
  ∀ contentType transferEncoding contentDisposition data location location',
    Agree budgets kindOf (inner contentType transferEncoding contentDisposition data location)
      (inner contentType transferEncoding contentDisposition data location')

section Entities

variable {inner : MIMEScan} (hinner : EntityAgree inner)

theorem decodeTransferStrict_agree (encoding data : Bytes) :
    Unaffected (decodeTransferStrict s encoding data) := by
  unfold decodeTransferStrict
  cases transferReader s encoding data with
  | error err => exact Agree.pure rfl
  | ok stream =>
    refine Agree.guard rfl ?_
    refine (readContext_agree stream).bind_same fun contents => ?_
    exact Agree.limit id (exhaust_bad _) (Agree.pure rfl)

include hinner

/-- The same part at another place of another entity of the same type. -/
theorem scanPart_agree (mediaType location location' : Bytes) (index index' : ℕ) (part : Part) :
    Agree budgets kindOf (scanPart s inner mediaType location index part)
      (scanPart s inner mediaType location' index' part) := by
  refine (readContext_agree part.body).bind_same fun contents => ?_
  refine agree_bind (hinner _ _ _ _ _ _) ?_ (fun _ _ => Agree.pure rfl) fun _ _ hkind =>
    Agree.pure hkind
  refine Agree.pure ?_
  cases contents.err with
  | none => rfl
  | some err => rfl

theorem scanParts_agree (mediaType location location' : Bytes) (err : Option Bytes)
    (index index' : ℕ) (firstError firstError' : Option ScanError)
    (hfirst : firstError.map errorKind = firstError'.map errorKind) (parts : List Part) :
    Agree budgets kindOf (scanParts s inner mediaType location err index firstError parts)
      (scanParts s inner mediaType location' err index' firstError' parts) := by
  induction parts generalizing index index' firstError firstError' with
  | nil =>
    refine unlessDone_agree s (Agree.pure ?_)
    cases firstError with
    | none =>
      obtain rfl : firstError' = none := by simpa using hfirst.symm
      cases err with
      | none => rfl
      | some err => rfl
    | some e =>
      obtain ⟨e', rfl, he⟩ := Option.map_eq_some_iff.mp hfirst.symm
      exact he.symm
  | cons part rest ih =>
    refine unlessDone_agree s ?_
    refine agree_bind (scanPart_agree s hinner mediaType location location' index index' part)
      (ih _ _ _ _ hfirst) (fun _ _ => Agree.pure rfl) fun e e' hkind => ih _ _ _ _ ?_
    cases firstError with
    | none =>
      obtain rfl : firstError' = none := by simpa using hfirst.symm
      exact congrArg some hkind
    | some e₀ =>
      obtain ⟨e₀', rfl, he⟩ := Option.map_eq_some_iff.mp hfirst.symm
      exact congrArg some he.symm

variable (mimeDepth : ℕ)

theorem scanRFC822_agree (data location location' : Bytes) :
    Agree budgets kindOf (scanRFC822 s inner mimeDepth data location)
      (scanRFC822 s inner mimeDepth data location') := by
  refine unlessDone_agree s ?_
  refine Agree.guard rfl ?_
  cases s.library.readMessage data with
  | error err => exact Agree.pure rfl
  | ok attached =>
    refine (readContext_agree attached.body).bind_same fun body => ?_
    cases body.err with
    | some err => exact Agree.pure rfl
    | none => exact hinner _ _ _ _ _ _

theorem scanAttachment_agree (nested : Bool)
    (mediaType contentType contentDisposition filename location location' : Bytes)
    (transferEncoding data : Bytes) :
    Agree budgets kindOf
      (scanAttachment s (scanRFC822 s inner mimeDepth) nested
        ⟨mediaType, contentType, contentDisposition, filename, location⟩ transferEncoding data)
      (scanAttachment s (scanRFC822 s inner mimeDepth) nested
        ⟨mediaType, contentType, contentDisposition, filename, location'⟩
        transferEncoding data) := by
  refine (decodeTransferStrict_agree s transferEncoding data).bind_same fun decoded => ?_
  cases decoded.err with
  | some err =>
    refine agree_unlessFound ?_ (signatureFinding_kind s _ _ decoded.data)
    refine Agree.unlessHandled (Agree.when rfl ?_) ?_
    · exact unlessClear_agree (scanRFC822_agree s hinner mimeDepth _ location location')
    · refine Agree.unlessHandled (Agree.when rfl ?_) (Agree.pure rfl)
      exact findingOnly_agree (scanFile_agree s _ _ _ _ _ _)
  | none =>
    refine Agree.ite (fun _ => Agree.guard rfl ?_) fun _ =>
      Agree.ite (fun _ => ?_) fun _ => ?_
    · exact scanFile_agree s _ _ _ _ _ _
    · exact scanRFC822_agree s hinner mimeDepth _ _ _
    · exact scanFile_agree s _ _ _ _ _ _

theorem scanEntity_agree : EntityAgree (scanEntity s mimeDepth inner) := by
  intro contentType transferEncoding contentDisposition data location location'
  refine unlessDone_agree s ?_
  cases declaredMediaType s contentType with
  | error err => exact Agree.pure rfl
  | ok declared =>
    refine Agree.ite (fun _ => ?_) fun _ => ?_
    · exact Agree.guard rfl (scanParts_agree s hinner _ _ _ _ _ _ _ _ rfl _)
    · unfold scanSingle
      cases attachmentFilename s.text contentDisposition contentType with
      | error err => exact Agree.pure rfl
      | ok filename =>
        refine Agree.ite (fun _ => scanAttachment_agree s hinner _ _ _ _ _ _ _ _ _ _) fun _ => ?_
        rcases findings_cases (nameFinding_kind s
          (cleanLocation s.text (replaceLocationBase s.text location filename))
          (cleanLocation s.text (replaceLocationBase s.text location' filename)) filename) with
          ⟨hname, hname'⟩ | ⟨r, r', hname, hname', hkind⟩
        · simp only [hname, hname']
          exact scanAttachment_agree s hinner _ _ _ _ _ _ _ _ _ _
        · simp only [hname, hname']
          exact Agree.pure hkind

end Entities

theorem scanMIME_agree (levels : ℕ) : EntityAgree (scanMIME s levels) := by
  induction levels with
  | zero =>
    intro _ _ _ _ location location'
    exact unlessDone_agree s (Agree.pure rfl)
  | succ levels ih => exact scanEntity_agree s ih _

end MilterGuard.BudgetIndependence
