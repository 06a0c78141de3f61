import MilterGuard.AttachmentScanner

/-!
What every scan keeps. A finding or a failure on the way is never lost, so a scan that
ends clear went well all the way. A relation that hears whether all went well is kept by
a whole scan when the basic steps of the scan keep it.
-/
namespace MilterGuard.ArchiveCoverage

open Procedures ByteStrings ContentSignatures ArchiveBudgets ZipDirectories ArchiveScanner
open AttachmentScanner

/-- A procedure that goes on or answers, but never with a clear result. -/
def Refuses (m : Scan (Option ScanResult)) : Prop :=
  Ensures (fun answer => ∀ r, answer = some r → r ≠ .clear) m

theorem map_ne_clear {α : Type} {f : α → ScanResult} {o : Option α} {r : ScanResult}
    (h : o.map f = some r) (hf : ∀ a, f a ≠ .clear) : r ≠ .clear := by
  obtain ⟨a, -, rfl⟩ := Option.map_eq_some_iff.mp h
  exact hf a

variable (s : Scanner) (inner : FileScan) (path location data : Bytes)

theorem stopIfDone_refuses : Refuses (stopIfDone s location) :=
  Ensures.after fun _ => Ensures.pure fun _ h => map_ne_clear h fun _ => ScanResult.noConfusion

theorem refusing_refuses (m : Scan (Option Bytes)) : Refuses (refusing path m) :=
  Ensures.after fun _ => Ensures.pure fun _ h => map_ne_clear h fun _ => ScanResult.noConfusion

theorem nameFinding_ne_clear (filename : Bytes) (r : ScanResult)
    (h : nameFinding s path filename = some r) : r ≠ .clear := by
  exact map_ne_clear h fun _ => ScanResult.noConfusion

theorem signatureFinding_ne_clear (r : ScanResult) (h : signatureFinding s path data = some r) :
    r ≠ .clear := by
  unfold signatureFinding at h
  split at h
  · exact map_ne_clear h fun _ => ScanResult.noConfusion
  · simp at h

theorem checkEntryName_refuses (entry : Entry) (path name : Bytes) :
    Refuses (checkEntryName s entry path name) :=
  Ensures.after fun _ => Ensures.pure fun r h => nameFinding_ne_clear s path name r h

variable (m : Scan ScanResult)

/-- A scan that never ends clear. -/
def NeverClear : Prop := Ensures (· ≠ .clear) m

theorem scanPartialFrom_neverClear (fuel offset : ℕ) :
    NeverClear (scanPartialFrom s inner location data fuel offset) := by
  induction fuel generalizing offset with
  | zero => exact Ensures.pure ScanResult.noConfusion
  | succ fuel ih =>
    refine Ensures.ite (fun _ => ?_) fun _ => Ensures.pure ScanResult.noConfusion
    refine Ensures.unlessHandled (stopIfDone_refuses s location) (Ensures.after fun r => ?_)
    cases r with
    | clear => exact ih _
    | finding found | failure e => exact Ensures.pure ScanResult.noConfusion

theorem scanPartialZIP_refuses : Refuses (scanPartialZIP s inner location data) := by
  refine Ensures.unlessHandled ?_ (Ensures.ite (fun _ => ?_) fun _ => ?_)
  · refine Ensures.bind (stopIfDone_refuses s location) fun answer hanswer => Ensures.pure ?_
    intro a ha r hr
    obtain ⟨b, hb, rfl⟩ := Option.map_eq_some_iff.mp ha
    exact hanswer r (hb.trans hr)
  · exact Ensures.pure fun r hr => by simp at hr
  · refine Ensures.bind (scanPartialFrom_neverClear s inner location data _ 0) fun r hr => ?_
    exact Ensures.pure fun r' hr' => Option.some.inj hr' ▸ hr

/-- A ZIP file without a readable directory always ends in a finding or an error. -/
theorem scanUnreadableZIP_neverClear (err : Bytes) :
    NeverClear (scanUnreadableZIP s inner location data err) :=
  Ensures.unlessHandled (stopIfDone_refuses s location)
    (Ensures.unlessHandled (scanPartialZIP_refuses s inner location data)
      (Ensures.pure ScanResult.noConfusion))

/-- Once a part has failed, the loop cannot end clear. -/
theorem scanParts_neverClear (inner : MIMEScan) (mediaType location : Bytes) (err : Option Bytes)
    (index : ℕ) (e : ScanError) (parts : List Part) :
    NeverClear (scanParts s inner mediaType location err index (some e) parts) := by
  induction parts generalizing index with
  | nil =>
    exact Ensures.unlessHandled (stopIfDone_refuses s location)
      (Ensures.pure ScanResult.noConfusion)
  | cons part rest ih =>
    refine Ensures.unlessHandled (stopIfDone_refuses s location) (Ensures.after fun r => ?_)
    cases r with
    | clear | failure e' => exact ih _
    | finding found => exact Ensures.pure ScanResult.noConfusion

theorem unlessClear_refuses : Refuses (unlessClear m) := by
  refine Ensures.after fun r => ?_
  cases r with
  | clear => exact Ensures.pure fun _ h => by simp at h
  | finding found | failure e =>
    exact Ensures.pure fun _ h => Option.some.inj h ▸ ScanResult.noConfusion

theorem findingOnly_refuses : Refuses (findingOnly m) := by
  refine Ensures.after fun r => ?_
  cases r with
  | clear | failure e => exact Ensures.pure fun _ h => by simp at h
  | finding found => exact Ensures.pure fun _ h => Option.some.inj h ▸ ScanResult.noConfusion

/-- Contents that cannot be decoded never count as inspected. -/
theorem scanUndecoded_neverClear (message : Bytes → Bytes → Scan ScanResult) (a : Attachment)
    (decoded err : Bytes) :
    NeverClear (scanUndecoded s message a decoded err) := by
  unfold scanUndecoded
  split
  · rename_i found hfound
    exact Ensures.pure (signatureFinding_ne_clear s _ decoded found hfound)
  · refine Ensures.unlessHandled (Ensures.ite (fun _ => unlessClear_refuses _) fun _ => ?_) ?_
    · exact Ensures.pure fun _ h => by simp at h
    · refine Ensures.unlessHandled (Ensures.ite (fun _ => findingOnly_refuses _) fun _ => ?_) ?_
      · exact Ensures.pure fun _ h => by simp at h
      · exact Ensures.pure ScanResult.noConfusion

end MilterGuard.ArchiveCoverage

namespace MilterGuard.ScanTraversal

open Procedures ByteStrings ContentSignatures ArchiveBudgets ZipDirectories ArchiveScanner
open AttachmentScanner ArchiveCoverage

abbrev Grading := Prop → ScanState → List Event → ScanState → Prop

variable (R : Grading)

/-- All went well if the scan ends clear. -/
def Keeps (m : Scan ScanResult) : Prop := Graded R (· = .clear) m

/-- A scanner of files that keeps a relation whatever file it is given. -/
def FileKeeps (inner : FileScan) : Prop :=
  ∀ location filename mediaType data, Keeps R (inner location filename mediaType data)

/-- A scanner of MIME entities that keeps a relation whatever entity it is given. -/
def EntityKeeps (inner : MIMEScan) : Prop :=
  ∀ contentType transferEncoding contentDisposition data location,
    Keeps R (inner contentType transferEncoding contentDisposition data location)

/-- What the scan counts does not matter to the relation. -/
structure Uncounted : Prop extends Watches R where
  counts : ∀ {f : ScanState → ScanState}, (∀ state, (f state).ctx = state.ctx) →
    (∀ state, (f state).looks = state.looks) → Graded R (fun _ => True) (modify f)

section Uncounted

variable {s : Scanner} {R : Grading} (hR : Uncounted R)

include hR

theorem readLimitedEntry_keeps (stream : Stream) (remaining : ℤ) :
    Graded R (·.err = none) (readLimitedEntry s stream remaining) := by
  have hc := hR.chains
  have hread := readContext_watches hR.toWatches stream
  refine Graded.bind hc hread (fun contents hcontents => ⟨?_, ?_⟩) fun contents _ => ?_
  · refine Ensures.after fun _ => Ensures.ite (fun _ => ?_) fun _ => Ensures.pure hcontents
    exact Ensures.after fun _ => Ensures.pure (by simp)
  · refine Follows.bind hc.falls (Graded.follows hc (hR.counts (fun _ => rfl) fun _ => rfl))
      fun _ => ?_
    exact Follows.ite (exhaust_watches hR.toWatches _) (Follows.pure hc.falls _)
  · refine Graded.after hc (hR.counts (fun _ => rfl) fun _ => rfl) fun _ => ?_
    exact Graded.ite (fun _ => (exhaust_fails hR.toWatches (by simp)).graded) fun _ =>
      Graded.pure hc _

theorem readArchiveEntry_keeps (stream : Stream) :
    Graded R (·.err = none) (readArchiveEntry s stream) := by
  refine Graded.bind_option hR.chains (check_watches hR.toWatches _)
    (fun _ => Fails.pure hR.chains (by simp)) ?_
  refine Graded.after hR.chains (Graded.read hR.chains _) fun remaining => ?_
  exact Graded.ite (fun _ => (exhaust_fails hR.toWatches (by simp)).graded) fun _ =>
    readLimitedEntry_keeps hR stream remaining

theorem beginArchiveFile_keeps (size : ℕ) : Graded R (· = none) (beginArchiveFile s size) := by
  refine Graded.after hR.chains (Graded.read hR.chains _) fun files => ?_
  refine Graded.ite (fun _ => (exhaust_fails hR.toWatches (by simp)).graded) fun _ => ?_
  refine Graded.bind_option hR.chains (checkArchiveFileSize_watches hR.toWatches size)
    (fun _ => Fails.pure hR.chains (by simp)) ?_
  exact Graded.after hR.chains (hR.counts (fun _ => rfl) fun _ => rfl) fun _ =>
    Graded.pure hR.chains none

theorem admitRecord_keeps (data : Bytes) (record : EndRecord) :
    Graded R (fun r => ∃ a, r = .ok a) (admitRecord s data record) := by
  have hc := hR.chains
  refine Graded.after hc (Graded.read hc _) fun remaining => ?_
  refine Graded.after hc (Graded.read hc _) fun metadataLeft => ?_
  refine Graded.ite (fun _ => (exhaust_fails hR.toWatches (by simp)).graded) fun _ => ?_
  refine Graded.ite (fun _ => Graded.pure hc _) fun _ => ?_
  refine Graded.ite (fun _ => (exhaust_fails hR.toWatches (by simp)).graded) fun _ => ?_
  refine Graded.bind_except hc (countCandidates_watches hR.toWatches _ _ _ _)
    (fun _ => Fails.pure hc (by simp)) fun counts => ?_
  refine Graded.ite (fun _ => Graded.pure hc _) fun _ => ?_
  exact Graded.after hc (hR.counts (fun _ => rfl) fun _ => rfl) fun _ => Graded.pure hc _

theorem admitZIPDirectory_keeps (data : Bytes) :
    Graded R (fun r => ∃ a, r = .ok a) (admitZIPDirectory s data) := by
  refine Graded.bind_except hR.chains (zipDirectoryEndIn_watches hR.toWatches _)
    (fun _ => Fails.pure hR.chains (by simp)) fun stop => ?_
  dsimp only
  cases endRecord data stop with
  | none => exact Graded.pure hR.chains _
  | some record => exact admitRecord_keeps hR data record

end Uncounted

section Rules

variable {s : Scanner} {R : Grading} (hR : Watches R)

include hR

theorem keeps_pure (r : ScanResult) : Keeps R (pure r) := Graded.pure hR.chains r

theorem fails_pure {r : ScanResult} (h : r ≠ .clear) : Fails R (· = .clear) (pure r) :=
  Fails.pure hR.chains h

theorem Keeps.guard {c : Prop} [Decidable c] {r : ScanResult} {next : Scan ScanResult}
    (hnext : Keeps R next) : Keeps R (if c then pure r else next) :=
  Graded.ite (fun _ => keeps_pure hR r) fun _ => hnext

theorem Keeps.unlessHandled {m : Scan (Option ScanResult)} {next : Scan ScanResult}
    (hm : Graded R (· = none) m) (hrefuses : Refuses m) (hnext : Keeps R next) :
    Keeps R (unlessHandled m next) := Graded.unlessHandled hR.chains hm hrefuses hnext

theorem Keeps.unlessDone (location : Bytes) {next : Scan ScanResult} (hnext : Keeps R next) :
    Keeps R (Procedures.unlessHandled (stopIfDone s location) next) :=
  Keeps.unlessHandled hR (stopIfDone_watches hR location) (stopIfDone_refuses s location) hnext

/-- Only a clear result lets the rest follow. -/
theorem Keeps.afterClear {first rest : Scan ScanResult} (hfirst : Keeps R first)
    (hrest : Keeps R rest) :
    Keeps R (do
      match ← first with
      | .clear => rest
      | .finding found => pure (.finding found)
      | .failure e => pure (.failure e)) := by
  refine Graded.bind hR.chains hfirst (fun r hr => ?_) fun r hr => ?_
  · cases r with
    | clear => exact absurd rfl hr
    | finding found | failure e => exact fails_pure hR ScanResult.noConfusion
  · subst hr
    exact hrest

theorem scanEach_keeps {α : Type} {scan : α → Scan ScanResult} (h : ∀ a, Keeps R (scan a))
    (items : List α) : Keeps R (scanEach scan items) := by
  induction items with
  | nil => exact keeps_pure hR _
  | cons a rest ih => exact Keeps.afterClear hR (h a) ih

theorem refusing_keeps (path : Bytes) {m : Scan (Option Bytes)} (hm : Graded R (· = none) m) :
    Graded R (· = none) (refusing path m) :=
  Graded.bind_option hR.chains hm (fun _ => Fails.pure hR.chains (by simp))
    (Graded.pure hR.chains _)

theorem openZIP_keeps (data : Bytes) :
    Graded R (fun r => ∃ files, r = .ok files) (openZIP s data) :=
  Graded.bind_option hR.chains (check_watches hR _) (fun _ => Fails.pure hR.chains (by simp))
    (Graded.pure hR.chains _)

theorem findingOnly_follows {m : Scan ScanResult} (hm : Follows (R False) m) :
    Follows (R False) (findingOnly m) := by
  refine Follows.bind hR.chains.falls hm fun r => ?_
  cases r <;> exact Follows.pure hR.chains.falls _

theorem stopIfDone_follows (location : Bytes) : Follows (R False) (stopIfDone s location) :=
  (stopIfDone_watches hR location).follows hR.chains

end Rules

/-! ### Archives -/

/-- The relations, one for each number of archive levels, are kept by the basic steps of
a scan; entering an archive costs a level. -/
structure Steps (s : Scanner) (R : ℕ → Grading) : Prop where
  watches : ∀ n, Watches (R n)
  named : ∀ n entry, Graded (R n) (fun _ => True) (log [.nameChecked entry])
  passed : ∀ n entry data, Graded (R n) (fun _ => True) (log [.passedOn entry data])
  readEntry : ∀ n stream, Graded (R n) (·.err = none) (readArchiveEntry s stream)
  beginFile : ∀ n size, Graded (R n) (· = none) (beginArchiveFile s size)
  admission : ∀ n data, Graded (R n) (fun r => ∃ a, r = .ok a) (admitZIPDirectory s data)
  within : ∀ {n p state events state'} (format : ArchiveFormat) (data : Bytes),
    R n p state events state' → R (n + 1) p state [.archive format data events] state'

section Archives

variable {s : Scanner} {R : ℕ → Grading} (hR : Steps s R) {n : ℕ} {inner : FileScan}
  (hinner : FileKeeps (R n) inner)

include hR

theorem checkEntryName_keeps (entry : Entry) (path name : Bytes) :
    Graded (R n) (· = none) (checkEntryName s entry path name) :=
  Graded.after (hR.watches n).chains (hR.named n entry) fun _ =>
    Graded.pure (hR.watches n).chains _

include hinner

theorem scanEntry_keeps (entry : Entry) (path name : Bytes) (stream : Stream) :
    Keeps (R n) (scanEntry s inner entry path name stream) := by
  have hw := hR.watches n
  refine Graded.bind hw.chains (hR.readEntry n stream) (fun contents hcontents => ?_)
    fun contents hcontents => ?_
  · cases hfinding : signatureFinding s path contents.data with
    | some found => exact fails_pure hw (signatureFinding_ne_clear s path _ found hfinding)
    | none =>
      cases herr : contents.err with
      | none => exact absurd herr hcontents
      | some err => exact fails_pure hw ScanResult.noConfusion
  · rw [hcontents]
    cases signatureFinding s path contents.data with
    | some found => exact keeps_pure hw _
    | none => exact Graded.after hw.chains (hR.passed n entry _) fun _ => hinner _ _ _ _

variable (location data : Bytes)

theorem scanZIPFile_keeps (file : ZipFile) : Keeps (R n) (scanZIPFile s inner location file) := by
  have hw := hR.watches n
  refine Keeps.unlessDone hw location (Keeps.guard hw (Keeps.guard hw ?_))
  refine Keeps.unlessHandled hw (checkEntryName_keeps hR _ _ _) (checkEntryName_refuses s _ _ _) ?_
  refine Keeps.unlessHandled hw (refusing_keeps hw _ (checkArchiveFileSize_watches hw _))
    (refusing_refuses _ _) ?_
  cases file.contents with
  | error err => exact keeps_pure hw _
  | ok stream => exact scanEntry_keeps hR hinner _ _ _ stream

theorem scanTAREntry_keeps (entry : TarEntry) :
    Keeps (R n) (scanTAREntry s inner location entry) := by
  have hw := hR.watches n
  refine Keeps.unlessDone hw location (Keeps.guard hw (Keeps.guard hw ?_))
  refine Keeps.unlessHandled hw (refusing_keeps hw _ (hR.beginFile n _)) (refusing_refuses _ _) ?_
  refine Keeps.unlessHandled hw (checkEntryName_keeps hR _ _ _) (checkEntryName_refuses s _ _ _) ?_
  exact scanEntry_keeps hR hinner _ _ _ _

/-! A ZIP file without a readable directory never ends clear. -/

theorem scanPartialContents_follows (path : Bytes) (h : LocalHeader) (available : ℕ)
    (stream : Stream) :
    Follows (R n False) (scanPartialContents s inner path h available stream) := by
  have hc := (hR.watches n).chains.falls
  refine Follows.bind hc ((hR.readEntry n stream).follows (hR.watches n).chains) fun contents => ?_
  cases signatureFinding s path contents.data with
  | some found => exact Follows.pure hc _
  | none =>
    have hdeeper := (hinner path h.name octetStream contents.data).follows (hR.watches n).chains
    exact Follows.unlessHandled hc
      (Follows.ite (findingOnly_follows (hR.watches n) hdeeper) (Follows.pure hc _))
      (Follows.pure hc _)

theorem scanPartialEntry_follows (h : LocalHeader) :
    Follows (R n False) (scanPartialEntry s inner location data h) := by
  have hw := hR.watches n
  have hc := hw.chains.falls
  refine Follows.ite (Follows.pure hc _) (Follows.ite (Follows.pure hc _) ?_)
  split
  · exact Follows.pure hc _
  · refine Follows.unlessHandled hc
      ((refusing_keeps hw _ (hR.beginFile n _)).follows hw.chains) ?_
    split
    · exact Follows.pure hc _
    · exact scanPartialContents_follows hR hinner _ h _ _

theorem scanPartialFrom_follows (fuel offset : ℕ) :
    Follows (R n False) (scanPartialFrom s inner location data fuel offset) := by
  have hc := (hR.watches n).chains.falls
  induction fuel generalizing offset with
  | zero => exact Follows.pure hc _
  | succ fuel ih =>
    refine Follows.ite (Follows.unlessHandled hc (stopIfDone_follows (hR.watches n) location) ?_)
      (Follows.pure hc _)
    refine Follows.bind hc (scanPartialEntry_follows hR hinner location data _) fun r => ?_
    cases r with
    | clear => exact ih _
    | finding found | failure e => exact Follows.pure hc _

theorem scanUnreadableZIP_fails (err : Bytes) :
    Fails (R n) (· = .clear) (scanUnreadableZIP s inner location data err) := by
  refine ⟨scanUnreadableZIP_neverClear s inner location data err, ?_⟩
  have hc := (hR.watches n).chains.falls
  have hstop := stopIfDone_follows (s := s) (hR.watches n) location
  refine Follows.unlessHandled hc hstop ?_
  refine Follows.unlessHandled hc (Follows.unlessHandled hc ?_ ?_) (Follows.pure hc _)
  · exact Follows.bind hc hstop fun _ => Follows.pure hc _
  · refine Follows.ite (Follows.pure hc _) ?_
    exact Follows.bind hc (scanPartialFrom_follows hR hinner location data _ 0) fun _ =>
      Follows.pure hc _

theorem scanZIP_keeps : Keeps (R n) (scanZIP s inner location data) := by
  have hw := hR.watches n
  refine Keeps.unlessDone hw location ?_
  refine Graded.bind_except hw.chains (hR.admission n data) (fun e => ?_) fun _ => ?_
  · cases e with
    | format => exact scanUnreadableZIP_fails hR hinner location data _
    | refused err => exact fails_pure hw ScanResult.noConfusion
  · refine Graded.bind_except hw.chains (openZIP_keeps hw data)
      (scanUnreadableZIP_fails hR hinner location data) fun files => ?_
    exact scanEach_keeps hw (scanZIPFile_keeps hR hinner location) files

theorem scanTAR_keeps : Keeps (R n) (scanTAR s inner location data) := by
  have hw := hR.watches n
  refine Keeps.afterClear hw (scanEach_keeps hw (scanTAREntry_keeps hR hinner location) _) ?_
  refine Keeps.unlessDone hw location ?_
  cases (s.library.tarReader data).2 <;> exact keeps_pure hw _

theorem scanCompressed_keeps (innerName : Bytes) (stream : Stream) :
    Keeps (R n) (scanCompressed s inner location innerName stream) := by
  have hw := hR.watches n
  refine Keeps.unlessHandled hw (refusing_keeps hw _ (hR.beginFile n 0)) (refusing_refuses _ _) ?_
  refine Graded.bind hw.chains (hR.readEntry n stream) (fun contents hcontents => ?_)
    fun contents hcontents => ?_
  · cases herr : contents.err with
    | none => exact absurd herr hcontents
    | some err => exact fails_pure hw ScanResult.noConfusion
  · rw [hcontents]
    exact hinner _ _ _ _

/-- An archive uses up one level. -/
theorem scanArchive_keeps (format : ArchiveFormat) (location filename data : Bytes) :
    Keeps (R (n + 1)) (scanArchive s inner format location filename data) := by
  have hwithin : ∀ {m : Scan ScanResult}, Keeps (R n) m →
      Keeps (R (n + 1)) (ArchiveBudgets.within format data m) :=
    fun hm state => hR.within format data (hm state)
  cases format with
  | zip => exact hwithin (scanZIP_keeps hR hinner location data)
  | tar => exact hwithin (scanTAR_keeps hR hinner location data)
  | gzip =>
    refine hwithin ?_
    unfold scanGzip
    cases s.library.gunzip data with
    | error err => exact keeps_pure (hR.watches n) _
    | ok opened => exact scanCompressed_keeps hR hinner location _ opened.2
  | bzip2 => exact hwithin (scanCompressed_keeps hR hinner location _ _)

end Archives

/-! ### Files -/

section Files

variable {s : Scanner} {R : ℕ → Grading} (hR : ∀ n, Watches (R n))
  (harchive : ∀ n inner, FileKeeps (R n) inner → ∀ format location filename data,
    Keeps (R (n + 1)) (scanArchive s inner format location filename data))

include hR harchive

theorem scanFileOver_keeps (n : ℕ) (deeper : Option FileScan)
    (hdeeper : ∀ inner, deeper = some inner → ∃ m, n = m + 1 ∧ FileKeeps (R m) inner) :
    FileKeeps (R n) (scanFileOver s deeper) := by
  intro location filename mediaType data
  refine Keeps.unlessDone (hR n) location ?_
  dsimp only
  split
  · exact keeps_pure (hR n) _
  · exact keeps_pure (hR n) _
  · refine Keeps.guard (hR n) ?_
    split
    · exact keeps_pure (hR n) _
    · exact keeps_pure (hR n) _
    · obtain ⟨m, rfl, hinner⟩ := hdeeper _ rfl
      exact harchive m _ hinner _ location filename data

theorem scanFile_keeps (levels : ℕ) : FileKeeps (R levels) (scanFile s levels) := by
  induction levels with
  | zero => exact scanFileOver_keeps hR harchive 0 none nofun
  | succ levels ih =>
    refine scanFileOver_keeps hR harchive (levels + 1) _ fun inner hinner => ⟨levels, rfl, ?_⟩
    exact Option.some.inj hinner ▸ ih

end Files

/-! ### MIME entities -/

section Entities

variable {s : Scanner} {R : Grading} (hR : Watches R)

include hR

theorem decodeTransferStrict_keeps (encoding data : Bytes) :
    Graded R (·.err = none) (decodeTransferStrict s encoding data) := by
  have hc := hR.chains
  unfold decodeTransferStrict
  cases transferReader s encoding data with
  | error err => exact Graded.pure hc _
  | ok stream =>
    refine Graded.ite (fun _ => Graded.pure hc _) fun _ => ?_
    refine Graded.bind hc (readContext_watches hR stream) (fun contents hcontents => ?_)
      fun contents _ => ?_
    · refine ⟨Ensures.ite (fun _ => ?_) fun _ => Ensures.pure hcontents, ?_⟩
      · exact Ensures.after fun _ => Ensures.pure (by simp)
      · exact Follows.ite (exhaust_watches hR _) (Follows.pure hc.falls _)
    · exact Graded.ite (fun _ => (exhaust_fails hR (by simp)).graded) fun _ => Graded.pure hc _

variable {inner : MIMEScan} (hinner : EntityKeeps R inner)

include hinner

theorem scanPart_keeps (mediaType location : Bytes) (index : ℕ) (part : Part) :
    Keeps R (scanPart s inner mediaType location index part) := by
  have hc := hR.chains
  refine Graded.bind hc (readContext_watches hR part.body) (fun contents hcontents => ⟨?_, ?_⟩)
    fun contents _ => Keeps.afterClear hR (hinner _ _ _ _ _) (keeps_pure hR _)
  · -- A part that was cut off fails even when what was read of it is clear.
    refine Ensures.after fun r => ?_
    cases r with
    | finding found | failure e => exact Ensures.pure ScanResult.noConfusion
    | clear =>
      cases herr : contents.err with
      | none => exact absurd herr hcontents
      | some err => exact Ensures.pure ScanResult.noConfusion
  · exact (Keeps.afterClear hR (hinner _ _ _ _ _) (keeps_pure hR _)).follows hc

theorem scanParts_keeps (mediaType location : Bytes) (err : Option Bytes) (index : ℕ)
    (firstError : Option ScanError) (parts : List Part) :
    Keeps R (scanParts s inner mediaType location err index firstError parts) := by
  induction parts generalizing index firstError with
  | nil => exact Keeps.unlessDone hR location (keeps_pure hR _)
  | cons part rest ih =>
    refine Keeps.unlessDone hR location ?_
    refine Graded.bind hR.chains (scanPart_keeps hR hinner mediaType location index part)
      (fun r hr => ?_) fun r hr => ?_
    · cases r with
      | clear => exact absurd rfl hr
      | finding found => exact fails_pure hR ScanResult.noConfusion
      | failure e =>
        refine ⟨?_, (ih _ _).follows hR.chains⟩
        cases firstError <;> exact scanParts_neverClear s inner mediaType location err _ _ rest
    · subst hr
      exact ih _ _

theorem scanRFC822_keeps (mimeDepth : ℕ) (data location : Bytes) :
    Keeps R (scanRFC822 s inner mimeDepth data location) := by
  refine Keeps.unlessDone hR location (Keeps.guard hR ?_)
  split
  · exact keeps_pure hR _
  · refine Graded.bind hR.chains (readContext_watches hR _) (fun body hbody => ?_)
      fun body hbody => ?_
    · cases herr : body.err with
      | none => exact absurd herr hbody
      | some err => exact fails_pure hR ScanResult.noConfusion
    · rw [hbody]
      exact hinner _ _ _ _ _

variable (hfile : FileKeeps R (scanTopFile s))

include hfile

variable (mimeDepth : ℕ)

theorem scanUndecoded_fails (a : Attachment) (decoded err : Bytes) :
    Fails R (· = .clear) (scanUndecoded s (scanRFC822 s inner mimeDepth) a decoded err) := by
  refine ⟨scanUndecoded_neverClear s _ a decoded err, ?_⟩
  have hc := hR.chains.falls
  have hmessage :=
    (scanRFC822_keeps (s := s) hR hinner mimeDepth decoded a.location).follows hR.chains
  have htop := (hfile a.location a.filename a.mediaType decoded).follows hR.chains
  unfold scanUndecoded
  split
  · exact Follows.pure hc _
  · refine Follows.unlessHandled hc (Follows.ite ?_ (Follows.pure hc _)) ?_
    · refine Follows.bind hc hmessage fun r => ?_
      cases r <;> exact Follows.pure hc _
    · exact Follows.unlessHandled hc
        (Follows.ite (findingOnly_follows hR htop) (Follows.pure hc _)) (Follows.pure hc _)

theorem scanAttachment_keeps (nested : Bool) (a : Attachment) (transferEncoding data : Bytes) :
    Keeps R (scanAttachment s (scanRFC822 s inner mimeDepth) nested a transferEncoding data) := by
  refine Graded.bind hR.chains (decodeTransferStrict_keeps hR transferEncoding data)
    (fun decoded hdecoded => ?_) fun decoded hdecoded => ?_
  · cases herr : decoded.err with
    | none => exact absurd herr hdecoded
    | some err => exact scanUndecoded_fails hR hinner hfile mimeDepth a _ err
  · rw [hdecoded]
    refine Graded.ite (fun _ => Keeps.guard hR (hfile _ _ _ _))
      fun _ => ?_
    exact Graded.ite (fun _ => scanRFC822_keeps hR hinner mimeDepth _ _) fun _ => hfile _ _ _ _

theorem scanEntity_keeps : EntityKeeps R (scanEntity s mimeDepth inner) := by
  intro contentType transferEncoding contentDisposition data location
  refine Keeps.unlessDone hR location ?_
  split
  · exact keeps_pure hR _
  · refine Graded.ite (fun _ => Keeps.guard hR ?_) fun _ => ?_
    · exact scanParts_keeps hR hinner _ _ _ 1 none _
    · unfold scanSingle
      split
      · exact keeps_pure hR _
      · refine Graded.ite (fun _ => scanAttachment_keeps hR hinner hfile _ _ _ _ _) fun _ => ?_
        dsimp only
        split
        · exact keeps_pure hR _
        · exact scanAttachment_keeps hR hinner hfile _ _ _ _ _

omit hinner in
/-- What the scan of files and the looks at the context keep, a whole scan keeps. -/
theorem scanMIME_keeps (levels : ℕ) : EntityKeeps R (scanMIME s levels) := by
  induction levels with
  | zero =>
    intro _ _ _ _ location
    exact Keeps.unlessDone hR location (keeps_pure hR _)
  | succ levels ih => exact scanEntity_keeps hR ih hfile _

end Entities

/-- What the basic steps keep, a whole scan keeps. -/
theorem scan_keeps {s : Scanner} {R : ℕ → Grading} (hR : Steps s R) (levels : ℕ) :
    EntityKeeps (R s.options.maxArchiveDepth.toNat) (scanMIME s levels) :=
  scanMIME_keeps (hR.watches _)
    (scanFile_keeps hR.watches (fun _ _ hinner => scanArchive_keeps hR hinner) _) levels

end MilterGuard.ScanTraversal
