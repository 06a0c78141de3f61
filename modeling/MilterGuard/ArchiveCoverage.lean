import MilterGuard.MailAddresses
import MilterGuard.ScanTraversal

/-!
Which entries of an archive a scan inspects. When a scan ends without a finding
and without an error, every archive it opened, at any depth, was read through
its directory, and the entries that were inspected are exactly those that are
not taken for directories or special files. An entry that carries a file but is
marked as something else is skipped.
-/
namespace MilterGuard.ArchiveCoverage

open Procedures ByteStrings ContentSignatures ArchiveBudgets ZipDirectories ArchiveScanner
open AttachmentScanner ScanTraversal

/-- The contents of an entry when it can be opened. -/
def contentsOf : Entry → Option Stream
  | .zip file => file.contents.toOption
  | .tar entry => some entry.contents

/-- The entry loops inspect the entry instead of skipping it. -/
def visible : Entry → Bool
  | .zip file => !file.isDir
  | .tar entry => entry.isRegular

/-- The directory, or the type flag, says that the entry carries a file. -/
def holdsFile : Entry → Bool
  | .zip file => file.carriesData
  | .tar entry => entry.regularFlag

/-- The entry is marked as a directory, or its mode as something else than a file. -/
def markedOther : Entry → Bool
  | .zip file => file.isDir
  | .tar entry => entry.specialMode

/-- For an entry that carries a file, only the mark decides whether it is skipped. -/
theorem visible_of_holdsFile {entry : Entry} (h : holdsFile entry = true) :
    visible entry = !markedOther entry := by
  cases entry with
  | zip file => rfl
  | tar entry =>
    have hflag : entry.typeflag = 0x30 ∨ entry.typeflag = 0 := by
      simpa [holdsFile, TarEntry.regularFlag] using h
    have htype : decide (entry.typeflag ∈ [0x32, 0x33, 0x34, 0x35, 0x36]) = false := by
      rcases hflag with hflag | hflag <;> rw [hflag] <;> decide
    simp only [visible, markedOther, TarEntry.isRegular, htype, Bool.not_false, Bool.and_true]

variable (log : List Event)

/-- The whole contents were read and handed to scanFile. -/
def Passed (entry : Entry) : Prop :=
  ∃ data, contentsOf entry = some ⟨data, none⟩ ∧ .passedOn entry data ∈ log

def Inspected (entry : Entry) : Prop :=
  .nameChecked entry ∈ log ∧ Passed log entry

theorem Passed.mono {first second : List Event} {entry : Entry} (h : Passed first entry)
    (hsub : first ⊆ second) : Passed second entry := by
  obtain ⟨data, hcontents, hpassed⟩ := h
  exact ⟨data, hcontents, hsub hpassed⟩

variable (s : Scanner)

/-- The entries that an archive of some format has. -/
def Lists : ArchiveFormat → Bytes → Entry → Prop
  | .zip, data, .zip file => ∃ files, s.library.zipReader data = .ok files ∧ file ∈ files
  | .tar, data, .tar entry => entry ∈ (s.library.tarReader data).1
  | _, _, _ => False

/-- Exactly the visible entries of the archive were inspected. -/
structure Complete (format : ArchiveFormat) (data : Bytes) (log : List Event) : Prop where
  inspected : ∀ entry, Lists s format data entry → visible entry = true → Inspected log entry
  named : ∀ entry, .nameChecked entry ∈ log → visible entry = true

/-- A log in which the names checked are those of `N`, the entries of `P` were
passed on, and every archive is complete. -/
structure LogOf (N P : Entry → Prop) (log : List Event) : Prop where
  named : ∀ entry, .nameChecked entry ∈ log ↔ N entry
  passed : ∀ entry, P entry → Passed log entry
  complete : ∀ format data inner, Occurs (.archive format data inner) log →
    Complete s format data inner

/-- A scan that ends clear leaves such a log. -/
def Traces (N P : Entry → Prop) (m : Scan ScanResult) : Prop :=
  ∀ state, (m state).value = .clear → LogOf s N P (m state).events

/-- No entry at all. -/
def noEntry : Entry → Prop := fun _ => False

variable {s : Scanner} {N N' P P' : Entry → Prop}

theorem LogOf.append {first second : List Event} (hfirst : LogOf s N P first)
    (hsecond : LogOf s N' P' second) :
    LogOf s (fun e => N e ∨ N' e) (fun e => P e ∨ P' e) (first ++ second) where
  named entry := by
    rw [List.mem_append, hfirst.named entry, hsecond.named entry]
  passed entry h := by
    rcases h with h | h
    · exact (hfirst.passed entry h).mono (List.subset_append_left _ _)
    · exact (hsecond.passed entry h).mono (List.subset_append_right _ _)
  complete format data inner h := by
    rcases occurs_append.mp h with h | h
    · exact hfirst.complete format data inner h
    · exact hsecond.complete format data inner h

theorem LogOf.congr {log : List Event} (h : LogOf s N P log) (hN : ∀ e, N e ↔ N' e)
    (hP : ∀ e, P' e → P e) : LogOf s N' P' log where
  named entry := (h.named entry).trans (hN entry)
  passed entry hentry := h.passed entry (hP entry hentry)
  complete := h.complete

/-- Budgets that ran out leave no trace of entries or archives. -/
theorem LogOf.of_exhausted {log : List Event} (h : ∀ e ∈ log, e = .exhausted) :
    LogOf s noEntry noEntry log where
  named entry := ⟨fun hentry => by simpa using h _ hentry, False.elim⟩
  passed _ hentry := hentry.elim
  complete format data inner hoccurs := by
    cases hoccurs with
    | here he | inside he _ => exact absurd (h _ he) (by simp)

/-- A log after one that leaves no trace of entries. -/
theorem LogOf.prepend {first log : List Event} (hfirst : LogOf s noEntry noEntry first)
    (h : LogOf s N P log) : LogOf s N P (first ++ log) :=
  (hfirst.append h).congr (fun e => iff_of_eq (false_or (N e))) fun _ he => Or.inr he

/-- A procedure that logs nothing but budgets. -/
def Quiet {α : Type} (m : Scan α) : Prop :=
  Follows (fun _ es _ => ∀ e ∈ es, e = Event.exhausted) m

theorem quiet_chains :
    Chains (fun (_ : ScanState) es (_ : ScanState) => ∀ e ∈ es, e = Event.exhausted) where
  refl _ := by simp
  trans hfirst hsecond := by
    exact List.forall_mem_append.mpr ⟨hfirst, hsecond⟩

theorem quiet_uncounted :
    Uncounted fun _ (_ : ScanState) es (_ : ScanState) => ∀ e ∈ es, e = Event.exhausted where
  chains := quiet_chains.graded
  look state e he := by simp [look] at he
  exhausted state e he := by simpa using he
  counts _ _ state e he := by simp at he

theorem stopIfDone_quiet (s : Scanner) (location : Bytes) : Quiet (stopIfDone s location) :=
  stopIfDone_watches quiet_uncounted.toWatches location

theorem readArchiveEntry_quiet (s : Scanner) (stream : Stream) :
    Quiet (readArchiveEntry s stream) := readArchiveEntry_keeps quiet_uncounted stream

theorem beginArchiveFile_quiet (s : Scanner) (declaredSize : ℕ) :
    Quiet (beginArchiveFile s declaredSize) := beginArchiveFile_keeps quiet_uncounted declaredSize

theorem refusing_quiet {path : Bytes} {m : Scan (Option Bytes)} (hm : Quiet m) :
    Quiet (refusing path m) := refusing_keeps quiet_uncounted.toWatches path hm

theorem admitZIPDirectory_quiet (s : Scanner) (data : Bytes) :
    Quiet (admitZIPDirectory s data) := admitZIPDirectory_keeps quiet_uncounted data

section Rules

variable {m : Scan (Option ScanResult)} {next : Scan ScanResult}

theorem NeverClear.traces {scan : Scan ScanResult} (h : NeverClear scan) : Traces s N P scan :=
  fun state hclear => absurd hclear (h state)

theorem neverClear_pure {r : ScanResult} (h : r ≠ .clear) : NeverClear (pure r) := Ensures.pure h

theorem Traces.congr {scan : Scan ScanResult} (h : Traces s N P scan) (hN : ∀ e, N e ↔ N' e)
    (hP : ∀ e, P' e → P e) : Traces s N' P' scan :=
  fun state hclear => (h state hclear).congr hN hP

/-- What only looks at the state and the budgets may come first. -/
theorem Traces.after {α : Type} {first : Scan α} {rest : α → Scan ScanResult} (hfirst : Quiet first)
    (hrest : ∀ state, Traces s N P (rest (first state).value)) :
    Traces s N P (first >>= rest) := by
  intro state hclear
  exact (LogOf.of_exhausted (hfirst state)).prepend (hrest state _ hclear)

theorem Traces.unlessHandled (hquiet : Quiet m) (hm : Refuses m) (hnext : Traces s N P next) :
    Traces s N P (unlessHandled m next) := by
  refine Traces.after hquiet fun state => ?_
  cases hvalue : (m state).value with
  | none => exact hnext
  | some r => exact (neverClear_pure (hm state r hvalue)).traces

theorem Traces.ite {c : Prop} [Decidable c] {first second : Scan ScanResult}
    (hfirst : c → Traces s N P first) (hsecond : ¬ c → Traces s N P second) :
    Traces s N P (if c then first else second) := iteInduction hfirst hsecond

theorem traces_pure (r : ScanResult) : Traces s noEntry noEntry (pure r) :=
  fun _ _ => LogOf.of_exhausted (by simp)

/-- An entry that is not shown is skipped, and nothing is logged for it. -/
theorem traces_hidden {entry : Entry} (h : visible entry = false) :
    Traces s (fun e => e = entry ∧ visible e = true) (fun e => e = entry ∧ visible e = true)
      (pure .clear) := by
  have hnone : ∀ e, ¬ (e = entry ∧ visible e = true) := by
    rintro _ ⟨rfl, hvisible⟩
    simp [h] at hvisible
  exact (traces_pure .clear).congr (fun e => iff_of_false id (hnone e)) hnone

theorem Traces.shown {entry : Entry} {scan : Scan ScanResult}
    (h : Traces s (· = entry) (· = entry) scan) (hvisible : visible entry = true) :
    Traces s (fun e => e = entry ∧ visible e = true) (fun e => e = entry ∧ visible e = true)
      scan := by
  have hall : ∀ e, e = entry ↔ e = entry ∧ visible e = true := fun e =>
    ⟨fun he => ⟨he, he ▸ hvisible⟩, And.left⟩
  exact h.congr hall fun e he => (hall e).mpr he

/-- A scan after another one that it does not clear of a finding or failure. -/
theorem Traces.bind {first : Scan ScanResult} {rest : ScanResult → Scan ScanResult}
    (hfirst : Traces s N P first) (hrest : Traces s noEntry noEntry (rest .clear))
    (hstop : ∀ r, r ≠ .clear → NeverClear (rest r)) : Traces s N P (first >>= rest) := by
  intro state hclear
  have hvalue : (first state).value = .clear := by
    by_contra hne
    exact hstop _ hne _ hclear
  rw [bind_run, hvalue] at hclear ⊢
  refine ((hfirst state hvalue).append (hrest _ hclear)).congr (fun e => ?_) fun _ he => Or.inl he
  exact iff_of_eq (or_false (N e))

/-- The name check puts its entry into the log. -/
theorem Traces.checkEntryName {entry : Entry} {path name : Bytes}
    (hnext : Traces s noEntry P next) :
    Traces s (· = entry) P
      (Procedures.unlessHandled (ArchiveScanner.checkEntryName s entry path name) next) := by
  intro state hclear
  have hlog : LogOf s (· = entry) noEntry [.nameChecked entry] := by
    refine ⟨fun e => ?_, fun _ he => he.elim, fun format data inner hoccurs => ?_⟩
    · rw [List.mem_singleton]
      exact Event.nameChecked.injEq e entry ▸ Iff.rfl
    · cases hoccurs with
      | here he | inside he _ => exact absurd (List.mem_singleton.mp he) (by simp)
  cases hname : nameFinding s path name with
  | some r =>
    refine absurd hclear ?_
    simpa [Procedures.unlessHandled, ArchiveScanner.checkEntryName, hname] using
      nameFinding_ne_clear s path name r hname
  | none =>
    simp only [ArchiveScanner.checkEntryName, hname] at hclear ⊢
    refine (hlog.append (hnext state hclear)).congr (fun e => ?_) fun _ he => Or.inr he
    exact iff_of_eq (or_false (e = entry))

end Rules

/-- What is read without an error is the whole stream. -/
def Whole (stream : Stream) (m : Scan Stream) : Prop :=
  Ensures (fun contents => contents.err = none → contents = stream) m

theorem readContext_whole (stream : Stream) : Whole stream (readContext stream) := by
  refine Ensures.after fun answer => ?_
  cases answer with
  | none => exact Ensures.pure fun _ => rfl
  | some interruption => exact Ensures.pure fun h => by simp at h

theorem readLimitedEntry_whole (s : Scanner) (stream : Stream) (remaining : ℤ) :
    Whole stream (readLimitedEntry s stream remaining) := by
  refine Ensures.bind (readContext_whole stream) fun contents hwhole => ?_
  refine Ensures.after fun _ => Ensures.ite (fun _ => ?_) fun hlimit => Ensures.pure fun h => ?_
  · exact Ensures.after fun _ => Ensures.pure fun h => by simp at h
  · obtain rfl := hwhole h
    rw [List.take_of_length_le (Nat.not_lt.mp hlimit)]

theorem readArchiveEntry_whole (s : Scanner) (stream : Stream) :
    Whole stream (readArchiveEntry s stream) := by
  refine Ensures.after fun cancelled => ?_
  cases cancelled with
  | some e => exact Ensures.pure fun h => by simp at h
  | none =>
    refine Ensures.after fun remaining => Ensures.ite (fun _ => ?_) fun _ => ?_
    · exact Ensures.after fun _ => Ensures.pure fun h => by simp at h
    · exact readLimitedEntry_whole s stream remaining

/-- A scanner of files leaves no trace of entries outside the archives it opens. -/
def FileTraces (s : Scanner) (inner : FileScan) : Prop :=
  ∀ location filename mediaType data,
    Traces s noEntry noEntry (inner location filename mediaType data)

/-- What the loops over archive entries log for one of them. -/
def EntryTraces (s : Scanner) {α : Type} (entry : α → Entry) (scan : α → Scan ScanResult) : Prop :=
  ∀ a, Traces s (fun e => e = entry a ∧ visible e = true) (fun e => e = entry a ∧ visible e = true)
    (scan a)

section Entries

variable {inner : FileScan} (hinner : FileTraces s inner)

include hinner

theorem scanEntry_traces (entry : Entry) (path name : Bytes) (stream : Stream)
    (hcontents : contentsOf entry = some stream) :
    Traces s noEntry (· = entry) (scanEntry s inner entry path name stream) := by
  refine Traces.after (readArchiveEntry_quiet s stream) fun state => ?_
  cases hsignature : signatureFinding s path (readArchiveEntry s stream state).value.data with
  | some found =>
    exact (neverClear_pure (signatureFinding_ne_clear s path _ found hsignature)).traces
  | none =>
    cases herr : (readArchiveEntry s stream state).value.err with
    | some err => exact (neverClear_pure ScanResult.noConfusion).traces
    | none =>
      have hwhole := readArchiveEntry_whole s stream state herr
      rw [hwhole] at herr ⊢
      intro state' hclear
      have hrest := hinner path name octetStream stream.data state' hclear
      refine ⟨fun e => ?_, fun e he => ?_, fun format data log hoccurs => ?_⟩
      · simpa using hrest.named e
      · subst he
        refine ⟨stream.data, ?_, by simp⟩
        rw [hcontents, ← herr]
      · rcases occurs_append.mp hoccurs with hoccurs | hoccurs
        · cases hoccurs with
          | here he | inside he _ => simp at he
        · exact hrest.complete format data log hoccurs

theorem scanZIPFile_traces (location : Bytes) :
    EntryTraces s .zip (scanZIPFile s inner location) := by
  intro file
  refine Traces.unlessHandled (stopIfDone_quiet s location) (stopIfDone_refuses s location) ?_
  refine Traces.ite (fun hdir => ?_) fun hdir => Traces.ite (fun _ => ?_) fun _ => ?_
  · exact traces_hidden (by simp [visible, hdir])
  · exact (neverClear_pure ScanResult.noConfusion).traces
  · refine Traces.shown ?_ (by simp [visible, hdir])
    refine Traces.checkEntryName ?_
    refine Traces.unlessHandled
      (refusing_quiet (checkArchiveFileSize_watches quiet_uncounted.toWatches _))
      (refusing_refuses _ _) ?_
    cases hcontents : file.contents with
    | error err => exact (neverClear_pure ScanResult.noConfusion).traces
    | ok stream =>
      refine scanEntry_traces hinner (.zip file) _ file.name stream ?_
      simp [contentsOf, hcontents, Except.toOption]

theorem scanTAREntry_traces (location : Bytes) :
    EntryTraces s .tar (scanTAREntry s inner location) := by
  intro entry
  refine Traces.unlessHandled (stopIfDone_quiet s location) (stopIfDone_refuses s location) ?_
  refine Traces.ite (fun hother => ?_) fun hregular => Traces.ite (fun _ => ?_) fun _ => ?_
  · exact traces_hidden (by simp [visible, hother])
  · exact (neverClear_pure ScanResult.noConfusion).traces
  · refine Traces.shown ?_ (by simpa [visible] using hregular)
    refine Traces.unlessHandled (refusing_quiet (beginArchiveFile_quiet s _))
      (refusing_refuses _ _) ?_
    exact Traces.checkEntryName (scanEntry_traces hinner (.tar entry) _ entry.name _ rfl)

end Entries

/-- The items of a loop are inspected one after the other. -/
theorem scanEach_traces {α : Type} {entry : α → Entry} {scan : α → Scan ScanResult}
    (h : EntryTraces s entry scan) (items : List α) :
    Traces s (fun e => (∃ a ∈ items, e = entry a) ∧ visible e = true)
      (fun e => (∃ a ∈ items, e = entry a) ∧ visible e = true) (scanEach scan items) := by
  induction items with
  | nil => exact (traces_pure .clear).congr (by simp [noEntry]) (by simp [noEntry])
  | cons a rest ih =>
    intro state hclear
    have hcases : ∀ e, (e = entry a ∧ visible e = true) ∨
        ((∃ b ∈ rest, e = entry b) ∧ visible e = true) ↔
        (∃ b ∈ a :: rest, e = entry b) ∧ visible e = true := by
      intro e
      simp only [List.mem_cons, exists_eq_or_imp]
      exact or_and_right.symm
    cases hvalue : (scan a state).value with
    | clear =>
      simp only [scanEach, bind_run, hvalue] at hclear ⊢
      have hfirst := h a state hvalue
      exact (hfirst.append (ih _ hclear)).congr hcases fun e he => (hcases e).mpr he
    | finding found | failure e => simp [scanEach, hvalue] at hclear

theorem openZIP_reads (s : Scanner) (data : Bytes) :
    Ensures (fun opened => ∀ files, opened = .ok files → s.library.zipReader data = .ok files)
      (openZIP s data) := by
  refine Ensures.after fun cancelled => ?_
  cases cancelled with
  | some e => exact Ensures.pure fun files h => by simp at h
  | none => exact Ensures.pure fun files h => h

/-- The visible entries of an archive. -/
def shown (s : Scanner) (format : ArchiveFormat) (data : Bytes) : Entry → Prop :=
  fun e => Lists s format data e ∧ visible e = true

section Archives

variable {inner : FileScan} (hinner : FileTraces s inner)

include hinner

theorem scanZIP_traces (location data : Bytes) :
    Traces s (shown s .zip data) (shown s .zip data) (scanZIP s inner location data) := by
  refine Traces.unlessHandled (stopIfDone_quiet s location) (stopIfDone_refuses s location) ?_
  refine Traces.after (admitZIPDirectory_quiet s data) fun state => ?_
  match (admitZIPDirectory s data state).value with
  | .error (.refused err) => exact (neverClear_pure ScanResult.noConfusion).traces
  | .error .format => exact (scanUnreadableZIP_neverClear s inner location data _).traces
  | .ok () =>
    refine Traces.after (openZIP_keeps quiet_uncounted.toWatches data) fun state' => ?_
    cases hopen : (openZIP s data state').value with
    | error err => exact (scanUnreadableZIP_neverClear s inner location data err).traces
    | ok files =>
      have hfiles := openZIP_reads s data state' files hopen
      have hlists : ∀ e, ((∃ file ∈ files, e = Entry.zip file) ∧ visible e = true) ↔
          shown s .zip data e := by
        intro e
        refine and_congr_left fun _ => ?_
        cases e with
        | zip file => simp [Lists, hfiles]
        | tar entry => simp [Lists]
      exact (scanEach_traces (scanZIPFile_traces hinner location) files).congr hlists
        fun e he => (hlists e).mpr he

theorem scanTAR_traces (location data : Bytes) :
    Traces s (shown s .tar data) (shown s .tar data) (scanTAR s inner location data) := by
  have hlists : ∀ e, ((∃ entry ∈ (s.library.tarReader data).1, e = Entry.tar entry) ∧
      visible e = true) ↔ shown s .tar data e := by
    intro e
    refine and_congr_left fun _ => ?_
    cases e with
    | zip file | tar entry => simp [Lists]
  have hentries := (scanEach_traces (scanTAREntry_traces hinner location)
    (s.library.tarReader data).1).congr hlists fun e he => (hlists e).mpr he
  refine hentries.bind ?_ fun r hr => ?_
  · refine Traces.unlessHandled (stopIfDone_quiet s location) (stopIfDone_refuses s location) ?_
    cases (s.library.tarReader data).2 with
    | none | some err => exact traces_pure _
  · cases r with
    | clear => exact absurd rfl hr
    | finding found | failure e => exact Ensures.pure ScanResult.noConfusion

theorem scanCompressed_traces (location innerName : Bytes) (stream : Stream) :
    Traces s noEntry noEntry (scanCompressed s inner location innerName stream) := by
  refine Traces.unlessHandled (refusing_quiet (beginArchiveFile_quiet s 0))
    (refusing_refuses _ _) ?_
  refine Traces.after (readArchiveEntry_quiet s stream) fun state => ?_
  cases (readArchiveEntry s stream state).value.err with
  | some err => exact traces_pure _
  | none => exact hinner _ _ _ _

theorem scanFormat_traces (format : ArchiveFormat) (location filename data : Bytes) :
    Traces s (shown s format data) (shown s format data) (match format with
      | .zip => scanZIP s inner location data
      | .tar => scanTAR s inner location data
      | .gzip => scanGzip s inner location filename data
      | .bzip2 => scanBzip2 s inner location filename data) := by
  have hnone : ∀ e, noEntry e ↔ False ∧ visible e = true := by simp [noEntry]
  cases format with
  | zip => exact scanZIP_traces hinner location data
  | tar => exact scanTAR_traces hinner location data
  | gzip =>
    refine Traces.congr (N := noEntry) (P := noEntry) ?_ hnone fun e he => he.1
    unfold scanGzip
    cases s.library.gunzip data with
    | error err => exact traces_pure _
    | ok opened => exact scanCompressed_traces hinner location _ opened.2
  | bzip2 =>
    refine Traces.congr (N := noEntry) (P := noEntry) ?_ hnone fun e he => he.1
    exact scanCompressed_traces hinner location _ _

/-- The log of an archive becomes one event, and the archive is complete. -/
theorem scanArchive_traces (format : ArchiveFormat) (location filename data : Bytes) :
    Traces s noEntry noEntry (scanArchive s inner format location filename data) := by
  intro state hclear
  have hlog := scanFormat_traces hinner format location filename data state hclear
  refine ⟨fun e => ?_, fun e he => he.elim, fun format' data' log hoccurs => ?_⟩
  · simp [scanArchive, within, noEntry]
  · rcases occurs_archive.mp hoccurs with hself | hoccurs
    · obtain ⟨rfl, rfl, rfl⟩ := Event.archive.inj hself
      refine ⟨fun entry hlists hvisible => ?_, fun entry hnamed => ?_⟩
      · exact ⟨(hlog.named entry).mpr ⟨hlists, hvisible⟩, hlog.passed entry ⟨hlists, hvisible⟩⟩
      · exact ((hlog.named entry).mp hnamed).2
    · exact hlog.complete format' data' log hoccurs

end Archives

/-- No trace of entries when all went well. -/
theorem traces_watches (s : Scanner) :
    Watches fun p (_ : ScanState) es (_ : ScanState) => p → LogOf s noEntry noEntry es where
  chains := Chains.whenGood ⟨fun _ => LogOf.of_exhausted (by simp), LogOf.prepend⟩
  look state _ := LogOf.of_exhausted (quiet_uncounted.look state)
  exhausted _ h := h.elim

/-- Every level of archives is complete when the scan of the file ends clear. -/
theorem scanFile_traces (s : Scanner) (levels : ℕ) : FileTraces s (scanFile s levels) :=
  scanFile_keeps (fun _ => traces_watches s) (fun _ _ hinner => scanArchive_traces hinner) levels

/-- A scanner of MIME entities leaves no trace of entries outside archives. -/
def EntityTraces (s : Scanner) (inner : MIMEScan) : Prop :=
  ∀ contentType transferEncoding contentDisposition data location,
    Traces s noEntry noEntry
      (inner contentType transferEncoding contentDisposition data location)

theorem scanMIME_traces (s : Scanner) (levels : ℕ) : EntityTraces s (scanMIME s levels) :=
  scanMIME_keeps (traces_watches s) (scanFile_traces s _) levels

/-- After a clear scan the archives opened anywhere in the message are complete. -/
theorem scanContext_complete (s : Scanner) (ctx : Context)
    (contentType transferEncoding contentDisposition body : Bytes)
    (hclear : (scanContext s ctx contentType transferEncoding contentDisposition body).value =
      .clear)
    {format : ArchiveFormat} {data : Bytes} {log : List Event}
    (hopened : Occurs (.archive format data log)
      (scanContext s ctx contentType transferEncoding contentDisposition body).events) :
    Complete s format data log :=
  (scanMIME_traces s maxMIMEDepth _ _ _ _ _ _ hclear).complete format data log hopened

/-- An entry of a ZIP file without compression, with Unix mode bits. -/
structure StoredEntry where
  name : Bytes
  data : Bytes
  crc : ℕ
  flags : ℕ
  mode : ℕ

def littleEndianBytes (value count : ℕ) : Bytes :=
  (List.range count).map fun i => UInt8.ofNat (value / 256 ^ i)

variable (e : StoredEntry)

/-- The fields that the local and the central header share. -/
def StoredEntry.header : Bytes :=
  [0x14, 0] ++ littleEndianBytes e.flags 2 ++ [0, 0, 0, 0, 0x21, 0] ++ littleEndianBytes e.crc 4 ++
    littleEndianBytes e.data.length 4 ++ littleEndianBytes e.data.length 4 ++
    littleEndianBytes e.name.length 2 ++ [0, 0]

def StoredEntry.localBytes : Bytes :=
  [0x50, 0x4B, 3, 4] ++ e.header ++ e.name ++ e.data

def StoredEntry.centralBytes (offset : ℕ) : Bytes :=
  [0x50, 0x4B, 1, 2, 0x14, 3] ++ e.header ++ [0, 0, 0, 0, 0, 0, 0, 0] ++
    littleEndianBytes e.mode 2 ++ littleEndianBytes offset 4 ++ e.name

def centralDirectory : ℕ → List StoredEntry → Bytes
  | _, [] => []
  | offset, e :: rest =>
    e.centralBytes offset ++ centralDirectory (offset + e.localBytes.length) rest

/-- A ZIP file of stored entries. -/
def storedZIP (entries : List StoredEntry) : Bytes :=
  let files := entries.flatMap StoredEntry.localBytes
  let directory := centralDirectory 0 entries
  files ++ directory ++ [0x50, 0x4B, 5, 6, 0, 0, 0, 0] ++ littleEndianBytes entries.length 2 ++
    littleEndianBytes entries.length 2 ++ littleEndianBytes directory.length 4 ++
    littleEndianBytes files.length 4 ++ [0, 0]

def readStoredFiles (data : Bytes) : ℕ → ℕ → List ZipFile
  | 0, _ => []
  | count + 1, offset =>
    let nameLength := uint16 data (offset + 28)
    let header := uint32 data (offset + 42)
    let start := header + 30 + uint16 data (header + 26) + uint16 data (header + 28)
    { name := slice data (offset + 46) (offset + 46 + nameLength)
      flags := UInt16.ofNat (uint16 data (offset + 8))
      creatorVersion := UInt16.ofNat (uint16 data (offset + 4))
      externalAttrs := UInt32.ofNat (uint32 data (offset + 38))
      compressedSize64 := uint32 data (offset + 20)
      uncompressedSize64 := uint32 data (offset + 24)
      contents := .ok ⟨slice data start (start + uint32 data (offset + 20)), none⟩ } ::
    readStoredFiles data count (offset + 46 + nameLength)

/-- Decoders for what needs no decoding: stored ZIP entries, bare media types. -/
def plainLibrary : Library where
  table := MailAddresses.asciiTable
  nfkc := id
  quote := id
  parseMediaType value :=
    if value = [] then .error (ascii "mime: no media type") else .ok (value, [])
  decodeHeader := .ok
  charsetReader _ := .error []
  multipart _ _ := ([], none)
  readMessage _ := .error []
  base64 data := ⟨data, none⟩
  quotedPrintable data := ⟨data, none⟩
  inflate data := ⟨data, none⟩
  gunzip _ := .error []
  bunzip2 data := ⟨data, none⟩
  zipReader data :=
    .ok (readStoredFiles data (uint16 data (data.length - 12)) (uint32 data (data.length - 6)))
  tarReader _ := ([], none)

/-- The default limits, with executables blocked. -/
def plainScanner : Scanner :=
  Scanner.new plainLibrary
    ⟨[ascii "exe"], true, true, 10 * 2 ^ 20, 2, 100, 50 * 2 ^ 20⟩

/-- The archives in a log, each with the number of events in its own log. -/
def openedIn : List (ArchiveFormat × Bytes × ℕ) :=
  log.filterMap fun
    | .archive format data inner => some (format, data, inner.length)
    | _ => none

theorem occurs_of_openedIn {log : List Event} {format : ArchiveFormat} {data : Bytes} {n : ℕ}
    (h : (format, data, n) ∈ openedIn log) :
    ∃ inner, Occurs (.archive format data inner) log ∧ inner.length = n := by
  obtain ⟨e, he, hsome⟩ := List.mem_filterMap.mp h
  cases e with
  | archive format' data' inner =>
    simp only [Option.some.injEq, Prod.mk.injEq] at hsome
    obtain ⟨rfl, rfl, hlength⟩ := hsome
    exact ⟨inner, .here he, hlength⟩
  | nameChecked entry | passedOn entry data' | exhausted => simp at hsome

def noteZIP : Bytes := storedZIP [⟨ascii "a.txt", ascii "hi", 0xD8932AAC, 0, 0o100644⟩]

/-- In a scan that ends clear, the files of an archive are all inspected exactly when
none of them is marked as a directory or as a special file. -/
theorem archive_files_inspected_iff (s : Scanner) (ctx : Context)
    (contentType transferEncoding contentDisposition body : Bytes)
    (hclear : (scanContext s ctx contentType transferEncoding contentDisposition body).value =
      .clear)
    (format : ArchiveFormat) (data : Bytes) (log : List Event)
    (hopened : Occurs (.archive format data log)
      (scanContext s ctx contentType transferEncoding contentDisposition body).events) :
    (∀ entry, Lists s format data entry → holdsFile entry = true → Inspected log entry) ↔
      ∀ entry, Lists s format data entry → holdsFile entry = true → markedOther entry = false := by
  have hcomplete := scanContext_complete s ctx contentType transferEncoding contentDisposition body
    hclear hopened
  constructor
  · intro hall entry hlists hfile
    have hvisible := hcomplete.named entry (hall entry hlists hfile).1
    rw [visible_of_holdsFile hfile] at hvisible
    simpa using hvisible
  · intro hall entry hlists hfile
    refine hcomplete.inspected entry hlists ?_
    rw [visible_of_holdsFile hfile, hall entry hlists hfile]
    rfl

theorem archive_files_inspected_note :
    ∃ log, Occurs (.archive .zip noteZIP log)
        (scanContext plainScanner background (ascii "application/zip") [] [] noteZIP).events ∧
      ((∀ entry, Lists plainScanner .zip noteZIP entry → holdsFile entry = true →
          Inspected log entry) ↔
        ∀ entry, Lists plainScanner .zip noteZIP entry → holdsFile entry = true →
          markedOther entry = false) := by
  have hopened : (ArchiveFormat.zip, noteZIP, 2) ∈ openedIn
      (scanContext plainScanner background (ascii "application/zip") [] [] noteZIP).events := by
    decide +kernel
  obtain ⟨log, hlog, -⟩ := occurs_of_openedIn hopened
  exact ⟨log, hlog, archive_files_inspected_iff plainScanner background (ascii "application/zip")
    [] [] noteZIP (by decide +kernel) .zip noteZIP log hlog⟩

/-- An executable whose mode bits say that it is a directory. -/
def disguisedZIP : Bytes := storedZIP [⟨ascii "run.exe", ascii "MZ", 0x8FB09B5D, 0, 0o40755⟩]

def disguisedFile : ZipFile where
  name := ascii "run.exe"
  flags := 0
  creatorVersion := 0x314
  externalAttrs := 0x41ED0000
  compressedSize64 := 2
  uncompressedSize64 := 2
  contents := .ok ⟨ascii "MZ", none⟩

/-- The scan ends clear although the only file of the archive was not looked at. -/
theorem directory_mark_hides_file :
    (scanContext plainScanner background (ascii "application/zip") [] [] disguisedZIP).value =
        .clear ∧
      ∃ log, Occurs (.archive .zip disguisedZIP log) (scanContext plainScanner background
          (ascii "application/zip") [] [] disguisedZIP).events ∧
        Lists plainScanner .zip disguisedZIP (.zip disguisedFile) ∧
        holdsFile (.zip disguisedFile) = true ∧ ¬ Inspected log (.zip disguisedFile) := by
  have hopened : (ArchiveFormat.zip, disguisedZIP, 0) ∈ openedIn (scanContext plainScanner
      background (ascii "application/zip") [] [] disguisedZIP).events := by
    decide +kernel
  obtain ⟨log, hlog, hempty⟩ := occurs_of_openedIn hopened
  obtain rfl := List.length_eq_zero_iff.mp hempty
  refine ⟨by decide +kernel, [], hlog, ⟨[disguisedFile], ?_, by simp⟩, by decide, ?_⟩
  · decide +kernel
  · exact fun h => absurd h.1 (List.not_mem_nil)

end MilterGuard.ArchiveCoverage
