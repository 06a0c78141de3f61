import MilterGuard.Precedence
import MilterGuard.BudgetIndependence
import MilterGuard.AttachmentPolicy
import MilterGuard.ArchiveCoverage

/-!
How the results for the parts of a multipart entity, or the entries of an
archive, decide about the whole. A multipart entity takes a finding from any of
its parts, and otherwise the first failure. An archive takes the first entry
that is not clear, so a failed inspection hides what stands behind it. The
policy is never weaker than for one of the siblings alone exactly when nothing
stricter stands behind the sibling that decides.
-/
namespace MilterGuard.SiblingMasking

open Procedures Lockstep Precedence ByteStrings Hostnames MessageBuffer AttachmentNames
open ContentSignatures ArchiveBudgets ZipDirectories ArchiveScanner AttachmentScanner
open BudgetIndependence AttachmentPolicy ArchiveCoverage
open SessionState (Action)

/-- The state in which a scan starts that is never cancelled. -/
def fresh : ScanState := ScanState.new background

theorem fresh_related :
    ∀ state state', budgets.related state state' → budgets.related fresh state' :=
  fun _ _ h => Roomier.ready h |>.roomier

variable {s : Scanner}

theorem stopIfDone_gives (location : Bytes) :
    Gives budgets fresh id none (stopIfDone s location) := by
  refine Gives.bind_same ((check_agree s location location).gives fresh_related) (Gives.pure ?_)
  rfl

theorem kindOf_eq_clear {r : ScanResult} : kindOf r = .clear ↔ r = .clear := by
  cases r with
  | clear | finding found => simp [kindOf]
  | failure e => simp [kindOf, errorKind_ne_clear]

/-- The loop over archive entries takes the first entry that is not clear. -/
theorem scanEach_gives {α : Type} {scan : α → Scan ScanResult} {kind : α → Kind}
    (h : ∀ a, Gives budgets fresh kindOf (kind a) (scan a)) (items : List α) :
    Gives budgets fresh kindOf (firstStop .clear .clear (items.map kind))
      (scanEach scan items) := by
  induction items with
  | nil => exact Gives.pure rfl
  | cons a rest ih =>
    refine (h a).bind fun r hr => ?_
    rw [List.map_cons, firstStop]
    cases r with
    | clear =>
      have hclear : kind a = .clear := hr.symm
      rw [if_pos hclear]
      exact ih
    | finding found =>
      rw [if_neg (fun hclear => by simp [kindOf, hclear] at hr)]
      exact Gives.pure hr
    | failure e =>
      rw [if_neg (fun hclear => errorKind_ne_clear e (hr.trans hclear))]
      exact Gives.pure hr

/-- What the loop over the parts returns, given the kind of the failure it has kept. -/
def partsVerdict (kept : Option Kind) (rest : Kind) (kinds : List Kind) : Kind :=
  if .finding ∈ kinds then .finding else kept.getD (firstStop .clear rest kinds)

theorem scanParts_gives {inner : MIMEScan} {mediaType location : Bytes} {kind : Part → Kind}
    (h : ∀ index part,
      Gives budgets fresh kindOf (kind part) (scanPart s inner mediaType location index part))
    (err : Option Bytes) (index : ℕ) (firstError : Option ScanError) (parts : List Part) :
    Gives budgets fresh kindOf
      (partsVerdict (firstError.map errorKind) (kindOf (endParts location none err))
        (parts.map kind))
      (scanParts s inner mediaType location err index firstError parts) := by
  induction parts generalizing index firstError with
  | nil =>
    refine Gives.unlessHandled (stopIfDone_gives location) (Gives.pure ?_)
    cases firstError with
    | none => rfl
    | some e => rfl
  | cons part rest ih =>
    refine Gives.unlessHandled (stopIfDone_gives location) ((h index part).bind fun r hr => ?_)
    cases r with
    | clear =>
      have hclear : kind part = .clear := hr.symm
      have hsame : partsVerdict (firstError.map errorKind) (kindOf (endParts location none err))
          ((part :: rest).map kind) =
          partsVerdict (firstError.map errorKind) (kindOf (endParts location none err))
            (rest.map kind) := by
        simp [partsVerdict, hclear, firstStop]
      rw [hsame]
      exact ih _ _
    | finding found =>
      have hfinding : kind part = .finding := hr.symm
      refine Gives.pure ?_
      simp [partsVerdict, hfinding, kindOf]
    | failure e =>
      have hkind : kind part = errorKind e := hr.symm
      -- The failure is kept unless an earlier one was, and a later finding still wins.
      have hkept : partsVerdict (firstError.map errorKind) (kindOf (endParts location none err))
          ((part :: rest).map kind) =
          partsVerdict ((firstError.or (some e)).map errorKind)
            (kindOf (endParts location none err)) (rest.map kind) := by
        have hne : ¬ Kind.finding = errorKind e := fun h => errorKind_ne_finding e h.symm
        cases firstError with
        | none =>
          simp [partsVerdict, hkind, firstStop, hne, errorKind_ne_clear]
        | some first => simp [partsVerdict, hkind, hne]
      rw [hkept]
      exact ih _ _

/-- A multipart entity, or an archive, with what it contains and the error that ends
the reading of it early. -/
inductive Entity
  | multipart (mediaType : Bytes) (parts : List Part) (err : Option Bytes)
  | zip (files : List ZipFile)
  | tar (entries : List TarEntry) (err : Option Bytes)

/-- How many parts or entries the entity has. -/
def Entity.size : Entity → ℕ
  | .multipart _ parts _ => parts.length
  | .zip files => files.length
  | .tar entries _ => entries.length

/-- The entity with only one of its parts or entries. -/
def Entity.only : Entity → ℕ → Entity
  | .multipart mediaType parts _, i => .multipart mediaType parts[i]?.toList none
  | .zip files, i => .zip files[i]?.toList
  | .tar entries _, i => .tar entries[i]?.toList none

/-- Inspection of the entries of an archive that is attached itself. -/
def entryScan (s : Scanner) : FileScan := scanFile s (s.options.maxArchiveDepth.toNat - 1)

def partKind (s : Scanner) (mediaType : Bytes) (part : Part) : Kind :=
  kindOf (scanPart s (scanMIME s (maxMIMEDepth - 1)) mediaType (ascii "message") 1 part fresh).value

def zipFileKind (s : Scanner) (file : ZipFile) : Kind :=
  kindOf (scanZIPFile s (entryScan s) (ascii "message") file fresh).value

def tarEntryKind (s : Scanner) (entry : TarEntry) : Kind :=
  kindOf (scanTAREntry s (entryScan s) (ascii "message") entry fresh).value

/-- How the inspection of each part or entry ends when it is inspected alone. -/
def Entity.kinds (s : Scanner) : Entity → List Kind
  | .multipart mediaType parts _ => parts.map (partKind s mediaType)
  | .zip files => files.map (zipFileKind s)
  | .tar entries _ => entries.map (tarEntryKind s)

/-- How the inspection of the whole entity ends. -/
def Entity.verdict (s : Scanner) : Entity → Kind
  | .multipart mediaType parts err =>
    topFirst .clear .finding (kindOf (endParts [] none err))
      (Entity.kinds s (.multipart mediaType parts err))
  | .zip files => firstStop .clear .clear (Entity.kinds s (.zip files))
  | .tar entries err =>
    firstStop .clear (err.elim .clear fun _ => .unscannable) (Entity.kinds s (.tar entries err))

def contentType (s : Scanner) (msg : Message) : Bytes :=
  firstHeader s.text.table msg (ascii "Content-Type")

def contentDisposition (s : Scanner) (msg : Message) : Bytes :=
  firstHeader s.text.table msg (ascii "Content-Disposition")

def transferEncoding (s : Scanner) (msg : Message) : Bytes :=
  firstHeader s.text.table msg (ascii "Content-Transfer-Encoding")

/-- The message is one attached file that the scanner opens as an archive: it is not
refused by name or signature, not an attached message and not visible text. -/
structure AttachedArchive (s : Scanner) (msg : Message) (format : ArchiveFormat)
    (mediaType filename data : Bytes) : Prop where
  declared : ∃ params, declaredMediaType s (contentType s msg) = .ok (mediaType, params)
  single : hasPrefix mediaType (ascii "multipart/") = false
  named : attachmentFilename s.text (contentDisposition s msg) (contentType s msg) = .ok filename
  allowed : blockedExtension s.text s.blocked filename = none
  attached : filename = [] → mediaType = ascii "text/plain" ∨ mediaType = ascii "text/html" →
    explicitAttachment s.text (contentDisposition s msg) = true
  notEmail : mediaType ≠ ascii "message/rfc822"
  notSavedEmail : hasSuffix (toLower s.text.table filename) (ascii ".eml") = false
  decoded : transferReader s (transferEncoding s msg) msg.body = .ok ⟨data, none⟩
  harmless : s.options.inspectSignatures = true →
    prohibitedSignature s.text.table s.blocked data = none
  opened : s.options.inspectArchives = true
  format : archiveFormat s.text.table filename mediaType data = some format
  limit : 1 ≤ s.options.maxAttachmentBytes
  depth : 1 ≤ s.options.maxArchiveDepth

/-- The message is the entity: its body is multipart, or it is an attached archive
whose directory can be read. -/
def Carries (s : Scanner) (msg : Message) : Entity → Prop
  | .multipart mediaType parts err =>
    ∃ params, declaredMediaType s (contentType s msg) = .ok (mediaType, params) ∧
      hasPrefix mediaType (ascii "multipart/") = true ∧ parameter params (ascii "boundary") ≠ [] ∧
      s.library.multipart (parameter params (ascii "boundary")) msg.body = (parts, err)
  | .zip files =>
    ∃ mediaType filename data, AttachedArchive s msg .zip mediaType filename data ∧
      (admitZIPDirectory s data fresh).value = .ok () ∧ s.library.zipReader data = .ok files
  | .tar entries err =>
    ∃ mediaType filename data, AttachedArchive s msg .tar mediaType filename data ∧
      s.library.tarReader data = (entries, err)

section Runs

variable (s)

theorem decodeTransferStrict_gives {encoding data contents : Bytes}
    (hreader : transferReader s encoding data = .ok ⟨contents, none⟩)
    (hlimit : 1 ≤ s.options.maxAttachmentBytes) :
    Gives budgets fresh id ⟨contents, none⟩ (decodeTransferStrict s encoding data) := by
  rw [decodeTransferStrict, hreader]
  have hpositive : ¬ s.options.maxAttachmentBytes < 1 := by omega
  simp only [readLimited, if_neg hpositive]
  refine Gives.bind_same ((readContext_agree ⟨contents, none⟩).gives fresh_related) ?_
  exact Gives.limit (exhaust_bad _) (Gives.pure rfl)

theorem within_gives {format : ArchiveFormat} {data : Bytes} {m : Scan ScanResult} {kind : Kind}
    (h : Gives budgets fresh kindOf kind m) :
    Gives budgets fresh kindOf kind (within format data m) :=
  fun state hready hgood => h state hready fun hbad => hgood (occurs_archive.mpr (Or.inr hbad))

theorem scanZIP_gives (location data : Bytes) (files : List ZipFile)
    (hadmitted : (admitZIPDirectory s data fresh).value = .ok ())
    (hfiles : s.library.zipReader data = .ok files) :
    Gives budgets fresh kindOf (Entity.verdict s (.zip files))
      (scanZIP s (entryScan s) location data) := by
  refine Gives.unlessHandled (stopIfDone_gives location) ?_
  refine Gives.bind_same ((admitZIPDirectory_agree s data).gives fresh_related) ?_
  rw [hadmitted]
  refine Gives.bind_same ((openZIP_agree s data).gives fresh_related) ?_
  have hopened : (openZIP s data fresh).value = .ok files := hfiles
  rw [hopened]
  have heach : Gives budgets fresh kindOf (firstStop .clear .clear (files.map (zipFileKind s)))
      (scanEach (scanZIPFile s (entryScan s) location) files) :=
    scanEach_gives (fun file => (scanZIPFile_agree s (scanFile_agree s _) (ascii "message")
      location file).gives fresh_related) files
  exact heach

theorem scanTAR_gives (location data : Bytes) (entries : List TarEntry) (err : Option Bytes)
    (hentries : s.library.tarReader data = (entries, err)) :
    Gives budgets fresh kindOf (Entity.verdict s (.tar entries err))
      (scanTAR s (entryScan s) location data) := by
  have heach : Gives budgets fresh kindOf (firstStop .clear .clear (entries.map (tarEntryKind s)))
      (scanEach (scanTAREntry s (entryScan s) location) entries) :=
    scanEach_gives (fun entry => (scanTAREntry_agree s (scanFile_agree s _) (ascii "message")
      location entry).gives fresh_related) entries
  have hverdict : Entity.verdict s (.tar entries err) =
      if firstStop .clear .clear (entries.map (tarEntryKind s)) = .clear then
        err.elim .clear fun _ => .unscannable
      else firstStop .clear .clear (entries.map (tarEntryKind s)) := firstStop_rest _
  rw [scanTAR, hentries, hverdict]
  refine heach.bind fun r hr => ?_
  rw [← hr]
  cases r with
  | clear =>
    refine Gives.unlessHandled (stopIfDone_gives location) ?_
    cases err with
    | none | some err => exact Gives.pure rfl
  | finding found => exact Gives.pure rfl
  | failure e =>
    rw [if_neg (mt kindOf_eq_clear.mp ScanResult.noConfusion)]
    exact Gives.pure rfl

section Attached

variable {msg : Message} {format : ArchiveFormat} {mediaType filename data : Bytes} {kind : Kind}
  (h : AttachedArchive s msg format mediaType filename data)

include h

theorem scanTopFile_gives (location : Bytes)
    (harchive : Gives budgets fresh kindOf kind
      (scanArchive s (entryScan s) format location filename data)) :
    Gives budgets fresh kindOf kind (scanTopFile s location filename mediaType data) := by
  have hlevels : s.options.maxArchiveDepth.toNat = s.options.maxArchiveDepth.toNat - 1 + 1 := by
    have := h.depth
    omega
  rw [scanTopFile, hlevels]
  refine Gives.unlessHandled (stopIfDone_gives location) ?_
  have hname : nameFinding s (cleanLocation s.text location) filename = none := by
    rw [nameFinding, h.allowed, Option.map_none]
  have hsignature : signatureFinding s (cleanLocation s.text location) data = none := by
    unfold signatureFinding
    split
    · rename_i hsignatures
      rw [h.harmless hsignatures, Option.map_none]
    · rfl
  simp only [hname, hsignature, h.opened, h.format]
  exact harchive

theorem scanAttachment_gives (message : Bytes → Bytes → Scan ScanResult) (location : Bytes)
    (harchive : Gives budgets fresh kindOf kind
      (scanArchive s (entryScan s) format location filename data)) :
    Gives budgets fresh kindOf kind
      (scanAttachment s message false
        ⟨mediaType, contentType s msg, contentDisposition s msg, filename, location⟩
        (transferEncoding s msg) msg.body) := by
  have hfile := scanTopFile_gives s h location harchive
  refine Gives.bind_same (decodeTransferStrict_gives s h.decoded h.limit) ?_
  have hemail : attachedEmail s ⟨mediaType, contentType s msg, contentDisposition s msg, filename,
      location⟩ = false := by
    simp [attachedEmail, h.notEmail, h.notSavedEmail]
  by_cases htext : filename = [] ∧
      (mediaType = ascii "text/plain" ∨ mediaType = ascii "text/html")
  · have hvisible : visibleText s false ⟨mediaType, contentType s msg, contentDisposition s msg,
        filename, location⟩ data = false := by
      simp [visibleText, h.attached htext.1 htext.2]
    simp only [scanDecoded, if_pos htext, hvisible]
    rw [htext.1] at hfile
    exact hfile
  · simp only [scanDecoded, if_neg htext, hemail]
    exact hfile

/-- An attached archive is opened, and its result is that of the message. -/
theorem attachedArchive_gives
    (harchive : ∀ location, Gives budgets fresh kindOf kind
      (scanArchive s (entryScan s) format location filename data)) :
    Gives budgets fresh kindOf kind
      (scanMIME s maxMIMEDepth (contentType s msg) (transferEncoding s msg)
        (contentDisposition s msg) msg.body (ascii "message")) := by
  obtain ⟨params, hdeclared⟩ := h.declared
  refine Gives.unlessHandled (stopIfDone_gives _) ?_
  simp only [hdeclared, h.single, scanSingle, h.named]
  by_cases hfilename : filename = []
  · rw [if_pos hfilename, ← hfilename]
    exact scanAttachment_gives s h _ _ (harchive _)
  · have hname : nameFinding s (cleanLocation s.text
        (replaceLocationBase s.text (ascii "message") filename)) filename = none := by
      rw [nameFinding, h.allowed, Option.map_none]
    simp only [if_neg hfilename, hname]
    exact scanAttachment_gives s h _ _ (harchive _)

end Attached

/-- The inspection of a message that is an entity ends as its siblings decide. -/
theorem carries_gives (msg : Message) (entity : Entity) (h : Carries s msg entity) :
    Gives budgets fresh kindOf (entity.verdict s)
      (scanMIME s maxMIMEDepth (contentType s msg) (transferEncoding s msg)
        (contentDisposition s msg) msg.body (ascii "message")) := by
  cases entity with
  | multipart mediaType parts err =>
    obtain ⟨params, hdeclared, hmultipart, hboundary, hparts⟩ := h
    refine Gives.unlessHandled (stopIfDone_gives _) ?_
    simp only [hdeclared, hmultipart, scanMultipart, if_neg hboundary, hparts]
    have hpart : ∀ index part, Gives budgets fresh kindOf (partKind s mediaType part)
        (scanPart s (scanMIME s (maxMIMEDepth - 1)) mediaType (ascii "message") index part) :=
      fun index part => (scanPart_agree s (scanMIME_agree s _) mediaType (ascii "message")
        (ascii "message") 1 index part).gives fresh_related
    have hend : kindOf (endParts [] none err) = kindOf (endParts (ascii "message") none err) := by
      cases err with
      | none => rfl
      | some err => rfl
    rw [Entity.verdict, hend]
    exact scanParts_gives hpart err 1 none parts
  | zip files =>
    obtain ⟨mediaType, filename, data, harchive, hadmitted, hfiles⟩ := h
    refine attachedArchive_gives s harchive fun location => within_gives ?_
    exact scanZIP_gives s location data files hadmitted hfiles
  | tar entries err =>
    obtain ⟨mediaType, filename, data, harchive, hentries⟩ := h
    refine attachedArchive_gives s harchive fun location => within_gives ?_
    exact scanTAR_gives s location data entries err hentries

end Runs

/-- The order accept, tempfail, reject. -/
def strictness : Action → ℕ
  | .accept => 0
  | .tempfail => 1
  | .reject => 2

/-- The action configured for each way an inspection can end. -/
def actionFor (cfg : FailureActions) : Kind → Action
  | .clear => .accept
  | .finding => .reject
  | .malformed => invalidMIMEConfiguredAction cfg.invalidMIMEAction
  | .encrypted => attachmentConfiguredAction cfg.encryptedArchiveAction
  | .unscannable => attachmentConfiguredAction cfg.unscannableAction

def weight (cfg : FailureActions) (kind : Kind) : ℕ := strictness (actionFor cfg kind)

variable (cfg : FailureActions) (kind : Kind) (entity : Entity)

theorem weight_clear_le : weight cfg .clear ≤ weight cfg kind :=
  Nat.zero_le _

theorem weight_le_finding : weight cfg kind ≤ weight cfg .finding := by
  unfold weight
  cases actionFor cfg kind with
  | accept => exact Nat.zero_le _
  | tempfail => exact Nat.le_succ 1
  | reject => exact Nat.le_refl 2

/-- The message was received whole, is the entity, and is scanned within the budgets. -/
structure Scanned (s : Scanner) (msg : Message) (entity : Entity) : Prop where
  headers : msg.mimeHeadersTruncated = false
  body : msg.bodyTruncated = false
  carries : Carries s msg entity
  budget : ¬ Occurs .exhausted (scanMessage s background msg).events

theorem evaluateScan_action (r : ScanResult) :
    (evaluateScan cfg false r).proposed = actionFor cfg (kindOf r) := by
  cases r with
  | clear => rfl
  | finding found => rfl
  | failure e =>
    simp only [evaluateScan, kindOf, errorKind]
    split_ifs <;> rfl

/-- The action for a message is the one configured for the verdict on its entity. -/
theorem evaluate_action {p : AttachmentPolicyService} (hs : p.scanner = some s) {msg : Message}
    {entity : Entity} (h : Scanned s msg entity) :
    (evaluate p none background msg).proposed = actionFor p.cfg (entity.verdict s) := by
  have hrun := carries_gives s msg entity h.carries fresh
    (Ready.roomier ⟨rfl, Int.le_refl 0, Int.le_refl 0, Int.le_refl 0⟩) h.budget
  have hkind : kindOf (scanMessage s background msg).value = entity.verdict s := hrun.1
  simp only [evaluate, hs, h.headers, h.body, Bool.false_eq_true, if_false]
  rw [evaluateScan_action, hkind]

/-- Nothing stricter stands behind the sibling that decides. In a multipart entity a
finding decides wherever it stands. -/
def Unmasked (s : Scanner) (cfg : FailureActions) (entity : Entity) : Prop :=
  match entity with
  | .multipart .. =>
    .finding ∈ entity.kinds s ∨ NoneHeavierLater (weight cfg) .clear (entity.kinds s)
  | _ => NoneHeavierLater (weight cfg) .clear (entity.kinds s)

theorem unmasked_iff :
    (∀ kind ∈ entity.kinds s, weight cfg kind ≤ weight cfg (entity.verdict s)) ↔
      Unmasked s cfg entity := by
  cases entity with
  | multipart mediaType parts err =>
    exact le_topFirst_iff (weight cfg) (weight_clear_le cfg) (weight_le_finding cfg) _
  | zip files | tar entries err => exact le_firstStop_iff (weight cfg) (weight_clear_le cfg) _

theorem kinds_length : (entity.kinds s).length = entity.size := by
  cases entity with
  | multipart mediaType parts err | zip files | tar entries err => exact List.length_map _

/-- An entity with a single sibling ends as that sibling does. -/
theorem verdict_only (i : ℕ) (kind : Kind) (h : (entity.kinds s)[i]? = some kind) :
    (entity.only i).verdict s = kind := by
  cases entity with
  | multipart mediaType parts err =>
    simp only [Entity.kinds, List.getElem?_map, Option.map_eq_some_iff] at h
    obtain ⟨part, hpart, rfl⟩ := h
    simp only [Entity.only, hpart, Option.toList_some]
    exact topFirst_singleton _
  | zip files =>
    simp only [Entity.kinds, List.getElem?_map, Option.map_eq_some_iff] at h
    obtain ⟨file, hfile, rfl⟩ := h
    simp only [Entity.only, hfile, Option.toList_some]
    exact firstStop_singleton _
  | tar entries err =>
    simp only [Entity.kinds, List.getElem?_map, Option.map_eq_some_iff] at h
    obtain ⟨entry, hentry, rfl⟩ := h
    simp only [Entity.only, hentry, Option.toList_some]
    exact firstStop_singleton _

theorem zipFileKind_encrypted {file : ZipFile} (hfile : file.isDir = false)
    (hflag : file.flags &&& 1 ≠ 0) : zipFileKind s file = .encrypted := by
  have hentry : scanZIPFile s (entryScan s) (ascii "message") file =
      unlessHandled (stopIfDone s (ascii "message"))
        (pure (encryptedEntry (joinLocation s.text (ascii "message") file.name))) := by
    simp only [scanZIPFile, hfile, Bool.false_eq_true, if_false, if_pos hflag]
  rw [zipFileKind, hentry]
  rfl

theorem zipFileKind_blocked {file : ZipFile} {extension : Bytes} (hfile : file.isDir = false)
    (hflag : file.flags &&& 1 = 0)
    (hblocked : blockedExtension s.text s.blocked file.name = some extension) :
    zipFileKind s file = .finding := by
  have hname : nameFinding s (joinLocation s.text (ascii "message") file.name) file.name =
      some (blockedFinding (joinLocation s.text (ascii "message") file.name) extension) := by
    rw [nameFinding, hblocked, Option.map_some]
  have hflag' : ¬ file.flags &&& 1 ≠ 0 := fun h => h hflag
  simp only [zipFileKind, scanZIPFile, hfile, Bool.false_eq_true, if_false, if_neg hflag',
    checkEntryName, hname]
  rfl

/-- An encrypted entry at the front of a ZIP file hides every blocked name behind it,
unless encrypted archives are rejected. -/
theorem not_unmasked_of_encrypted {first later : ZipFile} {files : List ZipFile}
    {extension : Bytes} (hcfg : cfg.encryptedArchiveAction ≠ ascii "reject")
    (hfirst : first.isDir = false) (hencrypted : first.flags &&& 1 ≠ 0) (hmem : later ∈ files)
    (hlater : later.isDir = false) (hplain : later.flags &&& 1 = 0)
    (hblocked : blockedExtension s.text s.blocked later.name = some extension) :
    ¬ Unmasked s cfg (.zip (first :: files)) := by
  intro h
  have hkind : zipFileKind s first = .encrypted := zipFileKind_encrypted hfirst hencrypted
  have hall : ∀ kind ∈ files.map (zipFileKind s), weight cfg kind ≤ weight cfg .encrypted := by
    have hstops : Kind.encrypted ≠ .clear := by decide
    refine (noneHeavierLater_cons (weight cfg) hstops _).mp ?_
    rw [← hkind]
    exact h
  have hle := hall .finding
    (List.mem_map.mpr ⟨later, hmem, zipFileKind_blocked hlater hplain hblocked⟩)
  have hlt : weight cfg .encrypted < weight cfg .finding := by
    simp only [weight, actionFor, attachmentConfiguredAction, if_neg hcfg]
    split_ifs
    · decide
    · decide
  omega

/-- A message with a ZIP file as its body. -/
def zipMessage (entries : List StoredEntry) : Message :=
  { MessageBuffer.new 1000000 with
    headers := [(ascii "content-type", ascii "application/zip")]
    body := storedZIP entries }

def lockedEntry : StoredEntry := ⟨ascii "a.txt", ascii "hi", 0xD8932AAC, 1, 0o100644⟩

def programEntry : StoredEntry := ⟨ascii "run.exe", ascii "MZ", 0x8FB09B5D, 0, 0o100755⟩

def storedFile (e : StoredEntry) : ZipFile where
  name := e.name
  flags := UInt16.ofNat e.flags
  creatorVersion := 0x314
  externalAttrs := UInt32.ofNat (e.mode * 65536)
  compressedSize64 := e.data.length
  uncompressedSize64 := e.data.length
  contents := .ok ⟨e.data, none⟩

theorem zipMessage_attached {entries : List StoredEntry}
    (hharmless : prohibitedSignature plainScanner.text.table plainScanner.blocked
      (storedZIP entries) = none)
    (hformat : archiveFormat plainScanner.text.table [] (ascii "application/zip")
      (storedZIP entries) = some .zip) :
    AttachedArchive plainScanner (zipMessage entries) .zip (ascii "application/zip") []
      (storedZIP entries) := by
  -- The headers are those of any such message, so they can be evaluated on the empty one.
  have htype : contentType plainScanner (zipMessage entries) = ascii "application/zip" := by
    change contentType plainScanner (zipMessage []) = _
    decide +kernel
  have hdisposition : contentDisposition plainScanner (zipMessage entries) = [] := by
    change contentDisposition plainScanner (zipMessage []) = _
    decide +kernel
  have hencoding : transferEncoding plainScanner (zipMessage entries) = [] := by
    change transferEncoding plainScanner (zipMessage []) = _
    decide +kernel
  constructor
  case declared =>
    rw [htype]
    exact ⟨[], by decide +kernel⟩
  case single => decide +kernel
  case named =>
    rw [htype, hdisposition]
    decide +kernel
  case allowed => decide +kernel
  case attached => exact fun _ htext => absurd htext (by decide +kernel)
  case notEmail => decide +kernel
  case notSavedEmail => decide +kernel
  case decoded =>
    rw [hencoding]
    rfl
  case harmless => exact fun _ => hharmless
  case opened => rfl
  case format => exact hformat
  case limit => decide
  case depth => decide

theorem zipMessage_scanned {entries : List StoredEntry}
    (h : prohibitedSignature plainScanner.text.table plainScanner.blocked (storedZIP entries) =
        none ∧
      archiveFormat plainScanner.text.table [] (ascii "application/zip") (storedZIP entries) =
        some .zip ∧
      (admitZIPDirectory plainScanner (storedZIP entries) fresh).value = .ok () ∧
      plainLibrary.zipReader (storedZIP entries) = .ok (entries.map storedFile) ∧
      logRunsOut (scanMessage plainScanner background (zipMessage entries)).events = false) :
    Scanned plainScanner (zipMessage entries) (.zip (entries.map storedFile)) := by
  obtain ⟨hharmless, hformat, hadmitted, hfiles, hbudget⟩ := h
  refine ⟨rfl, rfl, ?_, ?_⟩
  · exact ⟨_, _, _, zipMessage_attached hharmless hformat, hadmitted, hfiles⟩
  · intro hexhausted
    rw [logRunsOut_of_occurs hexhausted] at hbudget
    exact Bool.noConfusion hbudget

theorem both_scanned : Scanned plainScanner (zipMessage [lockedEntry, programEntry])
    (.zip [storedFile lockedEntry, storedFile programEntry]) :=
  zipMessage_scanned (by decide +kernel)

theorem locked_scanned : Scanned plainScanner (zipMessage [lockedEntry])
    (.zip [storedFile lockedEntry]) :=
  zipMessage_scanned (by decide +kernel)

theorem program_scanned : Scanned plainScanner (zipMessage [programEntry])
    (.zip [storedFile programEntry]) :=
  zipMessage_scanned (by decide +kernel)

/-- The default actions. -/
def strictPolicy : AttachmentPolicyService :=
  ⟨⟨ascii "reject", ascii "reject", ascii "reject"⟩, some plainScanner⟩

/-- A policy that lets encrypted archives pass. -/
def lenientPolicy : AttachmentPolicyService :=
  ⟨⟨ascii "accept", ascii "reject", ascii "reject"⟩, some plainScanner⟩

end MilterGuard.SiblingMasking
