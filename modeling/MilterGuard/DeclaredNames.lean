import MilterGuard.FailClosed

/-!
The names that the two header fields of a part supply, in the order in which the
scanner looks for one. It takes the first and checks only that one against the
blocked extensions.
-/
namespace MilterGuard.DeclaredNames

open Procedures ByteStrings Hostnames AttachmentNames ArchiveBudgets ArchiveScanner
open AttachmentScanner ArchiveCoverage ScanLimits FailClosed

section Headers

variable (text : TextServices)

/-- The name in one parameter between semicolons, if that is the extended form of the key. -/
def extendedName (baseKey parameter : Bytes) : Option (Except Bytes Bytes) :=
  let (key, raw) := parameterKey text parameter
  if key = baseKey ++ [0x2A] then
    match raw with
    | none => some (.error (ascii "encoded attachment filename has no value"))
    | some raw => some ((decodeExtendedFilename text (trimSpace raw)).map (normalizeName text))
  else if hasPrefix key (baseKey ++ [0x2A]) then
    some (.error (ascii "unsupported continued attachment filename encoding"))
  else none

/-- The names under one key: the value that the media type parser gives, then every
extended form in the header. -/
def parameterNames (header : Bytes) (params : List (Bytes × Bytes)) (key : Bytes) :
    List (Except Bytes Bytes) :=
  let raw := trimSpace (parameter params key)
  (if raw ≠ [] then [decodeFilename text raw] else []) ++
    (splitMIMEParameters header).filterMap (extendedName text key)

def headerNames (header : Bytes) : List (Except Bytes Bytes) :=
  match text.parseMediaType header with
  | .error _ => []
  | .ok (_, params) =>
    [ascii "filename", ascii "name"].flatMap (parameterNames text header params)

/-- A quoted value as the media type parser reads it: other backslashes belong to paths. -/
def unescaped : Bytes → Bytes
  | 0x5C :: b :: rest =>
    if b ∈ 0x22 :: 0x5C :: ascii "()<>@,;:/[]?=" then b :: unescaped rest
    else 0x5C :: unescaped (b :: rest)
  | b :: rest => b :: unescaped rest
  | [] => []

/-- The plain values as they are written in the header. The media type parser replaces
such a value when the extended form of the same key is there too. -/
def writtenNames (header : Bytes) : List (Except Bytes Bytes) :=
  (splitMIMEParameters header).filterMap fun parameter =>
    match parameterKey text parameter with
    | (key, some raw) =>
      if key = ascii "filename" ∨ key = ascii "name" then
        some (decodeFilename text (trimSpace (unescaped (unquoted (trimSpace raw)))))
      else none
    | (_, none) => none

/-- The first name supplied, empty when there is none. -/
def firstName (contentDisposition contentType : Bytes) : Except Bytes Bytes :=
  (headerNames text contentDisposition ++ headerNames text contentType).head?.getD (.ok [])

/-- A header value that is absent or that the media type parser accepts. -/
def Accepted (header : Bytes) : Prop :=
  header = [] ∨ ∃ parsed, text.parseMediaType header = .ok parsed

variable {text} {header contentDisposition contentType : Bytes}

theorem extendedFilenameParameter_eq (key : Bytes) :
    extendedFilenameParameter text header key =
      ((splitMIMEParameters header).filterMap (extendedName text key)).head? :=
  List.head?_filterMap.symm

theorem headerFilename_eq (h : Accepted text header) :
    headerFilename text header = (headerNames text header).head? := by
  unfold headerFilename headerNames
  cases hparsed : text.parseMediaType header with
  | error err =>
    obtain rfl : header = [] := h.resolve_right fun ⟨_, hok⟩ => by
      rw [hparsed] at hok
      cases hok
    rfl
  | ok parsed =>
    dsimp only
    rw [List.head?_flatMap]
    congr 1
    funext key
    rw [parameterNames, List.head?_append, ← extendedFilenameParameter_eq]
    split_ifs <;> rfl

/-- The scanner takes the first name. -/
theorem attachmentFilename_eq (hdisposition : Accepted text contentDisposition)
    (htype : Accepted text contentType) :
    attachmentFilename text contentDisposition contentType =
      firstName text contentDisposition contentType := by
  rw [attachmentFilename, firstName, List.head?_append, ← headerFilename_eq hdisposition,
    ← headerFilename_eq htype]
  simp only [List.findSome?]
  cases headerFilename text contentDisposition <;> cases headerFilename text contentType <;> rfl

end Headers

/-- A part that is not multipart, with header values that are absent or that the media type
parser accepts. -/
structure LeafPart (s : Scanner) where
  contentType : Bytes
  transferEncoding : Bytes
  contentDisposition : Bytes
  data : Bytes
  location : Bytes
  disposition_accepted : Accepted s.text contentDisposition
  type_accepted : Accepted s.text contentType
  single : ∀ mediaType params, declaredMediaType s contentType = .ok (mediaType, params) →
    isMultipart mediaType = false

namespace LeafPart

variable {s : Scanner} (part : LeafPart s) (mimeDepth : ℕ)

/-- scanMIME of the part. -/
def scan : Scan ScanResult :=
  scanMIMEAt s mimeDepth part.contentType part.transferEncoding part.contentDisposition part.data
    part.location

/-- Some name in one of the two headers has a blocked extension. -/
def SuppliesBlocked : Prop :=
  ∃ header ∈ [part.contentDisposition, part.contentType], ∃ name,
    (.ok name ∈ headerNames s.text header ∨ .ok name ∈ writtenNames s.text header) ∧
      blockedExtension s.text s.blocked name ≠ none

/-- What the scan does once the name is known and not blocked. -/
def scanContents (filename : Bytes) : Scan ScanResult :=
  unlessHandled (stopIfDone s part.location) <|
    match declaredMediaType s part.contentType with
    | .error err => pure (malformed part.location err)
    | .ok (mediaType, _) =>
      scanAttachment s (scanRFC822 s (scanMIMEAt s (mimeDepth + 1)) mimeDepth) (0 < mimeDepth)
        ⟨mediaType, part.contentType, part.contentDisposition, filename,
          if filename = [] then part.location
          else replaceLocationBase s.text part.location filename⟩
        part.transferEncoding part.data

variable (state : ScanState)

/-- The name is not blocked, and the contents raise nothing as a file of that name. -/
def Harmless (filename : Bytes) : Prop :=
  (filename ≠ [] → blockedExtension s.text s.blocked filename = none) ∧
    mimeDepth < maxMIMEDepth ∧ (part.scanContents mimeDepth filename state).value = .clear

variable {part mimeDepth}

theorem scan_named {filename : Bytes} (hdepth : mimeDepth < maxMIMEDepth)
    (hname : attachmentFilename s.text part.contentDisposition part.contentType = .ok filename)
    (hblocked : filename ≠ [] → blockedExtension s.text s.blocked filename = none) :
    part.scan mimeDepth = part.scanContents mimeDepth filename := by
  rw [scan, scanMIMEAt, scanMIME_solves, scanMIMEBody, if_neg (Nat.not_le.mpr hdepth), scanEntity,
    scanContents]
  cases hmedia : declaredMediaType s part.contentType with
  | error err => rfl
  | ok declared =>
    obtain ⟨mediaType, params⟩ := declared
    have hsingle : ¬ hasPrefix mediaType (ascii "multipart/") = true := by
      simpa [isMultipart] using part.single mediaType params hmedia
    simp only [if_neg hsingle, scanSingle, hname]
    by_cases hempty : filename = []
    · rw [hempty]
      rfl
    · rw [if_neg hempty, if_neg hempty, nameFinding, hblocked hempty]
      rfl

variable (part mimeDepth)

theorem scan_clear_iff :
    (part.scan mimeDepth state).value = .clear ↔
      ∃ name, firstName s.text part.contentDisposition part.contentType = .ok name ∧
        part.Harmless mimeDepth state name := by
  rw [← attachmentFilename_eq part.disposition_accepted part.type_accepted]
  constructor
  · intro hclear
    obtain ⟨mediaType, params, hentity⟩ := passes_entity ⟨part.location, state, hclear⟩
    obtain ⟨a, contents, hsingle, hblocked, -⟩ := hentity.single (part.single _ _ hentity.media)
    refine ⟨a.filename, hsingle.filename, hblocked, hentity.depth, ?_⟩
    rwa [← scan_named hentity.depth hsingle.filename hblocked]
  · rintro ⟨name, hname, hblocked, hdepth, hclear⟩
    rwa [scan_named hdepth hname hblocked]

end LeafPart

def textDisposition : Bytes := ascii "attachment; filename=a.txt"

def programType : Bytes := ascii "image/png; name=a.exe"

/-- A library that reads the two header values of a part with two names. -/
def namedLibrary : Library :=
  { plainLibrary with
    parseMediaType := fun value =>
      if value = textDisposition then
        .ok (ascii "attachment", [(ascii "filename", ascii "a.txt")])
      else if value = programType then .ok (ascii "image/png", [(ascii "name", ascii "a.exe")])
      else plainLibrary.parseMediaType value }

/-- A part that calls itself a text and a program. -/
def twoNames : LeafPart (Scanner.new namedLibrary plainScanner.options) where
  contentType := programType
  transferEncoding := []
  contentDisposition := textDisposition
  data := ascii "hi"
  location := ascii "message"
  disposition_accepted := Or.inr ⟨_, rfl⟩
  type_accepted := Or.inr ⟨_, rfl⟩
  single mediaType params h := by
    have hdeclared : declaredMediaType (Scanner.new namedLibrary plainScanner.options)
        programType = .ok (ascii "image/png", [(ascii "name", ascii "a.exe")]) := by
      decide +kernel
    rw [hdeclared] at h
    obtain ⟨rfl, -⟩ := Prod.mk.inj (Except.ok.inj h)
    decide

end MilterGuard.DeclaredNames
