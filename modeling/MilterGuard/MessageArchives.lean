import MilterGuard.MessageStore
import MilterGuard.MailAddresses

/-!
The bounded archive of a message. Header fields, the truncation marker, the separator
and the body share one limit. The archive is cut at field boundaries only, and
whatever is missing from it is announced by the marker when the marker fits.
-/
namespace MilterGuard.MessageArchives

open ByteStrings Hostnames MessageBuffer FoldedTexts MessageStore

def archiveTruncationHeader : Bytes := ascii "X-MilterGuard-Archive-Truncated: yes\r\n"

/-- The end of the last field that is complete within the limit. The search for the next
CRLF goes byte by byte from `position`. -/
def completeLength (maxBytes : ℕ) : Bytes → ℕ → ℕ → ℕ
  | 0x0D :: 0x0A :: rest, position, lastComplete =>
    let lineEnd := position + 2
    if (rest.head?.map blank).getD false then completeLength maxBytes rest lineEnd lastComplete
    else if maxBytes < lineEnd then lastComplete
    else completeLength maxBytes rest lineEnd lineEnd
  | _ :: rest, position, lastComplete => completeLength maxBytes rest (position + 1) lastComplete
  | [], _, lastComplete => lastComplete

def completeArchiveHeaderPrefix (headers : Bytes) (maxBytes : ℕ) : Bytes :=
  if maxBytes = 0 then []
  else if headers.length ≤ maxBytes then headers
  else headers.take (completeLength maxBytes headers 0 0)

def archiveBytes (m : Message) : Bytes :=
  let limit := m.maxBytes
  if limit < 2 then []
  else
    let truncated := m.archiveHeadersTruncated || m.bodyTruncated
    let includeMarker := truncated && archiveTruncationHeader.length + 2 ≤ limit
    let reserved := if includeMarker then 2 + archiveTruncationHeader.length else 2
    let headers := completeArchiveHeaderPrefix m.archiveHeaders (limit - reserved)
    let output := headers ++ (if includeMarker then archiveTruncationHeader else []) ++ crlf
    let remaining := limit - output.length
    if remaining = 0 then output.take limit
    else output ++ m.body.take remaining

theorem archiveTruncationHeader_length : archiveTruncationHeader.length = 38 := by decide

variable (maxBytes : ℕ)

/-- Bytes inside a line move the search and nothing else. -/
theorem completeLength_oneLine {line : Bytes} (hline : OneLine line) (rest : Bytes)
    (position last : ℕ) :
    completeLength maxBytes (line ++ rest) position last =
      completeLength maxBytes rest (position + line.length) last := by
  induction line generalizing position with
  | nil => rfl
  | cons b line ih =>
    simp only [OneLine, List.mem_cons, not_or] at hline
    rw [List.cons_append, completeLength, ih ⟨hline.1.2, hline.2.2⟩, List.length_cons]
    · congr 1
      omega
    · intro _ hb
      exact absurd hb.symm hline.1.1

theorem completeLength_folds {more : List Bytes} (hmore : ∀ line ∈ more, OneLine line)
    (rest : Bytes) (position last : ℕ) :
    completeLength maxBytes (more.flatMap (fold ++ ·) ++ rest) position last =
      completeLength maxBytes rest (position + (more.flatMap (fold ++ ·)).length) last := by
  induction more generalizing position with
  | nil => rfl
  | cons line more ih =>
    have hblank : OneLine ([0x20] ++ line) :=
      (show OneLine [0x20] by simp [OneLine]).append (hmore line List.mem_cons_self)
    have hlater : ∀ later ∈ more, OneLine later :=
      fun later hmem => hmore later (List.mem_cons_of_mem line hmem)
    have hstep : ∀ later, completeLength maxBytes (fold ++ (line ++ later)) position last =
        completeLength maxBytes ([0x20] ++ line ++ later) (position + 2) last := fun _ => rfl
    rw [List.flatMap_cons, List.append_assoc, List.append_assoc, hstep,
      completeLength_oneLine maxBytes hblank, ih hlater]
    congr 1
    simp only [fold, List.length_append, List.length_cons]
    omega

theorem completeLength_field (field : Field) {rest : Bytes}
    (hrest : (rest.head?.map blank).getD false = false) (position last : ℕ) :
    completeLength maxBytes (field.line ++ rest) position last =
      if maxBytes < position + field.line.length then last
      else completeLength maxBytes rest (position + field.line.length)
        (position + field.line.length) := by
  obtain ⟨first, more, hfirst, hmore, -, hline⟩ := field.line_eq
  have hend : ∀ stop, completeLength maxBytes (crlf ++ rest) stop last =
      if maxBytes < stop + 2 then last else completeLength maxBytes rest (stop + 2) (stop + 2) := by
    intro stop
    simp only [crlf, List.cons_append, List.nil_append, completeLength, hrest, Bool.false_eq_true,
      if_false]
  have hlength : field.line.length = (field.name ++ [0x3A, 0x20] ++ first).length +
      (more.flatMap (fold ++ ·)).length + 2 := by
    rw [hline, List.length_append, List.length_append]
    rfl
  rw [hlength, hline, List.append_assoc, List.append_assoc,
    completeLength_oneLine maxBytes (field.name_oneLine.append hfirst),
    completeLength_folds maxBytes hmore, hend]
  simp [Nat.add_assoc]

/-- The scan stops behind a whole field, within the limit. -/
theorem completeLength_fields (fields : List Field) {position : ℕ}
    (hposition : position ≤ maxBytes) :
    ∃ kept, kept <+: fields ∧
      completeLength maxBytes (fields.flatMap Field.line) position position =
        position + (kept.flatMap Field.line).length ∧
      position + (kept.flatMap Field.line).length ≤ maxBytes := by
  induction fields generalizing position with
  | nil => exact ⟨[], List.prefix_refl [], rfl, hposition⟩
  | cons field fields ih =>
    have hrest : ((fields.flatMap Field.line).head?.map blank).getD false = false := by
      cases fields with
      | nil => rfl
      | cons next fields => exact next.line_head _
    rw [List.flatMap_cons, completeLength_field maxBytes field hrest]
    split_ifs with hover
    · exact ⟨[], List.nil_prefix, rfl, hposition⟩
    · obtain ⟨kept, hkept, hscan, hfits⟩ := ih (Nat.le_of_not_lt hover)
      refine ⟨field :: kept, List.cons_prefix_cons.mpr ⟨rfl, hkept⟩, ?_, ?_⟩
      · rw [hscan, List.flatMap_cons, List.length_append, Nat.add_assoc]
      · rw [List.flatMap_cons, List.length_append, ← Nat.add_assoc]
        exact hfits

theorem completeArchiveHeaderPrefix_fields (fields : List Field) (maxBytes : ℕ) :
    ∃ kept, kept <+: fields ∧
      completeArchiveHeaderPrefix (fields.flatMap Field.line) maxBytes = kept.flatMap Field.line ∧
      (kept.flatMap Field.line).length ≤ maxBytes ∧
      ((fields.flatMap Field.line).length ≤ maxBytes → kept = fields) := by
  unfold completeArchiveHeaderPrefix
  by_cases hnone : maxBytes = 0
  · rw [if_pos hnone]
    refine ⟨[], List.nil_prefix, rfl, Nat.zero_le _, fun hfits => ?_⟩
    cases fields with
    | nil => rfl
    | cons field fields =>
      simp only [List.flatMap_cons, List.length_append, Field.line, List.length_cons] at hfits
      omega
  rw [if_neg hnone]
  by_cases hfits : (fields.flatMap Field.line).length ≤ maxBytes
  · rw [if_pos hfits]
    exact ⟨fields, List.prefix_refl _, rfl, hfits, fun _ => rfl⟩
  · rw [if_neg hfits]
    obtain ⟨kept, ⟨cutoff, hkept⟩, hscan, hlength⟩ :=
      completeLength_fields maxBytes fields (Nat.zero_le maxBytes)
    rw [Nat.zero_add] at hscan hlength
    refine ⟨kept, ⟨cutoff, hkept⟩, ?_, hlength, fun h => absurd h hfits⟩
    rw [hscan, ← hkept, List.flatMap_append, List.take_left]

/-- The parts of an archive. -/
structure Archive where
  fields : List Field
  marker : Bool
  body : Bytes

def Archive.bytes (a : Archive) : Bytes :=
  a.fields.flatMap Field.line ++ (if a.marker then archiveTruncationHeader else []) ++ crlf ++
    a.body

/-- The marker is written for a cut message when it fits with the separator. -/
def marked (m : Message) : Bool :=
  (m.archiveHeadersTruncated || m.bodyTruncated) &&
    decide (archiveTruncationHeader.length + 2 ≤ m.maxBytes)

private theorem archiveBytes_eq {m : Message} (hmax : 2 ≤ m.maxBytes) {marker output : Bytes}
    (hmarker : marker = if marked m then archiveTruncationHeader else [])
    (houtput : output = completeArchiveHeaderPrefix m.archiveHeaders
      (m.maxBytes - (2 + marker.length)) ++ marker ++ crlf) :
    archiveBytes m = if m.maxBytes - output.length = 0 then output.take m.maxBytes
      else output ++ m.body.take (m.maxBytes - output.length) := by
  have hreserved : (if marked m then 2 + archiveTruncationHeader.length else 2) =
      2 + marker.length := by
    rw [hmarker]
    split_ifs <;> rfl
  have hmarked : ((m.archiveHeadersTruncated || m.bodyTruncated) &&
      decide (archiveTruncationHeader.length + 2 ≤ m.maxBytes)) = marked m := rfl
  unfold archiveBytes
  rw [if_neg (by omega)]
  simp only [hmarked, hreserved, ← hmarker, ← houtput]

theorem archiveBytes_parts {m : Message} (hmax : 2 ≤ m.maxBytes) {accepted : List Field}
    (haccepted : m.archiveHeaders = accepted.flatMap Field.line) :
    ∃ a : Archive, archiveBytes m = a.bytes ∧ a.bytes.length ≤ m.maxBytes ∧
      a.marker = marked m ∧ a.fields <+: accepted ∧ a.body <+: m.body ∧
      (marked m = false → m.archiveHeaders.length + 2 + m.body.length ≤ m.maxBytes →
        a.fields = accepted ∧ a.body = m.body) := by
  let marker := if marked m then archiveTruncationHeader else []
  let reserved := 2 + marker.length
  obtain ⟨kept, hkept, hheaders, hlength, hall⟩ :=
    completeArchiveHeaderPrefix_fields accepted (m.maxBytes - reserved)
  let output := kept.flatMap Field.line ++ marker ++ crlf
  have hreserved : reserved ≤ m.maxBytes := by
    by_cases hmarked : marked m = true
    · have hfits := hmarked
      simp only [marked, Bool.and_eq_true, decide_eq_true_eq] at hfits
      simp only [reserved, marker, hmarked, if_true]
      omega
    · simpa only [reserved, marker, hmarked, Bool.false_eq_true, if_false,
        List.length_nil] using hmax
  have houtput : output.length = (kept.flatMap Field.line).length + reserved := by
    simp only [output, List.length_append, crlf, List.length_cons, List.length_nil]
    omega
  have hbytes : archiveBytes m = output ++ m.body.take (m.maxBytes - output.length) := by
    rw [archiveBytes_eq hmax rfl (show output = _ by rw [haccepted, hheaders])]
    split_ifs with hfull
    · rw [hfull, List.take_zero, List.append_nil, List.take_of_length_le (by omega)]
    · rfl
  refine ⟨⟨kept, marked m, m.body.take (m.maxBytes - output.length)⟩, hbytes, ?_, rfl, hkept,
    List.take_prefix _ _, ?_⟩
  · change (output ++ m.body.take (m.maxBytes - output.length)).length ≤ m.maxBytes
    rw [List.length_append, List.length_take]
    omega
  · intro hmarked hfits
    have hplain : reserved = 2 := by simp [reserved, marker, hmarked]
    have hkeeps : kept = accepted := hall (by rw [← haccepted]; omega)
    refine ⟨hkeeps, List.take_of_length_le ?_⟩
    rw [hkeeps, ← haccepted] at houtput
    omega

/-- A message whose archive is not marked, though the marker fits, lost nothing. -/
private theorem unmarked_store (table : CaseTable) {maxBytes : ℕ} (headers : List (Bytes × Bytes))
    (chunks : List Bytes) (hfits : archiveTruncationHeader.length + 2 ≤ maxBytes)
    (hunmarked : marked (received table maxBytes headers chunks) = false) :
    let m := received table maxBytes headers chunks
    headers.length ≤ (acceptedFields maxBytes 0 headers).length ∧ m.body = chunks.flatten ∧
      m.archiveHeaders.length + 2 + m.body.length ≤ m.maxBytes := by
  obtain ⟨hmax, hheaders, hrefused, hbody, hdiscarded⟩ :=
    received_store table maxBytes headers chunks
  have hhalf := acceptedFields_fit (Nat.zero_le (maxBytes / 2)) headers
  have hflags : ¬ (acceptedFields maxBytes 0 headers).length < headers.length ∧
      ¬ maxBytes - ((acceptedFields maxBytes 0 headers).flatMap Field.line).length - 2 <
        chunks.flatten.length := by
    simpa only [marked, hmax, hrefused, hdiscarded, hfits, decide_true, Bool.and_true,
      Bool.or_eq_false_iff, decide_eq_false_iff_not] using hunmarked
  have hall : (received table maxBytes headers chunks).body = chunks.flatten := by
    rw [hbody]
    exact List.take_of_length_le (Nat.le_of_not_lt hflags.2)
  refine ⟨Nat.le_of_not_lt hflags.1, hall, ?_⟩
  rw [hall, hheaders]
  rw [archiveTruncationHeader_length] at hfits
  omega

/-- The archive stays within the limit. When the separator fits it is made of whole
accepted fields, perhaps the marker, the separator and a start of the body, and without
the marker nothing is missing from it. -/
theorem archive_bounded_and_marked (table : CaseTable) (maxBytes : ℕ)
    (headers : List (Bytes × Bytes)) (chunks : List Bytes) :
    let m := received table maxBytes headers chunks
    let accepted := acceptedFields maxBytes 0 headers
    m.archiveHeaders = accepted.flatMap Field.line ∧
    (archiveBytes m).length ≤ maxBytes ∧
    (maxBytes < 2 → archiveBytes m = []) ∧
    (2 ≤ maxBytes → ∃ a : Archive, archiveBytes m = a.bytes ∧
      a.fields <+: accepted ∧ a.body <+: chunks.flatten ∧
      (archiveTruncationHeader.length + 2 ≤ maxBytes →
        (accepted.length < headers.length ∨ a.fields.length < accepted.length ∨
          a.body.length < m.body.length ∨ m.body.length < chunks.flatten.length →
          a.marker = true) ∧
        (a.marker = false →
          a.fields.map some = headers.map (fun header => Field.ofHeader header.1 header.2) ∧
            a.body = chunks.flatten))) ∧
    (∀ chunks' : List Bytes, chunks'.flatten = chunks.flatten →
      received table maxBytes headers chunks' = m) := by
  intro m accepted
  obtain ⟨hmax, hheaders, hrefused, hbody, hdiscarded⟩ :=
    received_store table maxBytes headers chunks
  have hsmall : maxBytes < 2 → archiveBytes m = [] := fun h => if_pos (hmax.trans_lt h)
  refine ⟨hheaders, ?_, hsmall, fun hlarge => ?_, fun chunks' hsame => ?_⟩
  · by_cases hlarge : 2 ≤ maxBytes
    · obtain ⟨a, hbytes, hlength, -⟩ := archiveBytes_parts (hlarge.trans_eq hmax.symm) hheaders
      rw [hbytes]
      exact hlength.trans_eq hmax
    · simp [hsmall (Nat.lt_of_not_le hlarge)]
  · obtain ⟨a, hbytes, -, hmarker, hfields, hstart, hwhole⟩ :=
      archiveBytes_parts (hlarge.trans_eq hmax.symm) hheaders
    have hkept : m.body <+: chunks.flatten := by
      rw [show m.body = _ from hbody]
      exact List.take_prefix _ _
    refine ⟨a, hbytes, hfields, hstart.trans hkept, fun hfits => ?_⟩
    have hnothing : a.marker = false → headers.length ≤ accepted.length ∧ a.fields = accepted ∧
        a.body = m.body ∧ m.body = chunks.flatten := by
      intro hnone
      have hunmarked : marked m = false := hmarker.symm.trans hnone
      obtain ⟨hall, hbodyEq, hspace⟩ := unmarked_store table headers chunks hfits hunmarked
      obtain ⟨hfieldsEq, hstartEq⟩ := hwhole hunmarked hspace
      exact ⟨hall, hfieldsEq, hstartEq, hbodyEq⟩
    refine ⟨fun hmissing => ?_, fun hnone => ?_⟩
    · by_contra hmarked
      obtain ⟨hall, hfieldsEq, hbodyEq, hbytesEq⟩ := hnothing (by simpa using hmarked)
      rw [hfieldsEq, hbodyEq, hbytesEq] at hmissing
      omega
    · obtain ⟨hall, hfieldsEq, hbodyEq, hbytesEq⟩ := hnothing hnone
      exact ⟨hfieldsEq ▸ acceptedFields_all hall, hbodyEq.trans hbytesEq⟩
  · rw [received_flatten, hsame, ← received_flatten]

/-- With a limit of one byte there is no room for the separator. -/
theorem tiny_archive_without_separator :
    ¬ ∃ a : Archive, archiveBytes (received MailAddresses.asciiTable 1 [] []) = a.bytes := by
  rintro ⟨a, ha⟩
  have hlength := congrArg List.length ha
  have hempty : archiveBytes (received MailAddresses.asciiTable 1 [] []) = [] := rfl
  rw [hempty] at hlength
  simp only [Archive.bytes, crlf, List.length_append, List.length_cons] at hlength
  omega

end MilterGuard.MessageArchives
