import MilterGuard.MessageArchives
import MilterGuard.MailReading

/-!
Reading an archive back. The fields of an archive reach the new message under their
names and with their values unfolded, in whatever order the names are visited, and the
limit that the archive was written under leaves room for its whole body again.
-/
namespace MilterGuard.ArchiveRoundTrip

open ByteStrings Hostnames MessageBuffer FoldedTexts MessageStore MessageArchives MailReading

inductive ArchiveError where
  /-- archived message exceeds configured size limit -/
  | exceedsLimit
  /-- parse archived message -/
  | unreadable
  deriving DecidableEq

structure SavedMessage where
  message : Message
  savedArchiveTruncated : Bool
  deriving DecidableEq

variable (fields : List (Bytes × Bytes))

/-- The values of one name in a parsed header. -/
def valuesOf (name : Bytes) : List Bytes :=
  (fields.filter fun field => field.1 = name).map Prod.snd

/-- The headers handed to the new message, the names in the given order. -/
def suppliedHeaders (names : List Bytes) : List (Bytes × Bytes) :=
  names.flatMap fun name => (valuesOf fields name).map fun value => (name, value)

/-- `order` is the order in which the map of header names is visited. -/
def parseArchived (table : CaseTable) (order : List Bytes → List Bytes) (raw : Bytes)
    (maxBytes : ℕ) : Except ArchiveError SavedMessage :=
  if maxBytes < 1 ∨ raw.length > maxBytes then .error .exceedsLimit
  else match readMessage raw with
    | none => .error .unreadable
    | some (fields, body) =>
      let names := (fields.map Prod.fst).dedup
      let marked := names.any fun name =>
        equalFold name (ascii "X-MilterGuard-Archive-Truncated") &&
          (valuesOf fields name).any fun value => equalFold (trimSpace value) (ascii "yes")
      let headers := suppliedHeaders fields (order names)
      .ok ⟨addBody (headers.foldl (fun m h => addHeader table m h.1 h.2) (new maxBytes)) body,
        marked⟩

/-- The truncation marker as a field of the archive. -/
def markerField : Field where
  name := ascii "X-MilterGuard-Archive-Truncated"
  value := ascii "yes"
  name_ne_nil := by decide
  name_bytes := List.all_eq_true.mp rfl

variable (a : Archive)

def allFields : List Field :=
  a.fields ++ if a.marker then [markerField] else []

/-- What the new message receives of a field. -/
def receivedAs (field : Field) : Bytes × Bytes := (canonicalKey field.name, unfolded field.value)

/-- Names that are equal, or made of token characters and equal up to letter case. -/
def sameName (name other : Bytes) : Bool :=
  name = other ||
    name.all tokenByte && name.map asciiLowerByte = other.map asciiLowerByte

theorem line_text (field : Field) : field.line = fieldText field.name field.value := by
  rw [Field.line, archiveValue_eq, fieldText]

theorem plainName (field : Field) : PlainName field.name where
  ne_nil := field.name_ne_nil
  oneLine := field.name_oneLine.of_sublist (List.sublist_append_left _ _)
  colon h := absurd (field.name_bytes _ h) (by decide)
  blanks b hb := blank_of_nameByte (field.name_bytes b hb)

theorem bytes_eq : a.bytes = (allFields a).flatMap Field.line ++ crlf ++ a.body := by
  have hmarker : archiveTruncationHeader = markerField.line := by decide
  unfold Archive.bytes allFields
  cases a.marker with
  | false => simp
  | true => simp [hmarker]

theorem readMessage_archive :
    readMessage a.bytes = some ((allFields a).map receivedAs, a.body) := by
  have hnames : ∀ field ∈ (allFields a).map fun f => (f.name, f.value), PlainName field.1 := by
    intro field hfield
    obtain ⟨f, -, rfl⟩ := List.mem_map.mp hfield
    exact plainName f
  have hread := readMessage_fields hnames a.body
  have hlines : (fun f : Field => fieldText f.name f.value) = Field.line :=
    funext fun f => (line_text f).symm
  rw [List.flatMap_map, List.map_map] at hread
  rw [hlines, ← bytes_eq] at hread
  exact hread

theorem sameName_canonicalKey {name other : Bytes} (h : sameName name other = true) :
    canonicalKey name = canonicalKey other := by
  rcases (Bool.or_eq_true _ _).mp h with heq | hcase
  · rw [of_decide_eq_true heq]
  · obtain ⟨htoken, hlower⟩ := (Bool.and_eq_true _ _).mp hcase
    exact canonicalKey_congr htoken (of_decide_eq_true hlower)

theorem suppliedHeaders_eq (names : List Bytes) :
    suppliedHeaders fields names =
      names.flatMap fun name => fields.filter fun field => field.1 = name := by
  unfold suppliedHeaders valuesOf
  refine congrArg (names.flatMap ·) (funext fun name => ?_)
  rw [List.map_map]
  conv_rhs => rw [← List.map_id (fields.filter _)]
  refine List.map_congr_left fun field hfield => ?_
  have hname : field.1 = name := by simpa using (List.mem_filter.mp hfield).2
  rw [← hname]
  rfl

/-- Every field is supplied, whatever the order of the names. -/
theorem suppliedHeaders_perm {fields : List (Bytes × Bytes)} {names : List Bytes}
    (hnames : names.Perm (fields.map Prod.fst).dedup) :
    (suppliedHeaders fields names).Perm fields := by
  have hnodup := hnames.nodup_iff.mpr (List.nodup_dedup _)
  rw [suppliedHeaders_eq]
  refine (perm_of_groups Prod.fst fields hnodup).trans (List.Perm.of_eq ?_)
  refine List.filter_eq_self.mpr fun field hfield => ?_
  have hname : field.1 ∈ (fields.map Prod.fst).dedup :=
    List.mem_dedup.mpr (List.mem_map_of_mem hfield)
  simpa using hnames.mem_iff.mpr hname

/-- The fields of one name are supplied in their order. -/
theorem suppliedHeaders_sublist {fields : List (Bytes × Bytes)} {names : List Bytes}
    (hnames : names.Perm (fields.map Prod.fst).dedup) (name : Bytes) :
    (fields.filter fun field => field.1 = name).Sublist (suppliedHeaders fields names) := by
  rw [suppliedHeaders_eq]
  by_cases hname : name ∈ names
  · exact List.sublist_flatten_of_mem (List.mem_map_of_mem hname)
  · have hnone : (fields.filter fun field => field.1 = name) = [] := by
      refine List.filter_eq_nil_iff.mpr fun field hfield hsame => hname ?_
      rw [← of_decide_eq_true hsame]
      exact hnames.mem_iff.mpr (List.mem_dedup.mpr (List.mem_map_of_mem hfield))
    rw [hnone]
    exact List.nil_sublist _

theorem named_sublist (name : Bytes) :
    (((allFields a).filter fun field => sameName name field.name).map receivedAs).Sublist
      (((allFields a).map receivedAs).filter fun field => field.1 = canonicalKey name) := by
  rw [List.filter_map]
  refine (List.monotone_filter_right _ fun field hsame => ?_).map receivedAs
  exact decide_eq_true (sameName_canonicalKey hsame).symm

/-- The archive bytes that a supplied header can take. -/
def weight (header : Bytes × Bytes) : ℕ :=
  ((Field.ofHeader header.1 header.2).map fun field => field.line.length).getD 0

theorem length_acceptedFields_le (maxBytes used : ℕ) (headers : List (Bytes × Bytes)) :
    ((acceptedFields maxBytes used headers).flatMap Field.line).length ≤
      (headers.map weight).sum := by
  fun_induction acceptedFields maxBytes used headers with
  | case1 => exact le_rfl
  | case2 used name value headers _ ih | case4 used name value headers field _ _ ih =>
    exact ih.trans (Nat.le_add_left _ _)
  | case3 used name value headers field hfield _ ih =>
    have hweight : weight (name, value) = field.line.length := by simp [weight, hfield]
    rw [List.map_cons, List.flatMap_cons, List.length_append, hweight]
    exact Nat.add_le_add_left ih _

theorem archiveValue_of_oneLine {value : Bytes} (h : OneLine value) :
    archiveValue value = value := by
  rw [archiveValue_eq, lines_of_oneLine h]
  rfl

/-- A field read back is not longer than it was in the archive. -/
theorem weight_receivedAs (field : Field) : weight (receivedAs field) ≤ field.line.length := by
  unfold weight receivedAs Field.ofHeader
  split_ifs with hname
  · have htrim := (trimSpace_sublist (canonicalKey field.name)).length_le
    rw [length_canonicalKey] at htrim
    have hfilter : ((unfolded field.value).filter (· ≠ 0)).Sublist (unfolded field.value) :=
      List.filter_sublist
    have hvalue : (archiveValue ((unfolded field.value).filter (· ≠ 0))).length ≤
        (archiveValue field.value).length := by
      rw [archiveValue_of_oneLine ((unfolded_oneLine field.value).of_sublist hfilter),
        archiveValue_eq]
      exact hfilter.length_le.trans (length_unfolded_le field.value)
    simp only [Option.map_some, Option.getD_some, Field.line, List.length_append]
    omega
  · exact Nat.zero_le _

/-- The headers of an archive take no more room when they are stored again. -/
theorem stored_again_fits {headers : List (Bytes × Bytes)}
    (hheaders : headers.Perm ((allFields a).map receivedAs)) (maxBytes : ℕ) :
    ((acceptedFields maxBytes 0 headers).flatMap Field.line).length ≤
      ((allFields a).flatMap Field.line).length := by
  calc ((acceptedFields maxBytes 0 headers).flatMap Field.line).length
      ≤ (headers.map weight).sum := length_acceptedFields_le maxBytes 0 headers
    _ = (((allFields a).map receivedAs).map weight).sum := (hheaders.map weight).sum_eq
    _ ≤ ((allFields a).map fun field => field.line.length).sum := by
      rw [List.map_map]
      exact List.sum_le_sum fun field _ => weight_receivedAs field
    _ = ((allFields a).flatMap Field.line).length := List.length_flatMap.symm

/-- A body that fits behind the headers is stored whole. -/
theorem stored_body (table : CaseTable) {maxBytes : ℕ} {headers : List (Bytes × Bytes)}
    {body : Bytes} (hfits : ((acceptedFields maxBytes 0 headers).flatMap Field.line).length + 2 +
      body.length ≤ maxBytes) :
    let m := addBody (headers.foldl (fun m h => addHeader table m h.1 h.2) (new maxBytes)) body
    m.body = body ∧ m.bodyTruncated = false := by
  obtain ⟨-, -, -, hbody, hdiscarded⟩ := received_store table maxBytes headers [body]
  rw [List.flatten_singleton] at hbody hdiscarded
  refine ⟨hbody.trans (List.take_of_length_le (by omega)), hdiscarded.trans ?_⟩
  exact decide_eq_false (by omega)

/-- A non-empty archive is read back: its body whole, and each of its fields under its
name up to letter case with its value unfolded, the fields of one name in order. -/
theorem archive_round_trip (table : CaseTable) {order : List Bytes → List Bytes}
    (horder : ∀ names, (order names).Perm names) (maxBytes : ℕ) (headers : List (Bytes × Bytes))
    (chunks : List Bytes)
    (hfilled : archiveBytes (received table maxBytes headers chunks) ≠ []) :
    ∃ a : Archive, archiveBytes (received table maxBytes headers chunks) = a.bytes ∧
      a.fields <+: acceptedFields maxBytes 0 headers ∧ a.body <+: chunks.flatten ∧
      ∃ supplied saved,
        parseArchived table order (archiveBytes (received table maxBytes headers chunks)) maxBytes =
          .ok saved ∧
        saved.message =
          addBody (supplied.foldl (fun m h => addHeader table m h.1 h.2) (new maxBytes)) a.body ∧
        saved.message.body = a.body ∧ saved.message.bodyTruncated = false ∧
        supplied.Perm ((allFields a).map receivedAs) ∧
        (∀ name, (((allFields a).filter fun field => sameName name field.name).map
          receivedAs).Sublist supplied) ∧
        ∀ field ∈ allFields a,
          (receivedAs field).1.map asciiLowerByte = field.name.map asciiLowerByte := by
  obtain ⟨hmax, hheaders, -, hbody, -⟩ := received_store table maxBytes headers chunks
  have hlarge : 2 ≤ (received table maxBytes headers chunks).maxBytes := by
    by_contra hsmall
    exact hfilled (if_pos (Nat.lt_of_not_le hsmall))
  obtain ⟨a, hbytes, hlength, -, hfields, hstart, -⟩ := archiveBytes_parts hlarge hheaders
  have hkept : (received table maxBytes headers chunks).body <+: chunks.flatten := by
    rw [hbody]
    exact List.take_prefix _ _
  refine ⟨a, hbytes, hfields, hstart.trans hkept, ?_⟩
  have hnames := horder (((allFields a).map receivedAs).map Prod.fst).dedup
  have hsupplied := suppliedHeaders_perm hnames
  have hfits : ((acceptedFields maxBytes 0 (suppliedHeaders ((allFields a).map receivedAs)
      (order (((allFields a).map receivedAs).map Prod.fst).dedup))).flatMap Field.line).length + 2 +
      a.body.length ≤ maxBytes := by
    have hagain := stored_again_fits a hsupplied maxBytes
    have hparts := congrArg List.length (bytes_eq a)
    rw [List.length_append, List.length_append, show crlf.length = 2 from rfl] at hparts
    omega
  obtain ⟨hwhole, huncut⟩ := stored_body table hfits
  rw [hbytes, parseArchived, if_neg (by omega), readMessage_archive]
  refine ⟨_, _, rfl, rfl, hwhole, huncut, hsupplied, fun name => ?_,
    fun field _ => lower_canonicalKey field.name⟩
  exact (named_sublist a name).trans (suppliedHeaders_sublist hnames (canonicalKey name))

/-- A message cut at its limit, with a folded header and a name in two letter cases. -/
def cutMessage : Message :=
  received MailAddresses.asciiTable 90 [(ascii "To", ascii "a\nb"), (ascii "TO", ascii "c")]
    [ascii "body", List.replicate 90 0x2E]

theorem cutMessage_read_back :
    archiveBytes cutMessage ≠ [] ∧ ∃ a : Archive, archiveBytes cutMessage = a.bytes ∧
      ∃ saved, parseArchived MailAddresses.asciiTable id (archiveBytes cutMessage) 90 = .ok saved ∧
        saved.message.body = a.body ∧ saved.message.bodyTruncated = false := by
  have hfilled : archiveBytes cutMessage ≠ [] := by decide
  obtain ⟨a, hbytes, -, -, -, saved, hparse, -, hbody, huncut, -⟩ :=
    archive_round_trip MailAddresses.asciiTable (fun names => List.Perm.refl (id names)) 90
      [(ascii "To", ascii "a\nb"), (ascii "TO", ascii "c")]
      [ascii "body", List.replicate 90 0x2E] hfilled
  exact ⟨hfilled, a, hbytes, saved, hparse, hbody, huncut⟩

end MilterGuard.ArchiveRoundTrip
