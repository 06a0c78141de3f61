import MilterGuard.MessageBuffer
import MilterGuard.FoldedTexts

/-!
The store of a bounded message. Header fields are accepted while they fit into half of
the limit, and the body gets what they and the separator leave. What is stored of the
body depends on its bytes alone, however they are divided into chunks.
-/
namespace MilterGuard.MessageStore

open ByteStrings Hostnames MessageBuffer FoldedTexts

def nameByte (b : UInt8) : Bool := 33 ≤ b && b ≤ 126 && b ≠ 0x3A

/-- A header field as it stands in an archive. -/
structure Field where
  name : Bytes
  value : Bytes
  name_ne_nil : name ≠ []
  name_bytes : ∀ b ∈ name, nameByte b = true
  deriving DecidableEq

def Field.line (field : Field) : Bytes :=
  field.name ++ [0x3A, 0x20] ++ archiveValue field.value ++ crlf

/-- The field a supplied header becomes, unless its name is refused. -/
def Field.ofHeader (name value : Bytes) : Option Field :=
  if h : trimSpace name ≠ [] ∧ ∀ b ∈ trimSpace name, nameByte b = true then
    some ⟨trimSpace name, value.filter (· ≠ 0), h.1, h.2⟩
  else none

/-- The fields that fit into half of the limit, after `used` bytes of earlier ones. -/
def acceptedFields (maxBytes : ℕ) : ℕ → List (Bytes × Bytes) → List Field
  | _, [] => []
  | used, (name, value) :: headers =>
    match Field.ofHeader name value with
    | none => acceptedFields maxBytes used headers
    | some field =>
      if used + field.line.length ≤ maxBytes / 2 then
        field :: acceptedFields maxBytes (used + field.line.length) headers
      else acceptedFields maxBytes used headers

/-- A message after its headers and then its body have arrived. -/
def received (table : CaseTable) (maxBytes : ℕ) (headers : List (Bytes × Bytes))
    (chunks : List Bytes) : Message :=
  chunks.foldl addBody (headers.foldl (fun m h => addHeader table m h.1 h.2) (new maxBytes))

variable (field : Field) (table : CaseTable) (m : Message) (name value : Bytes)
  (headers : List (Bytes × Bytes))

theorem archiveValue_eq : archiveValue value = join fold (lines value) := by
  fun_induction archiveValue value with
  | case1 => rfl
  | case2 rest ih | case4 rest ih => rw [lines, join_nil_cons _ (lines_ne_nil rest), ih]; rfl
  | case3 rest hnot ih => rw [lines, join_nil_cons _ (lines_ne_nil rest), ih]; rfl; exact hnot
  | case5 b rest hcrlf hcr hlf ih =>
    rw [lines, join_modifyHead _ _ (lines_ne_nil rest), ih]
    · exact hcrlf
    · exact hcr
    · exact hlf

/-- A field is a first line and the folds behind it. -/
theorem Field.line_eq :
    ∃ first more, OneLine first ∧ (∀ line ∈ more, OneLine line) ∧
      lines field.value = first :: more ∧
      field.line = (field.name ++ [0x3A, 0x20] ++ first) ++ more.flatMap (fold ++ ·) ++ crlf := by
  obtain ⟨first, more, hlines⟩ := List.exists_cons_of_ne_nil (lines_ne_nil field.value)
  have hone := lines_oneLine field.value
  rw [hlines] at hone
  refine ⟨first, more, hone first List.mem_cons_self,
    fun line hline => hone line (List.mem_cons_of_mem first hline), hlines, ?_⟩
  rw [Field.line, archiveValue_eq, hlines, join_cons]
  simp

theorem Field.name_oneLine : OneLine (field.name ++ [0x3A, 0x20]) := by
  have hname : OneLine field.name :=
    ⟨fun h => absurd (field.name_bytes _ h) (by decide),
      fun h => absurd (field.name_bytes _ h) (by decide)⟩
  exact hname.append (by simp [OneLine])

theorem blank_of_nameByte {b : UInt8} (hb : nameByte b = true) : blank b = false := by
  by_contra hblank
  have heither : b = 0x20 ∨ b = 0x09 := by
    simpa only [blank, Bool.not_eq_false, Bool.or_eq_true, decide_eq_true_eq] using hblank
  rcases heither with rfl | rfl
  · exact absurd hb (by decide)
  · exact absurd hb (by decide)

theorem Field.line_head (rest : Bytes) :
    ((field.line ++ rest).head?.map blank).getD false = false := by
  obtain ⟨b, name, hname⟩ := List.exists_cons_of_ne_nil field.name_ne_nil
  have hb := field.name_bytes b (by simp [hname])
  simp [Field.line, hname, blank_of_nameByte hb]

private theorem refused_iff :
    (name = [] ∨ name.any (fun b => b < 33 || 126 < b || b = 0x3A) = true) ↔
      ¬ (name ≠ [] ∧ ∀ b ∈ name, nameByte b = true) := by
  have hbyte : ∀ b : UInt8, (b < 33 || 126 < b || b = 0x3A) = !nameByte b := by
    intro b
    simp only [nameByte, Bool.not_and, ← decide_not, UInt8.not_le, not_not]
  simp only [hbyte, List.any_eq_true, Bool.not_eq_true', not_and_or, not_not, not_forall,
    Bool.not_eq_true, exists_prop]

theorem addArchiveHeader_eq :
    addArchiveHeader m name value =
      match Field.ofHeader name value with
      | none => { m with archiveHeadersTruncated := true }
      | some field =>
        if m.archiveHeaders.length + field.line.length ≤ m.maxBytes / 2 then
          { m with archiveHeaders := m.archiveHeaders ++ field.line }
        else { m with archiveHeadersTruncated := true } := by
  unfold addArchiveHeader Field.ofHeader
  by_cases hname : trimSpace name ≠ [] ∧ ∀ b ∈ trimSpace name, nameByte b = true
  · rw [if_neg (fun h => (refused_iff _).mp h hname), dif_pos hname]
    by_cases hfits : m.archiveHeaders.length + (trimSpace name ++ [0x3A, 0x20] ++
        archiveValue (value.filter (· ≠ 0)) ++ [0x0D, 0x0A]).length ≤ m.maxBytes / 2
    · rw [if_neg (by omega)]
      exact (if_pos hfits).symm
    · rw [if_pos (by omega)]
      exact (if_neg hfits).symm
  · rw [if_pos ((refused_iff _).mpr hname), dif_neg hname]

/-- What the archive is made from. -/
structure SameStore (m' : Message) : Prop where
  maxBytes : m'.maxBytes = m.maxBytes
  archiveHeaders : m'.archiveHeaders = m.archiveHeaders
  archiveHeadersTruncated : m'.archiveHeadersTruncated = m.archiveHeadersTruncated
  body : m'.body = m.body
  bodyTruncated : m'.bodyTruncated = m.bodyTruncated

theorem SameStore.refl : SameStore m m := ⟨rfl, rfl, rfl, rfl, rfl⟩

theorem SameStore.trans {m m' m'' : Message} (h : SameStore m m') (h' : SameStore m' m'') :
    SameStore m m'' :=
  ⟨h'.maxBytes.trans h.maxBytes, h'.archiveHeaders.trans h.archiveHeaders,
    h'.archiveHeadersTruncated.trans h.archiveHeadersTruncated, h'.body.trans h.body,
    h'.bodyTruncated.trans h.bodyTruncated⟩

theorem SameStore.ite {m first second : Message} {c : Prop} [Decidable c]
    (hfirst : SameStore m first) (hsecond : SameStore m second) :
    SameStore m (if c then first else second) :=
  iteInduction (fun _ => hfirst) fun _ => hsecond

theorem markTruncated_sameStore : SameStore m (markTruncated m name) :=
  ⟨rfl, rfl, rfl, rfl, rfl⟩

theorem retainHeader_sameStore : SameStore m (retainHeader m name value) := by
  unfold retainHeader
  extract_lets text valueLimit kept cut
  have hcut : SameStore m cut := .ite (markTruncated_sameStore m name) (.refl m)
  have hkept : SameStore cut { cut with headers := cut.headers ++ [(name, kept)] } :=
    ⟨rfl, rfl, rfl, rfl, rfl⟩
  exact .ite (hcut.trans (markTruncated_sameStore cut name)) (hcut.trans hkept)

/-- Beyond its archive line a header leaves the archive as it is. -/
theorem addHeader_sameStore :
    SameStore (addArchiveHeader m name value) (addHeader table m name value) := by
  unfold addHeader
  extract_lets archived lowered senders counted
  have hsenders : SameStore archived senders := .ite ⟨rfl, rfl, rfl, rfl, rfl⟩ (.refl archived)
  have hcounted : SameStore archived counted :=
    .ite (hsenders.trans ⟨rfl, rfl, rfl, rfl, rfl⟩) hsenders
  exact .ite (hcounted.trans (retainHeader_sameStore counted lowered value)) hcounted

theorem acceptedFields_length_le (maxBytes used : ℕ) (headers : List (Bytes × Bytes)) :
    (acceptedFields maxBytes used headers).length ≤ headers.length := by
  fun_induction acceptedFields maxBytes used headers with
  | case1 => exact le_rfl
  | case2 used name value headers _ ih | case4 used name value headers field _ _ ih =>
    exact ih.trans (Nat.le_succ _)
  | case3 used name value headers field _ _ ih => exact Nat.succ_le_succ ih

theorem acceptedFields_fit {maxBytes used : ℕ} (hused : used ≤ maxBytes / 2)
    (headers : List (Bytes × Bytes)) :
    used + ((acceptedFields maxBytes used headers).flatMap Field.line).length ≤ maxBytes / 2 := by
  fun_induction acceptedFields maxBytes used headers with
  | case1 => exact hused
  | case2 used name value headers _ ih | case4 used name value headers field _ _ ih =>
    exact ih hused
  | case3 used name value headers field _ hfits ih =>
    rw [List.flatMap_cons, List.length_append, ← Nat.add_assoc]
    exact ih hfits

/-- Without a refusal every header has its field. -/
theorem acceptedFields_all {maxBytes used : ℕ} {headers : List (Bytes × Bytes)}
    (h : headers.length ≤ (acceptedFields maxBytes used headers).length) :
    (acceptedFields maxBytes used headers).map some =
      headers.map fun header => Field.ofHeader header.1 header.2 := by
  fun_induction acceptedFields maxBytes used headers with
  | case1 => rfl
  | case2 used name value headers _ ih | case4 used name value headers field _ _ ih =>
    exact absurd (h.trans (acceptedFields_length_le ..)) (Nat.not_succ_le_self _)
  | case3 used name value headers field hfield _ ih =>
    rw [List.map_cons, List.map_cons, hfield, ih (Nat.le_of_succ_le_succ h)]

/-- The store after a sequence of headers. -/
def collected : Message :=
  let accepted := acceptedFields m.maxBytes m.archiveHeaders.length headers
  { m with
    archiveHeaders := m.archiveHeaders ++ accepted.flatMap Field.line
    archiveHeadersTruncated :=
      m.archiveHeadersTruncated || decide (accepted.length < headers.length) }

theorem collected_congr {m m' : Message} (h : SameStore m m') (headers : List (Bytes × Bytes)) :
    SameStore (collected m headers) (collected m' headers) := by
  refine ⟨h.maxBytes, ?_, ?_, h.body, h.bodyTruncated⟩
  · simp only [collected, h.maxBytes, h.archiveHeaders]
  · simp only [collected, h.maxBytes, h.archiveHeaders, h.archiveHeadersTruncated]

theorem collected_cons :
    SameStore (collected m ((name, value) :: headers))
      (collected (addArchiveHeader m name value) headers) := by
  have hlength := fun used => acceptedFields_length_le m.maxBytes used headers
  rw [addArchiveHeader_eq]
  cases hfield : Field.ofHeader name value with
  | none =>
    refine ⟨rfl, ?_, ?_, rfl, rfl⟩
    · simp only [collected, acceptedFields, hfield]
    · simp [collected, acceptedFields, hfield, Nat.lt_succ_of_le (hlength _)]
  | some field =>
    dsimp only
    split_ifs with hfits
    · refine ⟨rfl, ?_, ?_, rfl, rfl⟩
      · simp [collected, acceptedFields, hfield, hfits]
      · simp [collected, acceptedFields, hfield, hfits]
    · refine ⟨rfl, ?_, ?_, rfl, rfl⟩
      · simp only [collected, acceptedFields, hfield, hfits, if_false]
      · simp [collected, acceptedFields, hfield, hfits, Nat.lt_succ_of_le (hlength _)]

theorem foldl_addHeader_sameStore (m : Message) :
    SameStore (collected m headers)
      (headers.foldl (fun m h => addHeader table m h.1 h.2) m) := by
  induction headers generalizing m with
  | nil => exact ⟨rfl, by simp [collected, acceptedFields], by simp [collected],
      rfl, rfl⟩
  | cons header headers ih =>
    obtain ⟨name, value⟩ := header
    have hstep := collected_congr (addHeader_sameStore table m name value) headers
    exact ((collected_cons m name value headers).trans hstep).trans
      (ih (addHeader table m name value))

/-- The bytes a message still has for its body. -/
def room : ℕ := m.maxBytes - m.archiveHeaders.length - 2 - m.body.length

theorem addBody_eq (chunk : Bytes) :
    addBody m chunk =
      { m with
        body := m.body ++ chunk.take (room m)
        truncated := m.truncated || decide (room m < chunk.length)
        bodyTruncated := m.bodyTruncated || decide (room m < chunk.length) } := by
  change (if chunk = [] then m
    else if room m = 0 then _ else if chunk.length > room m then _ else _) = _
  by_cases hempty : chunk = []
  · subst chunk
    simp
  have hpos : 0 < chunk.length := List.length_pos_iff.mpr hempty
  rw [if_neg hempty]
  by_cases hroom : room m = 0
  · simp [hroom, hpos]
  rw [if_neg hroom]
  by_cases hlong : room m < chunk.length
  · simp [hlong]
    rfl
  · simp [hlong, List.take_of_length_le (Nat.le_of_not_lt hlong)]

theorem room_addBody (chunk : Bytes) : room (addBody m chunk) = room m - chunk.length := by
  rw [addBody_eq]
  simp only [room, List.length_append, List.length_take]
  omega

/-- Two chunks are stored as one. -/
theorem addBody_addBody (first second : Bytes) :
    addBody (addBody m first) second = addBody m (first ++ second) := by
  have hover : (decide (room m < first.length) || decide (room m - first.length < second.length)) =
      decide (room m < first.length + second.length) := by
    rw [← Bool.decide_or, decide_eq_decide]
    omega
  rw [addBody_eq (addBody m first), room_addBody, addBody_eq m first,
    addBody_eq m (first ++ second)]
  simp only [List.take_append, List.append_assoc, List.length_append, Bool.or_assoc, hover]

theorem foldl_addBody (chunks : List Bytes) :
    chunks.foldl addBody m = addBody m chunks.flatten := by
  induction chunks generalizing m with
  | nil => rfl
  | cons chunk chunks ih => rw [List.foldl_cons, ih, addBody_addBody, List.flatten_cons]

/-- The store of a message after its headers and its body. -/
theorem received_store (table : CaseTable) (maxBytes : ℕ) (headers : List (Bytes × Bytes))
    (chunks : List Bytes) :
    let m := received table maxBytes headers chunks
    let accepted := acceptedFields maxBytes 0 headers
    let space := maxBytes - (accepted.flatMap Field.line).length - 2
    m.maxBytes = maxBytes ∧ m.archiveHeaders = accepted.flatMap Field.line ∧
      m.archiveHeadersTruncated = decide (accepted.length < headers.length) ∧
      m.body = chunks.flatten.take space ∧
      m.bodyTruncated = decide (space < chunks.flatten.length) := by
  have hstore := foldl_addHeader_sameStore table headers (new maxBytes)
  rw [received, foldl_addBody]
  generalize headers.foldl (fun m h => addHeader table m h.1 h.2) (new maxBytes) = m at hstore ⊢
  have hmax : m.maxBytes = maxBytes := hstore.maxBytes
  have hheaders : m.archiveHeaders = (acceptedFields maxBytes 0 headers).flatMap Field.line :=
    hstore.archiveHeaders
  have hbody : m.body = [] := hstore.body
  have hdiscarded : m.bodyTruncated = false := hstore.bodyTruncated
  have hroom : room m =
      maxBytes - ((acceptedFields maxBytes 0 headers).flatMap Field.line).length - 2 := by
    rw [room, hmax, hheaders, hbody, List.length_nil, Nat.sub_zero]
  rw [addBody_eq, hroom]
  refine ⟨hmax, hheaders, hstore.archiveHeadersTruncated, ?_, ?_⟩
  · rw [hbody, List.nil_append]
  · rw [hdiscarded, Bool.false_or]

/-- The body that is kept depends on the bytes received and not on their division. -/
theorem received_flatten (maxBytes : ℕ) (headers : List (Bytes × Bytes)) (chunks : List Bytes) :
    received table maxBytes headers chunks = received table maxBytes headers [chunks.flatten] := by
  rw [received, foldl_addBody]
  rfl

end MilterGuard.MessageStore
