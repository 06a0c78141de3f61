import MilterGuard.FoldedTexts

/-!
Reading a mail message as the standard library does. The header ends at the first empty
line. A line that starts with a blank continues the field before it, the lines of a field
are trimmed and joined with single blanks, and the name of a field ends at its first colon.
Field names are kept in a canonical letter case when they are made of token characters.
-/
namespace MilterGuard.MailReading

open ByteStrings FoldedTexts

def upperLetter (b : UInt8) : Bool := 0x41 ≤ b && b ≤ 0x5A

def lowerLetter (b : UInt8) : Bool := 0x61 ≤ b && b ≤ 0x7A

/-- The characters of a token: letters, digits and some punctuation. -/
def tokenByte (b : UInt8) : Bool :=
  upperLetter b || lowerLetter b || 0x30 ≤ b && b ≤ 0x39 ||
    (ascii "!#$%&'*+-.^_\x60|~").contains b

def setCase (upper : Bool) (b : UInt8) : UInt8 :=
  if upper && lowerLetter b then b - 0x20 else if !upper && upperLetter b then b + 0x20 else b

/-- Capital letters at the start and behind hyphens, small letters elsewhere. -/
def capitalized : Bool → Bytes → Bytes
  | _, [] => []
  | upper, b :: rest => setCase upper b :: capitalized (b = 0x2D) rest

def canonicalKey (name : Bytes) : Bytes :=
  if name.all tokenByte then capitalized true name else name

/-- The first line and what follows it. LF ends a line, with the CR before it. -/
def readLine (text : Bytes) : Bytes × Bytes :=
  match cut 0x0A text with
  | some (line, rest) => (trimSuffix line [0x0D], rest)
  | none => (text, [])

def startsBlank (text : Bytes) : Bool := (text.head?.map blank).getD false

/-- Adds the continuation lines of a field to its first line. -/
def readContinued : ℕ → Bytes → Bytes → Bytes × Bytes
  | 0, buffer, text => (buffer, text)
  | fuel + 1, buffer, text =>
    if startsBlank text then
      let next := readLine (trimLeftBlanks text)
      readContinued fuel (buffer ++ [0x20] ++ trimBlanks next.1) next.2
    else (buffer, text)

/-- The fields of a header in order and what follows the empty line; `none` when a field
has no colon. Every field takes at least one byte, so the length is enough fuel. -/
def readHeader : ℕ → Bytes → Option (List (Bytes × Bytes) × Bytes)
  | 0, text => some ([], text)
  | fuel + 1, text =>
    let first := readLine text
    if first.1 = [] then some ([], first.2)
    else
      let field := readContinued text.length (trimBlanks first.1) first.2
      if field.1 = [] then some ([], field.2)
      else match cut 0x3A field.1 with
        | none => none
        | some (name, value) =>
          (readHeader fuel field.2).map fun later =>
            ((canonicalKey name, trimLeftBlanks value) :: later.1, later.2)

/-- Empty input and a blank in front are errors. -/
def readMessage (text : Bytes) : Option (List (Bytes × Bytes) × Bytes) :=
  if text = [] ∨ startsBlank text then none else readHeader text.length text

variable (upper : Bool) (name : Bytes) {fields : List (Bytes × Bytes)}

private theorem setCase_lower :
    ∀ b, asciiLowerByte (setCase upper b) = asciiLowerByte b ∧
      setCase upper (asciiLowerByte b) = setCase upper b ∧
      (decide (asciiLowerByte b = 0x2D) = decide (b = 0x2D)) ∧
      tokenByte (asciiLowerByte b) = tokenByte b := by
  cases upper with
  | false | true => exact forall_byte _ (by decide +kernel)

theorem lower_capitalized :
    (capitalized upper name).map asciiLowerByte = name.map asciiLowerByte := by
  induction name generalizing upper with
  | nil => rfl
  | cons b name ih =>
    rw [capitalized, List.map_cons, List.map_cons, (setCase_lower upper b).1, ih]

theorem capitalized_lower :
    capitalized upper (name.map asciiLowerByte) = capitalized upper name := by
  induction name generalizing upper with
  | nil => rfl
  | cons b name ih =>
    obtain ⟨-, hcase, hhyphen, -⟩ := setCase_lower upper b
    rw [List.map_cons, capitalized, capitalized, hcase, hhyphen, ih]

/-- The canonical name is the name up to letter case. -/
theorem lower_canonicalKey : (canonicalKey name).map asciiLowerByte = name.map asciiLowerByte := by
  unfold canonicalKey
  split_ifs
  · exact lower_capitalized true name
  · rfl

theorem length_canonicalKey : (canonicalKey name).length = name.length := by
  simpa using congrArg List.length (lower_canonicalKey name)

/-- Names of token characters that agree up to letter case have one canonical name. -/
theorem canonicalKey_congr {name other : Bytes} (htoken : name.all tokenByte = true)
    (h : name.map asciiLowerByte = other.map asciiLowerByte) :
    canonicalKey name = canonicalKey other := by
  have hlowered : ∀ text : Bytes, (text.map asciiLowerByte).all tokenByte = text.all tokenByte := by
    intro text
    rw [List.all_map]
    exact List.all_congr rfl fun b => (setCase_lower true b).2.2.2
  have hother : other.all tokenByte = true := by rw [← hlowered, ← h, hlowered, htoken]
  rw [canonicalKey, canonicalKey, if_pos htoken, if_pos hother, ← capitalized_lower true name, h,
    capitalized_lower]

theorem readLine_crlf {line : Bytes} (hline : OneLine line) (rest : Bytes) :
    readLine (line ++ crlf ++ rest) = (line, rest) := by
  have hcut : cut 0x0A (line ++ crlf ++ rest) = some (line ++ [0x0D], rest) := by
    have hbefore : (0x0A : UInt8) ∉ line ++ [0x0D] := by
      simpa using hline.2
    simpa [crlf] using cut_append 0x0A (line ++ [0x0D]) rest hbefore
  simp only [readLine, hcut, trimSuffix_append]

/-- The line end of a field in front of the folds instead of behind them. -/
theorem folds_crlf (more : List Bytes) :
    more.flatMap (fold ++ ·) ++ crlf = crlf ++ more.flatMap fun line => 0x20 :: (line ++ crlf) := by
  induction more with
  | nil => rfl
  | cons line more ih =>
    rw [List.flatMap_cons, List.append_assoc, ih]
    simp [fold, crlf]

theorem trimLeftBlanks_line (line rest : Bytes) :
    trimLeftBlanks (line ++ crlf ++ rest) = trimLeftBlanks line ++ crlf ++ rest := by
  rw [List.append_assoc, List.append_assoc]
  unfold trimLeftBlanks
  rw [List.dropWhile_append]
  split_ifs with hempty
  · rw [List.isEmpty_iff.mp hempty]
    rfl
  · rfl

theorem trimBlanks_trimLeftBlanks (line : Bytes) :
    trimBlanks (trimLeftBlanks line) = trimBlanks line := by
  unfold trimBlanks trimLeftBlanks
  rw [List.dropWhile_idempotent]

theorem readContinued_folds {more : List Bytes} (hmore : ∀ line ∈ more, OneLine line)
    {rest : Bytes} (hrest : startsBlank rest = false) {fuel : ℕ} (hfuel : more.length < fuel)
    (buffer : Bytes) :
    readContinued fuel buffer ((more.flatMap fun line => 0x20 :: (line ++ crlf)) ++ rest) =
      (buffer ++ more.flatMap fun line => [0x20] ++ trimBlanks line, rest) := by
  induction more generalizing fuel buffer with
  | nil =>
    obtain ⟨fuel, rfl⟩ := Nat.exists_eq_add_one_of_ne_zero (Nat.ne_of_gt hfuel)
    simp [readContinued, hrest]
  | cons line more ih =>
    obtain ⟨fuel, rfl⟩ := Nat.exists_eq_add_one_of_ne_zero (Nat.ne_of_gt (Nat.zero_lt_of_lt hfuel))
    have hline : OneLine (trimLeftBlanks line) :=
      (hmore line List.mem_cons_self).of_sublist (trimLeftBlanks_sublist line)
    have hread : readLine (trimLeftBlanks (0x20 :: (line ++ crlf) ++
        ((more.flatMap fun line => 0x20 :: (line ++ crlf)) ++ rest))) =
        (trimLeftBlanks line, (more.flatMap fun line => 0x20 :: (line ++ crlf)) ++ rest) := by
      change readLine (trimLeftBlanks (line ++ crlf ++ _)) = _
      rw [trimLeftBlanks_line, readLine_crlf hline]
    have hlater : ∀ later ∈ more, OneLine later :=
      fun later hmem => hmore later (List.mem_cons_of_mem line hmem)
    have hblank : startsBlank (0x20 :: (line ++ crlf) ++
        ((more.flatMap fun line => 0x20 :: (line ++ crlf)) ++ rest)) = true := rfl
    rw [List.flatMap_cons, List.append_assoc, readContinued, if_pos hblank, hread]
    dsimp only
    rw [trimBlanks_trimLeftBlanks, ih hlater (Nat.lt_of_succ_lt_succ hfuel)]
    simp

/-- A byte that is no blank keeps what stands before it. -/
theorem rdropWhile_append_cons {b : UInt8} (hb : blank b = false) (before after : Bytes) :
    (before ++ b :: after).rdropWhile blank = before ++ b :: after.rdropWhile blank := by
  induction after using List.reverseRecOn with
  | nil => exact List.rdropWhile_concat_neg _ _ _ (by simp [hb])
  | append_singleton after c ih =>
    rw [← List.cons_append, ← List.append_assoc, List.rdropWhile_concat, List.rdropWhile_concat]
    split_ifs
    · exact ih
    · rw [List.append_assoc, List.cons_append]

/-- A name as writers of fields use them. -/
structure PlainName : Prop where
  ne_nil : name ≠ []
  oneLine : OneLine name
  colon : 0x3A ∉ name
  blanks : ∀ b ∈ name, blank b = false

theorem PlainName.startsBlank {name : Bytes} (h : PlainName name) (rest : Bytes) :
    startsBlank (name ++ rest) = false := by
  obtain ⟨b, later, rfl⟩ := List.exists_cons_of_ne_nil h.ne_nil
  simpa [MailReading.startsBlank] using h.blanks b List.mem_cons_self

theorem PlainName.trimBlanks {name : Bytes} (h : PlainName name) (value : Bytes) :
    trimBlanks (name ++ 0x3A :: value) = name ++ 0x3A :: value.rdropWhile blank := by
  have hleft : trimLeftBlanks (name ++ 0x3A :: value) = name ++ 0x3A :: value := by
    obtain ⟨b, later, rfl⟩ := List.exists_cons_of_ne_nil h.ne_nil
    have hb := h.blanks b List.mem_cons_self
    exact List.dropWhile_cons_of_neg (by simp [hb])
  rw [FoldedTexts.trimBlanks, hleft, rdropWhile_append_cons rfl]

/-- A field as writers put it down: the value is folded behind the name. -/
def fieldText (value : Bytes) : Bytes :=
  name ++ [0x3A, 0x20] ++ join fold (lines value) ++ crlf

private theorem length_le_folds (more : List Bytes) :
    more.length ≤ (more.flatMap fun line => 0x20 :: (line ++ crlf)).length := by
  induction more with
  | nil => exact le_rfl
  | cons line more ih =>
    rw [List.flatMap_cons, List.length_append, List.length_cons, List.length_cons]
    omega

/-- The blank behind the colon and those around the first line are dropped alike. -/
private theorem unfolded_of_first {value first : Bytes} {more : List Bytes}
    (hlines : lines value = first :: more) :
    trimLeftBlanks ((0x20 :: first).rdropWhile blank ++
      more.flatMap fun line => [0x20] ++ trimBlanks line) = unfolded value := by
  have hfirst : trimLeftBlanks ((0x20 :: first).rdropWhile blank) = trimBlanks first := by
    rw [trimLeftBlanks_rdropWhile]
    rfl
  rw [← trimLeftBlanks_append, hfirst, unfolded, hlines, List.map_cons, join_cons, List.flatMap_map]

/-- Reading one field leaves the name and the unfolded value. -/
theorem readHeader_field {name : Bytes} (hname : PlainName name) (value : Bytes) {rest : Bytes}
    (hrest : startsBlank rest = false) (fuel : ℕ) :
    readHeader (fuel + 1) (fieldText name value ++ rest) =
      (readHeader fuel rest).map fun later =>
        ((canonicalKey name, unfolded value) :: later.1, later.2) := by
  obtain ⟨first, more, hlines⟩ := List.exists_cons_of_ne_nil (lines_ne_nil value)
  have hone := lines_oneLine value
  rw [hlines] at hone
  have hmore : ∀ line ∈ more, OneLine line :=
    fun line hline => hone line (List.mem_cons_of_mem first hline)
  have hfirst : OneLine (name ++ 0x3A :: 0x20 :: first) :=
    hname.oneLine.append ((show OneLine [0x3A, 0x20] by simp [OneLine]).append
      (hone first List.mem_cons_self))
  have htext : fieldText name value ++ rest = (name ++ 0x3A :: 0x20 :: first) ++ crlf ++
      ((more.flatMap fun line => 0x20 :: (line ++ crlf)) ++ rest) := by
    rw [fieldText, hlines, join_cons]
    have hfolds := folds_crlf more
    simp only [List.append_assoc] at hfolds ⊢
    rw [← List.append_assoc (more.flatMap _) crlf rest, hfolds]
    simp
  have hline : readLine (fieldText name value ++ rest) = (name ++ 0x3A :: 0x20 :: first,
      (more.flatMap fun line => 0x20 :: (line ++ crlf)) ++ rest) := by
    rw [htext, readLine_crlf hfirst]
  have hlength : more.length < (fieldText name value ++ rest).length := by
    have hfolds := length_le_folds more
    rw [htext]
    simp only [List.length_append, List.length_cons]
    omega
  have hfield := readContinued_folds hmore hrest hlength
  rw [readHeader, hline]
  rw [if_neg (by simp), hfield, hname.trimBlanks]
  rw [if_neg (by simp), List.append_assoc, List.cons_append, cut_append _ _ _ hname.colon]
  dsimp only
  rw [unfolded_of_first hlines]

section

variable (hfields : ∀ field ∈ fields, PlainName field.1) (body : Bytes)

include hfields

theorem startsBlank_fields :
    startsBlank ((fields.flatMap fun field => fieldText field.1 field.2) ++ crlf ++ body) =
      false := by
  cases fields with
  | nil => rfl
  | cons field fields =>
    rw [List.flatMap_cons, fieldText]
    simp only [List.append_assoc]
    exact (hfields field List.mem_cons_self).startsBlank _

/-- Fields put down one after the other are read back in order, and what follows the
empty line is left as it is. -/
theorem readHeader_fields {fuel : ℕ} (hfuel : fields.length < fuel) :
    readHeader fuel ((fields.flatMap fun field => fieldText field.1 field.2) ++ crlf ++ body) =
      some (fields.map fun field => (canonicalKey field.1, unfolded field.2), body) := by
  induction fields generalizing fuel with
  | nil =>
    obtain ⟨fuel, rfl⟩ := Nat.exists_eq_add_one_of_ne_zero (Nat.ne_of_gt hfuel)
    rfl
  | cons field fields ih =>
    obtain ⟨fuel, rfl⟩ := Nat.exists_eq_add_one_of_ne_zero (Nat.ne_of_gt (Nat.zero_lt_of_lt hfuel))
    have hlater := fun later hmem => hfields later (List.mem_cons_of_mem field hmem)
    have hrest := startsBlank_fields hlater body
    rw [List.flatMap_cons, List.append_assoc, List.append_assoc,
      ← List.append_assoc (fields.flatMap _),
      readHeader_field (hfields field List.mem_cons_self) field.2 hrest,
      ih hlater (Nat.lt_of_succ_lt_succ hfuel)]
    rfl

theorem readMessage_fields :
    readMessage ((fields.flatMap fun field => fieldText field.1 field.2) ++ crlf ++ body) =
      some (fields.map fun field => (canonicalKey field.1, unfolded field.2), body) := by
  have hlength : fields.length ≤
      (fields.flatMap fun field => fieldText field.1 field.2).length := by
    clear hfields
    induction fields with
    | nil => exact le_rfl
    | cons field fields ih =>
      have hfield : 0 < (fieldText field.1 field.2).length := by
        simp only [fieldText, List.length_append, List.length_cons]
        omega
      rw [List.flatMap_cons, List.length_append, List.length_cons]
      omega
  have hfilled : (fields.flatMap fun field => fieldText field.1 field.2) ++ crlf ++ body ≠ [] := by
    simp [crlf]
  have hstart := startsBlank_fields hfields body
  rw [readMessage, if_neg (by rw [hstart]; exact fun h => h.elim hfilled Bool.false_ne_true)]
  refine readHeader_fields hfields body ?_
  simp only [List.length_append, crlf, List.length_cons]
  omega

end

section Groups

variable {α κ : Type*} [DecidableEq κ]

/-- Items collected key by key are the items with these keys. -/
theorem perm_of_groups (key : α → κ) (items : List α) {keys : List κ} (hkeys : keys.Nodup) :
    (keys.flatMap fun k => items.filter fun item => key item = k).Perm
      (items.filter fun item => key item ∈ keys) := by
  induction keys with
  | nil => simp
  | cons k keys ih =>
    obtain ⟨hk, hlater⟩ := List.nodup_cons.mp hkeys
    have hsame : ((items.filter fun item => key item ∈ k :: keys).filter fun item => key item = k) =
        items.filter fun item => key item = k := by
      rw [List.filter_filter]
      refine List.filter_congr fun item _ => ?_
      by_cases h : key item = k <;> simp [h]
    have hother : ((items.filter fun item => key item ∈ k :: keys).filter
        fun item => !decide (key item = k)) = items.filter fun item => key item ∈ keys := by
      rw [List.filter_filter]
      refine List.filter_congr fun item _ => ?_
      by_cases h : key item = k
      · simp [h, hk]
      · simp [h]
    have hsplit := List.filter_append_perm (fun item => decide (key item = k))
      (items.filter fun item => key item ∈ k :: keys)
    rw [hsame, hother] at hsplit
    exact ((ih hlater).append_left _).trans hsplit

end Groups

end MilterGuard.MailReading
