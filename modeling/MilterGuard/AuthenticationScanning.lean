import MilterGuard.AuthenticationTexts

/-!
How the scanners of an Authentication-Results field pass over its parts. The comment
stripper leaves a blank of every comment and copies quoted strings, the clause splitter
cuts at the semicolons between clauses only, and the quoted strings that the assignment
reader finds end where both of them say.
-/
namespace MilterGuard.AuthenticationScanning

open ByteStrings AuthenticationHeaders AuthenticationTexts

/-- The stripper passes over the text, from outside to outside, and writes the clean text. -/
def Strips (text clean : Bytes) : Prop :=
  ∀ rest, stripFrom .plain (text ++ rest) = (stripFrom .plain rest).map (clean ++ ·)

theorem Strips.nil : Strips [] [] := by
  intro rest
  simp

variable (gap : Gap) {b : UInt8} (content : List QuotedByte) (rest : Bytes) {text : Bytes}

theorem Strips.append {text' clean clean' : Bytes} (h : Strips text clean)
    (h' : Strips text' clean') : Strips (text ++ text') (clean ++ clean') := by
  intro rest
  rw [List.append_assoc, h, h', Option.map_map]
  refine congrArg (Option.map · _) (funext fun more => ?_)
  exact (List.append_assoc clean clean' more).symm

theorem Strips.flatMap {α : Type*} {text clean : α → Bytes} {parts : List α}
    (h : ∀ part ∈ parts, Strips (text part) (clean part)) :
    Strips (parts.flatMap text) (parts.flatMap clean) := by
  induction parts with
  | nil => exact Strips.nil
  | cons part parts ih =>
    exact (h part List.mem_cons_self).append
      (ih fun later hlater => h later (List.mem_cons_of_mem part hlater))

/-- Neither a parenthesis nor a quote. -/
def ordinary (b : UInt8) : Bool := !(ascii "\"()").contains b

private theorem ordinary_ne (h : ordinary b = true) : b ≠ 0x28 ∧ b ≠ 0x29 ∧ b ≠ 0x22 := by
  refine ⟨?_, ?_, ?_⟩
  · rintro rfl
    exact absurd h (by decide)
  · rintro rfl
    exact absurd h (by decide)
  · rintro rfl
    exact absurd h (by decide)

theorem Strips.ordinary (h : ∀ b ∈ text, ordinary b = true) : Strips text text := by
  induction text with
  | nil => exact Strips.nil
  | cons b text ih =>
    intro rest
    obtain ⟨hopen, hclose, hquote⟩ := ordinary_ne (h b List.mem_cons_self)
    rw [List.cons_append, stripFrom, Place.step, if_neg hopen, if_neg hclose, if_neg hquote]
    dsimp only
    rw [ih (fun later hlater => h later (List.mem_cons_of_mem b hlater)), Option.map_map]
    rfl

theorem strips_byte (h : ordinary b = true) : Strips [b] [b] :=
  Strips.ordinary (List.forall_mem_singleton.mpr h)

/-- A balanced stretch of a comment brings the stripper back to the outermost level. -/
theorem stripFrom_comment {depth : ℕ} {escaped : Bool} {body : Bytes}
    (h : balancedFrom depth escaped body = true) (rest : Bytes) :
    stripFrom (.comment depth escaped) (body ++ rest) = stripFrom (.comment 0 false) rest := by
  fun_induction balancedFrom depth escaped body with
  | case1 depth escaped =>
    obtain ⟨hdepth, hescaped⟩ : depth = 0 ∧ escaped = false := by simpa using h
    rw [hdepth, hescaped, List.nil_append]
  | case2 depth b body ih | case3 depth body ih | case4 depth body _ ih
  | case6 body _ _ outer ih => simpa [stripFrom, Place.step] using ih h
  | case5 body _ _ => exact absurd h (by decide)
  | case7 depth b body hback hopen hclose ih =>
    simpa [stripFrom, Place.step, hback, hopen, hclose] using ih h

/-- A class without the quote and the parentheses is made of ordinary bytes. -/
theorem ordinary_of_class {p : UInt8 → Bool} (hquote : p 0x22 = false) (hopen : p 0x28 = false)
    (hclose : p 0x29 = false) (hb : p b = true) : ordinary b = true := by
  by_contra h
  have hmem : b ∈ ascii "\"()" := by
    simpa [ordinary] using h
  rw [show ascii "\"()" = [0x22, 0x28, 0x29] from rfl] at hmem
  simp only [List.mem_cons, List.not_mem_nil, or_false] at hmem
  rcases hmem with rfl | rfl | rfl
  · exact absurd hb (by simp [hquote])
  · exact absurd hb (by simp [hopen])
  · exact absurd hb (by simp [hclose])

theorem ordinary_of_whitespace (h : isAuthenticationWhitespace b = true) : ordinary b = true :=
  ordinary_of_class rfl rfl rfl h

theorem GapPiece.strips (piece : GapPiece) : Strips piece.text [piece.blank] := by
  cases piece with
  | space b h =>
    refine Strips.ordinary fun c hc => ?_
    obtain rfl : c = b := List.mem_singleton.mp hc
    exact ordinary_of_whitespace h
  | comment body h =>
    intro rest
    have hbody := stripFrom_comment h (0x29 :: rest)
    simpa [GapPiece.text, GapPiece.blank, stripFrom, Place.step] using hbody

theorem strips_gap : Strips (sent gap) (cleaned gap) := by
  have hmap : cleaned gap = gap.flatMap fun piece => [piece.blank] := by
    rw [cleaned, List.map_eq_flatMap]
  rw [hmap]
  exact Strips.flatMap fun piece _ => GapPiece.strips piece

theorem stripFrom_quoted :
    stripFrom (.quoted false) (content.flatMap QuotedByte.text ++ rest) =
      (stripFrom (.quoted false) rest).map (content.flatMap QuotedByte.text ++ ·) := by
  induction content with
  | nil => simp
  | cons b content ih =>
    by_cases hb : b.escaped = true
    · simp [QuotedByte.text, hb, stripFrom, Place.step, ih, Function.comp_def]
    · obtain ⟨hquote, hback⟩ := b.plain (by simpa using hb)
      simp [QuotedByte.text, hb, stripFrom, Place.step, hquote, hback, ih, Function.comp_def]

theorem ordinary_of_free (h : freeByte b = true) : ordinary b = true :=
  ordinary_of_class rfl rfl rfl h

theorem ordinary_of_name (h : isAuthenticationNameByte b = true) : ordinary b = true :=
  ordinary_of_class rfl rfl rfl h

theorem Value.strips (value : Value) : Strips value.text value.text := by
  cases value with
  | quoted content =>
    intro rest
    have hquoted := stripFrom_quoted content (0x22 :: rest)
    have hopen : stripFrom .plain (0x22 :: (content.flatMap QuotedByte.text ++ 0x22 :: rest)) =
        (stripFrom (.quoted false) (content.flatMap QuotedByte.text ++ 0x22 :: rest)).map
          ([0x22] ++ ·) := rfl
    have hclose : stripFrom (.quoted false) (0x22 :: rest) =
        (stripFrom .plain rest).map ([0x22] ++ ·) := rfl
    rw [hclose] at hquoted
    rw [hquoted] at hopen
    simpa [Value.text, Function.comp_def] using hopen
  | plain text _ free => exact Strips.ordinary fun b hb => ordinary_of_free (free b hb)
  | angled text _ free =>
    exact ((strips_byte rfl).append
      (Strips.ordinary fun b hb => ordinary_of_free (free b hb))).append (strips_byte rfl)

theorem Name.strips (name : Name) : Strips name.text name.text :=
  Strips.ordinary fun b hb => ordinary_of_name (name.bytes b hb)

theorem Assignment.strips (a : Assignment) : Strips (a.render sent) (a.render cleaned) := by
  have hequals : Strips [0x3D] [0x3D] := strips_byte rfl
  have hdot : Strips [0x2E] [0x2E] := strips_byte rfl
  have htail := (strips_gap a.beforeEquals).append
    (hequals.append ((strips_gap a.afterEquals).append (Value.strips a.value)))
  refine (strips_gap a.before).append ((Name.strips a.name).append (Strips.append ?_ htail))
  rcases a.second with _ | ⟨beforeDot, afterDot, second⟩
  · exact Strips.nil
  · exact (((strips_gap beforeDot).append hdot).append (strips_gap afterDot)).append
      (Name.strips second)

theorem Clause.spelling_letter (c : Clause) : ∀ b ∈ c.spelling, letter b = true := by
  intro b hb
  have hlower : ∀ b, letter (asciiLowerByte b) = true → letter b = true :=
    forall_byte _ (by decide +kernel)
  have hname : ∀ b ∈ c.method.name, letter b = true :=
    List.all_eq_true.mp (by cases c.method <;> rfl)
  refine hlower b (hname _ ?_)
  rw [← c.spelling_lower]
  exact List.mem_map_of_mem hb

theorem Clause.strips (c : Clause) : Strips (c.render sent) (c.render cleaned) := by
  have hspelling : Strips c.spelling c.spelling :=
    Strips.ordinary fun b hb => ordinary_of_class rfl rfl rfl (Clause.spelling_letter c b hb)
  have houtcome : Strips (c.first :: c.more) (c.first :: c.more) := by
    refine Strips.ordinary fun b hb => ?_
    rcases List.mem_cons.mp hb with rfl | hmore
    · exact ordinary_of_class rfl rfl rfl c.first_letter
    · exact ordinary_of_class (p := fun b => letter b || digit b) rfl rfl rfl (c.more_bytes b hmore)
  have htail : Strips (c.renderTail sent) (c.renderTail cleaned) :=
    (Strips.flatMap fun a _ => Assignment.strips a).append (strips_gap c.trail)
  exact (strips_gap c.lead).append (hspelling.append ((strips_gap c.beforeEquals).append
    ((strips_byte rfl).append ((strips_gap c.afterEquals).append
      (houtcome.append htail)))))

/-- The stripper leaves the field with a blank for every comment. -/
theorem strip_field (f : Field) : stripAuthenticationComments f.text = some (f.render cleaned) := by
  have hid : Strips f.id f.id :=
    Strips.ordinary fun b hb => ordinary_of_class (p := fun b => !(ascii "\"();").contains b)
      rfl rfl rfl (by simpa using f.id_bytes b hb)
  have hclauses : Strips (f.clauses.flatMap fun c => [0x3B] ++ c.render sent)
      (f.clauses.flatMap fun c => [0x3B] ++ c.render cleaned) :=
    Strips.flatMap fun c _ => (strips_byte rfl).append (Clause.strips c)
  have hfield : stripFrom .plain (f.render sent ++ []) = some (f.render cleaned ++ []) :=
    (((strips_gap f.lead).append hid).append (strips_gap f.trail)).append hclauses []
  rwa [List.append_nil, List.append_nil] at hfield

/-- The splitter keeps the text in one clause and comes out of it outside quotes. -/
def Whole (text : Bytes) : Prop :=
  ∀ rest, clausesFrom false false (text ++ rest) =
    (clausesFrom false false rest).modifyHead (text ++ ·)

theorem Whole.nil : Whole [] := by
  intro rest
  exact (congrFun List.modifyHead_id _).symm

theorem Whole.append {first second : Bytes} (hfirst : Whole first) (hsecond : Whole second) :
    Whole (first ++ second) := by
  intro rest
  rw [List.append_assoc, hfirst, hsecond, List.modifyHead_modifyHead]
  refine congrArg (List.modifyHead · _) (funext fun more => ?_)
  exact (List.append_assoc first second more).symm

theorem Whole.flatMap {α : Type*} {text : α → Bytes} {parts : List α}
    (h : ∀ part ∈ parts, Whole (text part)) : Whole (parts.flatMap text) := by
  induction parts with
  | nil => exact Whole.nil
  | cons part parts ih =>
    exact (h part List.mem_cons_self).append
      (ih fun later hlater => h later (List.mem_cons_of_mem part hlater))

theorem Whole.plain (h : ∀ b ∈ text, b ≠ 0x22 ∧ b ≠ 0x3B) : Whole text := by
  induction text with
  | nil => exact Whole.nil
  | cons b text ih =>
    intro rest
    obtain ⟨hquote, hsemicolon⟩ := h b List.mem_cons_self
    rw [List.cons_append, clausesFrom,
      ih (fun later hlater => h later (List.mem_cons_of_mem b hlater))]
    simp [hquote, hsemicolon, Function.comp_def]

theorem clausesFrom_quoted :
    clausesFrom true false (content.flatMap QuotedByte.text ++ rest) =
      (clausesFrom true false rest).modifyHead (content.flatMap QuotedByte.text ++ ·) := by
  induction content with
  | nil => exact (congrFun List.modifyHead_id _).symm
  | cons b content ih =>
    by_cases hb : b.escaped = true
    · simp [QuotedByte.text, hb, clausesFrom, ih, Function.comp_def]
    · obtain ⟨hquote, hback⟩ := b.plain (by simpa using hb)
      simp [QuotedByte.text, hb, clausesFrom, hquote, hback, ih, Function.comp_def]

theorem Whole.of_class {p : UInt8 → Bool} (hquote : p 0x22 = false) (hsemicolon : p 0x3B = false)
    (htext : ∀ b ∈ text, p b = true) : Whole text := by
  refine Whole.plain fun b hb => ⟨?_, ?_⟩
  · rintro rfl
    exact absurd (htext _ hb) (by simp [hquote])
  · rintro rfl
    exact absurd (htext _ hb) (by simp [hsemicolon])

theorem cleaned_whitespace : ∀ b ∈ cleaned gap, isAuthenticationWhitespace b = true := by
  intro b hb
  obtain ⟨piece, -, rfl⟩ := List.mem_map.mp hb
  cases piece with
  | space b h => exact h
  | comment body h => rfl

theorem whole_gap : Whole (cleaned gap) :=
  Whole.of_class rfl rfl (cleaned_whitespace gap)

theorem Name.whole (name : Name) : Whole name.text := Whole.of_class rfl rfl name.bytes

theorem Value.whole (value : Value) : Whole value.text := by
  cases value with
  | quoted content =>
    intro rest
    have hquoted := clausesFrom_quoted content (0x22 :: rest)
    simp [Value.text, clausesFrom] at hquoted ⊢
    rw [hquoted]
    simp [Function.comp_def]
  | plain text _ free => exact Whole.of_class rfl rfl free
  | angled text _ free =>
    exact ((Whole.plain (by simp)).append (Whole.of_class rfl rfl free)).append
      (Whole.plain (by simp))

theorem Assignment.whole (a : Assignment) : Whole (a.render cleaned) := by
  have hequals : Whole [0x3D] := Whole.plain (by simp)
  have htail := (whole_gap a.beforeEquals).append
    (hequals.append ((whole_gap a.afterEquals).append (Value.whole a.value)))
  refine (whole_gap a.before).append ((Name.whole a.name).append (Whole.append ?_ htail))
  rcases a.second with _ | ⟨beforeDot, afterDot, second⟩
  · exact Whole.nil
  · exact (((whole_gap beforeDot).append (Whole.plain (by simp))).append
      (whole_gap afterDot)).append (Name.whole second)

theorem Clause.whole (c : Clause) : Whole (c.render cleaned) := by
  have hspelling : Whole c.spelling := Whole.of_class rfl rfl (Clause.spelling_letter c)
  have houtcome : Whole (c.first :: c.more) := by
    refine Whole.of_class (p := fun b => letter b || digit b) rfl rfl fun b hb => ?_
    rcases List.mem_cons.mp hb with rfl | hmore
    · simp [c.first_letter]
    · exact c.more_bytes b hmore
  have htail : Whole (c.renderTail cleaned) :=
    (Whole.flatMap fun a _ => Assignment.whole a).append (whole_gap c.trail)
  exact (whole_gap c.lead).append (hspelling.append ((whole_gap c.beforeEquals).append
    ((Whole.plain (by simp)).append ((whole_gap c.afterEquals).append
      (houtcome.append htail)))))

theorem clausesFrom_clauses (clauses : List Clause) :
    clausesFrom false false (clauses.flatMap fun c => [0x3B] ++ c.render cleaned) =
      [] :: clauses.map (Clause.render cleaned) := by
  induction clauses with
  | nil => rfl
  | cons c clauses ih =>
    have hcut : ∀ rest,
        clausesFrom false false (0x3B :: rest) = [] :: clausesFrom false false rest := fun _ => rfl
    rw [List.flatMap_cons, List.append_assoc, List.singleton_append, hcut, Clause.whole c, ih]
    simp

/-- The splitter divides a clean field into its identifier and its clauses. -/
theorem split_field (f : Field) : splitAuthenticationClauses (f.render cleaned) =
    (cleaned f.lead ++ f.id ++ cleaned f.trail) :: f.clauses.map (Clause.render cleaned) := by
  have hid : Whole f.id := Whole.of_class (p := fun b => !(ascii "\"();").contains b) rfl rfl
    fun b hb => by simpa using f.id_bytes b hb
  have hhead := ((whole_gap f.lead).append hid).append (whole_gap f.trail)
  rw [splitAuthenticationClauses, Field.render, hhead, clausesFrom_clauses]
  simp

theorem readQuoted_content :
    readQuoted (content.flatMap QuotedByte.text ++ 0x22 :: rest) =
      some (content.map QuotedByte.byte, rest) := by
  induction content with
  | nil => rfl
  | cons b content ih =>
    by_cases hb : b.escaped = true
    · simp [QuotedByte.text, hb, readQuoted, ih]
    · obtain ⟨hquote, hback⟩ := b.plain (by simpa using hb)
      simp [QuotedByte.text, hb, readQuoted, hback, ih]

/-- What the assignment reader takes for a quoted string is one. -/
theorem exists_content {decoded rest : Bytes} (h : readQuoted text = some (decoded, rest)) :
    ∃ content : List QuotedByte, text = content.flatMap QuotedByte.text ++ 0x22 :: rest ∧
      decoded = content.map QuotedByte.byte := by
  fun_induction readQuoted text generalizing decoded with
  | case1 | case3 => exact absurd h (by simp)
  | case2 more =>
    obtain ⟨rfl, rfl⟩ : [] = decoded ∧ more = rest := by simpa using h
    exact ⟨[], rfl, rfl⟩
  | case4 b more ih =>
    obtain ⟨⟨inner, after⟩, hread, heq⟩ := Option.map_eq_some_iff.mp h
    obtain ⟨rfl, rfl⟩ : b :: inner = decoded ∧ after = rest := by simpa using heq
    obtain ⟨content, rfl, rfl⟩ := ih hread
    exact ⟨⟨b, true, by simp⟩ :: content, by simp [QuotedByte.text], rfl⟩
  | case5 b more hquote hback hlast ih =>
    obtain ⟨⟨inner, after⟩, hread, heq⟩ := Option.map_eq_some_iff.mp h
    obtain ⟨rfl, rfl⟩ : b :: inner = decoded ∧ after = rest := by simpa using heq
    have hplain : b ≠ 0x5C := by
      intro hb
      cases more with
      | nil => exact hback hb rfl
      | cons c more => exact hlast c more hb rfl
    obtain ⟨content, rfl, rfl⟩ := ih hread
    exact ⟨⟨b, false, fun _ => ⟨hquote, hplain⟩⟩ :: content, by simp [QuotedByte.text], rfl⟩

/-- The assignment reader, the stripper and the splitter agree on the end of a quoted
string. -/
theorem quoted_string_ends {decoded rest : Bytes} (h : readQuoted text = some (decoded, rest)) :
    ∃ inside, text = inside ++ rest ∧
      stripFrom (.quoted false) text = (stripFrom .plain rest).map (inside ++ ·) ∧
      clausesFrom true false text = (clausesFrom false false rest).modifyHead (inside ++ ·) := by
  obtain ⟨content, rfl, -⟩ := exists_content h
  refine ⟨content.flatMap QuotedByte.text ++ [0x22], by simp, ?_, ?_⟩
  · have hclose : stripFrom (.quoted false) (0x22 :: rest) =
        (stripFrom .plain rest).map ([0x22] ++ ·) := rfl
    rw [stripFrom_quoted, hclose]
    simp [Function.comp_def]
  · have hclose : clausesFrom true false (0x22 :: rest) =
        (clausesFrom false false rest).modifyHead ([0x22] ++ ·) := rfl
    rw [clausesFrom_quoted, hclose]
    simp [Function.comp_def]

/-- A quoted string without an end rejects the field and swallows the clauses behind it. -/
theorem quoted_string_unended (h : readQuoted text = none) :
    stripFrom (.quoted false) text = none ∧ clausesFrom true false text = [text] := by
  fun_induction readQuoted text with
  | case1 | case3 => exact ⟨rfl, rfl⟩
  | case2 more => exact absurd h (by simp)
  | case4 b more ih =>
    obtain ⟨hstrip, hsplit⟩ := ih (Option.map_eq_none_iff.mp h)
    exact ⟨by simp [stripFrom, Place.step, hstrip], by simp [clausesFrom, hsplit]⟩
  | case5 b more hquote hback hlast ih =>
    obtain ⟨hstrip, hsplit⟩ := ih (Option.map_eq_none_iff.mp h)
    have hplain : b ≠ 0x5C := by
      intro hb
      cases more with
      | nil => exact hback hb rfl
      | cons c more => exact hlast c more hb rfl
    have hquote' : b ≠ 0x22 := hquote
    exact ⟨by simp [stripFrom, Place.step, hplain, hquote', hstrip],
      by simp [clausesFrom, hplain, hquote', hsplit]⟩

end MilterGuard.AuthenticationScanning
