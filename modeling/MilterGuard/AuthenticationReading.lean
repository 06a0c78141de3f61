import MilterGuard.AuthenticationScanning
import MilterGuard.SpacedTexts
import MilterGuard.MailAddresses

/-!
Authentication-Results fields read back. Every clause that a trusted service writes is
found with its method, its outcome and its assignments, so that it gives the result it
stands for, whatever comments, quoted strings and further assignments stand around.
-/
namespace MilterGuard.AuthenticationReading

open ByteStrings Hostnames AuthenticationHeaders AuthenticationTexts AuthenticationScanning
open SpacedTexts

variable (gap : Gap) (c : Clause) {b : UInt8} {rest : Bytes}

theorem whitespace_class (h : isAuthenticationWhitespace b = true) :
    b < 0x80 ∧ regexSpace b = true ∧ asciiSpace b = true ∧ isAuthenticationNameByte b = false := by
  have hb : ((b = 0x20 ∨ b = 0x09) ∨ b = 0x0D) ∨ b = 0x0A := by
    simpa [isAuthenticationWhitespace] using h
  rcases hb with ((rfl | rfl) | rfl) | rfl <;> decide

theorem nameByte_class : ∀ b, isAuthenticationNameByte b = true →
    b < 0x80 ∧ regexSpace b = false ∧ isAuthenticationWhitespace b = false :=
  forall_byte _ (by decide +kernel)

theorem nameByte_of_outcome (hb : (letter b || digit b) = true) :
    isAuthenticationNameByte b = true := by
  rw [isAuthenticationNameByte, hb, Bool.true_or, Bool.true_or]

/-- Behind a gap the pattern goes on with the next token. -/
theorem dropWhile_gap (hrest : Stops regexSpace rest) :
    (cleaned gap ++ rest).dropWhile regexSpace = rest :=
  dropWhile_run (fun b hb => (whitespace_class (cleaned_whitespace gap b hb)).2.1) hrest

theorem skip_gap (hrest : Stops isAuthenticationWhitespace rest) :
    skipAuthenticationWhitespace (cleaned gap ++ rest) = rest :=
  dropWhile_run (cleaned_whitespace gap) hrest

/-- The text ends here or goes on with white space. -/
def Apart (rest : Bytes) : Prop := Stops (fun b => !isAuthenticationWhitespace b) rest

theorem apart_gap (h : Apart rest) : Apart (cleaned gap ++ rest) :=
  stops_append (fun b hb => by simp [cleaned_whitespace gap b hb]) h

theorem apart_nonempty_gap {gap : Gap} (hgap : gap ≠ []) (rest : Bytes) :
    Apart (cleaned gap ++ rest) := by
  cases gap with
  | nil => exact absurd rfl hgap
  | cons piece gap =>
    have hpiece := cleaned_whitespace (piece :: gap) piece.blank List.mem_cons_self
    exact stops_cons (by simp [hpiece]) _

theorem apart_assignments (assignments : List Assignment) (trail : Gap) :
    Apart (assignments.flatMap (Assignment.render cleaned) ++ cleaned trail) := by
  cases assignments with
  | nil => simpa using apart_gap trail (stops_nil _)
  | cons a assignments =>
    rw [List.flatMap_cons, Assignment.render, List.append_assoc, List.append_assoc]
    exact apart_nonempty_gap a.before_ne_nil _

theorem nameByte_of_letter (hb : letter b = true) : isAuthenticationNameByte b = true :=
  nameByte_of_outcome (by rw [hb, Bool.true_or])

/-- No ASCII byte starts the long s or the Kelvin sign. -/
theorem ne_lead (hlow : b < 0x80) : b ≠ 0xC5 ∧ b ≠ 0xE2 := by
  constructor
  · rintro rfl
    exact absurd hlow (by decide)
  · rintro rfl
    exact absurd hlow (by decide)

theorem foldedWidth_letter (small : UInt8) (hb : letter b = true) (rest : Bytes) :
    foldedWidth small (b :: rest) = if asciiLowerByte b = small then 1 else 0 := by
  obtain ⟨hlong, hkelvin⟩ := ne_lead (nameByte_class b (nameByte_of_letter hb)).1
  simp [foldedWidth, hlong, hkelvin]

theorem letterWidth_low (hlow : b < 0x80) (rest : Bytes) :
    letterWidth (b :: rest) = if letter b = true then 1 else 0 := by
  obtain ⟨hlong, hkelvin⟩ := ne_lead hlow
  simp [letterWidth, hlong, hkelvin]

theorem letterWidth_letter (hb : letter b = true) (rest : Bytes) : letterWidth (b :: rest) = 1 := by
  rw [letterWidth_low (nameByte_class b (nameByte_of_letter hb)).1, if_pos hb]

theorem matchLetters_spelling {spelling : Bytes} (hletters : ∀ b ∈ spelling, letter b = true)
    (rest : Bytes) : matchLetters (lower spelling) (spelling ++ rest) = some spelling.length := by
  induction spelling with
  | nil => rfl
  | cons b spelling ih =>
    have hfirst := foldedWidth_letter (asciiLowerByte b) (hletters b List.mem_cons_self)
      (spelling ++ rest)
    rw [if_pos rfl] at hfirst
    have hlater := ih fun c hc => hletters c (List.mem_cons_of_mem b hc)
    rw [lower, List.map_cons, List.cons_append, matchLetters, hfirst]
    simpa only [List.drop_succ_cons, List.drop_zero, lower, List.length_cons, Option.map_some]
      using congrArg (Option.map (· + 1)) hlater

/-- Another name fails at the first letter that differs. -/
theorem matchLetters_differ (shared : Bytes) {name more : Bytes} {x y : UInt8} (hne : y ≠ x)
    {spelling : Bytes} (hletters : ∀ b ∈ spelling, letter b = true)
    (hlower : lower spelling = shared ++ y :: more) (rest : Bytes) :
    matchLetters (shared ++ x :: name) (spelling ++ rest) = none := by
  induction shared generalizing spelling with
  | nil =>
    obtain ⟨b, later, rfl, rfl, -⟩ := List.map_eq_cons_iff.mp hlower
    have hfirst := foldedWidth_letter x (hletters b List.mem_cons_self) (later ++ rest)
    rw [if_neg hne] at hfirst
    rw [List.nil_append, List.cons_append, matchLetters, hfirst]
  | cons z shared ih =>
    obtain ⟨b, later, rfl, rfl, hlater⟩ := List.map_eq_cons_iff.mp hlower
    have hfirst := foldedWidth_letter (asciiLowerByte b) (hletters b List.mem_cons_self)
      (later ++ rest)
    rw [if_pos rfl] at hfirst
    have hnone := ih (fun c hc => hletters c (List.mem_cons_of_mem b hc)) hlater
    rw [List.cons_append, List.cons_append, matchLetters, hfirst]
    simpa only [List.drop_succ_cons, List.drop_zero, Option.map_eq_none_iff] using hnone

theorem matchMethod_spelling (rest : Bytes) :
    matchMethod (c.spelling ++ rest) = some (c.spelling, rest) := by
  have hletters := Clause.spelling_letter c
  have hlower := c.spelling_lower
  have hfound := matchLetters_spelling hletters rest
  rw [hlower] at hfound
  unfold matchMethod
  cases hmethod : c.method with
  | dkim =>
    rw [hmethod] at hfound
    simp only [List.findSome?_cons, methodDKIM, show matchLetters (ascii "dkim") _ = _ from hfound,
      Option.map_some, List.take_left, List.drop_left]
  | spf =>
    rw [hmethod] at hfound hlower
    have hdkim : matchLetters methodDKIM (c.spelling ++ rest) = none :=
      matchLetters_differ [] (x := 0x64) (y := 0x73) (by decide) hletters hlower rest
    simp only [List.findSome?_cons, hdkim, methodSPF,
      show matchLetters (ascii "spf") _ = _ from hfound, Option.map_none, Option.map_some,
      List.take_left, List.drop_left]
  | dmarc =>
    rw [hmethod] at hfound hlower
    have hdkim : matchLetters methodDKIM (c.spelling ++ rest) = none :=
      matchLetters_differ [0x64] (x := 0x6B) (y := 0x6D) (by decide) hletters hlower rest
    have hspf : matchLetters methodSPF (c.spelling ++ rest) = none :=
      matchLetters_differ [] (x := 0x73) (y := 0x64) (by decide) hletters hlower rest
    simp only [List.findSome?_cons, hdkim, hspf, methodDMARC,
      show matchLetters (ascii "dmarc") _ = _ from hfound, Option.map_none, Option.map_some,
      List.take_left, List.drop_left]

theorem startsWord_apart (h : Apart rest) : startsWord rest = false := by
  cases rest with
  | nil => rfl
  | cons b rest =>
    have hname := (whitespace_class (by simpa using h b rfl)).2.2.2
    exact (Bool.or_eq_false_iff.mp hname).1

theorem outcomeWidth_apart (h : Apart rest) : outcomeWidth rest = 0 := by
  cases rest with
  | nil => rfl
  | cons b rest =>
    obtain ⟨hlow, -, -, hname⟩ := whitespace_class (b := b) (by simpa [Apart, Stops] using h)
    obtain ⟨hletter, hother⟩ : letter b = false ∧ (digit b || b = 0x5F || b = 0x2D) = false := by
      simpa [isAuthenticationNameByte, and_assoc] using hname
    rw [outcomeWidth, letterWidth_low hlow, if_neg (by simp [hletter])]
    simpa using hother

theorem startsWord_cons (b : UInt8) (rest : Bytes) : startsWord (b :: rest) = wordByte b := rfl

theorem outcomeWidth_byte (hb : (letter b || digit b) = true) (rest : Bytes) :
    outcomeWidth (b :: rest) = 1 := by
  by_cases hletter : letter b = true
  · rw [outcomeWidth, letterWidth_letter hletter]
  · have hdigit : digit b = true := by simpa [hletter] using hb
    have hlow := (nameByte_class b (nameByte_of_outcome hb)).1
    rw [outcomeWidth, letterWidth_low hlow, if_neg hletter]
    simp [hdigit]

/-- The run of outcome bytes is taken whole, since a word ends only behind it. -/
theorem outcomeTail_run {more : Bytes} (hmore : ∀ b ∈ more, (letter b || digit b) = true)
    (hrest : Apart rest) {limit : ℕ} (hlimit : more.length ≤ limit) :
    outcomeTail limit true (more ++ rest) = some more.length := by
  have hwidth := outcomeWidth_apart hrest
  have hword := startsWord_apart hrest
  induction more generalizing limit with
  | nil =>
    cases limit with
    | zero => simp [outcomeTail, hword]
    | succ limit => simp [outcomeTail, hwidth, hword]
  | cons b more ih =>
    obtain ⟨limit, rfl⟩ : ∃ smaller, limit = smaller + 1 :=
      Nat.exists_eq_add_of_le' (Nat.le_trans (Nat.succ_pos _) hlimit)
    have hb := hmore b List.mem_cons_self
    have hlater := ih (fun c hc => hmore c (List.mem_cons_of_mem b hc))
      (Nat.le_of_succ_le_succ hlimit)
    have hstart : startsWord (b :: (more ++ rest)) = true := by
      rw [startsWord_cons, wordByte, hb, Bool.true_or]
    simp only [List.cons_append, outcomeTail, outcomeWidth_byte hb, hstart, List.drop_succ_cons,
      List.drop_zero, hlater, Option.map_some, List.length_cons]

theorem matchOutcome_clause (hrest : Apart rest) :
    matchOutcome (c.first :: c.more ++ rest) = some (c.first :: c.more, rest) := by
  have hstart : startsWord (c.first :: (c.more ++ rest)) = true := by
    rw [startsWord_cons, wordByte, c.first_letter, Bool.true_or, Bool.true_or]
  have htail := outcomeTail_run c.more_bytes hrest c.more_length
  simp only [List.cons_append, matchOutcome, letterWidth_letter c.first_letter, hstart,
    List.drop_succ_cons, List.drop_zero, htail, Option.map_some]
  rw [Nat.add_comm, List.take_succ_cons, List.drop_succ_cons, List.take_left, List.drop_left]

theorem stops_letter (hb : letter b = true) (rest : Bytes) : Stops regexSpace (b :: rest) :=
  stops_cons (nameByte_class b (nameByte_of_letter hb)).2.1 rest

/-- The pattern finds the method and the outcome that the clause was written with. -/
theorem pattern_clause : authenticationMethodPattern (c.render cleaned) =
    some (c.spelling, c.first :: c.more, c.renderTail cleaned) := by
  have hmethod : Stops regexSpace (c.spelling ++ (cleaned c.beforeEquals ++ ([0x3D] ++
      (cleaned c.afterEquals ++ (c.first :: c.more ++ c.renderTail cleaned))))) := by
    have hletters := Clause.spelling_letter c
    have hlower := c.spelling_lower
    cases hspelling : c.spelling with
    | nil =>
      rw [hspelling] at hlower
      cases hm : c.method <;> rw [hm] at hlower <;> exact absurd hlower (by decide)
    | cons b spelling => exact stops_letter (hletters b (by simp [hspelling])) _
  have hequals : Stops regexSpace ([0x3D] ++ (cleaned c.afterEquals ++
      (c.first :: c.more ++ c.renderTail cleaned))) := stops_cons rfl _
  have houtcome : Stops regexSpace (c.first :: c.more ++ c.renderTail cleaned) :=
    stops_letter c.first_letter _
  have htail : Apart (c.renderTail cleaned) := apart_assignments c.assignments c.trail
  rw [authenticationMethodPattern, Clause.render, dropWhile_gap c.lead hmethod,
    matchMethod_spelling]
  dsimp only
  rw [dropWhile_gap c.beforeEquals hequals, List.singleton_append]
  simp only
  rw [dropWhile_gap c.afterEquals houtcome, matchOutcome_clause c htail]
  rfl

section Properties

variable (table : CaseTable) (name : Name)

theorem Name.toLower_text : toLower table name.text = lower name.text :=
  toLower_ascii table name.text fun b hb => (nameByte_class b (name.bytes b hb)).1

/-- A name in front of a gap and a token that is no part of a name. -/
theorem scan_name (gap : Gap) {b : UInt8} (hb : isAuthenticationNameByte b = false)
    (hspace : isAuthenticationWhitespace b = false) (rest : Bytes) :
    (name.text ++ (cleaned gap ++ b :: rest)).takeWhile isAuthenticationNameByte = name.text ∧
      skipAuthenticationWhitespace ((name.text ++ (cleaned gap ++ b :: rest)).dropWhile
        isAuthenticationNameByte) = b :: rest := by
  have hstop : Stops isAuthenticationNameByte (cleaned gap ++ b :: rest) :=
    stops_append (fun c hc => (whitespace_class (cleaned_whitespace gap c hc)).2.2.2)
      (stops_cons hb rest)
  refine ⟨takeWhile_run name.bytes hstop, ?_⟩
  rw [dropWhile_run name.bytes hstop, skip_gap gap (stops_cons hspace rest)]

theorem skip_name (gap : Gap) (rest : Bytes) :
    skipAuthenticationWhitespace (cleaned gap ++ (name.text ++ rest)) = name.text ++ rest := by
  apply skip_gap
  cases htext : name.text with
  | nil => exact absurd htext name.ne_nil
  | cons b text => exact stops_cons (nameByte_class b (name.bytes b (by simp [htext]))).2.2 _

variable (a : Assignment)

theorem readKey_assignment (rest : Bytes) :
    readKey table (a.name.text ++ ((match a.second with
      | none => []
      | some (beforeDot, afterDot, second) =>
        cleaned beforeDot ++ [0x2E] ++ cleaned afterDot ++ second.text) ++
      (cleaned a.beforeEquals ++ 0x3D :: rest))) = some (a.key, 0x3D :: rest) := by
  rcases hsecond : a.second with _ | ⟨beforeDot, afterDot, second⟩
  · obtain ⟨hname, hrest⟩ := scan_name a.name a.beforeEquals (b := 0x3D) rfl rfl rest
    simp only [List.nil_append, readKey, hname, hrest, if_neg a.name.ne_nil]
    rw [Assignment.key, hsecond, Name.toLower_text]
    rfl
  · obtain ⟨hname, hdot⟩ := scan_name a.name beforeDot (b := 0x2E) rfl rfl
      (cleaned afterDot ++ (second.text ++ (cleaned a.beforeEquals ++ 0x3D :: rest)))
    obtain ⟨hnext, hrest⟩ := scan_name second a.beforeEquals (b := 0x3D) rfl rfl rest
    simp only [List.append_assoc, List.cons_append, List.nil_append, readKey, hname, hdot,
      if_neg a.name.ne_nil, skip_name, hnext, hrest, if_neg second.ne_nil]
    rw [Assignment.key, hsecond, Name.toLower_text, Name.toLower_text]
    simp

theorem free_class (h : freeByte b = true) : isAuthenticationWhitespace b = false ∧
    b ≠ 0x22 ∧ b ≠ 0x3C ∧ b ≠ 0x3E := by
  have hall : ∀ b, freeByte b = true → isAuthenticationWhitespace b = false ∧
      b ≠ 0x22 ∧ b ≠ 0x3C ∧ b ≠ 0x3E := forall_byte _ (by decide +kernel)
  exact hall b h

/-- A plain value goes up to the white space behind it. -/
theorem readValue_plain {text rest : Bytes} (hne : text ≠ [])
    (free : ∀ b ∈ text, freeByte b = true) (hrest : Apart rest) :
    readValue (text ++ rest) = some (text, rest) := by
  have hrun : ∀ b ∈ text, (!isAuthenticationWhitespace b) = true := by
    intro b hb
    simp [(free_class (free b hb)).1]
  have hany : (text.any fun b => b = 0x22 || b = 0x3C || b = 0x3E) = false := by
    rw [List.any_eq_false]
    intro b hb
    obtain ⟨-, hquote, hopen, hclose⟩ := free_class (free b hb)
    simp [hquote, hopen, hclose]
  have htake := takeWhile_run hrun hrest
  have hdrop := dropWhile_run hrun hrest
  cases text with
  | nil => exact absurd rfl hne
  | cons b text =>
    obtain ⟨-, hquote, hopen, -⟩ := free_class (free b List.mem_cons_self)
    rw [List.cons_append] at htake hdrop ⊢
    unfold readValue
    split
    · simp_all
    · rename_i heq
      exact absurd (List.cons.inj heq).1 hquote
    · rename_i heq
      exact absurd (List.cons.inj heq).1 hopen
    · simp only [htake, hdrop, hany, Bool.false_eq_true, if_false]

theorem readValue_value (value : Value) {rest : Bytes} (hrest : Apart rest) :
    readValue (value.text ++ rest) = some (value.content, rest) := by
  cases value with
  | quoted content =>
    have hread := readQuoted_content content rest
    simpa [Value.text, Value.content, readValue] using hread
  | plain text ne_nil free => exact readValue_plain ne_nil free hrest
  | angled text ne_nil free =>
    have hclose : (0x3E : UInt8) ∉ text := fun hmem => (free_class (free _ hmem)).2.2.2 rfl
    have hcut := cut_append 0x3E text rest hclose
    simpa [Value.text, Value.content, readValue] using hcut

/-- An assignment without the gap in front of it. -/
def Assignment.body : Bytes :=
  a.name.text ++ ((match a.second with
    | none => []
    | some (beforeDot, afterDot, second) =>
      cleaned beforeDot ++ [0x2E] ++ cleaned afterDot ++ second.text) ++
    (cleaned a.beforeEquals ++ ([0x3D] ++ (cleaned a.afterEquals ++ a.value.text))))

theorem render_eq : a.render cleaned = cleaned a.before ++ Assignment.body a := rfl

theorem skip_value (value : Value) (gap : Gap) (rest : Bytes) :
    skipAuthenticationWhitespace (cleaned gap ++ (value.text ++ rest)) = value.text ++ rest := by
  apply skip_gap
  cases value with
  | quoted content | angled text ne_nil free => exact stops_cons rfl _
  | plain text ne_nil free =>
    cases text with
    | nil => exact absurd rfl ne_nil
    | cons b later => exact stops_cons (free_class (free b List.mem_cons_self)).1 _

theorem readAssignment_body {rest : Bytes} (hrest : Apart rest) :
    readAssignment table (Assignment.body a ++ rest) = some (a.key, a.value.content, rest) := by
  have hkey := readKey_assignment table a (cleaned a.afterEquals ++ (a.value.text ++ rest))
  have hbody : Assignment.body a ++ rest = a.name.text ++ ((match a.second with
      | none => []
      | some (beforeDot, afterDot, second) =>
        cleaned beforeDot ++ [0x2E] ++ cleaned afterDot ++ second.text) ++
      (cleaned a.beforeEquals ++ 0x3D :: (cleaned a.afterEquals ++ (a.value.text ++ rest)))) := by
    simp only [Assignment.body, List.append_assoc, List.cons_append, List.nil_append]
  rw [hbody, readAssignment, hkey]
  simp only [skip_value, readValue_value a.value hrest, Option.map_some]

/-- What the reader keeps of an assignment. -/
def Assignment.entry : Bytes × Bytes := (a.key, a.value.content)

/-- The rounds of the reader take the assignments one after the other. -/
theorem propertiesFrom_assignments (trail : Gap) {assignments : List Assignment} :
    ∀ (properties : List (Bytes × Bytes)) (fuel : ℕ),
      (properties.map Prod.fst ++ assignments.map Assignment.key).Nodup →
      (assignments.flatMap (Assignment.render cleaned) ++ cleaned trail).length ≤ fuel →
      propertiesFrom table fuel properties
        (assignments.flatMap (Assignment.render cleaned) ++ cleaned trail) =
        some (properties ++ assignments.map Assignment.entry) := by
  induction assignments with
  | nil =>
    intro properties fuel _ _
    have hskip : skipAuthenticationWhitespace (cleaned trail) = [] := by
      simpa using skip_gap trail (stops_nil isAuthenticationWhitespace)
    cases fuel with
    | zero => simp [propertiesFrom]
    | succ fuel => simp [propertiesFrom, hskip]
  | cons a assignments ih =>
    intro properties fuel hnodup hfuel
    set rest := assignments.flatMap (Assignment.render cleaned) ++ cleaned trail with hrest
    have htext : (a :: assignments).flatMap (Assignment.render cleaned) ++ cleaned trail =
        cleaned a.before ++ (Assignment.body a ++ rest) := by
      simp [hrest, render_eq]
    have hskip : skipAuthenticationWhitespace (cleaned a.before ++ (Assignment.body a ++ rest)) =
        Assignment.body a ++ rest := by
      rw [Assignment.body, List.append_assoc]
      exact skip_name a.name a.before _
    have hbody : 0 < (Assignment.body a).length := by
      have hname := List.length_pos_of_ne_nil a.name.ne_nil
      simp only [Assignment.body, List.length_append]
      omega
    have hbefore : 0 < (cleaned a.before).length := by
      rw [cleaned, List.length_map]
      exact List.length_pos_of_ne_nil a.before_ne_nil
    rw [htext] at hfuel ⊢
    simp only [List.length_append] at hfuel
    obtain ⟨fuel, rfl⟩ : ∃ smaller, fuel = smaller + 1 := Nat.exists_eq_add_of_le' (by omega)
    have hnonempty : Assignment.body a ++ rest ≠ [] := by
      intro hnil
      have hlength := congrArg List.length hnil
      simp only [List.length_append, List.length_nil] at hlength
      omega
    have hshorter : ¬ (Assignment.body a ++ rest).length =
        (cleaned a.before ++ (Assignment.body a ++ rest)).length := by
      simp only [List.length_append]
      omega
    have hkey : a.key ∉ properties.map Prod.fst := by
      intro hmem
      exact (List.nodup_append.mp hnodup).2.2 _ hmem _ List.mem_cons_self rfl
    have hread := readAssignment_body table a (apart_assignments assignments trail)
    rw [← hrest] at hread
    have hlater := ih (properties ++ [(a.key, a.value.content)]) fuel
      (by simpa using hnodup) (by omega)
    simp only [propertiesFrom, hskip, if_neg hnonempty, if_neg hshorter, hread, if_neg hkey]
    rw [hlater, List.append_assoc]
    rfl

theorem properties_clause (c : Clause) :
    authenticationProperties table (c.renderTail cleaned) = c.assignments.map Assignment.entry := by
  have hread := propertiesFrom_assignments table c.trail [] _
    (by simpa using c.distinct) (Nat.le_refl (c.renderTail cleaned).length)
  rw [authenticationProperties]
  simpa only [Clause.renderTail, List.nil_append, Option.getD_some] using
    congrArg (Option.getD · []) hread

theorem property_clause (key : String) :
    property? (c.assignments.map Assignment.entry) (ascii key) = c.assigned key := by
  rw [property?, Clause.assigned, List.find?_map, Option.map_map]
  rfl

end Properties

end MilterGuard.AuthenticationReading
