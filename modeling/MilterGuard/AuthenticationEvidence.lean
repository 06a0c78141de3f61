import MilterGuard.AuthenticationReading

/-!
The evidence that trusted Authentication-Results fields give. Every clause gives the
result it stands for, equal results are kept once, and nothing but the method, the
outcome and the identity assignments of a clause has a part in it.
-/
namespace MilterGuard.AuthenticationEvidence

open ByteStrings Hostnames AuthenticationHeaders AuthenticationTexts AuthenticationScanning
open AuthenticationReading SpacedTexts

theorem appendUnique_run (results : List Result) :
    results.foldl appendUnique [] = results.eraseDups := by
  induction results using List.reverseRecOn with
  | nil => rfl
  | append_singleton results candidate ih =>
    rw [List.foldl_append, ih, List.eraseDups_append, List.foldl_cons, List.foldl_nil, appendUnique]
    by_cases hmem : candidate ∈ results
    · rw [if_pos (List.mem_eraseDups.mpr hmem)]
      simp [List.removeAll, hmem]
    · rw [if_neg (mt List.mem_eraseDups.mp hmem)]
      simp [List.removeAll, hmem, List.eraseDups_cons]

/-- Further candidates only add results behind the ones that are there. -/
theorem appendUnique_run_prefixed (results candidates : List Result) :
    results <+: candidates.foldl appendUnique results := by
  induction candidates generalizing results with
  | nil => exact List.prefix_rfl
  | cons candidate candidates ih =>
    refine List.IsPrefix.trans ?_ (ih (appendUnique results candidate))
    rw [appendUnique]
    split
    · exact List.prefix_rfl
    · exact List.prefix_append results [candidate]

section Fields

variable (table : CaseTable)

theorem toLower_letters {text : Bytes} (h : ∀ b ∈ text, (letter b || digit b) = true) :
    toLower table text = lower text :=
  toLower_ascii table text fun b hb => (nameByte_class b (nameByte_of_outcome (h b hb))).1

variable (c : Clause)

theorem toLower_spelling : toLower table c.spelling = c.method.name := by
  rw [← c.spelling_lower]
  exact toLower_letters table fun b hb => by simp [Clause.spelling_letter c b hb]

theorem toLower_outcome : toLower table (c.first :: c.more) = c.outcome := by
  refine toLower_letters table fun b hb => ?_
  rcases List.mem_cons.mp hb with rfl | hmore
  · simp [c.first_letter]
  · exact c.more_bytes b hmore

theorem outcome_other {method : Bytes} (hmethod : method ≠ methodSPF) (c : Clause) :
    normalizeHeaderOutcome table method (c.first :: c.more) = c.outcome := by
  rw [normalizeHeaderOutcome, toLower_outcome]
  exact if_neg fun h => hmethod h.1

theorem outcome_spf : normalizeHeaderOutcome table methodSPF (c.first :: c.more) =
    if c.outcome = ascii "tempfail" then ascii "temperror" else c.outcome := by
  rw [normalizeHeaderOutcome, toLower_outcome]
  by_cases houtcome : c.outcome = ascii "tempfail"
  · rw [if_pos houtcome]
    exact if_pos ⟨rfl, houtcome⟩
  · rw [if_neg houtcome]
    exact if_neg fun h => houtcome h.2

theorem clauseResult_clause : clauseResult table c.spelling (c.first :: c.more)
    (c.assignments.map Assignment.entry) = c.result table := by
  have hdkim : methodSPF ≠ methodDKIM := by decide
  have hdkim' : methodDMARC ≠ methodDKIM := by decide
  have hspf : methodDKIM ≠ methodSPF := by decide
  have hspf' : methodDMARC ≠ methodSPF := by decide
  rw [clauseResult, toLower_spelling, Clause.result]
  cases c.method with
  | dkim =>
    rw [show Method.dkim.name = methodDKIM from rfl]
    simp only [outcome_other table hspf, if_true, property, property_clause]
    rfl
  | dmarc =>
    rw [show Method.dmarc.name = methodDMARC from rfl]
    simp only [outcome_other table hspf', if_neg hdkim', if_neg hspf', if_true, property,
      property_clause]
    rfl
  | spf =>
    rw [show Method.spf.name = methodSPF from rfl]
    simp only [outcome_spf, if_neg hdkim, if_true, authenticationResultsSPFIdentity, property,
      property_clause]
    by_cases hsender : domainFromIdentity table ((c.assigned "smtp.mailfrom").getD []) ≠ []
    · simp only [if_pos hsender, methodSPF]
    · simp only [if_neg hsender, methodSPF]
      cases c.assigned "smtp.helo" with
      | none | some greeting => simp only

theorem readClause_clause : readClause table (c.render cleaned) = some (c.result table) := by
  rw [readClause, pattern_clause, Option.map_some, properties_clause, clauseResult_clause]

/-- The first word of a field is its identifier, so that all its clauses are read. -/
theorem trustedClauses_field {trusted : List Bytes} (f : Field)
    (htrusted : normalizeAuthservID table f.id ∈ trusted) :
    trustedClauses table trusted f.text = f.clauses.map (Clause.render cleaned) := by
  have hspace : ∀ gap, ∀ b ∈ cleaned gap, asciiSpace b = true := fun gap b hb =>
    (whitespace_class (cleaned_whitespace gap b hb)).2.2.1
  have hword : fields (cleaned f.lead ++ f.id ++ cleaned f.trail) = [f.id] :=
    fields_around (hspace f.lead) (hspace f.trail) f.id_word
  simp only [trustedClauses, strip_field, split_field, hword, if_pos htrusted]

/-- The clauses of all fields of a list. -/
def clausesOf (sources : List Field) : List Clause := sources.flatMap Field.clauses

theorem trustedClauses_fields {trusted : List Bytes} {sources : List Field}
    (htrusted : ∀ f ∈ sources, normalizeAuthservID table f.id ∈ trusted) :
    (sources.map Field.text).flatMap (trustedClauses table trusted) =
      (clausesOf sources).map (Clause.render cleaned) := by
  induction sources with
  | nil => rfl
  | cons f sources ih =>
    have hfirst := trustedClauses_field table f (htrusted f List.mem_cons_self)
    have hlater := ih fun g hg => htrusted g (List.mem_cons_of_mem f hg)
    have hclauses : clausesOf (f :: sources) = f.clauses ++ clausesOf sources := rfl
    rw [List.map_cons, List.flatMap_cons, hfirst, hlater, hclauses, List.map_append]

theorem spfClause_clause :
    spfClause table (c.render cleaned) = decide (c.method.name = methodSPF) := by
  simp only [spfClause, pattern_clause, toLower_spelling]

/-- The results of the clauses, equal ones kept once. -/
def evidence (sources : List Field) : List Result :=
  ((clausesOf sources).map (Clause.result table)).eraseDups

/-- The clauses give their evidence; the other fields are asked only without an SPF clause. -/
theorem parse_fields {ids : List Bytes} {sources : List Field}
    (htrusted : ∀ f ∈ sources,
      normalizeAuthservID table f.id ∈ normalizedAuthservIDs table ids) (received : List Bytes) :
    parse table ⟨sources.map Field.text, received, ids⟩ =
      if (clausesOf sources).any fun c => decide (c.method.name = methodSPF) then
        evidence table sources
      else appendReceivedSPF table (evidence table sources) received
        (normalizedAuthservIDs table ids) := by
  have hread : ((clausesOf sources).map (Clause.render cleaned)).filterMap (readClause table) =
      (clausesOf sources).map (Clause.result table) := by
    rw [List.filterMap_map, ← List.filterMap_eq_map]
    exact List.filterMap_congr fun c _ => readClause_clause table c
  have hspf : (((clausesOf sources).map (Clause.render cleaned)).any (spfClause table)) =
      (clausesOf sources).any fun c => decide (c.method.name = methodSPF) := by
    rw [List.any_map]
    exact congrArg _ (funext fun c => spfClause_clause table c)
  simp only [parse, trustedClauses_fields table htrusted, hread, hspf, appendUnique_run, evidence]

/-- The names whose values say whom the result of a method is about. -/
def identityNames : Method → List String
  | .dkim => ["header.d"]
  | .spf => ["smtp.mailfrom", "smtp.helo"]
  | .dmarc => ["header.from"]

/-- The clauses agree in what their results are made of. Comments, white space and all
other assignments may differ. -/
def SameEvidence (c' : Clause) : Prop :=
  c.method = c'.method ∧ c.outcome = c'.outcome ∧
    ∀ key ∈ identityNames c.method, c.assigned key = c'.assigned key

theorem SameEvidence.result_eq {c c' : Clause} (h : SameEvidence c c') :
    c.result table = c'.result table := by
  obtain ⟨hmethod, houtcome, hassigned⟩ := h
  rw [Clause.result, Clause.result, ← hmethod, ← houtcome]
  cases hcase : c.method with
  | dkim =>
    rw [hcase] at hassigned
    simp only [hassigned "header.d" (by simp [identityNames])]
  | dmarc =>
    rw [hcase] at hassigned
    simp only [hassigned "header.from" (by simp [identityNames])]
  | spf =>
    rw [hcase] at hassigned
    simp only [hassigned "smtp.mailfrom" (by simp [identityNames]),
      hassigned "smtp.helo" (by simp [identityNames])]

theorem map_eq_of_same {α : Type*} {read : Clause → α}
    (hread : ∀ c c', SameEvidence c c' → read c = read c') {clauses others : List Clause}
    (h : List.Forall₂ SameEvidence clauses others) : clauses.map read = others.map read := by
  induction h with
  | nil => rfl
  | cons hfirst _ ih => rw [List.map_cons, List.map_cons, hread _ _ hfirst, ih]

theorem spf_of_same (c' : Clause) (h : SameEvidence c c') :
    decide (c.method.name = methodSPF) = decide (c'.method.name = methodSPF) := by
  rw [h.1]

theorem parse_eq_of_same {ids : List Bytes} {sources others : List Field}
    (htrusted : ∀ f ∈ sources, normalizeAuthservID table f.id ∈ normalizedAuthservIDs table ids)
    (htrusted' : ∀ f ∈ others, normalizeAuthservID table f.id ∈ normalizedAuthservIDs table ids)
    (h : List.Forall₂ SameEvidence (clausesOf sources) (clausesOf others))
    (received : List Bytes) :
    parse table ⟨sources.map Field.text, received, ids⟩ =
      parse table ⟨others.map Field.text, received, ids⟩ := by
  have hresults := map_eq_of_same (fun _ _ hsame => hsame.result_eq table) h
  have hmethods := map_eq_of_same spf_of_same h
  have hspf := congrArg (fun flags => flags.any id) hmethods
  simp only [List.any_map, Function.comp_def, id_eq] at hspf
  rw [parse_fields table htrusted, parse_fields table htrusted', hspf, evidence, evidence, hresults]

end Fields

/-- Trusted fields are read exactly: one result for every distinct one that a clause stands
for, in order and in front of all others. What else the clauses hold has no part in it,
and the three scanners agree on where a quoted string ends, or that it has no end. -/
theorem authentication_results_read_exactly (table : CaseTable) (ids : List Bytes)
    (sources : List Field)
    (htrusted : ∀ f ∈ sources, normalizeAuthservID table f.id ∈ normalizedAuthservIDs table ids) :
    (parse table ⟨sources.map Field.text, [], ids⟩ =
      ((clausesOf sources).map (Clause.result table)).eraseDups) ∧
    (∀ received, ((clausesOf sources).map (Clause.result table)).eraseDups <+:
      parse table ⟨sources.map Field.text, received, ids⟩) ∧
    (∀ others : List Field,
      (∀ f ∈ others, normalizeAuthservID table f.id ∈ normalizedAuthservIDs table ids) →
      List.Forall₂ SameEvidence (clausesOf sources) (clausesOf others) →
      ∀ received, parse table ⟨sources.map Field.text, received, ids⟩ =
        parse table ⟨others.map Field.text, received, ids⟩) ∧
    (∀ text decoded rest, readQuoted text = some (decoded, rest) →
      ∃ inside, text = inside ++ rest ∧
        stripFrom (.quoted false) text = (stripFrom .plain rest).map (inside ++ ·) ∧
        clausesFrom true false text = (clausesFrom false false rest).modifyHead (inside ++ ·)) ∧
    (∀ text, readQuoted text = none →
      stripFrom (.quoted false) text = none ∧ clausesFrom true false text = [text]) := by
  refine ⟨?_, ?_, ?_, fun _ _ _ hread => quoted_string_ends hread,
    fun _ hread => quoted_string_unended hread⟩
  · rw [parse_fields table htrusted]
    split
    · rfl
    · rfl
  · intro received
    rw [parse_fields table htrusted]
    split
    · exact List.prefix_rfl
    · exact appendUnique_run_prefixed _ _
  · intro others htrusted' hsame received
    exact parse_eq_of_same table htrusted htrusted' hsame received

section Signed

def blankGap : Gap := [.space 0x20 rfl]

/-- A comment with a nested one and the text of a clause. -/
def remark : Gap := [.comment (ascii "by key (a\\)b); spf=fail") (by decide), .space 0x0A rfl]

def word (text : String) (hne : ascii text ≠ [])
    (hbytes : ∀ b ∈ ascii text, isAuthenticationNameByte b = true) : Name :=
  ⟨ascii text, hne, hbytes⟩

/-- A reason that is written like a further clause. -/
def reason : Assignment where
  before := remark
  before_ne_nil := by simp [remark]
  name := word "reason" (by decide) (List.all_eq_true.mp rfl)
  second := none
  beforeEquals := []
  afterEquals := blankGap
  value := .quoted ((ascii "; header.d=other.example").map fun b =>
    ⟨b, true, by simp⟩)

def signer : Assignment where
  before := blankGap
  before_ne_nil := by simp [blankGap]
  name := word "Header" (by decide) (List.all_eq_true.mp rfl)
  second := some (blankGap, [], word "d" (by decide) (List.all_eq_true.mp rfl))
  beforeEquals := []
  afterEquals := []
  value := .plain (ascii "Example.NET") (by decide) (List.all_eq_true.mp rfl)

def signature : Clause where
  lead := blankGap
  method := .dkim
  spelling := ascii "DKIM"
  spelling_lower := by decide
  beforeEquals := []
  afterEquals := remark
  first := 0x50
  first_letter := rfl
  more := ascii "ass"
  more_length := by decide
  more_bytes := List.all_eq_true.mp rfl
  assignments := [reason, signer]
  distinct := by decide
  trail := []

def signedField : Field where
  lead := []
  id := ascii "mx.example.org"
  id_word := by decide +kernel
  id_bytes := by decide +kernel
  trail := remark
  clauses := [signature, signature]

theorem signedField_read :
    parse MailAddresses.asciiTable ⟨[signedField.text], [], [ascii "MX.example.org."]⟩ =
      [⟨ascii "dkim", ascii "pass", ascii "example.net", .unspecified⟩] := by
  have hread := (authentication_results_read_exactly MailAddresses.asciiTable
    [ascii "MX.example.org."] [signedField] (by decide +kernel)).1
  exact hread.trans (by decide +kernel)

end Signed

/-- What the results of one field of the service mx.example.org are. -/
def resultsOf (text : String) : List Result :=
  parse MailAddresses.asciiTable ⟨[ascii text], [], [ascii "mx.example.org", ascii "mx;1"]⟩

/-- An outcome that starts with a digit or has more than 32 characters gives no result, an
SPF outcome has another name, two clauses share a result, names that differ in case only
lose the domain, and an identifier with a semicolon is never found. -/
theorem clauses_read_otherwise :
    resultsOf "mx.example.org; dkim=2pass header.d=example.net" = [] ∧
    resultsOf "mx.example.org; dkim=abcdefghijabcdefghijabcdefghijabc header.d=example.net" = [] ∧
    resultsOf "mx.example.org; spf=tempfail smtp.mailfrom=example.net" =
      [⟨ascii "spf", ascii "temperror", ascii "example.net", .mailFrom⟩] ∧
    resultsOf ("mx.example.org; dkim=pass header.d=example.net header.s=a; " ++
        "dkim=pass header.d=example.net header.s=b") =
      [⟨ascii "dkim", ascii "pass", ascii "example.net", .unspecified⟩] ∧
    resultsOf "mx.example.org; dkim=pass header.d=example.net Header.D=example.org" =
      [⟨ascii "dkim", ascii "pass", [], .unspecified⟩] ∧
    resultsOf "mx;1; dkim=pass header.d=example.net" = [] := by
  decide +kernel

end MilterGuard.AuthenticationEvidence
