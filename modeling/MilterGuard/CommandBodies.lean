import MilterGuard.MultipartTraversal

/-!
The text of an authenticated command message, and the command lines read from it. What is
missing from the extraction shows in the result or in the usage that the caller looks at.
Under the fallback action the caller accepts what the fallback has extracted.
-/
namespace MilterGuard.CommandBodies

open ByteStrings Interruptions ExtractionStages MimeContents ExtractionRuns MimeExtraction
  SoundContents MimeTraversal MultipartTraversal

/-- `entity` is the reading of a body under the headers of the message, and `mediaType` what
ParseMediaType makes of its Content-Type. -/
structure CommandMessage where
  dispositions : Bytes
  contentType : Bytes
  mediaType : Option Bytes
  entity : Bytes → Entity
  body : Bytes
  mimeHeadersTruncated : Bool
  maxBytes : ℤ

inductive LinesError
  | attachments
  | contentType
  | notText
  | incomplete
  | invalidCharacters
  | noLines
  | interrupted
  | cpuLimit
  | memoryLimit
  deriving DecidableEq

def LinesError.reason : LinesError → Bytes
  | .attachments => ascii "attachments are not allowed"
  | .contentType => ascii "invalid Content-Type"
  | .notText => ascii "command email must contain plain text or HTML without attachments"
  | .incomplete => ascii "command body extraction was incomplete"
  | .invalidCharacters => ascii "command body contains invalid characters"
  | .noLines => ascii "command body is empty"
  | .interrupted => ascii "command body processing was interrupted"
  | .cpuLimit => ascii "command body processing exceeded the configured CPU limit"
  | .memoryLimit => ascii "command body processing exceeded the configured memory limit"

def cpuExceeded (usage : Usage) : Bool := usage.primaryCPUExceeded || usage.fallbackCPUExceeded

/-- The part of the body that is read; a negative limit is none. -/
def commandPrefix (body : Bytes) (maxBytes : ℤ) : Bytes :=
  if 0 ≤ maxBytes ∧ maxBytes < body.length then body.take maxBytes.toNat else body

variable (m : CommandMessage)

def textLimit (maxBytes : ℤ) : ℤ :=
  if 0 ≤ maxBytes ∧ maxBytes < m.maxBytes then maxBytes else m.maxBytes

def commandStart (maxBytes : ℤ) : State :=
  newState (textLimit m maxBytes).toNat

section Formatting

-- `formatting` is the Unicode category Cf
variable (formatting : ℕ → Bool)

def hasInvisible : Bool → List ℕ → Bool
  | _, [] => false
  | previousSpace, r :: rest =>
    formatting r || r = 0x34F || r = 0x20 && previousSpace || hasInvisible (r = 0x20) rest

def withoutInvisible : Bool → List ℕ → List ℕ
  | _, [] => []
  | previousSpace, r :: rest =>
    if formatting r || r = 0x34F || r = 0x20 && previousSpace then
      withoutInvisible previousSpace rest
    else r :: withoutInvisible (r = 0x20) rest

def stripInvisibleFormatting (value : Bytes) : Bytes :=
  let value := toValidUTF8 value
  let rs := (runes value).map fun r => r.getD replacement
  if hasInvisible formatting false rs then
    (withoutInvisible formatting false rs).flatMap encodeRune
  else value

end Formatting

def readLines (text : Bytes) : Except LinesError (List Bytes) :=
  if text.contains 0 then .error .invalidCharacters
  else
    let lines := ((split 0x0A (replaceAll text (ascii "\r\n") (ascii "\n"))).map trimSpace).filter
      fun line => line ≠ []
    if lines = [] then .error .noLines else .ok lines

/-- What disqualifies a message before its body is looked at. -/
def disqualified : Option LinesError :=
  if trimSpace m.dispositions ≠ [] then some .attachments
  else
    match if trimSpace m.contentType = [] then some (ascii "text/plain") else m.mediaType with
    | none => some .contentType
    | some mediaType =>
      if mediaType ≠ ascii "text/plain" && mediaType ≠ ascii "text/html" &&
          mediaType ≠ ascii "multipart/alternative" then some .notText
      else none

section

variable (env : Environment) (formatting : ℕ → Bool)

/-- The text, and whether its extraction is complete. -/
def commandTextResult (policy : Policy) (m : CommandMessage) (maxBytes : ℤ) :
    Extraction (Bytes × Bool) := do
  let content ← extractMIME env ⟨policy, true, true⟩ maxLevels {}
    (m.entity (commandPrefix m.body maxBytes))
  pure (stripInvisibleFormatting formatting
      (if content.htmlFallbackUsed then content.text.text else content.visible.text),
    !content.incomplete && !m.mimeHeadersTruncated)

def commandMessageLinesWithHTMLControl (policy : Policy) (m : CommandMessage) (maxBytes : ℤ) :
    Extraction (Except LinesError (List Bytes)) :=
  match disqualified m with
  | some reason => pure (.error reason)
  | none => do
    let result ← commandTextResult env formatting policy m maxBytes
    pure (if !result.2 then .error .incomplete else readLines result.1)

/-- Any action but fallback is plain reject. -/
def resourcePolicy (action : Bytes) : Policy := .limits (action = ascii "fallback")

/-- Under the fallback action only the limits of the fallback itself are failures. -/
def limitError (action : Bytes) (usage : Usage) : Option LinesError :=
  if if action = ascii "fallback" then usage.fallbackCPUExceeded else cpuExceeded usage then
    some .cpuLimit
  else if if action = ascii "fallback" then usage.fallbackMemoryExceeded
      else usage.memoryExceeded then some .memoryLimit
  else none

def commandMessageLinesWithResourceLimits (m : CommandMessage) (maxBytes : ℤ) (action : Bytes) :
    Except Code (Except LinesError (List Bytes)) :=
  let run := commandMessageLinesWithHTMLControl env formatting (resourcePolicy action) m maxBytes
    (commandStart m maxBytes)
  run.1.map fun extracted =>
    if env.contextDone run.2.now then .error .interrupted
    else
      match limitError action run.2.stage.usage with
      | some reason => .error reason
      | none => extracted

end

/-- What the content and the usage show at the end of an extraction. -/
theorem extractMIME_noticed (env : Environment) (settings : Settings) (info : Info)
    (entity : Entity) (decodedTextBytes : ℕ) :
    ∃ c t, extractMIME env settings maxLevels info entity (newState decodedTextBytes) =
        (.ok c, t) ∧
      (t.Noticed → c.incomplete = true ∨ Limited t.stage) ∧
      (Limited t.stage → c.htmlCPULimitExceeded = true ∨ c.htmlMemoryLimitExceeded = true) ∧
      (Limited t.stage →
        cpuExceeded t.stage.usage = true ∨ t.stage.usage.memoryExceeded = true) := by
  have hmeets : Meets (Steady (Sound False)) (extractMIME env settings maxLevels info entity)
      (newState decodedTextBytes)
      (fun c t => Extracted False False Content.incomplete c t ∧ Limits c t) :=
    extractMIME_secures False.elim maxLevels info False.elim _ (steady_newState _)
      (covered_newState _)
  obtain ⟨c, hc⟩ := extractMIME_settles env settings maxLevels info entity
    (newState decodedTextBytes)
  generalize hrun : extractMIME env settings maxLevels info entity (newState decodedTextBytes) =
    run at hc
  obtain ⟨hsteady, hvalue⟩ := hmeets
  rw [hrun] at hsteady hvalue
  obtain ⟨value, t⟩ := run
  subst hc
  obtain ⟨⟨-, hcovered⟩, hlimits⟩ := hvalue c rfl
  refine ⟨c, t, rfl, fun hnoticed => ?_, hlimits, fun hlimited => ?_⟩
  · exact (hcovered hnoticed).imp_left fun h => h.resolve_left id
  · rcases hlimited with hcpu | hmemory | hfallback
    · refine Or.inl ?_
      rw [cpuExceeded, Bool.or_eq_true]
      exact hsteady.observed.cpu hcpu
    · exact Or.inr (hsteady.observed.memory hmemory)
    · exact Or.inr (hsteady.observed.fallbackMemory hfallback)

section Results

variable (env : Environment) (formatting : ℕ → Bool)

theorem commandTextResult_noticed (policy : Policy) (m : CommandMessage) (maxBytes : ℤ) :
    ∃ text complete t,
      commandTextResult env formatting policy m maxBytes (commandStart m maxBytes) =
        (.ok (text, complete), t) ∧
      (t.Noticed → complete = false ∨ cpuExceeded t.stage.usage = true ∨
        t.stage.usage.memoryExceeded = true) := by
  obtain ⟨c, t, hrun, hnoticed, -, husage⟩ := extractMIME_noticed env ⟨policy, true, true⟩ {}
    (m.entity (commandPrefix m.body maxBytes)) (textLimit m maxBytes).toNat
  have hresult : commandTextResult env formatting policy m maxBytes (commandStart m maxBytes) =
      (.ok (stripInvisibleFormatting formatting
          (if c.htmlFallbackUsed then c.text.text else c.visible.text),
        !c.incomplete && !m.mimeHeadersTruncated), t) := by
    unfold commandTextResult
    rw [bind_run, commandStart, hrun]
    rfl
  refine ⟨_, _, t, hresult, fun h => ?_⟩
  rcases hnoticed h with hincomplete | hlimited
  · refine Or.inl ?_
    rw [hincomplete]
    rfl
  · exact Or.inr (husage hlimited)

/-- Lines are read from a complete text, and no limit that the action looks at is exceeded. -/
theorem lines_of_complete {m : CommandMessage} {maxBytes : ℤ} {action text : Bytes}
    {complete : Bool} {t : State} {lines : List Bytes}
    (hrun : commandTextResult env formatting (resourcePolicy action) m maxBytes
      (commandStart m maxBytes) = (.ok (text, complete), t))
    (hlines : commandMessageLinesWithResourceLimits env formatting m maxBytes action =
      .ok (.ok lines)) :
    complete = true ∧ limitError action t.stage.usage = none := by
  unfold commandMessageLinesWithResourceLimits commandMessageLinesWithHTMLControl at hlines
  cases hdisqualified : disqualified m with
  | some reason =>
    rw [hdisqualified] at hlines
    dsimp only [pure] at hlines
    split at hlines
    · cases hlines
    · split at hlines <;> cases hlines
  | none =>
    rw [hdisqualified] at hlines
    dsimp only at hlines
    rw [bind_run, hrun] at hlines
    dsimp only [pure] at hlines
    split at hlines
    · cases hlines
    · split at hlines
      · cases hlines
      · rename_i hlimit
        refine ⟨?_, hlimit⟩
        cases complete with
        | false => cases hlines
        | true => rfl

theorem limitError_none {action : Bytes} {usage : Usage} (h : limitError action usage = none) :
    (action ≠ ascii "fallback" → cpuExceeded usage = false ∧ usage.memoryExceeded = false) ∧
      (action = ascii "fallback" →
        usage.fallbackCPUExceeded = false ∧ usage.fallbackMemoryExceeded = false) := by
  unfold limitError at h
  constructor
  · intro haction
    cases hcpu : cpuExceeded usage <;> cases hmemory : usage.memoryExceeded <;> simp_all
  · intro haction
    cases hcpu : usage.fallbackCPUExceeded <;>
      cases hmemory : usage.fallbackMemoryExceeded <;> simp_all

theorem commandMessageLines_settles (m : CommandMessage) (maxBytes : ℤ) (action : Bytes) :
    ∃ r, commandMessageLinesWithResourceLimits env formatting m maxBytes action = .ok r := by
  have hsettles : Settles (commandMessageLinesWithHTMLControl env formatting
      (resourcePolicy action) m maxBytes) := by
    unfold commandMessageLinesWithHTMLControl
    split
    · exact Settles.pure _
    · refine Settles.bind ?_ fun _ => Settles.pure _
      exact Settles.bind (extractMIME_settles env _ maxLevels _ _) fun _ => Settles.pure _
  obtain ⟨extracted, hextracted⟩ := hsettles (commandStart m maxBytes)
  unfold commandMessageLinesWithResourceLimits
  dsimp only
  rw [hextracted]
  exact ⟨_, rfl⟩

end Results

/-- Nothing that is missing is forgotten: it shows in the content of the root and in what
the caller sees of a command message. No command line is then read, unless the action is
fallback, the text is complete and the fallback itself has kept to its limits. -/
theorem incompleteness_never_forgotten (env : Environment) (settings : Settings) (info : Info)
    (entity : Entity) (decodedTextBytes : ℕ) (formatting : ℕ → Bool) (m : CommandMessage)
    (maxBytes : ℤ) (action : Bytes) :
    (∃ c t, extractMIME env settings maxLevels info entity (newState decodedTextBytes) =
        (.ok c, t) ∧
      (t.Noticed → c.incomplete = true ∨ c.htmlCPULimitExceeded = true ∨
        c.htmlMemoryLimitExceeded = true)) ∧
    (∃ text complete t r,
      commandTextResult env formatting (resourcePolicy action) m maxBytes
        (commandStart m maxBytes) = (.ok (text, complete), t) ∧
      commandMessageLinesWithResourceLimits env formatting m maxBytes action = .ok r ∧
      (t.Noticed → complete = false ∨ cpuExceeded t.stage.usage = true ∨
        t.stage.usage.memoryExceeded = true) ∧
      (t.Noticed → action ≠ ascii "fallback" → ∀ lines, r ≠ .ok lines) ∧
      (action = ascii "fallback" → ∀ lines, r = .ok lines → complete = true ∧
        t.stage.usage.fallbackCPUExceeded = false ∧
        t.stage.usage.fallbackMemoryExceeded = false)) := by
  constructor
  · obtain ⟨c, t, hrun, hnoticed, hflags, -⟩ := extractMIME_noticed env settings info entity
      decodedTextBytes
    exact ⟨c, t, hrun, fun h => (hnoticed h).imp_right hflags⟩
  · obtain ⟨text, complete, t, hrun, hnoticed⟩ := commandTextResult_noticed env formatting
      (resourcePolicy action) m maxBytes
    obtain ⟨r, hr⟩ := commandMessageLines_settles env formatting m maxBytes action
    refine ⟨text, complete, t, r, hrun, hr, hnoticed, fun h haction lines hlines => ?_,
      fun haction lines hlines => ?_⟩
    · rw [hlines] at hr
      obtain ⟨hcomplete, hlimit⟩ := lines_of_complete env formatting hrun hr
      obtain ⟨hcpu, hmemory⟩ := (limitError_none hlimit).1 haction
      rcases hnoticed h with hincomplete | hexceeded | hexceeded
      · exact absurd (hcomplete.symm.trans hincomplete) (by decide)
      · exact absurd (hcpu.symm.trans hexceeded) (by decide)
      · exact absurd (hmemory.symm.trans hexceeded) (by decide)
    · rw [hlines] at hr
      obtain ⟨hcomplete, hlimit⟩ := lines_of_complete env formatting hrun hr
      exact ⟨hcomplete, (limitError_none hlimit).2 haction⟩

/-- The HTML source has a conditional comment that nests more elements than the parser
admits, so its tree is extracted without the comment. The lexical fallback reads the text
after the comment. Memory runs out when the alternative is remembered. -/
def exhaustedAlternative : Environment where
  stop := fun n => if n = 17 then some .memoryExceeded else none
  bindFails := fun _ => false
  contextDone := fun _ => false
  storage := fun _ _ _ => true
  analysis := fun _ _ =>
    ⟨some ⟨ascii "\n[conditional Outlook content omitted: processing limit]\nHELP", ascii "HELP",
      [], [], [], false, true, false⟩, false, 0⟩
  lexical := fun _ _ => ⟨ascii "HELP", [], [], true⟩
  lexicalPrefix := fun _ => []
  rewritePlainTextURLs := fun text => (text, [])
  decodeHeaderValue := id

def nestedComment : CommandMessage where
  dispositions := []
  contentType := ascii "multipart/alternative; boundary=b"
  mediaType := some (ascii "multipart/alternative")
  entity := fun _ =>
    .mk ⟨false, ascii "multipart/alternative", false, [], ascii "b", ⟨false, [], []⟩, false, false⟩
      [] [(.mk ⟨false, ascii "text/html", false, [], [], ⟨false, [], []⟩, false, false⟩
        (ascii "<!--[if mso]>" ++ (List.replicate 513 (ascii "<div>")).flatten ++
          ascii "<![endif]-->HELP") [] true none, false)] true none
  body := []
  mimeHeadersTruncated := false
  maxBytes := 100000

/-- The HTML part is found incomplete, and the command is read all the same. -/
theorem nestedComment_executes :
    (commandTextResult exhaustedAlternative (fun _ => false) (resourcePolicy (ascii "fallback"))
        nestedComment 100000 (commandStart nestedComment 100000)).2.reports = [.extraction] ∧
      (commandMessageLinesWithResourceLimits exhaustedAlternative (fun _ => false) nestedComment
        100000 (ascii "fallback")).toOption.map Except.toOption = some (some [ascii "HELP"]) := by
  decide +kernel

end MilterGuard.CommandBodies
