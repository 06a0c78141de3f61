import MilterGuard.ExtractionStages
import MilterGuard.Interruptions
import MilterGuard.MimeContents

/-!
Work under an extraction budget. A stretch of guarded work may end with a failure at any
time, and a stage boundary runs it again in fallback or gives up. What the parts of a
message report as missing is written down as it happens.
-/
namespace MilterGuard.ExtractionRuns

open ByteStrings Interruptions ExtractionStages MimeContents

/-- What a visited part can find missing. -/
inductive Report
  | mime
  | transfer
  | extraction
  | partLimit
  | depthLimit
  | decodingLimit
  deriving DecidableEq

/-- The allowances that are rewound when interrupted work is replayed. -/
structure Progress where
  parts : ℕ
  htmlParts : ℕ
  htmlBytesRemaining : ℕ
  decodedTextBytesRemaining : ℕ
  cssBytesRemaining : ℕ
  deriving DecidableEq

/-- `retained` belongs to the innermost part that is being extracted, and `now` counts
the answers that the environment has given. -/
structure State where
  progress : Progress
  stage : Budget
  retained : Content
  reports : List Report
  now : ℕ

/-- The texts that the tree of an HTML part renders to. -/
structure Rendering where
  text : Bytes
  visible : Bytes
  stripped : Bytes
  links : List Bytes
  imageRefs : List Bytes
  hasConcealedContent : Bool
  extractionIncomplete : Bool
  cssIncomplete : Bool

/-- An analysis of an HTML source; without a rendering it ended with an ordinary error. -/
structure Analysis where
  rendering : Option Rendering
  memoryLimitExceeded : Bool
  cssBytes : ℕ

/-- What the bounded lexical fallback finds in an HTML source. -/
structure Lexical where
  text : Bytes
  links : List Bytes
  imageRefs : List Bytes
  complete : Bool

/-- The answers from outside, in the order in which they are asked for: how a stretch of
guarded work ends, whether the context has ended, which texts share their storage, and
what HTML extraction yields. -/
structure Environment where
  stop : ℕ → Option Code
  bindFails : ℕ → Bool
  contextDone : ℕ → Bool
  storage : ℕ → Bytes → Bytes → Bool
  analysis : ℕ → Bytes → Analysis
  lexical : ℕ → Bytes → Lexical
  lexicalPrefix : ℕ → Bytes
  rewritePlainTextURLs : Bytes → Bytes × List Bytes
  decodeHeaderValue : Bytes → Bytes

abbrev Extraction (α : Type) := Interruptible Code State α

def ask {α : Type} (answers : ℕ → α) : Extraction α :=
  step fun s => (answers s.now, { s with now := s.now + 1 })

def staged {α : Type} (m : Stage α) : Extraction α :=
  step fun s => ((m s.stage).value, { s with stage := (m s.stage).state })

def report (r : Report) (found : Bool) : Extraction Unit :=
  modify fun s => if found then { s with reports := s.reports ++ [r] } else s

/-- Memory that runs out in fallback is the fallback's own. -/
def exhaust (code : Code) (b : Budget) : Budget :=
  if code = .memoryExceeded then { b with fallbackExhausted := b.fallback || b.fallbackExhausted }
  else b

/-- A stretch of work up to its checkpoints and allocations. -/
def guarded (env : Environment) : Extraction Unit := do
  match ← ask env.stop with
  | none => pure ()
  | some code => do
    modify fun s => { s with stage := exhaust code s.stage }
    fail code

def bindStageStop (env : Environment) : Extraction Unit := do
  match ← staged (bindCheckpoint (← ask env.bindFails)) with
  | none => pure ()
  | some code => do
    modify fun s => { s with stage := exhaust code s.stage }
    fail code

section

variable {α : Type} (env : Environment) (policy : Policy)

def attemptExtraction (work : Extraction α) : Extraction (Except Code α) :=
  caught do
    bindStageStop env
    work

def retryExtraction (again : Extraction α) : Extraction (Option α) := do
  match ← attemptExtraction env again with
  | .ok a => pure (some a)
  | .error code => do
    staged (recordTermination code true)
    pure none

def endExtraction (code : Code) : Extraction (Option α) := do
  staged (setTerminal code)
  pure none

def failedExtraction (again : Extraction α) (code : Code) : Extraction (Option α) := do
  let fallback ← read fun s => s.stage.fallback
  staged (recordTermination code fallback)
  if fallback || code = .cancelled then endExtraction code
  else do
    let begun ← staged (beginFallback policy (some code) (← ask env.contextDone))
    if begun then retryExtraction env again else endExtraction code

/-- A stage boundary; the work that runs again may first rewind something. -/
def runExtraction (work again : Extraction α) : Extraction (Option α) := do
  let terminal ← read fun s => s.stage.terminal.isSome
  if terminal then pure none
  else
    match ← attemptExtraction env work with
    | .ok a => pure (some a)
    | .error code => failedExtraction env policy again code

end

def Limited (b : Budget) : Prop :=
  b.cpuLimitExceeded = true ∨ b.memoryLimitExceeded = true ∨ b.fallbackMemoryExceeded = true

/-- Every limit that the budget has noted is in the usage that its caller sees. -/
structure Observed (b : Budget) : Prop where
  cpu : b.cpuLimitExceeded = true →
    b.usage.primaryCPUExceeded = true ∨ b.usage.fallbackCPUExceeded = true
  memory : b.memoryLimitExceeded = true → b.usage.memoryExceeded = true
  fallbackMemory : b.fallbackMemoryExceeded = true → b.usage.memoryExceeded = true

/-- Something is missing, as far as the extraction has come. -/
def State.Noticed (s : State) : Prop := s.reports ≠ [] ∨ s.stage.terminal.isSome = true

/-- What is missing is covered by `P` or by a noted limit. -/
def Covered (P : Prop) (s : State) : Prop := s.Noticed → P ∨ Limited s.stage

theorem Covered.of_true {P : Prop} (h : P) (s : State) : Covered P s := fun _ => Or.inl h

theorem Covered.imp {P P' : Prop} {s : State} (h : Covered P s) (hP : P → P') : Covered P' s :=
  fun hnoticed => (h hnoticed).imp_left hP

theorem Covered.of_limited {P : Prop} {s : State} (h : Limited s.stage) : Covered P s :=
  fun _ => Or.inr h

/-- A change of the budget within a stage: it forgets no limit and no end. -/
structure Advances (b b' : Budget) : Prop where
  observed : Observed b → Observed b'
  fallback : b'.fallback = b.fallback
  limited : Limited b → Limited b'
  terminal : b.terminal.isSome = true → b'.terminal.isSome = true

theorem Advances.refl (b : Budget) : Advances b b := ⟨id, rfl, id, id⟩

theorem Advances.trans {b c d : Budget} (h : Advances b c) (h' : Advances c d) : Advances b d :=
  ⟨h'.observed ∘ h.observed, h'.fallback.trans h.fallback, h'.limited ∘ h.limited,
    h'.terminal ∘ h.terminal⟩

section Advances

variable (code : Code) (fallback : Bool) (b : Budget)

theorem noteMemoryLimit_advances :
    Advances b (noteMemoryLimit b).state ∧
      (noteMemoryLimit b).state.memoryLimitExceeded = true := by
  unfold noteMemoryLimit
  rw [Procedures.modify_run]
  by_cases hnoted : b.memoryLimitExceeded = true
  · rw [if_pos hnoted]
    exact ⟨Advances.refl b, hnoted⟩
  · rw [if_neg hnoted]
    refine ⟨⟨fun h => ⟨h.cpu, fun _ => rfl, fun _ => rfl⟩, rfl, ?_, id⟩, rfl⟩
    exact Or.imp_right fun _ => Or.inl rfl

theorem observeFallback_advances : Advances b (observeFallback b).state := by
  unfold observeFallback
  rw [Procedures.modify_run]
  split
  · refine ⟨fun h => ⟨h.cpu, fun _ => rfl, fun _ => rfl⟩, rfl, ?_, id⟩
    exact Or.imp_right (Or.imp_right fun _ => rfl)
  · exact Advances.refl b

theorem noteCPULimit_advances : Advances b (noteCPULimit fallback b).state := by
  cases fallback with
  | false =>
    exact ⟨fun h => ⟨fun _ => Or.inl rfl, h.memory, h.fallbackMemory⟩, rfl, fun _ => Or.inl rfl, id⟩
  | true =>
    exact ⟨fun h => ⟨fun _ => Or.inr rfl, h.memory, h.fallbackMemory⟩, rfl, fun _ => Or.inl rfl, id⟩

theorem setTerminal_advances : Advances b (setTerminal code b).state :=
  ⟨fun h => ⟨h.cpu, h.memory, h.fallbackMemory⟩, rfl, id, fun _ => rfl⟩

/-- A resource failure of the primary stage is noted as a limit. -/
theorem noteFailure_advances :
    Advances b (noteFailure code fallback b).state ∧
      (code ≠ .cancelled → fallback = false → Limited (noteFailure code fallback b).state) := by
  cases code with
  | cancelled => exact ⟨Advances.refl b, fun hne => absurd rfl hne⟩
  | cpuExceeded => exact ⟨noteCPULimit_advances fallback b, fun _ _ => Or.inl rfl⟩
  | memoryExceeded =>
    cases fallback with
    | true => exact ⟨observeFallback_advances b, fun _ hfalse => absurd hfalse (by decide)⟩
    | false =>
      obtain ⟨hadvances, hnoted⟩ := noteMemoryLimit_advances b
      exact ⟨hadvances, fun _ _ => Or.inr (Or.inl hnoted)⟩

/-- Where the failure allows no second attempt, it is terminal. -/
theorem recordTermination_advances :
    Advances b (recordTermination code fallback b).state ∧
      (if fallback = true ∨ code = .cancelled then
        (recordTermination code fallback b).state.terminal.isSome = true
      else Limited (recordTermination code fallback b).state) := by
  obtain ⟨hadvances, hlimited⟩ := noteFailure_advances code fallback b
  unfold recordTermination
  by_cases h : fallback = true ∨ code = .cancelled
  · rw [if_pos (by simpa using h), if_pos h]
    exact ⟨hadvances.trans (setTerminal_advances code _), rfl⟩
  · rw [if_neg (by simpa using h), if_neg h]
    rw [not_or, Bool.not_eq_true] at h
    exact ⟨hadvances, hlimited h.2 h.1⟩

theorem exhaust_advances : Advances b (exhaust code b) := by
  unfold exhaust
  split
  · exact ⟨fun h => ⟨h.cpu, h.memory, h.fallbackMemory⟩, rfl, id, id⟩
  · exact Advances.refl b

theorem bindCheckpoint_advances (fails : Bool) (b : Budget) :
    Advances b (bindCheckpoint fails b).state := by
  have hcases : (bindCheckpoint fails b).state = b ∨
      (bindCheckpoint fails b).state = { b with stageStop := true } := by
    unfold bindCheckpoint allocationMemory
    by_cases hbound : b.stageStop = true
    · simp [hbound]
    · cases fails <;> simp [hbound]
  rcases hcases with h | h
  · rw [h]
    exact Advances.refl b
  · rw [h]
    exact ⟨fun h => ⟨h.cpu, h.memory, h.fallbackMemory⟩, rfl, id, id⟩

end Advances

/-- The limits are observed, fallback has begun for a reason, and what is retained
satisfies `Q`. -/
structure Steady (Q : Content → Prop) (s : State) : Prop where
  observed : Observed s.stage
  begun : s.stage.fallback = true → s.Noticed ∨ Limited s.stage
  retained : Q s.retained

theorem Steady.advance {Q : Content → Prop} {s : State} (h : Steady Q s) {b : Budget}
    (hb : Advances s.stage b) : Steady Q { s with stage := b } := by
  refine ⟨hb.observed h.observed, fun hfallback => ?_, h.retained⟩
  rw [hb.fallback] at hfallback
  exact (h.begun hfallback).imp (Or.imp_right hb.terminal) hb.limited

/-- Fallback may begin once something is missing or a limit has been noted. -/
theorem Steady.beginFallback {Q : Content → Prop} {s : State} (h : Steady Q s)
    (hreason : s.Noticed ∨ Limited s.stage) (policy : Policy) (cause : Option Code) (done : Bool) :
    Steady Q { s with stage := (beginFallback policy cause done s.stage).state } ∧
      (s.Noticed →
        State.Noticed { s with stage := (beginFallback policy cause done s.stage).state }) ∧
      (Limited s.stage → Limited (beginFallback policy cause done s.stage).state) := by
  rcases beginFallback_cases policy cause done s.stage with hb | ⟨-, hb⟩ | ⟨-, -, -, hb⟩
  · rw [hb]
    exact ⟨h, id, id⟩
  · rw [hb]
    exact ⟨h, id, id⟩
  · rw [hb]
    exact ⟨⟨⟨h.observed.cpu, h.observed.memory, h.observed.fallbackMemory⟩, fun _ => hreason,
      h.retained⟩, id, id⟩

section Rules

variable {α β : Type} {env : Environment} {policy : Policy} {Q : Content → Prop} {P : Prop}
  {s : State}

/-- From every steady state where `P` covers what is missing, the work leaves a steady state
and gives `R` where it completes. -/
def Secures (Q : Content → Prop) (P : Prop) (m : Extraction α) (R : α → State → Prop) : Prop :=
  ∀ s, Steady Q s → Covered P s → Meets (Steady Q) m s R

section

variable {m n : Extraction α} {f : α → Extraction β} {R : α → State → Prop}
  {S : β → State → Prop}

/-- Once the result says so itself, nothing need be covered. -/
theorem Secures.anyway (h : Secures Q True m R) (hs : Steady Q s) : Meets (Steady Q) m s R :=
  h s hs (Covered.of_true trivial s)

theorem Secures.pure {a : α} (h : ∀ t, Covered P t → R a t) : Secures Q P (pure a) R :=
  fun s hs hcovered => Meets.pure hs (h s hcovered)

theorem Secures.weaken {U : Prop} (h : Secures Q U m R) (hP : P → U) : Secures Q P m R :=
  fun s hs hcovered => h s hs (hcovered.imp hP)

theorem Secures.ite {c : Prop} [Decidable c] (hm : c → Secures Q P m R)
    (hn : ¬ c → Secures Q P n R) : Secures Q P (if c then m else n) R := fun s hs hcovered =>
  Meets.ite (fun hc => hm hc s hs hcovered) fun hc => hn hc s hs hcovered

theorem Secures.bind {T U : α → Prop} (hm : Secures Q P m fun a t => T a ∧ Covered (U a) t)
    (hf : ∀ a, T a → Secures Q (U a) (f a) S) : Secures Q P (m >>= f) S := fun s hs hcovered =>
  Meets.bind (hm s hs hcovered) fun a t ht h => hf a h.1 t ht h.2

theorem Secures.next {U : Prop} (hm : Secures Q P m fun _ t => Covered U t)
    (hf : ∀ a, Secures Q U (f a) S) : Secures Q P (m >>= f) S := fun s hs hcovered =>
  Meets.bind (hm s hs hcovered) fun a t ht h => hf a t ht h

theorem Secures.read {g : State → α} (h : ∀ a, Secures Q P (f a) S) :
    Secures Q P (read g >>= f) S := fun s hs hcovered => h (g s) s hs hcovered

theorem Secures.ask {answers : ℕ → α} (h : ∀ n, Secures Q P (f (answers n)) S) :
    Secures Q P (ask answers >>= f) S := fun s hs hcovered =>
  h s.now _ ⟨hs.observed, hs.begun, hs.retained⟩ hcovered

variable {next : Unit → Extraction β}

theorem Secures.progress {p : State → Progress} (h : Secures Q P (next ()) S) :
    Secures Q P (modify (fun s => { s with progress := p s }) >>= next) S := fun _ hs hcovered =>
  h _ ⟨hs.observed, hs.begun, hs.retained⟩ hcovered

theorem staged_secures {m : Stage α} (hadvances : ∀ b, Advances b (m b).state)
    (hterminal : ∀ b, (m b).state.terminal = b.terminal) :
    Secures Q P (staged m) fun _ t => Covered P t := by
  intro s hs hcovered
  refine Meets.step (hs.advance (hadvances s.stage)) fun hnoticed => ?_
  have hbefore : s.Noticed := by
    unfold State.Noticed at hnoticed ⊢
    rwa [← hterminal]
  exact (hcovered hbefore).imp_right (hadvances s.stage).limited

/-- A report is covered once something else says that a part of the content is missing. -/
theorem Secures.report (r : Report) (found : Bool)
    (h : Secures Q (P ∨ found = true) (next ()) S) : Secures Q P (report r found >>= next) S := by
  intro s hs hcovered
  cases found with
  | false => exact h s hs (hcovered.imp Or.inl)
  | true =>
    refine h _ ⟨hs.observed, fun _ => Or.inl (Or.inl ?_), hs.retained⟩
      (Covered.of_true (Or.inr rfl) _)
    exact List.concat_ne_nil _ _

theorem guarded_secures : Secures Q P (guarded env) fun _ t => Covered P t := by
  refine Secures.ask fun n => ?_
  cases env.stop n with
  | none => exact Secures.pure fun _ => id
  | some code =>
    exact fun t ht _ => Meets.modify (Meets.fail (ht.advance (exhaust_advances code _)))

theorem Secures.guarded (h : Secures Q P (next ()) S) : Secures Q P (guarded env >>= next) S :=
  guarded_secures.next fun _ => h

end

theorem bindStageStop_secures : Secures Q P (bindStageStop env) fun _ t => Covered P t := by
  refine Secures.ask fun n => (staged_secures (bindCheckpoint_advances _) fun b => ?_).next ?_
  · unfold bindCheckpoint allocationMemory
    by_cases hbound : b.stageStop = true
    · simp [hbound]
    · cases env.bindFails n <;> simp [hbound]
  · rintro (_ | code)
    · exact Secures.pure fun _ => id
    · exact fun t ht _ => Meets.modify (Meets.fail (ht.advance (exhaust_advances code _)))

variable {work again : Extraction α} {R : α → State → Prop}

theorem attemptExtraction_secures (hwork : Secures Q P work R) :
    Secures Q P (attemptExtraction env work) fun r t => ∀ a, r = .ok a → R a t :=
  fun s hs hcovered => Meets.caught (bindStageStop_secures.next (fun _ => hwork) s hs hcovered)

/-- A boundary gives what its work promises or has ended the extraction. -/
def Concluded (R : α → State → Prop) (r : Option α) (t : State) : Prop :=
  (∀ a, r = some a → R a t) ∧ (r = none → t.stage.terminal.isSome = true)

theorem concluded_none {t : State} (h : t.stage.terminal.isSome = true) : Concluded R none t :=
  ⟨fun _ ha => (nomatch ha), fun _ => h⟩

theorem concluded_some {a : α} {t : State} (h : R a t) : Concluded R (some a) t := by
  refine ⟨fun b hb => ?_, fun hnone => (nomatch hnone)⟩
  cases hb
  exact h

theorem endExtraction_meets (code : Code) (hs : Steady Q s) :
    Meets (Steady Q) (endExtraction code) s (Concluded R) := by
  refine Meets.bind (P := fun _ t => t.stage.terminal.isSome = true)
    (Meets.step (hs.advance (setTerminal_advances code _)) rfl) ?_
  intro _ t ht hterminal
  exact Meets.pure ht (concluded_none hterminal)

theorem retryExtraction_secures (hagain : Secures Q P again R) :
    Secures Q P (retryExtraction env again) (Concluded R) := by
  intro s hs hcovered
  refine Meets.bind (attemptExtraction_secures hagain s hs hcovered) ?_
  rintro (code | a) t ht hvalue
  · obtain ⟨hadvances, hterminal⟩ := recordTermination_advances code true t.stage
    rw [if_pos (Or.inl rfl)] at hterminal
    refine Meets.bind (P := fun _ u => u.stage.terminal.isSome = true)
      (Meets.step (ht.advance hadvances) hterminal) ?_
    intro _ u hu hterminal
    exact Meets.pure hu (concluded_none hterminal)
  · exact Meets.pure ht (concluded_some (hvalue a rfl))

/-- The second attempt starts after a limit has been noted, so it owes nothing. -/
theorem failedExtraction_meets (hagain : Secures Q P again R) (code : Code) (hs : Steady Q s) :
    Meets (Steady Q) (failedExtraction env policy again code) s (Concluded R) := by
  obtain ⟨hadvances, hrecorded⟩ := recordTermination_advances code s.stage.fallback s.stage
  refine Meets.read (Meets.bind (P := fun _ t => t.stage =
    (recordTermination code s.stage.fallback s.stage).state)
    (Meets.step (hs.advance hadvances) rfl) ?_)
  intro _ t ht hstage
  refine Meets.ite (fun _ => endExtraction_meets code ht) fun hretry => ?_
  have hlimited : Limited t.stage := by
    rw [if_neg (by simpa using hretry)] at hrecorded
    rwa [hstage]
  refine Meets.bind (P := fun _ u => Limited u.stage)
    (Meets.step ⟨ht.observed, ht.begun, ht.retained⟩ hlimited) ?_
  intro done u hu hlimited
  obtain ⟨hsteady, -, hkept⟩ := hu.beginFallback (Or.inr hlimited) policy (some code) done
  refine Meets.bind (P := fun _ v => Limited v.stage) (Meets.step hsteady (hkept hlimited)) ?_
  intro begun v hv hlimited
  exact Meets.ite (fun _ => retryExtraction_secures hagain v hv (Covered.of_limited hlimited))
    fun _ => endExtraction_meets code hv

theorem runExtraction_secures (hwork : Secures Q P work R) (hagain : Secures Q P again R) :
    Secures Q P (runExtraction env policy work again) (Concluded R) := by
  intro s hs hcovered
  refine Meets.read (Meets.ite (fun hterminal => ?_) fun _ => ?_)
  · exact Meets.pure hs (concluded_none hterminal)
  · refine Meets.bind (attemptExtraction_secures hwork s hs hcovered) ?_
    rintro (code | a) t ht hvalue
    · exact failedExtraction_meets hagain code ht
    · exact Meets.pure ht (concluded_some (hvalue a rfl))

/-- Work that is repeated as it is, with what follows the boundary around it. -/
theorem Secures.boundary {T U : α → Prop} {f : Option α → Extraction β} {S : β → State → Prop}
    (hwork : Secures Q P work fun a t => T a ∧ Covered (U a) t)
    (hnone : ∀ t, Steady Q t → t.stage.terminal.isSome = true → Meets (Steady Q) (f none) t S)
    (hsome : ∀ a, T a → Secures Q (U a) (f (some a)) S) :
    Secures Q P (runExtraction env policy work work >>= f) S := by
  intro s hs hcovered
  refine Meets.bind (runExtraction_secures hwork hwork s hs hcovered) ?_
  rintro (_ | a) t ht ⟨hgiven, hended⟩
  · exact hnone t ht (hended rfl)
  · exact hsome a (hgiven a rfl).1 t ht (hgiven a rfl).2

/-- No failure passes a boundary. -/
theorem runExtraction_settles (env : Environment) (policy : Policy) (work again : Extraction α) :
    Settles (runExtraction env policy work again) := by
  have hended : ∀ code, Settles (endExtraction code : Extraction (Option α)) := fun code =>
    (Settles.step _).bind fun _ => Settles.pure none
  have hretry : Settles (retryExtraction env again) := by
    refine (Settles.caught _).bind ?_
    rintro (code | a)
    · exact (Settles.step _).bind fun _ => Settles.pure none
    · exact Settles.pure (some a)
  refine (Settles.read _).bind fun _ => Settles.ite (Settles.pure none) ?_
  refine (Settles.caught _).bind ?_
  rintro (code | a)
  · refine (Settles.read _).bind fun _ => (Settles.step _).bind fun _ =>
      Settles.ite (hended code) ?_
    exact (Settles.step _).bind fun _ => (Settles.step _).bind fun _ =>
      Settles.ite hretry (hended code)
  · exact Settles.pure (some a)

end Rules

end MilterGuard.ExtractionRuns
