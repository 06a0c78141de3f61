import MilterGuard.MultipartTraversal

/-!
The content of a message as it is analysed. After extraction each variant of the text
that is not valid UTF-8 is repaired, or emptied where the repair cannot finish. The spans
stay as they are, so they fit the result only where the repair moves no boundary.
-/
namespace MilterGuard.ProcessedContents

open ByteStrings NestedSpans Interruptions ExtractionStages MimeContents ExtractionRuns
  MimeExtraction SoundContents ValidTexts

structure Message where
  entity : Entity
  mimeHeadersTruncated : Bool
  bodyTruncated : Bool
  maxBytes : ℤ

inductive Variant
  | text
  | visible
  | stripped
  deriving DecidableEq

variable (c : Content)

def variant : Variant → Marked
  | .text => c.text
  | .visible => c.visible
  | .stripped => c.stripped

def setText (v : Variant) (text : Bytes) : Content :=
  match v with
  | .text => { c with text := ⟨text, c.text.spans⟩ }
  | .visible => { c with visible := ⟨text, c.visible.spans⟩ }
  | .stripped => { c with stripped := ⟨text, c.stripped.spans⟩ }

def discardVariant (v : Variant) : Content :=
  if validUTF8 (variant c v).text then c else setText c v []

def discardInvalidUTF8 : Content :=
  discardVariant (discardVariant (discardVariant c .text) .visible) .stripped

section

variable (env : Environment) (policy : Policy)

/-- The content under repair is the one that is retained. -/
def repairVariant (v : Variant) : Extraction Unit := do
  let text ← read fun s => (variant s.retained v).text
  if validUTF8 text then pure ()
  else do
    guarded env
    modify fun s => { s with retained := setText s.retained v (toValidUTF8 text) }

def normalizeExtractedUTF8 : Extraction Unit := do
  repairVariant env .text
  repairVariant env .visible
  repairVariant env .stripped

def normalization : Extraction (Option Unit) :=
  runExtraction env policy (normalizeExtractedUTF8 env) (normalizeExtractedUTF8 env)

def extractedContent (retainImages : Bool) (message : Message) : Extraction Content :=
  extractMIME env ⟨policy, !retainImages, false⟩ maxLevels ⟨message.entity.head.disposition, []⟩
    message.entity

/-- The content is handed over to the repair with what the message itself has lost. -/
def handOver (message : Message) (content : Content) (s : State) : State :=
  { s with retained :=
    { content with
      mimeIncomplete := content.mimeIncomplete || message.mimeHeadersTruncated
      extractionIncomplete := content.extractionIncomplete || message.bodyTruncated
      htmlCPULimitExceeded := content.htmlCPULimitExceeded || s.stage.cpuLimitExceeded } }

def noteLimits (content : Content) (b : Budget) : Content :=
  { content with
    htmlCPULimitExceeded := content.htmlCPULimitExceeded || b.cpuLimitExceeded
    htmlPrimaryMemoryLimitExceeded := b.memoryLimitExceeded
    htmlFallbackMemoryLimitExceeded := b.fallbackMemoryExceeded
    htmlMemoryLimitExceeded := b.memoryLimitExceeded || b.fallbackMemoryExceeded }

def afterNormalization (normalized : Option Unit) (kept : Content) : Content :=
  if normalized.isSome then kept else discardInvalidUTF8 { kept with extractionIncomplete := true }

def finishProcessing (normalized : Option Unit) : Extraction Content := do
  let kept ← read fun s => s.retained
  staged observeFallback
  let b ← read fun s => s.stage
  pure (noteLimits (afterNormalization normalized kept) b)

def processedContentWithHTMLControl (retainImages : Bool) (message : Message) :
    Extraction Content := do
  let content ← extractedContent env policy retainImages message
  modify (handOver message content)
  let normalized ← normalization env policy
  finishProcessing normalized

end

/-- A negative limit on the decoded text counts as zero. -/
def startOf (message : Message) : State := newState message.maxBytes.toNat

/-- The repair does not change the length of the text before either line of the section. -/
def Unmoved (text : Bytes) (span : AttachmentSpan) : Prop :=
  (toValidUTF8 (text.take span.start)).length = span.start ∧
    (toValidUTF8 (text.take span.closeStart)).length = span.closeStart

/-- The repair ends before the variant is valid, so the variant is emptied. -/
def Emptied (env : Environment) (policy : Policy) (s : State) (v : Variant) : Prop :=
  validUTF8 (variant (normalization env policy s).2.retained v).text = false

/-- The variant has no attachment, or it is not emptied and no boundary is moved. -/
def Held (env : Environment) (policy : Policy) (s : State) (v : Variant) : Prop :=
  (variant s.retained v).spans = [] ∨
    ¬ Emptied env policy s v ∧
      ∀ span ∈ (variant s.retained v).spans, Unmoved (variant s.retained v).text span

section Boundaries

variable {text : Bytes} {span : AttachmentSpan}

section

variable (h : Marks openingLine closingLine text span)

include h

theorem drop_closeStart : ∃ rest, text.drop span.closeStart = closingLine span.tag ++ rest := by
  refine ⟨(text.drop span.closeStart).drop (span.stop - span.closeStart), ?_⟩
  rw [← h.closed, slice, List.take_append_drop]

theorem stop_eq : span.stop = span.closeStart + (closingLine span.tag).length := by
  have hcloses := h.closes
  have hwithin := h.within
  rw [← h.closed, slice, List.length_take, List.length_drop]
  omega

/-- Where no boundary is moved, the section is still marked after the repair. -/
theorem marks_toValidUTF8 (hunmoved : Unmoved text span) :
    Marks openingLine closingLine (toValidUTF8 text) span := by
  obtain ⟨hstart, hclose⟩ := hunmoved
  obtain ⟨afterOpening, hopening⟩ := h.opened
  obtain ⟨afterClosing, hclosing⟩ := drop_closeStart h
  have hopened : toValidUTF8 text = toValidUTF8 (text.take span.start) ++
      (openingLine span.tag ++ toValidUTF8 afterOpening) :=
    toValidUTF8_around (by decide) (validUTF8_openingLine span.tag) hopening.symm
  have hclosed : toValidUTF8 text = toValidUTF8 (text.take span.closeStart) ++
      (closingLine span.tag ++ toValidUTF8 afterClosing) :=
    toValidUTF8_around (by decide) (validUTF8_closingLine span.tag) hclosing
  have hstop := stop_eq h
  refine ⟨h.opens, h.ordered, h.closes, ?_, ?_, ?_⟩
  · rw [hclosed, List.length_append, List.length_append]
    omega
  · rw [hopened, List.drop_left' hstart]
    exact List.prefix_append _ _
  · rw [slice, hclosed, List.drop_left' hclose, hstop, Nat.add_sub_cancel_left, List.take_left]

theorem unmoved_of_valid (hvalid : validUTF8 text = true) : Unmoved text span := by
  have hopens := h.opens
  have hordered := h.ordered
  have hcloses := h.closes
  have hwithin := h.within
  obtain ⟨afterOpening, hopening⟩ := h.opened
  obtain ⟨afterClosing, hclosing⟩ := drop_closeStart h
  have hkept : ∀ n, n ≤ text.length → validUTF8 (text.take n) = true →
      (toValidUTF8 (text.take n)).length = n := by
    intro n hn hprefix
    rw [toValidUTF8_of_valid hprefix, List.length_take, Nat.min_eq_left hn]
  constructor
  · exact hkept _ (by omega) (validUTF8_take (by decide) hopening.symm hvalid)
  · exact hkept _ (by omega) (validUTF8_take (by decide) hclosing hvalid)

end

end Boundaries

section Repairs

variable {original c : Content} {env : Environment} {policy : Policy} {s : State}

/-- Each variant keeps its spans, and its text is the original one or the repaired one. -/
def Repaired (original c : Content) : Prop :=
  ∀ v, (variant c v).spans = (variant original v).spans ∧
    ((variant c v).text = (variant original v).text ∨
      (variant c v).text = toValidUTF8 (variant original v).text)

theorem variant_setText (c : Content) (v w : Variant) (text : Bytes) :
    variant (setText c v text) w = if w = v then ⟨text, (variant c w).spans⟩ else variant c w := by
  cases v <;> cases w <;> rfl

/-- Only a text that is still the original one is repaired. -/
theorem Repaired.repair (h : Repaired original c) {v : Variant}
    (hinvalid : validUTF8 (variant c v).text ≠ true) :
    Repaired original (setText c v (toValidUTF8 (variant c v).text)) := by
  intro w
  rw [variant_setText]
  by_cases hw : w = v
  · subst hw
    rw [if_pos rfl]
    refine ⟨(h w).1, Or.inr ?_⟩
    rcases (h w).2 with hsame | hrepaired
    · rw [hsame]
    · rw [hrepaired] at hinvalid
      exact absurd (validUTF8_toValidUTF8 _) hinvalid
  · rw [if_neg hw]
    exact h w

/-- The variants that are valid stay so, and `v` is among them afterwards. -/
def Validates (v : Variant) (before after : Content) : Prop :=
  validUTF8 (variant after v).text = true ∧
    ∀ w, validUTF8 (variant before w).text = true → validUTF8 (variant after w).text = true

theorem repairVariant_meets (v : Variant) (hs : Steady (Repaired original) s) :
    Meets (Steady (Repaired original)) (repairVariant env v) s
      (fun _ t => Validates v s.retained t.retained) := by
  refine Meets.read (Meets.ite (fun hvalid => Meets.pure hs ⟨hvalid, fun _ h => h⟩)
    fun hinvalid => ?_)
  have hguarded : Meets (Steady (Repaired original)) (guarded env) s
      (fun _ t => t.retained = s.retained) := by
    refine Meets.bind (P := fun _ t => t.retained = s.retained)
      (Meets.step ⟨hs.observed, hs.begun, hs.retained⟩ rfl) ?_
    rintro (_ | code) t ht hsame
    · exact Meets.pure ht hsame
    · exact Meets.modify (Meets.fail (ht.advance (exhaust_advances code _)))
  refine Meets.bind hguarded fun _ t ht hsame => ?_
  refine Meets.update ⟨ht.observed, ht.begun, ?_⟩ ?_
  · rw [hsame]
    exact hs.retained.repair hinvalid
  · have hvalid := validUTF8_toValidUTF8 (variant s.retained v).text
    rw [hsame]
    constructor
    · rw [variant_setText, if_pos rfl]
      exact hvalid
    · intro w hw
      rw [variant_setText]
      split
      · exact hvalid
      · exact hw

theorem normalizeExtractedUTF8_meets (hs : Steady (Repaired original) s) :
    Meets (Steady (Repaired original)) (normalizeExtractedUTF8 env) s
      (fun _ t => ∀ v, validUTF8 (variant t.retained v).text = true) := by
  refine Meets.bind (repairVariant_meets .text hs) fun _ t ht htext => ?_
  refine Meets.bind (repairVariant_meets .visible ht) fun _ u hu hvisible => ?_
  refine (repairVariant_meets .stripped hu).imp fun _ w _ hstripped v => ?_
  cases v with
  | text => exact hstripped.2 _ (hvisible.2 _ htext.1)
  | visible => exact hstripped.2 _ hvisible.1
  | stripped => exact hstripped.1

theorem normalization_meets (env : Environment) (policy : Policy)
    (hs : Steady (Repaired original) s) :
    Meets (Steady (Repaired original)) (normalization env policy) s
      (Concluded fun _ t => ∀ v, validUTF8 (variant t.retained v).text = true) :=
  runExtraction_secures (P := True) (fun _ ht _ => normalizeExtractedUTF8_meets ht)
    (fun _ ht _ => normalizeExtractedUTF8_meets ht) s hs (Covered.of_true trivial s)

/-- The variant as it is once a text that is not valid has been emptied. -/
def emptied (m : Marked) : Marked := if validUTF8 m.text then m else ⟨[], m.spans⟩

theorem variant_discardVariant (c : Content) (v w : Variant) :
    variant (discardVariant c v) w = if w = v then emptied (variant c w) else variant c w := by
  unfold discardVariant emptied
  by_cases hvalid : validUTF8 (variant c v).text = true
  · rw [if_pos hvalid]
    by_cases hw : w = v
    · subst hw
      rw [if_pos rfl, if_pos hvalid]
    · rw [if_neg hw]
  · rw [if_neg hvalid, variant_setText]
    by_cases hw : w = v
    · subst hw
      rw [if_pos rfl, if_pos rfl, if_neg hvalid]
    · rw [if_neg hw, if_neg hw]

theorem variant_discardInvalidUTF8 (c : Content) (v : Variant) :
    variant (discardInvalidUTF8 c) v = emptied (variant c v) := by
  unfold discardInvalidUTF8
  cases v <;> simp [variant_discardVariant]

theorem variant_noteLimits (c : Content) (b : Budget) (v : Variant) :
    variant (noteLimits c b) v = variant c v := by
  cases v <;> rfl

/-- Whether or not the repair finishes, the variants that are valid by then are kept. -/
theorem variant_afterNormalization {normalized : Option Unit}
    (h : Concluded (fun _ t => ∀ v, validUTF8 (variant t.retained v).text = true) normalized s)
    (v : Variant) :
    variant (afterNormalization normalized s.retained) v = emptied (variant s.retained v) := by
  cases normalized with
  | none =>
    have hflag : variant { s.retained with extractionIncomplete := true } v =
        variant s.retained v := by
      cases v <;> rfl
    rw [← hflag, ← variant_discardInvalidUTF8]
    rfl
  | some done =>
    rw [emptied, if_pos (h.1 done rfl v)]
    rfl

end Repairs

end MilterGuard.ProcessedContents
