import MilterGuard.ProcessedContents

/-!
The boundaries of attachments in a processed content. Extraction leaves accurate spans in
every variant of the text. The repair that follows keeps them so unless it moves a
boundary or empties the variant.
-/
namespace MilterGuard.AttachmentBoundaries

open ByteStrings NestedSpans Interruptions ExtractionStages MimeContents ExtractionRuns
  MimeExtraction SoundContents ValidTexts MimeTraversal MultipartTraversal ProcessedContents

variable {env : Environment} {policy : Policy} {message : Message} {content : Content} {s : State}

theorem bounded_variant {L : Prop} (h : Sound L content) (v : Variant) :
    Bounded (variant content v) := by
  cases v with
  | text => exact h.text
  | visible => exact h.visible
  | stripped => exact h.stripped

theorem valid_variant {L : Prop} (h : Sound L content) (hL : L) (v : Variant) :
    validUTF8 (variant content v).text = true := by
  cases v with
  | text => exact (h.legible hL).1
  | visible => exact (h.legible hL).2.1
  | stripped => exact (h.legible hL).2.2

/-- The content as it is extracted has accurate boundaries. -/
theorem extractedContent_meets (env : Environment) (policy : Policy) (retainImages : Bool)
    (message : Message) :
    Meets (Steady (Sound (LegibleEnvironment env ∧ LegibleEntity maxLevels message.entity)))
      (extractedContent env policy retainImages message) (startOf message)
      (fun c _ => Sound (LegibleEnvironment env ∧ LegibleEntity maxLevels message.entity) c) :=
  (extractMIME_secures (P := True) And.left maxLevels _ And.right _ (steady_newState _)
    (covered_newState _)).imp fun _ _ _ h => h.1.1

/-- The run of the whole processing, step by step. -/
theorem processed_run {retainImages : Bool} {u : State} {normalized : Option Unit}
    (hcontent : extractedContent env policy retainImages message s = (.ok content, u))
    (hnormalized : (normalization env policy (handOver message content u)).1 = .ok normalized) :
    processedContentWithHTMLControl env policy retainImages message s =
      finishProcessing normalized (normalization env policy (handOver message content u)).2 := by
  unfold processedContentWithHTMLControl
  rw [bind_run, hcontent]
  change (normalization env policy >>= finishProcessing) (handOver message content u) = _
  rw [bind_run]
  generalize normalization env policy (handOver message content u) = run at hnormalized
  obtain ⟨value, t⟩ := run
  subst hnormalized
  rfl

/-- What becomes of a variant from the state in which its content is handed over. -/
theorem bounded_of_held {m : Marked} {v : Variant} (hbounded : Bounded (variant s.retained v))
    (hrepaired : Repaired s.retained (normalization env policy s).2.retained)
    (hm : m = emptied (variant (normalization env policy s).2.retained v))
    (hheld : Held env policy s v) : Bounded m := by
  obtain ⟨hspans, htext⟩ := hrepaired v
  rcases hheld with hnone | ⟨hkept, hunmoved⟩
  · have hempty : m.spans = [] := by
      rw [hm, emptied]
      split
      · rw [hspans, hnone]
      · exact hspans.trans hnone
    rw [Bounded, hempty]
    exact accurate_nil _
  · rw [emptied, if_pos (by simpa [Emptied] using hkept)] at hm
    rw [hm, Bounded, hspans]
    rcases htext with hsame | hchanged
    · rw [hsame]
      exact hbounded
    · rw [hchanged]
      exact ⟨fun span hspan => marks_toValidUTF8 (hbounded.marks span hspan) (hunmoved span hspan),
        hbounded.laminar⟩

/-- An emptied variant has no room for the sections that it is said to have. -/
theorem not_bounded_of_emptied {m : Marked} {v : Variant}
    (hrepaired : Repaired s.retained (normalization env policy s).2.retained)
    (hm : m = emptied (variant (normalization env policy s).2.retained v))
    (hemptied : Emptied env policy s v) (hspans : (variant s.retained v).spans ≠ []) :
    ¬ Bounded m := by
  rw [emptied, if_neg (by rw [hemptied]; exact Bool.false_ne_true), (hrepaired v).1] at hm
  intro hbounded
  obtain ⟨span, hspan⟩ := List.exists_mem_of_ne_nil _ hspans
  rw [hm] at hbounded
  have hmarks := hbounded.marks span hspan
  have hcloses := hmarks.closes
  have hwithin : span.stop ≤ 0 := hmarks.within
  omega

/-- A variant that is valid as it was extracted is held. -/
theorem held_of_valid {v : Variant} (hbounded : Bounded (variant s.retained v))
    (hvalid : validUTF8 (variant s.retained v).text = true)
    (hrepaired : Repaired s.retained (normalization env policy s).2.retained) :
    Held env policy s v := by
  refine Or.inr ⟨?_, fun span hspan => unmoved_of_valid (hbounded.marks span hspan) hvalid⟩
  have hsame : (variant (normalization env policy s).2.retained v).text =
      (variant s.retained v).text := by
    rcases (hrepaired v).2 with h | h
    · exact h
    · rw [h, toValidUTF8_of_valid hvalid]
  rw [Emptied, hsame, hvalid]
  exact Bool.true_eq_false_eq_False

/-- An environment in which nothing is stopped and no text is changed. -/
def undisturbed : Environment where
  stop := fun _ => none
  bindFails := fun _ => false
  contextDone := fun _ => false
  storage := fun _ _ _ => true
  analysis := fun _ _ => ⟨none, false, 0⟩
  lexical := fun _ _ => ⟨[], [], [], true⟩
  lexicalPrefix := fun _ => []
  rewritePlainTextURLs := fun text => (text, [])
  decodeHeaderValue := id

/-- A part whose name is the single byte 0xFF, and a text that is attached after it. -/
def strayName : Message where
  entity := .mk
    ⟨false, ascii "multipart/mixed", false, [], ascii "b", ⟨false, [], []⟩, false, false⟩
    [] [(.mk ⟨false, ascii "application/octet-stream", false, [0xFF], [], ⟨false, [], []⟩, false,
        false⟩ [] [] true none, false),
      (.mk ⟨false, ascii "text/plain", false, [], [], ⟨true, ascii "attachment", []⟩, false, false⟩
        (ascii "x") [] true none, false)] true none
  mimeHeadersTruncated := false
  bodyTruncated := false
  maxBytes := 1000

end MilterGuard.AttachmentBoundaries
