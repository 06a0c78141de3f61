import MilterGuard.MimeTraversal

/-!
The parts of a multipart body, and all levels of a message. Each part that is visited
adds its flags to what the loop has found, and every way out of the loop hands them on.
-/
namespace MilterGuard.MultipartTraversal

open ByteStrings Interruptions ExtractionStages MimeContents ExtractionRuns MimeExtraction
  SoundContents ValidTexts MimeTraversal

variable {L P : Prop} {env : Environment} {settings : Settings} {s : State}

/-- A loop that was stopped has ended the extraction. -/
def Walks (L P : Prop) : Walked → State → Prop
  | .returned content, _ => Sound L content ∧ content.incomplete = true
  | .ended acc, s =>
    (∀ part ∈ acc.parts, Sound L part) ∧
      (acc.processingStopped = true → s.stage.terminal.isSome = true) ∧
      (acc.processingStopped = false → SoundParts L acc) ∧
      Covered (P ∨ acc.incomplete = true) s

/-- The loop may go on with what it has found. -/
def GoesOn (L P : Prop) (next : Collected → Extraction Walked) : Prop :=
  ∀ acc s, SoundParts L acc → acc.processingStopped = false → Steady (Sound L) s →
    Covered (P ∨ acc.incomplete = true) s → Meets (Steady (Sound L)) (next acc) s (Walks L P)

/-- A part has been visited and is not kept yet. -/
structure Visited (L : Prop) (acc : Collected) (content : Content) : Prop where
  sound : Sound L content
  parts : ∀ part ∈ acc.parts, Sound L part
  html : Sound L acc.alternativeHTML
  plain : Sound L acc.alternativePlain
  plainKept : hasExtractedContent acc.alternativePlain = true → acc.parts ≠ []
  attachmentKept : acc.hasAttachmentParts = true →
    (∃ part ∈ acc.parts, part.attachment = true) ∨ content.attachment = true

variable {levels : ℕ} {content : Content} {acc : Collected}

theorem visited_of_soundParts (h : SoundParts L acc) (hcontent : Sound L content) (found : Bool) :
    Visited L ({ acc with mimeIncomplete := acc.mimeIncomplete || found }.visit content)
      content := by
  refine ⟨hcontent, h.parts, h.html, h.plain, h.plainKept, fun hattachment => ?_⟩
  rcases Bool.or_eq_true_iff.mp hattachment with hbefore | hnow
  · exact Or.inl (h.attachmentKept hbefore)
  · exact Or.inr hnow

theorem Visited.skipped (h : Visited L acc content) (hblank : hasExtractedContent content = false) :
    SoundParts L acc := by
  refine ⟨h.parts, h.html, h.plain, h.plainKept, fun hattachment => ?_⟩
  rcases h.attachmentKept hattachment with hkept | hnow
  · exact hkept
  · rw [h.sound.shown hnow] at hblank
    exact absurd hblank (by decide)

theorem Visited.kept (h : Visited L acc content) :
    SoundParts L { acc with parts := acc.parts ++ [content] } := by
  refine ⟨?_, h.html, h.plain, fun _ => by simp, fun hattachment => ?_⟩
  · exact List.forall_mem_append.mpr ⟨h.parts, List.forall_mem_singleton.mpr h.sound⟩
  · rcases h.attachmentKept hattachment with ⟨part, hpart, hattached⟩ | hnow
    · exact ⟨part, List.mem_append_left _ hpart, hattached⟩
    · exact ⟨content, by simp, hnow⟩

theorem soundParts_remember (h : SoundParts L acc) (hcontent : Sound L content)
    (hparts : acc.parts ≠ []) (partMediaType : Bytes) :
    SoundParts L (acc.remember partMediaType content) ∧
      (acc.remember partMediaType content).incomplete = acc.incomplete ∧
      (acc.remember partMediaType content).processingStopped = acc.processingStopped := by
  unfold Collected.remember
  split
  · exact ⟨⟨h.parts, hcontent, h.plain, h.plainKept, h.attachmentKept⟩, rfl, rfl⟩
  · split
    · exact ⟨⟨h.parts, h.html, hcontent, fun _ => hparts, h.attachmentKept⟩, rfl, rfl⟩
    · exact ⟨h, rfl, rfl⟩

theorem legibleEntity_inDigest {entity : Entity} (h : LegibleEntity levels entity) :
    LegibleEntity levels entity.inDigest := by
  cases levels with
  | zero => trivial
  | succ levels =>
    obtain ⟨head, value, parts, framed, attached⟩ := entity
    obtain ⟨htype, hname, hparts, hattached⟩ := h
    refine ⟨?_, ?_, hparts, hattached⟩
    · unfold Entity.inDigest Entity.head
      dsimp only
      split
      · change validUTF8 (ascii "message/rfc822") = true
        decide
      · exact htype
    · unfold Entity.inDigest Entity.head
      dsimp only
      split
      · rfl
      · exact hname

/-- The flags of a visited part cover what was missing in it. -/
theorem covered_visit {found : Bool}
    (h : Covered (((P ∨ acc.incomplete = true) ∨ found = true) ∨ content.incomplete = true) s) :
    Covered (P ∨ ({ acc with mimeIncomplete := acc.mimeIncomplete || found }.visit
      content).incomplete = true) s := by
  refine h.imp ?_
  simp only [Collected.incomplete, Collected.visit, Content.incomplete, Bool.or_eq_true]
  tauto

/-- A stopped loop keeps the parts that it has. -/
theorem walks_stop (hparts : ∀ part ∈ acc.parts, Sound L part)
    (hterminal : s.stage.terminal.isSome = true) : Walks L P (.ended acc.stop) s := by
  refine ⟨hparts, fun _ => hterminal, fun h => absurd h (by simp [Collected.stop]), ?_⟩
  exact Covered.of_true (Or.inr (by simp [Collected.stop, Collected.incomplete])) s

section Parts

variable {mediaType partMediaType : Bytes} {next : Collected → Extraction Walked}

theorem rememberAlternative_secures (hacc : SoundParts L acc) (hcontent : Sound L content)
    (hparts : acc.parts ≠ []) (hrunning : acc.processingStopped = false) :
    Secures (Sound L) (P ∨ acc.incomplete = true)
      (rememberAlternative env mediaType partMediaType content acc)
      (fun acc u => (SoundParts L acc ∧ acc.processingStopped = false) ∧
        Covered (P ∨ acc.incomplete = true) u) := by
  refine Secures.ite (fun _ => ?_) fun _ => Secures.pure fun _ => And.intro ⟨hacc, hrunning⟩
  obtain ⟨hsound, hincomplete, hstopped⟩ := soundParts_remember hacc hcontent hparts partMediaType
  refine Secures.guarded (Secures.pure fun _ hcovered => ⟨⟨hsound, hstopped.trans hrunning⟩, ?_⟩)
  rw [hincomplete]
  exact hcovered

theorem keepPart_secures (hnext : GoesOn L P next) (hvisited : Visited L acc content)
    (hrunning : acc.processingStopped = false) :
    Secures (Sound L) (P ∨ acc.incomplete = true)
      (keepPart env settings mediaType partMediaType content acc next) (Walks L P) := by
  refine Secures.read fun terminal => Secures.ite (fun _ => Secures.pure fun _ _ => ?_) fun _ =>
    Secures.ite (fun hskip s hs hcovered => ?_) fun _ => ?_
  · refine ⟨sound_returnedPart hvisited.sound hvisited.parts, ?_⟩
    simp [returnedPart, Content.cutShort, Content.incomplete]
  · have hblank : hasExtractedContent content = false := by
      simpa using (Bool.and_eq_true_iff.mp hskip).1
    exact hnext acc s (hvisited.skipped hblank) hrunning hs hcovered
  · refine Secures.boundary (T := fun grown => grown = acc.parts ++ [content])
      (U := fun _ => P ∨ acc.incomplete = true)
      (Secures.guarded (Secures.pure fun _ => And.intro rfl))
      (fun t ht hterminal => Meets.pure ht (walks_stop ?_ hterminal)) ?_
    · split <;> exact hvisited.parts
    · rintro _ rfl
      refine Secures.ite (fun _ => ?_) fun _ t ht hcovered => ?_
      · refine Secures.bind (rememberAlternative_secures hvisited.kept hvisited.sound (by simp)
          hrunning) fun acc h t ht hcovered => ?_
        exact hnext acc t h.1 h.2 ht hcovered
      · exact hnext _ t hvisited.kept hrunning ht hcovered

theorem visitPart_secures {nested : Nested} (hnested : Descends L levels nested)
    {part : Entity × Bool} (hpart : L → LegibleEntity levels part.1) (hnext : GoesOn L P next)
    (hacc : SoundParts L acc) (hrunning : acc.processingStopped = false) :
    Secures (Sound L) (P ∨ acc.incomplete = true)
      (visitPart env settings nested mediaType part acc next) (Walks L P) := by
  have hentity : L → LegibleEntity levels
      (if mediaType = ascii "multipart/digest" then part.1.inDigest else part.1) := by
    intro hL
    split
    · exact legibleEntity_inDigest (hpart hL)
    · exact hpart hL
  refine Secures.progress (Secures.report .mime part.2 ?_)
  refine Secures.bind (hnested _ _ _ hentity) fun content hsound u hu hcovered => ?_
  have hretained : Steady (Sound L)
      (if hasExtractedContent content then { u with retained := content } else u) := by
    split
    · exact ⟨hu.observed, hu.begun, hsound⟩
    · exact hu
  refine Meets.modify (keepPart_secures hnext (visited_of_soundParts hacc hsound part.2) hrunning _
    hretained ?_)
  have hvisited := covered_visit hcovered
  split
  · exact hvisited
  · exact hvisited

/-- Before a part is looked at, the number of parts is checked and the part is read. -/
theorem beforePart_secures {body : Extraction Walked} (hacc : SoundParts L acc)
    (hrunning : acc.processingStopped = false)
    (hbody : Secures (Sound L) (P ∨ acc.incomplete = true) body (Walks L P)) :
    Secures (Sound L) (P ∨ acc.incomplete = true) (do
      let parts ← read fun s => s.progress.parts
      if parts ≥ maxMIMEParts then do
        report .partLimit true
        pure (.ended { acc with mimeIncomplete := true })
      else
        match ← runExtraction env settings.policy (guarded env) (guarded env) with
        | none => pure (.ended acc.stop)
        | some () => body) (Walks L P) := by
  refine Secures.read fun parts => Secures.ite (fun _ => ?_) fun _ => ?_
  · refine Secures.report .partLimit true (Secures.pure fun t _ => ?_)
    refine ⟨hacc.parts, fun h => ?_, ?_, ?_⟩
    · exact absurd (hrunning.symm.trans h) (by decide)
    · exact fun _ => ⟨hacc.parts, hacc.html, hacc.plain, hacc.plainKept, hacc.attachmentKept⟩
    · exact Covered.of_true (Or.inr (by simp [Collected.incomplete])) t
  · refine Secures.boundary (T := fun _ => True) (U := fun _ => P ∨ acc.incomplete = true)
      (fun t ht hcovered => (guarded_secures t ht hcovered).imp fun _ _ _ => And.intro trivial)
      (fun t ht hterminal => ?_) fun _ _ => hbody
    exact Meets.pure ht (walks_stop hacc.parts hterminal)

end Parts

/-- The loop over the parts, by induction on what is left to read. -/
theorem readParts_goesOn {nested : Nested} (hnested : Descends L levels nested) (mediaType : Bytes)
    (framed : Bool) (rest : List (Entity × Bool))
    (hrest : L → ∀ part ∈ rest, LegibleEntity levels part.1) :
    GoesOn L P (readParts env settings nested mediaType framed rest) := by
  induction rest with
  | nil =>
    intro acc s hacc hrunning hs hcovered
    rw [readParts]
    refine beforePart_secures hacc hrunning (Secures.report .mime (!framed) ?_) s hs hcovered
    refine Secures.pure fun _ hcovered => ⟨hacc.parts, fun h => ?_, fun _ => ?_, hcovered.imp ?_⟩
    · exact absurd (hrunning.symm.trans h) (by decide)
    · exact ⟨hacc.parts, hacc.html, hacc.plain, hacc.plainKept, hacc.attachmentKept⟩
    · simp only [Collected.incomplete, Bool.or_eq_true]
      tauto
  | cons part rest ih =>
    intro acc s hacc hrunning hs hcovered
    rw [readParts]
    refine beforePart_secures hacc hrunning ?_ s hs hcovered
    refine visitPart_secures hnested (fun hL => hrest hL part List.mem_cons_self) ?_ hacc hrunning
    exact ih fun hL p hp => hrest hL p (List.mem_cons_of_mem part hp)

section Finish

variable {transfer : Bool}

/-- The flags of the loop and of the body itself reach the combined content. -/
theorem covered_combine (storage : Bytes → Bytes → Bool) (html cpu : Bool)
    (h : Covered ((P ∨ transfer = true) ∨ acc.incomplete = true) s) :
    Covered (P ∨ (combine storage acc transfer html cpu).incomplete = true) s := by
  refine h.imp ?_
  simp only [Collected.incomplete, Content.incomplete, combine, Bool.or_eq_true]
  tauto

theorem covered_selected (html cpu : Bool)
    (h : Covered ((P ∨ transfer = true) ∨ acc.incomplete = true) s) :
    Covered (P ∨ (selectedContent acc transfer html cpu).incomplete = true) s := by
  refine h.imp ?_
  simp only [Collected.incomplete, Content.incomplete, selectedContent, Bool.or_eq_true]
  tauto

theorem assemble_secures (hrunning : acc.processingStopped = false)
    (hparts : ∀ part ∈ acc.parts, Sound L part)
    (hplain : acc.parts = [] → hasExtractedContent acc.alternativePlain = false) :
    Secures (Sound L) ((P ∨ transfer = true) ∨ acc.incomplete = true)
      (assemble env settings transfer acc) (Extracted L P Content.incomplete) := by
  refine Secures.boundary (T := Sound L) (U := fun c => P ∨ c.incomplete = true)
    (Secures.guarded (Secures.ask fun n => Secures.read fun s => Secures.pure fun _ hcovered => ?_))
    (fun t ht _ => Meets.pure ht (.incomplete ?_ ?_))
    fun combined hsound => Secures.pure fun _ => And.intro hsound
  · exact ⟨sound_combine hrunning hparts hplain _ _ _ _, covered_combine _ _ _ hcovered⟩
  · exact (sound_retainedMIMEPart hparts).flagged ⟨rfl, rfl, rfl, rfl, rfl, id⟩
  · simp [Content.cutShort, Content.incomplete]

theorem chooseAlternative_secures (hrunning : acc.processingStopped = false)
    (hacc : SoundParts L acc) :
    Secures (Sound L) ((P ∨ transfer = true) ∨ acc.incomplete = true)
      (chooseAlternative env settings transfer acc) (Extracted L P Content.incomplete) := by
  refine Secures.read fun s => ?_
  have hselected := hacc.selectedContent transfer (s.progress.htmlParts > 0)
    s.stage.cpuLimitExceeded
  have hdone : Secures (Sound L) ((P ∨ transfer = true) ∨ acc.incomplete = true)
      (pure (selectedContent acc transfer (s.progress.htmlParts > 0) s.stage.cpuLimitExceeded))
      (Extracted L P Content.incomplete) :=
    Secures.pure fun _ hcovered => ⟨hselected, covered_selected _ _ hcovered⟩
  refine Secures.ite (fun _ => hdone) fun hattachment => Secures.guarded (Secures.ask fun n => ?_)
  refine Secures.ite (fun _ => hdone) fun _ => ?_
  refine Secures.weaken (assemble_secures hrunning ?_ ?_) id
  · intro part hpart
    rcases mem_selectParts hpart with rfl | hmem
    · exact hselected
    · exact hacc.parts part hmem
  · -- an attachment is always selected, so there are parts to combine
    intro hempty
    obtain ⟨part, hpart, hattached⟩ := hacc.attachmentKept (by simpa using hattachment)
    have hmem : part ∈ ([] : List Content) := by
      rw [← hempty]
      exact attachment_mem_selectParts hpart hattached
    exact absurd hmem List.not_mem_nil

theorem finishMultipart_meets {walked : Walked} (mediaType : Bytes)
    (hwalked : Walks L (P ∨ transfer = true) walked s) (hs : Steady (Sound L) s) :
    Meets (Steady (Sound L)) (finishMultipart env settings mediaType transfer walked) s
      (Extracted L P Content.incomplete) := by
  cases walked with
  | returned content => exact Meets.pure hs (.incomplete hwalked.1 hwalked.2)
  | ended acc =>
    obtain ⟨hparts, hstopped, hsound, hcovered⟩ := hwalked
    refine Meets.read (Meets.ite (fun _ => ?_) fun hterminal => ?_)
    · exact Meets.pure hs (.incomplete (sound_retained (sound_retainedMIMEPart hparts) _)
        (by simp [Content.cutShort, Content.incomplete]))
    · have hrunning : acc.processingStopped = false := by
        cases h : acc.processingStopped with
        | false => rfl
        | true => exact absurd (hstopped h) hterminal
      have hacc := hsound hrunning
      refine Secures.ite (fun _ => chooseAlternative_secures hrunning hacc)
        (fun _ => assemble_secures hrunning hacc.parts fun hempty => ?_) s hs hcovered
      cases hplain : hasExtractedContent acc.alternativePlain with
      | false => rfl
      | true => exact absurd hempty (hacc.plainKept hplain)

end Finish

variable {nested : Nested} {entity : Entity}

theorem extractMultipart_secures (hnested : Descends L levels nested) (mediaType : Bytes)
    (hlegible : L → LegibleEntity (levels + 1) entity) :
    Secures (Sound L) (P ∨ entity.head.transferIncomplete = true)
      (extractMultipart env settings nested mediaType entity)
      (Extracted L P Content.incomplete) := by
  refine Secures.ite (fun _ => ?_) fun _ => ?_
  · have hvalid : validUTF8 (ascii "[multipart message has no boundary]") = true := by
      decide +kernel
    refine Secures.report .mime true (Secures.pure fun _ _ => .incomplete ?_ ?_)
    · exact sound_bare rfl rfl rfl rfl fun _ => ⟨hvalid, rfl, rfl⟩
    · simp [Content.incomplete]
  · refine Secures.guarded fun t ht hcovered => ?_
    refine Meets.bind (readParts_goesOn hnested mediaType entity.framed entity.parts
      (fun hL => (hlegible hL).2.2.1) {} t soundParts_empty rfl ht (hcovered.imp Or.inl)) ?_
    intro walked u hu hwalked
    exact finishMultipart_meets mediaType hwalked hu

theorem extractDecoded_extracts (henv : L → LegibleEnvironment env)
    (hnested : Descends L levels nested) {mediaType : Bytes} (file : Bool × Bytes)
    (htype : L → validUTF8 mediaType = true) (hlegible : L → LegibleEntity (levels + 1) entity) :
    Extracts L P Content.incomplete
      (extractDecoded env settings nested mediaType file entity) := by
  refine Secures.guarded (Secures.report .transfer entity.head.transferIncomplete ?_)
  refine Secures.ite (fun _ => extractMultipart_secures hnested mediaType hlegible) fun _ =>
    Secures.ite (fun _ => ?_) fun _ => Secures.ite
      (fun _ => extractHTML_secures henv htype file entity) fun _ => Secures.ite
        (fun _ => extractPlain_secures henv htype file entity) fun _ => ?_
  · refine Secures.bind (extractAttachedMessage_extracts hnested file.2 hlegible) ?_
    intro content h
    refine Secures.pure fun _ hcovered => ⟨?_, hcovered.imp ?_⟩
    · exact h.flagged ⟨rfl, rfl, rfl, rfl, rfl, id⟩
    · simp only [Content.incomplete, Bool.or_eq_true]
      tauto
  · refine Secures.pure fun _ hcovered => ⟨?_, hcovered.imp ?_⟩
    · refine sound_bare rfl rfl rfl rfl fun hL => ⟨?_, rfl, rfl⟩
      exact validUTF8_attachmentMarker (htype hL) (hlegible hL).2.1
    · simp only [Content.incomplete, Bool.or_eq_true]
      tauto

theorem extractMIMEOnce_extracts (henv : L → LegibleEnvironment env)
    (hnested : Descends L levels nested) (info : Info)
    (hlegible : L → LegibleEntity (levels + 1) entity) :
    Extracts L P Content.incomplete (extractMIMEOnce env settings nested info entity) := by
  have htype : L → validUTF8 (effectiveMediaType entity.head) = true := by
    intro hL
    unfold effectiveMediaType
    split
    · decide
    · exact (hlegible hL).1
  refine Secures.guarded (Secures.ite (fun _ => ?_) fun _ => ?_)
  · exact extractOpaque_extracts fun hL => ⟨htype hL, (hlegible hL).2.1⟩
  · exact extractDecoded_extracts henv hnested _ htype hlegible

/-- A limit that was noted by the end of the extraction is on the content. -/
def Limits (c : Content) (s : State) : Prop :=
  Limited s.stage → c.htmlCPULimitExceeded = true ∨ c.htmlMemoryLimitExceeded = true

theorem extractMIMEWithBudget_secures {once : Extraction Content}
    (honce : Extracts L P Content.incomplete once) :
    Secures (Sound L) P (extractMIMEWithBudget env settings once)
      (fun c t => Extracted L P Content.incomplete c t ∧ Limits c t) := by
  intro s hs hcovered
  refine Meets.read (Meets.read (Meets.modify ?_))
  refine Meets.bind (runExtraction_secures honce ?_ _ ⟨hs.observed, hs.begun, sound_empty⟩
    hcovered) ?_
  · exact Secures.progress honce
  rintro result t ht ⟨hsome, -⟩
  have hresult : Extracted L P Content.incomplete (result.getD t.retained.cutShort) t := by
    cases result with
    | none =>
      exact .incomplete (ht.retained.flagged ⟨rfl, rfl, rfl, rfl, rfl, id⟩)
        (by simp [Content.cutShort, Content.incomplete])
    | some content => exact hsome content rfl
  refine Meets.read (Meets.modify (Meets.pure ⟨ht.observed, ht.begun, hs.retained⟩ ⟨⟨?_, ?_⟩, ?_⟩))
  · exact hresult.1.flagged ⟨rfl, rfl, rfl, rfl, rfl, id⟩
  · exact hresult.2
  · intro hlimited
    simp only [Bool.or_eq_true]
    rcases hlimited with hcpu | hmemory | hfallback
    · exact Or.inl (Or.inr hcpu)
    · exact Or.inr (Or.inl (Or.inr hmemory))
    · exact Or.inr (Or.inr hfallback)

theorem nestingLimit_extracts : Extracts L P Content.incomplete nestingLimit := by
  refine Secures.report .depthLimit true (Secures.pure fun _ _ => .incomplete ?_ ?_)
  · exact sound_bare rfl rfl rfl rfl fun _ => ⟨by decide +kernel, rfl, rfl⟩
  · simp [Content.incomplete]

/-- All levels of a message, by induction on how many are left. -/
theorem extractMIME_secures (henv : L → LegibleEnvironment env) (levels : ℕ) (info : Info)
    (hlegible : L → LegibleEntity levels entity) :
    Secures (Sound L) P (extractMIME env settings levels info entity)
      (fun c t => Extracted L P Content.incomplete c t ∧ Limits c t) := by
  induction levels generalizing P info entity with
  | zero =>
    exact extractMIMEWithBudget_secures nestingLimit_extracts
  | succ levels ih =>
    have hnested : Descends L levels (extractMIME env settings levels) := by
      intro P info entity hlegible s hs hcovered
      exact (ih info hlegible s hs hcovered).imp fun _ _ _ h => h.1
    exact extractMIMEWithBudget_secures (extractMIMEOnce_extracts henv hnested info hlegible)

/-- Extraction always gives a content. -/
theorem extractMIME_settles (env : Environment) (settings : Settings) (levels : ℕ) (info : Info)
    (entity : Entity) : Settles (extractMIME env settings levels info entity) := by
  have hbudget : ∀ once, Settles (extractMIMEWithBudget env settings once) := fun once =>
    (Settles.read _).bind fun _ => (Settles.read _).bind fun _ => (Settles.modify _).bind fun _ =>
      (runExtraction_settles env settings.policy _ _).bind fun _ => (Settles.read _).bind fun _ =>
        (Settles.modify _).bind fun _ => Settles.pure _
  cases levels with
  | zero => exact hbudget nestingLimit
  | succ levels => exact hbudget _

theorem steady_newState (decodedTextBytes : ℕ) : Steady (Sound L) (newState decodedTextBytes) := by
  refine ⟨⟨fun h => ?_, fun h => ?_, fun h => ?_⟩, fun h => ?_, sound_empty⟩
  all_goals exact absurd h Bool.false_ne_true

theorem covered_newState (decodedTextBytes : ℕ) : Covered P (newState decodedTextBytes) := by
  rintro (h | h)
  · exact absurd rfl h
  · exact absurd h Bool.false_ne_true

end MilterGuard.MultipartTraversal
