import MilterGuard.MimeExtraction
import MilterGuard.SoundContents

/-!
What holds of every extraction, whatever fails on the way. The content is sound, and
what any part has found missing shows in the content or in a limit that was noted.
-/
namespace MilterGuard.MimeTraversal

open ByteStrings Interruptions ExtractionStages MimeContents ExtractionRuns MimeExtraction
  SoundContents ValidTexts

/-- The texts that come from HTML extraction and from rewriting links are valid UTF-8. -/
structure LegibleEnvironment (env : Environment) : Prop where
  rewriting : ∀ text, validUTF8 text = true →
    validUTF8 (env.rewritePlainTextURLs text).1 = true
  rendering : ∀ n source r, (env.analysis n source).rendering = some r →
    validUTF8 r.text = true ∧ validUTF8 r.visible = true ∧ validUTF8 r.stripped = true
  lexical : ∀ n source, validUTF8 (env.lexical n source).text = true

/-- The names of the entity and of all that it holds, and the headers shown for attached
messages, are valid UTF-8. -/
def LegibleEntity : ℕ → Entity → Prop
  | 0, _ => True
  | levels + 1, entity =>
    validUTF8 entity.head.mediaType = true ∧ validUTF8 entity.head.name = true ∧
      (∀ part ∈ entity.parts, LegibleEntity levels part.1) ∧
      ∀ headers message, entity.attached = some (headers, message) →
        validUTF8 headers = true ∧ LegibleEntity levels message

/-- The content is sound, and its flag is set where something is missing. -/
def Extracted (L P : Prop) (flag : Content → Bool) (c : Content) (s : State) : Prop :=
  Sound L c ∧ Covered (P ∨ flag c = true) s

/-- From a state where `P` covers all that is missing, extraction gives such a content. -/
def Extracts (L P : Prop) (flag : Content → Bool) (m : Extraction Content) : Prop :=
  ∀ s, Steady (Sound L) s → Covered P s → Meets (Steady (Sound L)) m s (Extracted L P flag)

variable {L P : Prop} {env : Environment} {settings : Settings} {s : State}

theorem Extracted.incomplete {flag : Content → Bool} {c : Content} (hsound : Sound L c)
    (hflag : flag c = true) : Extracted L P flag c s := ⟨hsound, Covered.of_true (Or.inr hflag) s⟩

theorem wrapAttachment_secures {content : Content} {tag : AttachmentTag}
    {filename mediaType headers : Bytes} (hcontent : Sound L content)
    (hlegible : L → validUTF8 mediaType = true ∧ validUTF8 headers = true) :
    Secures (Sound L) (P ∨ content.incomplete = true)
      (wrapAttachment env settings content tag filename mediaType headers)
      (Extracted L P Content.incomplete) := by
  refine Secures.ite (fun _ => Secures.pure fun _ => And.intro hcontent) fun _ => ?_
  refine Secures.boundary (T := Sound L) (U := fun c => P ∨ c.incomplete = true) ?_
    (fun t ht _ => ?_) fun wrapped hsound => Secures.pure fun _ => And.intro hsound
  · refine Secures.guarded (Secures.ask fun n => Secures.pure fun _ hcovered => ⟨?_, hcovered⟩)
    refine hcontent.wrap _ (openingLine_attachmentPrefix ..) fun hL => ?_
    exact validUTF8_attachmentPrefix (hlegible hL).1 (hlegible hL).2
  · refine Secures.anyway (Secures.report .extraction true (Secures.pure fun _ _ => ?_)) ht
    exact .incomplete (sound_markIncomplete tag content)
      (by simp [Content.markIncomplete, Content.incomplete])

theorem wrapFile_secures {content : Content} {mediaType : Bytes} (file : Bool × Bytes)
    (hcontent : Sound L content) (hlegible : L → validUTF8 mediaType = true) :
    Secures (Sound L) (P ∨ content.incomplete = true)
      (wrapFile env settings content mediaType file) (Extracted L P Content.incomplete) :=
  Secures.ite (fun _ => wrapAttachment_secures hcontent fun hL => ⟨hlegible hL, rfl⟩)
    fun _ => Secures.pure fun _ => And.intro hcontent

theorem fallbackContent_extracts (hlexical : L → LegibleEnvironment env) (source : Bytes) :
    Extracts L P Content.extractionIncomplete (fallbackContent env settings source) := by
  refine Secures.boundary (T := fun found => L → validUTF8 found.text = true) (U := fun _ => P)
    ?_ (fun t ht _ => ?_) fun found hvalid => ?_
  · refine Secures.guarded fun t ht hcovered => ?_
    exact Meets.step ⟨ht.observed, ht.begun, ht.retained⟩
      ⟨fun hL => (hlexical hL).lexical _ _, hcovered⟩
  · refine Secures.anyway (Secures.report .extraction true (Secures.ask fun n =>
      Secures.pure fun _ _ => ?_)) ht
    refine .incomplete (sound_bare rfl rfl rfl rfl fun _ => ⟨?_, rfl, rfl⟩) rfl
    split
    · rfl
    · rename_i hkept
      simp only [Bool.or_eq_true, Bool.not_eq_true', not_or, Bool.not_eq_false] at hkept
      exact hkept.2
  · refine Secures.report .extraction _ (Secures.pure fun _ hcovered => ⟨?_, hcovered⟩)
    exact sound_bare rfl rfl rfl rfl fun hL => ⟨hvalid hL, rfl, rfl⟩

/-- Fallback that is asked for with a reason. -/
theorem beginFallback_meets {policy : Policy} {cause : Option Code} (done : Bool)
    (hreason : s.Noticed ∨ Limited s.stage) (hs : Steady (Sound L) s) (hcovered : Covered P s) :
    Meets (Steady (Sound L)) (staged (beginFallback policy cause done)) s
      (fun _ t => Covered P t) := by
  refine Meets.step (hs.beginFallback hreason policy cause done).1 ?_
  rcases beginFallback_cases policy cause done s.stage with hb | ⟨-, hb⟩ | ⟨-, -, -, hb⟩
  all_goals
    rw [hb]
    exact hcovered

theorem extractFallback_meets (hlexical : L → LegibleEnvironment env) (source : Bytes)
    (hreason : s.Noticed ∨ Limited s.stage) (hs : Steady (Sound L) s) (hcovered : Covered P s) :
    Meets (Steady (Sound L)) (extractFallback env settings source) s
      (Extracted L P Content.extractionIncomplete) := by
  refine Meets.bind (P := fun _ t => (t.Noticed ∨ Limited t.stage) ∧ Covered P t)
    (Meets.step ⟨hs.observed, hs.begun, hs.retained⟩ ⟨hreason, hcovered⟩) ?_
  intro done t ht ⟨hreason, hcovered⟩
  refine Meets.bind (beginFallback_meets done hreason ht hcovered) fun begun u hu hcovered => ?_
  refine Secures.ite (P := P) (fun _ => ?_) (fun _ => ?_) u hu hcovered
  · refine Secures.bind (fallbackContent_extracts hlexical source) fun content hsound => ?_
    refine (staged_secures observeFallback_advances fun b =>
      (observeFallback_spec b).2.terminal).next fun _ => ?_
    refine Secures.read fun b => Secures.pure fun _ hcovered => ⟨?_, hcovered⟩
    exact hsound.flagged ⟨rfl, rfl, rfl, rfl, rfl, id⟩
  · refine Secures.report .extraction true (Secures.read fun b => Secures.pure fun _ _ => ?_)
    exact .incomplete (sound_bare rfl rfl rfl rfl fun _ => ⟨rfl, rfl, rfl⟩) rfl

theorem insteadOfTree_extracts (hlexical : L → LegibleEnvironment env) (source : Bytes)
    (r : Report) :
    Extracts L P Content.extractionIncomplete (insteadOfTree env settings source r) := by
  intro s hs hcovered
  have hreport : Meets (Steady (Sound L)) (report r true) s (fun _ t => t.Noticed) := by
    refine Meets.update ⟨hs.observed, fun _ => Or.inl (Or.inl ?_), hs.retained⟩ (Or.inl ?_)
    · exact List.concat_ne_nil _ _
    · exact List.concat_ne_nil _ _
  refine Meets.bind hreport fun _ t ht hnoticed => ?_
  refine Meets.bind (extractFallback_meets (P := True) hlexical source (Or.inl hnoticed) ht
    (Covered.of_true trivial t)) ?_
  intro content u hu hcontent
  exact Meets.pure hu (.incomplete (hcontent.1.flagged ⟨rfl, rfl, rfl, rfl, rfl, id⟩) rfl)

theorem consumeHTML_secures (analysis : Analysis) :
    Secures (Sound L) P (consumeHTML analysis) fun _ t => Covered P t := by
  have hnoted : Secures (Sound L) P (noteHTMLMemory analysis) fun _ t => Covered P t :=
    Secures.ite (fun _ => staged_secures (fun b => (noteMemoryLimit_advances b).1) fun b =>
      (noteMemoryLimit_spec b).2.1.terminal) fun _ => Secures.pure fun _ => id
  exact hnoted.next fun _ _ ht hcovered =>
    Meets.update ⟨ht.observed, ht.begun, ht.retained⟩ hcovered

section

variable (henv : L → LegibleEnvironment env) {mediaType : Bytes}

include henv

theorem extractTreeHTML_extracts (source : Bytes) :
    Extracts L P Content.extractionIncomplete (extractTreeHTML env settings source) := by
  refine Secures.ask fun n => (consumeHTML_secures _).next fun _ => Secures.guarded ?_
  cases hrendering : (env.analysis n source).rendering with
  | none => exact insteadOfTree_extracts henv source .extraction
  | some r =>
    refine Secures.guarded (Secures.report .extraction r.extractionIncomplete ?_)
    refine Secures.read fun cpu => Secures.pure fun _ hcovered => ⟨?_, hcovered⟩
    refine sound_bare rfl rfl rfl rfl fun hL => ?_
    obtain ⟨htext, hvisible, hstripped⟩ := (henv hL).rendering _ _ r hrendering
    refine ⟨htext, hvisible, ?_⟩
    split
    · exact hstripped
    · rfl

/-- In fallback the source may have been cut short, but then something else is missing
already. -/
theorem htmlToTextWithBudget_extracts (source : Bytes) :
    Extracts L P Content.extractionIncomplete (htmlToTextWithBudget env settings source) := by
  refine Secures.progress (Secures.guarded fun t ht hcovered => ?_)
  refine Meets.read (Meets.ite (fun hfallback => ?_) fun _ => ?_)
  · have hreason := ht.begun hfallback
    have hheld : P ∨ Limited t.stage := hreason.elim hcovered Or.inr
    have hreport : Meets (Steady (Sound L))
        (report .decodingLimit (source.length > t.progress.htmlBytesRemaining)) t
        (fun _ u => (u.Noticed ∨ Limited u.stage) ∧ Covered P u) := by
      refine Meets.update ?_ ?_
      · split
        · exact ⟨ht.observed, fun _ => Or.inl (Or.inl (List.concat_ne_nil _ _)), ht.retained⟩
        · exact ht
      · split
        · exact ⟨Or.inl (Or.inl (List.concat_ne_nil _ _)), fun _ => hheld⟩
        · exact ⟨hreason, hcovered⟩
    refine Meets.bind hreport fun _ u hu hreported => ?_
    exact extractFallback_meets henv source hreported.1 hu hreported.2
  · refine Secures.guarded (Secures.ite (fun _ => Secures.progress ?_) fun _ =>
      Secures.progress ?_) t ht hcovered
    · exact insteadOfTree_extracts henv source .decodingLimit
    · exact extractTreeHTML_extracts henv source

omit henv in
theorem validUTF8_attachmentMarker {name : Bytes} (htype : validUTF8 mediaType = true)
    (hname : validUTF8 name = true) : validUTF8 (attachmentMarker mediaType name) = true := by
  have hsanitized : validUTF8 (sanitize name) = true :=
    validUTF8_replaceAll (b := 0x0A) (ascii " ") (by decide)
      (validUTF8_replaceAll (b := 0x0D) (ascii " ") (by decide) hname (by decide)) (by decide)
  exact validUTF8_append (validUTF8_append (validUTF8_append (validUTF8_append (by decide)
    hsanitized) (by decide)) htype) (by decide)

omit henv in
theorem extractOpaque_extracts {head : Head}
    (hlegible : L → validUTF8 mediaType = true ∧ validUTF8 head.name = true) :
    Extracts L P Content.incomplete (extractOpaque env mediaType head) := by
  refine Secures.guarded (Secures.report .transfer head.opaqueIncomplete ?_)
  refine Secures.read fun cpu => Secures.pure fun _ hcovered => ⟨?_, hcovered.imp ?_⟩
  · refine sound_bare rfl rfl rfl rfl fun hL => ⟨?_, rfl, rfl⟩
    exact validUTF8_attachmentMarker (hlegible hL).1 (hlegible hL).2
  · exact Or.imp_right fun h => by simpa [Content.incomplete] using h

theorem extractHTML_secures (htype : L → validUTF8 mediaType = true) (file : Bool × Bytes)
    (entity : Entity) :
    Secures (Sound L) (P ∨ entity.head.transferIncomplete = true)
      (extractHTML env settings mediaType file entity) (Extracted L P Content.incomplete) := by
  refine Secures.guarded (Secures.read fun remaining => ?_)
  refine Secures.bind (htmlToTextWithBudget_extracts henv _) fun content hsound => ?_
  refine Secures.weaken (wrapFile_secures file (hsound.flagged ⟨rfl, rfl, rfl, rfl, rfl, id⟩)
    htype) ?_
  simp only [Content.incomplete, Bool.or_eq_true]
  tauto

omit henv in
theorem validUTF8_boundedText (value : Bytes) (maxBytes : ℕ) :
    validUTF8 (boundedText value maxBytes).1 = true := by
  have hvalid : validUTF8 (if validUTF8 value then value else toValidUTF8 value) = true := by
    split
    · assumption
    · exact validUTF8_toValidUTF8 value
  unfold boundedText
  generalize (if validUTF8 value then value else toValidUTF8 value) = text at hvalid
  dsimp only
  split
  · exact hvalid
  · exact validUTF8_cutAtRune hvalid maxBytes

theorem extractPlain_secures (htype : L → validUTF8 mediaType = true) (file : Bool × Bytes)
    (entity : Entity) :
    Secures (Sound L) (P ∨ entity.head.transferIncomplete = true)
      (extractPlain env settings mediaType file entity) (Extracted L P Content.incomplete) := by
  refine Secures.guarded (Secures.read fun remaining => Secures.report .decodingLimit _ ?_)
  refine Secures.progress (Secures.guarded (Secures.read fun b => ?_))
  have hvalid := validUTF8_boundedText entity.value remaining
  refine Secures.weaken (wrapFile_secures file (sound_bare rfl rfl rfl rfl fun hL => ?_) htype) ?_
  · exact ⟨(henv hL).rewriting _ hvalid, hvalid, rfl⟩
  · simp only [Content.incomplete, Bool.or_eq_true]
    tauto

end

/-- Extraction one level deeper keeps to the same rules. -/
def Descends (L : Prop) (levels : ℕ) (nested : Nested) : Prop :=
  ∀ P info entity, (L → LegibleEntity levels entity) →
    Extracts L P Content.incomplete (nested info entity)

theorem extractAttachedMessage_extracts {levels : ℕ} {nested : Nested}
    (hnested : Descends L levels nested) (filename : Bytes) {entity : Entity}
    (hlegible : L → LegibleEntity (levels + 1) entity) :
    Extracts L P Content.incomplete
      (extractAttachedMessage env settings nested filename entity) := by
  refine Secures.guarded ?_
  rcases hattached : entity.attached with _ | ⟨headers, message⟩
  · refine Secures.report .mime true (Secures.weaken (wrapAttachment_secures
      (sound_bare rfl rfl rfl rfl fun _ => ?_) fun _ => ⟨rfl, rfl⟩) fun _ => Or.inr rfl)
    exact ⟨by decide +kernel, by decide +kernel, rfl⟩
  · have hmessage : L → validUTF8 headers = true ∧ LegibleEntity levels message := fun hL =>
      (hlegible hL).2.2.2 headers message hattached
    refine Secures.bind (hnested P _ message fun hL => (hmessage hL).2) fun content hsound => ?_
    exact wrapAttachment_secures hsound fun hL => ⟨rfl, (hmessage hL).1⟩

end MilterGuard.MimeTraversal
