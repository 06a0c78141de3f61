import MilterGuard.MimeContents
import MilterGuard.ValidTexts

/-!
Contents whose spans fit their texts. Joining parts, wrapping an attachment and choosing
among parts keep a content sound. Where everything that goes into a content is valid
UTF-8, so is the content.
-/
namespace MilterGuard.SoundContents

open ByteStrings NestedSpans MimeContents ValidTexts

def Bounded (m : Marked) : Prop := Accurate openingLine closingLine m.text m.spans

/-- `L` says that all that goes into the content is legible. A content without concealed
parts has no stripped text, or one that its spans fit as well. -/
structure Sound (L : Prop) (c : Content) : Prop where
  text : Bounded c.text
  visible : Bounded c.visible
  stripped : Bounded c.stripped
  unconcealed : c.hasConcealedContent = false → c.stripped.text ≠ [] →
    c.text.spans = [] ∨ c.stripped.text = c.text.text
  shown : c.attachment = true → hasExtractedContent c = true
  legible : L → validUTF8 c.text.text = true ∧ validUTF8 c.visible.text = true ∧
    validUTF8 c.stripped.text = true

/-- The contents differ in flags only, and nothing concealed is forgotten. -/
structure Flagged (c c' : Content) : Prop where
  text : c'.text = c.text
  visible : c'.visible = c.visible
  stripped : c'.stripped = c.stripped
  attachment : c'.attachment = c.attachment
  extracted : hasExtractedContent c' = hasExtractedContent c
  concealed : c.hasConcealedContent = true → c'.hasConcealedContent = true

variable {L : Prop}

theorem bounded_bare (text : Bytes) : Bounded ⟨text, []⟩ := accurate_nil text

theorem Sound.flagged {c c' : Content} (h : Sound L c) (hc : Flagged c c') : Sound L c' := by
  obtain ⟨htext, hvisible, hstripped, hattachment, hextracted, hconcealed⟩ := hc
  refine ⟨?_, ?_, ?_, ?_, ?_, ?_⟩
  · rw [htext]
    exact h.text
  · rw [hvisible]
    exact h.visible
  · rw [hstripped]
    exact h.stripped
  · rw [htext, hstripped]
    intro hclear
    refine h.unconcealed ?_
    cases hbefore : c.hasConcealedContent with
    | false => rfl
    | true => rw [hconcealed hbefore] at hclear; exact hclear
  · rw [hattachment, hextracted]
    exact h.shown
  · rw [htext, hvisible, hstripped]
    exact h.legible

/-- A content without attachments. -/
theorem sound_bare {c : Content} (htext : c.text.spans = []) (hvisible : c.visible.spans = [])
    (hstripped : c.stripped.spans = []) (hattachment : c.attachment = false)
    (hlegible : L → validUTF8 c.text.text = true ∧ validUTF8 c.visible.text = true ∧
      validUTF8 c.stripped.text = true) : Sound L c := by
  refine ⟨?_, ?_, ?_, fun _ _ => Or.inl htext, ?_, hlegible⟩
  · rw [Bounded, htext]
    exact accurate_nil _
  · rw [Bounded, hvisible]
    exact accurate_nil _
  · rw [Bounded, hstripped]
    exact accurate_nil _
  · rw [hattachment]
    exact fun h => absurd h (by decide)

theorem sound_empty : Sound L {} := sound_bare rfl rfl rfl rfl fun _ => ⟨rfl, rfl, rfl⟩

variable {header : Bytes} (tag : AttachmentTag)

/-- A text with an opening line is not blank. -/
theorem trimSpace_opened {tag : AttachmentTag} (h : openingLine tag <+: header) (rest : Bytes) :
    trimSpace (header ++ rest) ≠ [] := by
  obtain ⟨more, rfl⟩ := h
  have hbarrier : barrier 0x3C := by
    unfold barrier
    decide
  have hsplit : openingLine tag ++ more ++ rest =
      [] ++ (0x3C :: (tag.name ++ ascii ">\n" ++ more ++ rest)) := by
    simp [openingLine, ascii]
  rw [hsplit, trimSpace_around_barrier 0x3C hbarrier]
  simp

theorem openingLine_ne_nil : openingLine tag ≠ [] := by
  simp [openingLine, ascii]

theorem closingLine_ne_nil : closingLine tag ≠ [] := by
  simp [closingLine, ascii]

theorem bounded_wrap {m : Marked} (h : Bounded m) {tag : AttachmentTag}
    (hheader : openingLine tag <+: header) : Bounded (m.wrap header tag) :=
  h.wrap hheader (openingLine_ne_nil tag) (closingLine_ne_nil tag)

theorem validUTF8_openingLine : validUTF8 (openingLine tag) = true := by
  cases tag <;> decide +kernel

theorem validUTF8_closingLine : validUTF8 (closingLine tag) = true := by
  cases tag <;> decide +kernel

theorem validUTF8_wrap {m : Marked} (hheader : validUTF8 header = true) (tag : AttachmentTag)
    (hm : validUTF8 m.text = true) :
    validUTF8 (m.wrap header tag).text = true :=
  validUTF8_append (validUTF8_append hheader hm) (validUTF8_closingLine tag)

theorem Sound.wrap {c : Content} (h : Sound L c) (storage : Bytes → Bytes → Bool)
    {header : Bytes} {tag : AttachmentTag} (hheader : openingLine tag <+: header)
    (hlegible : L → validUTF8 header = true) : Sound L (c.wrap storage header tag) := by
  have htext := bounded_wrap h.text hheader
  refine ⟨htext, ?_, ?_, ?_, ?_, ?_⟩
  · unfold Content.wrap
    split
    · exact htext
    · exact bounded_wrap h.visible hheader
  · unfold Content.wrap
    dsimp only
    split
    · exact bounded_wrap h.stripped hheader
    · exact htext
  · intro hclear _
    change c.hasConcealedContent = false at hclear
    simp [Content.wrap, hclear]
  · have hshown : trimSpace (c.wrap storage header tag).text.text ≠ [] := by
      change trimSpace (header ++ c.text.text ++ closingLine tag) ≠ []
      rw [List.append_assoc]
      exact trimSpace_opened hheader _
    simp [hasExtractedContent, hshown]
  · intro hL
    have hvalid := hlegible hL
    obtain ⟨htext, hvisible, hstripped⟩ := h.legible hL
    have hwrapped := validUTF8_wrap hvalid tag htext
    refine ⟨hwrapped, ?_, ?_⟩
    · unfold Content.wrap
      split
      · exact hwrapped
      · exact validUTF8_wrap hvalid tag hvisible
    · unfold Content.wrap
      dsimp only
      split
      · exact validUTF8_wrap hvalid tag hstripped
      · exact hwrapped

theorem openingLine_attachmentPrefix (decode : Bytes → Bytes)
    (tag : AttachmentTag) (filename mediaType headers : Bytes) :
    openingLine tag <+: attachmentPrefix decode tag filename mediaType headers := by
  unfold attachmentPrefix
  simp only [List.append_assoc]
  exact List.prefix_append _ _

/-- Whatever the file name is, what is shown of it is valid. -/
theorem validUTF8_attachmentMetadataValue (decode : Bytes → Bytes) (value : Bytes) :
    validUTF8 (attachmentMetadataValue decode value) = true := by
  have hspaced : ∀ v, validUTF8
      (mapRunes (fun r => some (if isControl r then 0x20 else r)) v) = true := by
    intro v
    refine validUTF8_mapRunes (fun r t hr ht => ?_) v
    cases ht
    split
    · unfold Utf8.scalar
      omega
    · exact hr
  have hescaped := validUTF8_replaceAll (b := 0x3E) (ascii "&gt;") (by decide)
    (validUTF8_replaceAll (b := 0x3C) (ascii "&lt;") (by decide)
      (hspaced (decode (value.take maxAttachmentFieldBytes))) (by decide)) (by decide)
  unfold attachmentMetadataValue
  dsimp only
  split
  · exact validUTF8_append (validUTF8_cutAtRune hescaped _) (by decide)
  · split
    · exact validUTF8_append hescaped (by decide)
    · exact hescaped

theorem validUTF8_attachmentPrefix {decode : Bytes → Bytes} {tag : AttachmentTag}
    {filename mediaType headers : Bytes} (htype : validUTF8 mediaType = true)
    (hheaders : validUTF8 headers = true) :
    validUTF8 (attachmentPrefix decode tag filename mediaType headers) = true := by
  have hopening := validUTF8_openingLine tag
  refine validUTF8_append (validUTF8_append (validUTF8_append (validUTF8_append hopening ?_) ?_) ?_)
    (by decide)
  · split
    · exact validUTF8_append
        (validUTF8_append (by decide) (validUTF8_attachmentMetadataValue decode filename))
        (by decide)
    · rfl
  · split
    · exact validUTF8_append (validUTF8_append (by decide) htype) (by decide)
    · rfl
  · split
    · exact validUTF8_append (by decide +kernel) hheaders
    · rfl

theorem bounded_incompleteMarker : Bounded (incompleteMarker tag) := by
  have h : Bounded (Marked.wrap (openingLine tag) tag
      ⟨ascii "[attachment extraction incomplete]", []⟩) :=
    bounded_wrap (bounded_bare _) List.prefix_rfl
  have hclose : (openingLine tag ++ ascii "[attachment extraction incomplete]" ++
      closingLine tag).length - (closingLine tag).length =
      (openingLine tag).length + (ascii "[attachment extraction incomplete]").length := by
    rw [List.length_append, List.length_append]
    omega
  unfold incompleteMarker
  dsimp only
  rw [hclose]
  exact h

theorem validUTF8_incompleteMarker : validUTF8 (incompleteMarker tag).text = true := by
  cases tag <;> decide +kernel

theorem sound_markIncomplete (c : Content) : Sound L (c.markIncomplete tag) := by
  have hbounded := bounded_incompleteMarker tag
  have hvalid := validUTF8_incompleteMarker tag
  refine ⟨hbounded, hbounded, hbounded, fun _ _ => Or.inr rfl, ?_,
    fun _ => ⟨hvalid, hvalid, hvalid⟩⟩
  have hshown : trimSpace (incompleteMarker tag).text ≠ [] := by
    unfold incompleteMarker
    rw [List.append_assoc]
    exact trimSpace_opened List.prefix_rfl _
  simp [hasExtractedContent, Content.markIncomplete, hshown]

theorem join_concat (sep : Bytes) (texts : List Bytes) (text : Bytes) :
    join sep (texts ++ [text]) = if texts = [] then text else join sep texts ++ sep ++ text := by
  induction texts with
  | nil => rfl
  | cons first rest ih =>
    cases rest with
    | nil => rfl
    | cons second rest =>
      simp only [List.cons_append, join] at ih ⊢
      rw [ih]
      simp

/-- The spans fit the joined text, and the offset is its length. -/
structure Joins (L : Prop) (j : Joined) : Prop where
  bounded : Bounded ⟨joinExtractedText j.texts, j.spans⟩
  offset : j.offset = (joinExtractedText j.texts).length
  legible : L → ∀ text ∈ j.texts, validUTF8 text = true

theorem joins_nil : Joins L ⟨0, [], []⟩ :=
  ⟨bounded_bare _, rfl, fun _ _ h => absurd h List.not_mem_nil⟩

theorem Joins.valid {j : Joined} (h : Joins L j) (hL : L) :
    validUTF8 (joinExtractedText j.texts) = true :=
  validUTF8_join (by decide) (h.legible hL)

theorem Joins.add {j : Joined} {m : Marked} (h : Joins L j) (hm : Bounded m)
    (hlegible : L → validUTF8 m.text = true) : Joins L (j.add m) := by
  obtain ⟨hbounded, hoffset, htexts⟩ := h
  have hall : L → ∀ text ∈ j.texts ++ [m.text], validUTF8 text = true := by
    intro hL text hmem
    rcases List.mem_append.mp hmem with hmem | hmem
    · exact htexts hL text hmem
    · rw [List.mem_singleton.mp hmem]
      exact hlegible hL
  unfold MimeContents.Joined.add
  by_cases hempty : j.texts = []
  · rw [hempty] at hbounded hoffset hall ⊢
    have hnone : j.spans = [] := by
      rcases hspans : j.spans with _ | ⟨span, rest⟩
      · rfl
      · rw [hspans] at hbounded
        have hmarks := hbounded.marks span List.mem_cons_self
        have hclose := hmarks.closes
        have hwithin : span.stop ≤ 0 := hmarks.within
        omega
    have hzero : j.offset = 0 := hoffset
    refine ⟨?_, ?_, hall⟩
    · have hnil : Accurate openingLine closingLine ([] : Bytes) [] := accurate_nil []
      have happend := hnil.append hm []
      simpa [Bounded, joinExtractedText, join, appendAttachmentSpans, hnone, hzero] using happend
    · simp [joinExtractedText, join, hzero]
  · have hjoin : joinExtractedText (j.texts ++ [m.text]) =
        joinExtractedText j.texts ++ ascii "\n\n" ++ m.text := by
      rw [joinExtractedText, join_concat, if_neg hempty]
      rfl
    rw [if_neg hempty]
    refine ⟨?_, ?_, hall⟩
    · have happend := Accurate.append hbounded hm (ascii "\n\n")
      rw [hjoin, hoffset]
      exact happend
    · rw [hjoin, List.length_append, List.length_append, hoffset]
      rfl

/-- Without concealed parts the spans of the text fit the stripped text as well. -/
theorem Sound.strippedPart {part : Content} (h : Sound L part) :
    Bounded (strippedPart part) ∧ (L → validUTF8 (MimeContents.strippedPart part).text = true) := by
  unfold MimeContents.strippedPart
  cases hconcealed : part.hasConcealedContent with
  | true =>
    rw [if_neg (by simp)]
    exact ⟨h.stripped, fun hL => (h.legible hL).2.2⟩
  | false =>
    by_cases hempty : part.stripped.text = []
    · rw [if_pos (by simp [hempty])]
      exact ⟨h.text, fun hL => (h.legible hL).1⟩
    · rw [if_neg (by simp [hempty])]
      refine ⟨?_, fun hL => (h.legible hL).2.2⟩
      rcases h.unconcealed hconcealed hempty with hspans | hsame
      · rw [hspans]
        exact bounded_bare _
      · rw [hsame]
        exact h.text

/-- The three variants are joined, beginning with an empty content. -/
structure Assembles (L : Prop) (a : Assembly) : Prop where
  text : Joins L a.text
  visible : Joins L a.visible
  stripped : Joins L a.stripped
  matching : a.visibleMatchesText = true → a.visible.texts = a.text.texts
  combined : a.combined.text.text = []
  attachment : a.combined.attachment = false

theorem assembles_start : Assembles L (Assembly.start {}) :=
  ⟨joins_nil, joins_nil, joins_nil, fun _ => rfl, rfl, rfl⟩

theorem Assembles.add {a : Assembly} {part : Content} (h : Assembles L a) (hpart : Sound L part)
    (storage : Bytes → Bytes → Bool) : Assembles L (a.add storage part) := by
  unfold Assembly.add
  by_cases hextracted : hasExtractedContent part = true
  · rw [if_neg (by simp [hextracted])]
    refine ⟨h.text.add hpart.text fun hL => (hpart.legible hL).1,
      h.visible.add hpart.visible fun hL => (hpart.legible hL).2.1, ?_, ?_, h.combined,
      h.attachment⟩
    · split
      · exact h.stripped
      · exact h.stripped.add hpart.strippedPart.1 hpart.strippedPart.2
    · intro hmatching
      obtain ⟨hbefore, hsame⟩ := Bool.and_eq_true_iff.mp hmatching
      have htext : part.text.text = part.visible.text := by
        simpa using (Bool.and_eq_true_iff.mp hsame).1
      simp only [MimeContents.Joined.add]
      rw [h.matching hbefore, htext]
  · rw [if_pos (by simp [hextracted])]
    exact ⟨h.text, h.visible, h.stripped, h.matching, h.combined, h.attachment⟩

theorem Assembles.foldl {a : Assembly} (h : Assembles L a) (storage : Bytes → Bytes → Bool)
    {parts : List Content} (hparts : ∀ part ∈ parts, Sound L part) :
    Assembles L (parts.foldl (Assembly.add storage) a) := by
  induction parts generalizing a with
  | nil => exact h
  | cons part rest ih =>
    exact ih (h.add (hparts part List.mem_cons_self) storage)
      fun p hp => hparts p (List.mem_cons_of_mem part hp)

theorem Assembles.finish {a : Assembly} (h : Assembles L a) : Sound L (a.finish false) := by
  have hjoined : (if a.text.texts = [] then a.combined.text.text
      else joinExtractedText a.text.texts) = joinExtractedText a.text.texts := by
    by_cases hempty : a.text.texts = []
    · rw [h.combined, hempty]
      rfl
    · rw [if_neg hempty]
  unfold Assembly.finish
  rw [hjoined]
  simp only [Bool.and_false, Bool.false_eq_true, if_false]
  refine ⟨h.text.bounded, ?_, ?_, ?_, ?_, ?_⟩
  · split
    · rename_i hmatching
      rw [← h.matching hmatching]
      exact h.visible.bounded
    · exact h.visible.bounded
  · dsimp only
    split
    · exact h.stripped.bounded
    · exact h.text.bounded
  · intro hclear _
    right
    rw [hclear]
    rfl
  · intro hattachment
    rw [h.attachment] at hattachment
    exact absurd hattachment (by decide)
  · intro hL
    refine ⟨h.text.valid hL, ?_, ?_⟩
    · split
      · exact h.text.valid hL
      · exact h.visible.valid hL
    · dsimp only
      split
      · exact h.stripped.valid hL
      · exact h.text.valid hL

/-- Parts that were all collected combine to a sound content. -/
theorem sound_combine {acc : Collected} (hstopped : acc.processingStopped = false)
    (hparts : ∀ part ∈ acc.parts, Sound L part)
    (hplain : acc.parts = [] → hasExtractedContent acc.alternativePlain = false)
    (storage : Bytes → Bytes → Bool) (transfer html cpu : Bool) :
    Sound L (combine storage acc transfer html cpu) := by
  have hfirst : (if acc.parts = [] && hasExtractedContent acc.alternativePlain then
      acc.alternativePlain else {}) = ({} : Content) := by
    by_cases hempty : acc.parts = []
    · rw [if_neg (by simp [hplain hempty])]
    · rw [if_neg (by simp [hempty])]
  unfold combine
  rw [hfirst, hstopped]
  have hassembled := (assembles_start.foldl storage hparts).finish
  exact hassembled.flagged ⟨rfl, rfl, rfl, rfl, rfl, id⟩

section Choices

theorem sound_getLast? {parts : List Content} (hparts : ∀ part ∈ parts, Sound L part) :
    Sound L (parts.getLast?.getD {}) := by
  cases hlast : parts.getLast? with
  | none => exact sound_empty
  | some part => exact hparts part (List.mem_of_getLast? hlast)

theorem sound_retainedMIMEPart {parts : List Content} (hparts : ∀ part ∈ parts, Sound L part) :
    Sound L (retainedMIMEPart parts) := by
  unfold retainedMIMEPart
  cases hlast : (parts.filter hasExtractedContent).getLast? with
  | none =>
    exact sound_getLast? hparts
  | some part =>
    exact hparts part (List.mem_of_mem_filter (List.mem_of_getLast? hlast))

theorem sound_retained {c : Content} (h : Sound L c) (parts : List Content) :
    Sound L (retainMIMEPartFlags c parts).cutShort := by
  refine h.flagged ⟨rfl, rfl, rfl, rfl, rfl, fun hconcealed => ?_⟩
  simp [retainMIMEPartFlags, Content.cutShort, hconcealed]

theorem sound_returnedPart {c : Content} {parts : List Content} (h : Sound L c)
    (hparts : ∀ part ∈ parts, Sound L part) : Sound L (returnedPart c parts) := by
  refine sound_retained ?_ parts
  split
  · exact h
  · exact sound_retainedMIMEPart hparts

/-- What has been collected is sound. An alternative with content and an attachment are
among the parts. -/
structure SoundParts (L : Prop) (acc : Collected) : Prop where
  parts : ∀ part ∈ acc.parts, Sound L part
  html : Sound L acc.alternativeHTML
  plain : Sound L acc.alternativePlain
  plainKept : hasExtractedContent acc.alternativePlain = true → acc.parts ≠ []
  attachmentKept : acc.hasAttachmentParts = true → ∃ part ∈ acc.parts, part.attachment = true

theorem soundParts_empty : SoundParts L {} :=
  ⟨fun _ h => absurd h List.not_mem_nil, sound_empty, sound_empty, fun h => absurd h (by decide),
    fun h => absurd h (by decide)⟩

theorem SoundParts.selectedContent {acc : Collected} (h : SoundParts L acc)
    (transfer html cpu : Bool) : Sound L (selectedContent acc transfer html cpu) := by
  have hselected : Sound L (selectAlternative acc) := by
    unfold selectAlternative
    split
    · exact h.html
    · split
      · exact h.plain
      · exact sound_getLast? fun part hpart => h.parts part (List.mem_of_mem_filter hpart)
  exact hselected.flagged ⟨rfl, rfl, rfl, rfl, rfl, id⟩

variable {storage : Bytes → Bytes → Bool}

theorem mem_selectParts {selected : Content} {added : Bool} {parts : List Content} {part : Content}
    (h : part ∈ (selectParts storage selected added parts).1) : part = selected ∨ part ∈ parts := by
  induction parts generalizing added with
  | nil => simp [selectParts] at h
  | cons first rest ih =>
    rw [selectParts] at h
    split at h
    · rcases List.mem_cons.mp h with rfl | h
      · exact Or.inr List.mem_cons_self
      · exact (ih h).imp_right (List.mem_cons_of_mem first)
    · split at h
      · rcases List.mem_cons.mp h with rfl | h
        · exact Or.inl rfl
        · exact (ih h).imp_right (List.mem_cons_of_mem first)
      · exact (ih h).imp_right (List.mem_cons_of_mem first)

/-- Every attachment is selected. -/
theorem attachment_mem_selectParts {selected : Content} {added : Bool} {parts : List Content}
    {part : Content} (hpart : part ∈ parts) (hattachment : part.attachment = true) :
    part ∈ (selectParts storage selected added parts).1 := by
  induction parts generalizing added with
  | nil => exact absurd hpart List.not_mem_nil
  | cons first rest ih =>
    rw [selectParts]
    rcases List.mem_cons.mp hpart with rfl | hrest
    · rw [if_pos hattachment]
      exact List.mem_cons_self
    · split
      · exact List.mem_cons_of_mem _ (ih hrest)
      · split
        · exact List.mem_cons_of_mem _ (ih hrest)
        · exact ih hrest

end Choices

end MilterGuard.SoundContents
