import MilterGuard.HtmlTrees
import MilterGuard.MailAddresses

/-!
Whether a sender's HTML can forge an annotation. The text a document shows is
described without the machinery of the rendering: the texts of the nodes in order,
link labels in brackets, hidden passages left out where they are stripped. The
rendering without its generated tags holds a reserved tag exactly when this text
does. Each text is sanitized on its own and in a single pass, so the joined text
can hold a tag.
-/
namespace MilterGuard.AnnotationForging

open ByteStrings Hostnames HtmlTexts AnnotationTags AnnotatedOutput HtmlTrees TextRuns

/-- The text of the passages that are shown. -/
def shownText (passages : List (AnnotationMark × Bytes)) : Bytes :=
  (passages.filter (kept annotationWhitespaceOnly)).flatMap Prod.snd

/-- A link as one passage. -/
def linkPassage (label : List (AnnotationMark × Bytes)) (shown : Bytes) :
    AnnotationMark × Bytes :=
  match uniformFrom annotationWhitespaceOnly none label with
  | some mark =>
    (mark, ascii "[" ++ joined label ++ ascii "]" ++ (ascii "(" ++ shown ++ ascii ")"))
  | none =>
    (unmarked, ascii "[" ++ shownText label ++ ascii "]" ++ (ascii "(" ++ shown ++ ascii ")"))

variable (e : Extraction) (attrs : List (Bytes × Bytes))

def linkPassages (label : List (AnnotationMark × Bytes) × Collected) :
    List (AnnotationMark × Bytes) × Collected :=
  match destination e.lib e.base (firstAttr attrs (ascii "href")) with
  | none => (runs label.1, label.2)
  | some target =>
    let (shown, collected) := shownDestination e target label.2
    ([linkPassage (runs label.1) shown], collected)

mutual

/-- The passages of a node in the order of the document. -/
def passages (e : Extraction) (mode : HTMLExtractionMode) (anchorDepth : ℕ)
    (prev next : Option Node) : Node → Collected → List (AnnotationMark × Bytes) × Collected
  | .text data state, collected =>
    let written := writeText e mode anchorDepth prev next data state collected
    (written.out, written.collected)
  | .comment data, collected =>
    let written := writeConditionalComment e data collected
    (written.out, written.collected)
  | .other, collected => ([], collected)
  | .document children, collected => passagesIn e mode anchorDepth none children collected
  | .element name attrs state children, collected =>
    let name := toLower e.lib.table name
    match writeElement e mode name attrs state collected with
    | some written => (written.out, written.collected)
    | none =>
      if name = ascii "a" then
        linkPassages e attrs (passagesIn e mode (anchorDepth + 1) none children collected)
      else
        let (inner, collected) := passagesIn e mode anchorDepth none children collected
        (openingMarks anchorDepth name ++ inner ++ closingMarks anchorDepth name, collected)

def passagesIn (e : Extraction) (mode : HTMLExtractionMode) (anchorDepth : ℕ)
    (prev : Option Node) : List Node → Collected → List (AnnotationMark × Bytes) × Collected
  | [], collected => ([], collected)
  | node :: rest, collected =>
    let (first, collected) := passages e mode anchorDepth prev rest.head? node collected
    let (after, collected) := passagesIn e mode anchorDepth (some node) rest collected
    (first ++ after, collected)

end

/-- The text a document shows. -/
def documentText (mode : HTMLExtractionMode) (root : Node) (collected : Collected) : Bytes :=
  shownText (runs (passages e mode 0 none none root collected).1)

/-- A written text stands for a passage: neither the search for tags nor the test
for padding tells them apart in any context. -/
structure StandsFor (text : Traced) (passage : Bytes) : Prop where
  tags : Interchangeable HasTag (untagged text) passage
  padding : Interchangeable (fun value => annotationWhitespaceOnly value = true) (content text)
    passage
  nil_iff : text = [] ↔ passage = []

private theorem standsFor_typed (value : Bytes) : StandsFor (typed value) value := by
  refine ⟨?_, ?_, by simp [typed]⟩
  · rw [untagged_typed]
    exact Interchangeable.refl _ _
  · rw [content_typed]
    exact Interchangeable.refl _ _

private theorem standsFor_appendable : Appendable StandsFor where
  append hs ht := by
    refine ⟨?_, ?_, ?_⟩
    · rw [untagged_append]
      exact hs.tags.append ht.tags
    · rw [content_append]
      exact hs.padding.append ht.padding
    · rw [List.append_eq_nil_iff, List.append_eq_nil_iff, hs.nil_iff, ht.nil_iff]
  nil := standsFor_typed []
  nil_iff h := h.nil_iff

variable {chunks : Output} {passage : Bytes} {text : Traced} {label : List (AnnotationMark × Bytes)}

private theorem blank_eq (h : StandsFor text passage) :
    blank text = annotationWhitespaceOnly passage :=
  Bool.eq_iff_iff.mpr h.padding.iff

private theorem uniformFrom_eq (h : Paired StandsFor chunks label) (found : Option AnnotationMark) :
    uniformFrom blank found chunks = uniformFrom annotationWhitespaceOnly found label := by
  induction h generalizing found with
  | nil => rfl
  | @cons chunk passage chunks label hfirst _ ih =>
    obtain ⟨mark, text⟩ := chunk
    obtain ⟨mark', value⟩ := passage
    obtain ⟨rfl : mark = mark', htext⟩ := hfirst
    simp only [uniformFrom, blank_eq htext, ih]

/-- Without its tags a rendering stands for the passages that are shown. -/
private theorem interchangeable_rendering (h : Paired StandsFor chunks label) :
    Interchangeable HasTag (untagged (renderAnnotations chunks)) (shownText label) := by
  rw [untagged_renderAnnotations]
  unfold shownText
  induction h with
  | nil => exact Interchangeable.refl _ _
  | @cons chunk passage chunks label hfirst _ ih =>
    obtain ⟨mark, text⟩ := chunk
    obtain ⟨mark', value⟩ := passage
    obtain ⟨rfl : mark = mark', htext⟩ := hfirst
    have hkept : kept blank (mark, text) = kept annotationWhitespaceOnly (mark, value) := by
      simp only [kept, blank_eq htext]
    by_cases hshown : kept annotationWhitespaceOnly (mark, value) = true
    · rw [List.filter_cons_of_pos (hkept.trans hshown), List.filter_cons_of_pos hshown,
        List.flatMap_cons, List.flatMap_cons]
      exact htext.tags.append ih
    · rw [List.filter_cons_of_neg (by rwa [hkept]), List.filter_cons_of_neg hshown]
      exact ih

private theorem padding_bracket (s t : Bytes) (hs : 0x5B ∈ s) (ht : 0x5B ∈ t) :
    Interchangeable (fun value => annotationWhitespaceOnly value = true) s t := by
  have hnone (before value after : Bytes) (h : 0x5B ∈ value) :
      annotationWhitespaceOnly (before ++ value ++ after) = false :=
    annotationWhitespaceOnly_of_mem _ 0x5B (by decide) (by decide) (by simp [h])
  intro before after
  simp only [hnone _ _ _ hs, hnone _ _ _ ht]

/-- A label in brackets, trimmed or not. -/
private theorem standsFor_bracketed (h : Interchangeable HasTag (untagged text) passage) :
    StandsFor (typed (ascii "[") ++ trimTraced text ++ typed (ascii "]"))
      (ascii "[" ++ passage ++ ascii "]") := by
  refine ⟨?_, ?_, by simp [typed, ascii]⟩
  · obtain ⟨left, right, htext, -, hleft, hright⟩ := trimTraced_split text
    have huntagged : untagged text =
        untagged left ++ untagged (trimTraced text) ++ untagged right := by
      conv_lhs => rw [htext]
      rw [untagged_append, untagged_append]
    have htrimmed := interchangeable_trimmed (untagged left) (untagged (trimTraced text))
      (untagged right) (fun c hc => hleft c (untagged_subset left hc))
      (fun c hc => hright c (untagged_subset right hc))
    rw [← huntagged] at htrimmed
    rw [untagged_append, untagged_append, untagged_typed, untagged_typed]
    have hlabel := ((Interchangeable.refl HasTag (ascii "[")).append h).append
      (Interchangeable.refl HasTag (ascii "]"))
    intro before after
    exact (htrimmed before after).symm.trans (hlabel before after)
  · apply padding_bracket
    · simp [content, typed, ascii]
    · simp [ascii]

/-- The replacement of an empty label. -/
private theorem interchangeable_link (h : trimTraced text = []) :
    Interchangeable HasTag (ascii "[" ++ ascii "link" ++ ascii "]")
      (untagged (typed (ascii "[") ++ trimTraced text ++ typed (ascii "]"))) := by
  rw [h, List.append_nil, untagged_append, untagged_typed, untagged_typed]
  exact interchangeable_bracketed (ascii "link") [] (by decide) (by decide)
    (by simp [Opened, ascii])

private theorem standsFor_label (h : StandsFor text passage) :
    StandsFor (typed (ascii "[") ++
        (if (trimTraced text).isEmpty then typed (ascii "link") else trimTraced text) ++
        typed (ascii "]"))
      (ascii "[" ++ passage ++ ascii "]") := by
  have hbracketed := standsFor_bracketed h.tags
  by_cases hempty : trimTraced text = []
  · rw [if_pos (by simp [hempty])]
    refine ⟨?_, ?_, by simp [typed, ascii]⟩
    · rw [untagged_append, untagged_append, untagged_typed, untagged_typed, untagged_typed]
      exact (interchangeable_link hempty).trans hbracketed.tags
    · apply padding_bracket
      · simp [content, typed, ascii]
      · simp [ascii]
  · rw [if_neg (by simp [hempty])]
    exact hbracketed

/-- The five writes of a link are one passage. -/
private theorem alike_link (mark : AnnotationMark) (label : Traced) (passage shown : Bytes)
    (h : StandsFor (typed (ascii "[") ++ label ++ typed (ascii "]"))
      (ascii "[" ++ passage ++ ascii "]")) :
    Alike StandsFor
      [(mark, typed (ascii "[")), (mark, label), (mark, typed (ascii "](")), (mark, typed shown),
        (mark, typed (ascii ")"))]
      [(mark, ascii "[" ++ passage ++ ascii "]" ++ (ascii "(" ++ shown ++ ascii ")"))] := by
  have hwhole := standsFor_appendable.append h
    (standsFor_typed (ascii "(" ++ shown ++ ascii ")"))
  have hwrites := Alike.of_label standsFor_appendable mark
    (show StandsFor [typed (ascii "["), label, typed (ascii "]("), typed shown,
        typed (ascii ")")].flatten
      [ascii "[" ++ passage ++ ascii "]" ++ (ascii "(" ++ shown ++ ascii ")")].flatten by
      simpa [typed, ascii] using hwhole)
  exact hwrites

private theorem alike_linkOutput (h : Paired StandsFor chunks label) (shown : Bytes) :
    Alike StandsFor (linkOutput chunks shown) [linkPassage label shown] := by
  unfold linkOutput linkPassage uniformAnnotation
  rw [uniformFrom_eq h]
  cases uniformFrom annotationWhitespaceOnly none label with
  | some mark =>
    apply alike_link
    exact standsFor_label (h.joined standsFor_appendable)
  | none =>
    apply alike_link
    exact standsFor_bracketed (interchangeable_rendering h)

/-- The walk wrote what the passages say and gathered the same. -/
private def Agrees (written : Written (UInt8 × Bool))
    (described : List (AnnotationMark × Bytes) × Collected) : Prop :=
  Alike StandsFor written.out described.1 ∧ written.collected = described.2

private theorem alike_typed (pieces : List (AnnotationMark × Bytes)) :
    Alike StandsFor (pieces.map fun piece => (piece.1, typed piece.2)) pieces := by
  apply Alike.of_paired standsFor_appendable
  induction pieces with
  | nil => exact .nil
  | cons piece rest ih => exact .cons ⟨rfl, standsFor_typed piece.2⟩ ih

private theorem agrees_traced (written : Written UInt8) :
    Agrees written.traced (written.out, written.collected) :=
  ⟨alike_typed written.out, rfl⟩

private theorem agrees_link {label : Written (UInt8 × Bool)}
    {described : List (AnnotationMark × Bytes) × Collected} (h : Agrees label described) :
    Agrees (writeLink e attrs label) (linkPassages e attrs described) := by
  obtain ⟨hout, hcollected⟩ := h
  unfold writeLink linkPassages
  cases destination e.lib e.base (firstAttr attrs (ascii "href")) with
  | none => exact ⟨Alike.of_paired standsFor_appendable hout, hcollected⟩
  | some target =>
    dsimp only
    rw [hcollected]
    exact ⟨alike_linkOutput hout _, rfl⟩

mutual

/-- Every node writes its passages. -/
private theorem walk_agrees (e : Extraction) (mode : HTMLExtractionMode) (anchorDepth : ℕ)
    (prev next : Option Node) (node : Node) (collected : Collected) :
    Agrees (walk e mode anchorDepth prev next node collected)
      (passages e mode anchorDepth prev next node collected) := by
  cases node with
  | text data state | comment data =>
    rw [walk, passages]
    exact agrees_traced _
  | other =>
    rw [walk, passages]
    exact ⟨.nil, rfl⟩
  | document children =>
    rw [walk, passages]
    exact walkChildren_agrees e mode anchorDepth none children collected
  | element name attrs state children =>
    rw [walk, passages]
    dsimp only
    cases writeElement e mode (toLower e.lib.table name) attrs state collected with
    | some written => exact agrees_traced written
    | none =>
      dsimp only
      split
      · exact agrees_link e attrs
          (walkChildren_agrees e mode (anchorDepth + 1) none children collected)
      · obtain ⟨hinner, hcollected⟩ :=
          walkChildren_agrees e mode anchorDepth none children collected
        refine ⟨?_, hcollected⟩
        exact ((alike_typed _).append standsFor_appendable hinner).append standsFor_appendable
          (alike_typed _)

private theorem walkChildren_agrees (e : Extraction) (mode : HTMLExtractionMode) (anchorDepth : ℕ)
    (prev : Option Node) (children : List Node) (collected : Collected) :
    Agrees (walkChildren e mode anchorDepth prev children collected)
      (passagesIn e mode anchorDepth prev children collected) := by
  cases children with
  | nil =>
    rw [walkChildren, passagesIn]
    exact ⟨.nil, rfl⟩
  | cons node rest =>
    rw [walkChildren, passagesIn]
    obtain ⟨hfirst, hcollected⟩ := walk_agrees e mode anchorDepth prev rest.head? node collected
    have hafter := walkChildren_agrees e mode anchorDepth (some node) rest
      (passages e mode anchorDepth prev rest.head? node collected).2
    dsimp only
    rw [hcollected]
    exact ⟨hfirst.append standsFor_appendable hafter.1, hafter.2⟩

end

/-- A page as the parser builds it. -/
def page (body : List Node) : Node :=
  .document [.element (ascii "html") [] none
    [.element (ascii "head") [] none [], .element (ascii "body") [] none body]]

def shownNode (data : Bytes) : Node := .text data (some ⟨.visible, [], [], []⟩)

/-- An extraction of pages without links, images and conditional comments, for which
no library is asked. -/
def plainExtraction : Extraction where
  lib := ⟨MailAddresses.asciiTable, fun _ => none, fun _ reference => reference, fun url => url,
    fun _ => none⟩
  parseFragment _ := none
  compactURLs := false
  base := none

end MilterGuard.AnnotationForging
