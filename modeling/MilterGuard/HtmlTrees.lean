import MilterGuard.AnnotatedOutput

/-!
The walk over a parsed HTML tree. Text nodes, images, buttons and conditional
comments are written under the visibility the inspection gave them, blocks and
quotations add their own marks, and a link writes its label before its destination.
-/
namespace MilterGuard.HtmlTrees

open ByteStrings Hostnames HtmlTexts AnnotationTags AnnotatedOutput TextRuns

inductive VisibilityLabel
  | visible
  | concealed
  | clientDependent
  | unknown
  deriving DecidableEq

/-- In the order of their bits: the first one set is the primary reason. -/
inductive ConcealmentReason
  | displayNone
  | visibilityHidden
  | visibilityCollapse
  | opacity
  | fontSize
  | colour
  | emptyClip
  | contentVisibility
  deriving DecidableEq

/-- What the inspection says of a text or an element. The opacity is given as
FormatFloat prints it. -/
structure Visibility where
  label : VisibilityLabel
  reasons : List ConcealmentReason
  opacity : Bytes
  fontSize : Bytes

/-- A parsed tree with the states of its text nodes and elements. Doctypes and
other nodes without a part in the walk are `other`. -/
inductive Node
  | text (data : Bytes) (state : Option Visibility)
  | comment (data : Bytes)
  | element (name : Bytes) (attrs : List (Bytes × Bytes)) (state : Option Visibility)
      (children : List Node)
  | document (children : List Node)
  | other

inductive HTMLExtractionMode
  | tagHidden
  | stripHidden
  deriving DecidableEq

/-- The settings of an extraction. Fragments are read by the HTML parser. -/
structure Extraction where
  lib : Library
  parseFragment : Bytes → Option (List Node)
  compactURLs : Bool
  base : Option Bytes

/-- What an extraction gathers beside its texts. -/
structure Collected where
  links : LinkCollector
  images : ImageRefs
  incomplete : Bool

def Collected.empty : Collected := ⟨.empty, .empty, false⟩

/-- What a part of the walk writes to the annotated and to the visible output, and
what was gathered behind it. -/
structure Written (A : Type) where
  out : List (AnnotationMark × List A)
  visible : Bytes
  collected : Collected

def Written.nothing {A : Type} (collected : Collected) : Written A := ⟨[], [], collected⟩

def Written.traced (written : Written UInt8) : Written (UInt8 × Bool) :=
  ⟨written.out.map fun piece => (piece.1, typed piece.2), written.visible, written.collected⟩

def primaryReason (reasons : List ConcealmentReason) : Option ConcealmentReason :=
  [.displayNone, .visibilityHidden, .visibilityCollapse, .opacity, .fontSize, .colour, .emptyClip,
    .contentVisibility].find? fun reason => decide (reason ∈ reasons)

def concealmentReason (state : Visibility) : Bytes × Bytes :=
  match primaryReason state.reasons with
  | some .displayNone => (ascii "display:none", [])
  | some .visibilityHidden => (ascii "visibility:hidden", [])
  | some .visibilityCollapse => (ascii "visibility:collapse", [])
  | some .opacity => (ascii "opacity", state.opacity)
  | some .fontSize => (ascii "font-size", state.fontSize)
  | some .colour => (ascii "color-match", [])
  | some .emptyClip => (ascii "empty-clip", [])
  | some .contentVisibility => (ascii "content-visibility:hidden", [])
  | none => (ascii "display:none", [])

/-- The annotation under which a text or an element is written. -/
def markOf (mode : HTMLExtractionMode) (state : Visibility) : AnnotationMark :=
  match state.label with
  | .concealed =>
    if mode = .stripHidden then strippedMark
    else ⟨.concealed, (concealmentReason state).1, (concealmentReason state).2⟩
  | .clientDependent => ⟨.clientDependent, [], []⟩
  | .unknown => ⟨.unknown, [], []⟩
  | .visible => unmarked

def omittedHTMLElement (name : Bytes) : Bool :=
  [ascii "head", ascii "style", ascii "script", ascii "title", ascii "template",
    ascii "iframe"].contains name

def isBlockElement (name : Bytes) : Bool :=
  [ascii "address", ascii "article", ascii "aside", ascii "blockquote", ascii "div", ascii "dl",
    ascii "dt", ascii "dd", ascii "fieldset", ascii "figcaption", ascii "figure", ascii "footer",
    ascii "form", ascii "h1", ascii "h2", ascii "h3", ascii "h4", ascii "h5", ascii "h6",
    ascii "header", ascii "li", ascii "main", ascii "nav", ascii "ol", ascii "p", ascii "pre",
    ascii "section", ascii "table", ascii "tbody", ascii "thead", ascii "tfoot", ascii "tr",
    ascii "td", ascii "th", ascii "ul"].contains name

def blockDisplay : List Bytes :=
  [ascii "block", ascii "flow-root", ascii "flex", ascii "grid", ascii "list-item", ascii "table",
    ascii "table-row", ascii "table-cell", ascii "table-caption"]

def inlineDisplay : List Bytes :=
  [ascii "inline", ascii "inline-block", ascii "inline-flex", ascii "inline-grid",
    ascii "contents"]

variable (table : CaseTable)

/-- The last display declaration with a known value decides. -/
def inlineStyleUsesBlockLayout (attrs : List (Bytes × Bytes)) : Bool :=
  (split 0x3B (firstAttr attrs (ascii "style"))).foldl (fun block declaration =>
    match cut 0x3A declaration with
    | none => block
    | some (property, value) =>
      if !equalFold (trimSpace property) (ascii "display") then block
      else
        let value := toLower table (trimSpace (trimSuffix (trimSpace value) (ascii "!important")))
        if blockDisplay.contains value then true
        else if inlineDisplay.contains value then false
        else block) false

def inlineRenderedNode : Option Node → Bool
  | some (.text data _) => !annotationWhitespaceOnly data
  | some (.element name attrs _ _) =>
    let name := toLower table name
    !omittedHTMLElement name && !isBlockElement name && name ≠ ascii "br" && name ≠ ascii "hr" &&
      !inlineStyleUsesBlockLayout table attrs
  | _ => false

def inlineFormattingGap (prev next : Option Node) : Bool :=
  inlineRenderedNode table prev && inlineRenderedNode table next

variable (e : Extraction)

/-- A text with the links in it as they are shown and recorded. -/
def rewriteRecorded (text : Bytes) (collected : Collected) : Bytes × Collected :=
  match rewritePlainTextURLs e.lib e.compactURLs (some collected.links) text with
  | (shown, links) => (shown, { collected with links := links.getD collected.links })

/-- A text with the links in it as they are shown, unrecorded. -/
def rewriteLabel (text : Bytes) : Bytes :=
  (rewritePlainTextURLs e.lib e.compactURLs none text).1

variable (mode : HTMLExtractionMode) (anchorDepth : ℕ)

def writeText (prev next : Option Node) (data : Bytes) (state : Option Visibility)
    (collected : Collected) : Written UInt8 :=
  let text := prepareVisibleText data
  if text.isEmpty then .nothing collected
  else match state with
    | none => .nothing collected
    | some state =>
      let (outText, collected) :=
        if 0 < anchorDepth then (escapeMarkdown (rewriteLabel e text) false, collected)
        else rewriteRecorded e text collected
      if annotationWhitespaceOnly text then
        let spacing :=
          if inlineFormattingGap e.lib.table prev next then
            collapseHTMLFormattingWhitespace outText
          else outText
        ⟨[(unmarked, spacing)], if state.label = .concealed then [] else spacing, collected⟩
      else
        ⟨[(markOf mode state, outText)], if state.label = .concealed then [] else text, collected⟩

/-- The label of a button. Without a state it counts as visible. -/
def writeElementContent (content : Bytes) (state : Option Visibility) (collected : Collected) :
    Written UInt8 :=
  if content.isEmpty then .nothing collected
  else
    let (promptContent, collected) := rewriteRecorded e content collected
    match state with
    | none => ⟨[(unmarked, promptContent)], content, collected⟩
    | some state =>
      ⟨[(markOf mode state, promptContent)], if state.label = .concealed then [] else content,
        collected⟩

def explicitTrackingPixel (lib : Library) (attrs : List (Bytes × Bytes)) : Bool :=
  let unit (name : Bytes) : Bool :=
    match attrPresent attrs name with
    | none => false
    | some value =>
      let value := trimSpace (trimSuffix (toLower lib.table value) (ascii "px"))
      (lib.parseFloat value).any fun n => 0 < n ∧ n ≤ 1
  (trimSpace (firstAttr attrs (ascii "alt"))).isEmpty && unit (ascii "width") &&
    unit (ascii "height")

variable (attrs : List (Bytes × Bytes))

/-- The description and the destination of an image, when it is shown. -/
def imageParts (collected : Collected) : Option (Bytes × Bytes) × Collected :=
  let raw := trimSpace (firstAttr attrs (ascii "src"))
  let alt := rewriteLabel e (sanitizeSenderText (firstAttr attrs (ascii "alt")))
  if 4 ≤ raw.length && equalFold (raw.take 4) (ascii "cid:") then
    let id := normalizeContentID e.lib.table (raw.drop 4)
    if id.isEmpty then (none, collected)
    else
      (some (if alt.isEmpty then ascii "embedded image" else alt,
          ascii "cid:" ++ escapeMarkdown id true),
        { collected with images := collected.images.add e.lib.table id })
  else match destination e.lib e.base raw with
    | none => (none, collected)
    | some resolved =>
      if hasPrefix resolved (ascii "http://") || hasPrefix resolved (ascii "https://") then
        let (shown, links) := collected.links.addDestination e.lib e.compactURLs resolved
        let shown := escapeMarkdown shown true
        (if shown.isEmpty then none else some (if alt.isEmpty then ascii "image" else alt, shown),
          { collected with links })
      else (none, collected)

def writeImage (state : Option Visibility) (collected : Collected) : Written UInt8 :=
  if explicitTrackingPixel e.lib attrs then .nothing collected
  else match imageParts e attrs collected with
    | (none, collected) => .nothing collected
    | (some (alt, shown), collected) =>
      let mark := state.elim unmarked (markOf mode)
      ⟨[(mark, ascii " !["), (mark, escapeMarkdown alt false), (mark, ascii "]("), (mark, shown),
        (mark, ascii ") ")], [], collected⟩

mutual

/-- The text of a node in a conditional comment, and the links found in it. -/
def walkConditionalNode (e : Extraction) (anchorDepth : ℕ) : Node → LinkCollector →
    Bytes × LinkCollector
  | .text data _, links =>
    let text := sanitizeSenderText data
    if 0 < anchorDepth then (rewriteLabel e text, links)
    else match rewritePlainTextURLs e.lib e.compactURLs (some links) text with
      | (shown, found) => (shown, found.getD links)
  | .element name attrs _ children, links =>
    let lowered := toLower e.lib.table name
    if omittedHTMLElement lowered || lowered = ascii "xml" || hasPrefix lowered (ascii "o:") then
      ([], links)
    else if equalFold name (ascii "a") then
      let (label, links) := walkConditionalNodes e (anchorDepth + 1) children links
      match destination e.lib e.base (firstAttr attrs (ascii "href")) with
      | none => (label, links)
      | some target =>
        let (shown, links) := links.addDestination e.lib e.compactURLs target
        (ascii "[" ++ escapeMarkdown (trimSpace label) false ++ ascii "](" ++
          escapeMarkdown shown true ++ ascii ")", links)
    else
      let (inner, links) := walkConditionalNodes e anchorDepth children links
      let opening := if isBlockElement lowered || equalFold name (ascii "br") then [0x0A] else []
      let closing := if isBlockElement lowered then [0x0A] else []
      (opening ++ inner ++ closing, links)
  | .document children, links => walkConditionalNodes e anchorDepth children links
  | .comment _, links => ([], links)
  | .other, links => ([], links)

def walkConditionalNodes (e : Extraction) (anchorDepth : ℕ) : List Node → LinkCollector →
    Bytes × LinkCollector
  | [], links => ([], links)
  | node :: rest, links =>
    let (first, links) := walkConditionalNode e anchorDepth node links
    let (after, links) := walkConditionalNodes e anchorDepth rest links
    (first ++ after, links)

end

def conditionalOmissionMarker : Bytes :=
  ascii "[conditional Outlook content omitted: processing limit]"

def maxConditionalFragmentBytes : ℕ := 65536

def omitConditionalComment (collected : Collected) : Written UInt8 :=
  ⟨[(unmarked, [0x0A] ++ conditionalOmissionMarker ++ [0x0A])], [],
    { collected with incomplete := true }⟩

/-- The markup between the condition and the end of a conditional comment. -/
def conditionalFragment (data : Bytes) : Option Bytes :=
  let trimmed := trimSpace data
  if !conditionalHTMLComment table trimmed then none
  else match indexOf trimmed (ascii "]>"), lastIndexASCIIFold trimmed (ascii "<![endif]") with
    | some start, some stop =>
      if stop ≤ start + 2 then none else some ((trimmed.take stop).drop (start + 2))
    | _, _ => none

def writeConditionalComment (data : Bytes) (collected : Collected) : Written UInt8 :=
  match conditionalFragment e.lib.table data with
  | none => .nothing collected
  | some raw =>
    if maxConditionalFragmentBytes < raw.length then omitConditionalComment collected
    else match e.parseFragment raw with
      | none => omitConditionalComment collected
      | some fragment =>
        let (content, found) := walkConditionalNodes e 0 fragment .empty
        let value := normalizeHTMLText content
        if value.isEmpty || annotationWhitespaceOnly value then .nothing collected
        else
          let links := found.links.foldl (fun links target =>
            (links.addDestination e.lib e.compactURLs target).2) collected.links
          ⟨[(⟨.unknown, [], []⟩, value)], value, { collected with links }⟩

variable (name : Bytes)

/-- The elements that are written without their children. -/
def writeElement (attrs : List (Bytes × Bytes)) (state : Option Visibility)
    (collected : Collected) : Option (Written UInt8) :=
  if omittedHTMLElement name then some (.nothing collected)
  else if name = ascii "img" then some (writeImage e mode attrs state collected)
  else if name = ascii "input" then
    let type := toLower e.lib.table (trimSpace (firstAttr attrs (ascii "type")))
    if type = ascii "submit" ∨ type = ascii "button" ∨ type = ascii "reset" then
      some (writeElementContent e mode (sanitizeSenderText (firstAttr attrs (ascii "value"))) state
        collected)
    else some (.nothing collected)
  else none

/-- What an element writes before its children. -/
def openingMarks : List (AnnotationMark × Bytes) :=
  (if isBlockElement name || name = ascii "br" || name = ascii "hr" then [(unmarked, [0x0A])]
    else []) ++
  if name = ascii "blockquote" then
    [(unmarked, ascii "<quoted-content>" ++ if 0 < anchorDepth then [0x20] else [0x0A])]
  else []

/-- What an element writes behind its children. -/
def closingMarks : List (AnnotationMark × Bytes) :=
  (if name = ascii "blockquote" then
    [(unmarked, (if 0 < anchorDepth then [0x20] else [0x0A]) ++ ascii "</quoted-content>")]
  else []) ++
  if isBlockElement name then [(unmarked, [0x0A])] else []

def visibleOpening : Bytes :=
  (if isBlockElement name || name = ascii "br" || name = ascii "hr" then [0x0A] else []) ++
    if name = ascii "blockquote" then ascii "<quoted-content>\n" else []

def visibleClosing : Bytes :=
  (if name = ascii "blockquote" then ascii "\n</quoted-content>" else []) ++
    if isBlockElement name then [0x0A] else []

/-- A destination as Markdown shows it. -/
def shownDestination (target : Bytes) (collected : Collected) : Bytes × Collected :=
  let (shown, links) := collected.links.addDestination e.lib e.compactURLs target
  (escapeMarkdown shown true, { collected with links })

/-- A link under a single annotation, or a visible link around a label that keeps
the annotations of its own. -/
def linkOutput (label : Output) (shown : Bytes) : Output :=
  match uniformAnnotation label with
  | some mark =>
    let plain := trimTraced (joined label)
    let plain := if plain.isEmpty then typed (ascii "link") else plain
    [(mark, typed (ascii "[")), (mark, plain), (mark, typed (ascii "](")), (mark, typed shown),
      (mark, typed (ascii ")"))]
  | none =>
    [(unmarked, typed (ascii "[")), (unmarked, trimTraced (renderAnnotations label)),
      (unmarked, typed (ascii "](")), (unmarked, typed shown), (unmarked, typed (ascii ")"))]

def writeLink (label : Written (UInt8 × Bool)) : Written (UInt8 × Bool) :=
  match destination e.lib e.base (firstAttr attrs (ascii "href")) with
  | none => { label with out := runs label.out }
  | some target =>
    let (shown, collected) := shownDestination e target label.collected
    ⟨linkOutput (runs label.out) shown, label.visible, collected⟩

mutual

def walk (e : Extraction) (mode : HTMLExtractionMode) (anchorDepth : ℕ) (prev next : Option Node) :
    Node → Collected → Written (UInt8 × Bool)
  | .text data state, collected =>
    (writeText e mode anchorDepth prev next data state collected).traced
  | .comment data, collected => (writeConditionalComment e data collected).traced
  | .other, collected => .nothing collected
  | .document children, collected => walkChildren e mode anchorDepth none children collected
  | .element name attrs state children, collected =>
    let name := toLower e.lib.table name
    match writeElement e mode name attrs state collected with
    | some written => written.traced
    | none =>
      if name = ascii "a" then
        writeLink e attrs (walkChildren e mode (anchorDepth + 1) none children collected)
      else
        let inner := walkChildren e mode anchorDepth none children collected
        ⟨(openingMarks anchorDepth name).map (fun piece => (piece.1, typed piece.2)) ++ inner.out ++
            (closingMarks anchorDepth name).map (fun piece => (piece.1, typed piece.2)),
          visibleOpening name ++ inner.visible ++ visibleClosing name, inner.collected⟩

def walkChildren (e : Extraction) (mode : HTMLExtractionMode) (anchorDepth : ℕ)
    (prev : Option Node) : List Node → Collected → Written (UInt8 × Bool)
  | [], collected => .nothing collected
  | node :: rest, collected =>
    let first := walk e mode anchorDepth prev rest.head? node collected
    let after := walkChildren e mode anchorDepth (some node) rest first.collected
    ⟨first.out ++ after.out, first.visible ++ after.visible, after.collected⟩

end

/-- The annotated text of a document, before white space is normalized. The links
collected by an earlier rendering are known. -/
def renderText (root : Node) (collected : Collected) : Traced :=
  renderAnnotations (runs (walk e mode 0 none none root collected).out)

end MilterGuard.HtmlTrees
