import MilterGuard.AnnotatedOutput

/-!
The shape of a rendered output. It is a sequence of segments: plain text, a pair of
tags around text, or a marker for stripped content. A pair is one segment, so pairs
are closed and do not nest. Content stands under its own annotation, white space may
stand anywhere, and two markers have content between them.
-/
namespace MilterGuard.AnnotatedSegments

open ByteStrings HtmlTexts AnnotatedOutput TextRuns

/-- A part of a rendering, with the chunks it shows. -/
inductive Segment
  | plain (chunks : Output)
  | pair (mark : AnnotationMark) (chunks : Output)
  | marker

namespace Segment

def chunks : Segment → Output
  | plain chunks => chunks
  | pair _ chunks => chunks
  | marker => []

def text : Segment → Traced
  | plain chunks => joined chunks
  | pair mark chunks => tag (openingTag mark) ++ joined chunks ++ tag (closingTag mark)
  | marker => tag (openingTag strippedMark)

/-- Chunks with content stand where their annotation says. -/
def Proper : Segment → Prop
  | plain chunks => ∀ chunk ∈ chunks, blank chunk.2 = true ∨ chunk.1.kind = .visible
  | pair mark chunks => mark.kind ∉ [.visible, .stripped] ∧
      ∀ chunk ∈ chunks, blank chunk.2 = true ∨ chunk.1 = mark
  | marker => True

end Segment

open Segment

/-- Some chunk is more than white space. -/
def HasContent (segments : List Segment) : Prop :=
  ∃ chunk ∈ segments.flatMap chunks, blank chunk.2 = false

/-- Two markers have content between them. -/
def Spaced (segments : List Segment) : Prop :=
  ∀ before between after, segments = before ++ marker :: (between ++ marker :: after) →
    HasContent between

/-- A marker has content behind it. -/
private def Renewed (segments : List Segment) : Prop :=
  ∀ before after, segments = before ++ marker :: after → HasContent after

variable {segments : List Segment} {segment : Segment}

private theorem Spaced.of_concat (h : Spaced (segments ++ [segment])) : Spaced segments := by
  intro before between after heq
  apply h before between (after ++ [segment])
  simp [heq]

private theorem Spaced.concat (h : Spaced segments) (hnew : segment ≠ marker ∨ Renewed segments) :
    Spaced (segments ++ [segment]) := by
  intro before between after heq
  rcases List.eq_nil_or_concat' after with rfl | ⟨rest, last, rfl⟩
  · rw [← List.cons_append, ← List.append_assoc] at heq
    obtain ⟨hsegments, hlast⟩ := List.append_inj' heq rfl
    rcases hnew with hne | hnew
    · exact absurd (List.singleton_inj.mp hlast) hne
    · exact hnew before between hsegments
  · rw [← List.cons_append, ← List.append_assoc, ← List.cons_append, ← List.append_assoc] at heq
    obtain ⟨hsegments, -⟩ := List.append_inj' heq rfl
    apply h before between rest
    simpa using hsegments

private theorem Renewed.concat (hne : segment ≠ marker)
    (h : Renewed segments ∨ HasContent [segment]) : Renewed (segments ++ [segment]) := by
  intro before after heq
  rcases List.eq_nil_or_concat' after with rfl | ⟨rest, last, rfl⟩
  · obtain ⟨-, hlast⟩ := List.append_inj' heq rfl
    exact absurd (List.singleton_inj.mp hlast) hne
  · rw [← List.cons_append, ← List.append_assoc] at heq
    obtain ⟨hsegments, hlast⟩ := List.append_inj' heq rfl
    obtain rfl := List.singleton_inj.mp hlast
    rcases h with h | ⟨chunk, hchunk, hcontent⟩
    · obtain ⟨chunk, hchunk, hcontent⟩ := h before rest hsegments
      exact ⟨chunk, by simp [hchunk], hcontent⟩
    · exact ⟨chunk, by simp at hchunk; simp [hchunk], hcontent⟩

private def closing : Option AnnotationMark → Traced
  | none => []
  | some mark => tag (closingTag mark)

/-- What a rendering has written, where a pair still open is counted as closed. -/
private structure Shows (r : Rendering) (segments : List Segment) (held : Output) : Prop where
  text : r.out ++ closing r.active = segments.flatMap Segment.text
  active : ∀ mark, r.active = some mark → ∃ before chunks, segments = before ++ [pair mark chunks]
  pending : r.pending = joined held
  held : ∀ chunk ∈ held, blank chunk.2 = true
  proper : ∀ segment ∈ segments, segment.Proper
  spaced : Spaced segments
  renewed : r.lastWasStripped = false → Renewed segments

variable {r : Rendering} {held : Output}

private theorem closeActive_eq :
    r.closeActive = { r with out := r.out ++ closing r.active, active := none } := by
  unfold Rendering.closeActive
  split
  next h => cases r; simp_all [closing]
  next h => rw [h]; rfl

private theorem proper_concat (h : ∀ s ∈ segments, s.Proper) (hnew : segment.Proper) :
    ∀ s ∈ segments ++ [segment], s.Proper :=
  List.forall_mem_append.mpr ⟨h, List.forall_mem_singleton.mpr hnew⟩

/-- The open pair is closed and the white space held back is written behind it. -/
private theorem Shows.closed (h : Shows r segments held) :
    Shows r.closeActive.flush (segments ++ [plain held]) [] where
  text := by
    simp [closeActive_eq, Rendering.flush, closing, h.pending, ← h.text, Segment.text]
  active mark hmark := by simp [closeActive_eq, Rendering.flush] at hmark
  pending := rfl
  held := by simp
  proper := proper_concat h.proper fun chunk hchunk => .inl (h.held chunk hchunk)
  spaced := h.spaced.concat (.inl (by simp))
  renewed hlast := by
    rw [closeActive_eq] at hlast
    exact Renewed.concat (by simp) (.inl (h.renewed hlast))

/-- A segment is written while no pair is open and nothing is held back. -/
private theorem Shows.put (h : Shows r segments []) {next : Rendering}
    (htext : next.out ++ closing next.active = r.out ++ closing r.active ++ segment.text)
    (hactive : ∀ mark, next.active = some mark → ∃ chunks, segment = pair mark chunks)
    (hpending : next.pending = []) (hproper : segment.Proper)
    (hspaced : segment ≠ marker ∨ Renewed segments)
    (hrenewed : next.lastWasStripped = false → segment ≠ marker ∧ HasContent [segment]) :
    Shows next (segments ++ [segment]) [] where
  text := by rw [htext, h.text]; simp
  active mark hmark := by
    obtain ⟨chunks, rfl⟩ := hactive mark hmark
    exact ⟨segments, chunks, rfl⟩
  pending := hpending
  held := by simp
  proper := proper_concat h.proper hproper
  spaced := h.spaced.concat hspaced
  renewed hlast := Renewed.concat (hrenewed hlast).1 (.inr (hrenewed hlast).2)

variable {chunk : AnnotationMark × Traced}

/-- A chunk under the annotation of the open pair is written into that pair, behind
the white space held back. -/
private theorem Shows.extended {before : List Segment} {chunks : Output}
    (h : Shows r (before ++ [pair chunk.1 chunks]) held) (hactive : r.active = some chunk.1)
    (hblank : blank chunk.2 = false) :
    Shows { r.flush.put chunk.2 with lastWasStripped := false }
      (before ++ [pair chunk.1 (chunks ++ held ++ [chunk])]) [] where
  text := by
    have htext := h.text
    simp only [hactive, closing, List.flatMap_append, List.flatMap_singleton, Segment.text,
      ← List.append_assoc, List.append_cancel_right_eq] at htext
    simp [Rendering.flush, Rendering.put, hactive, closing, htext, h.pending, Segment.text, joined]
  active mark hmark := by
    obtain rfl := Option.some_inj.mp (hactive.symm.trans hmark)
    exact ⟨before, _, rfl⟩
  pending := rfl
  held := by simp
  proper := by
    have hpair := h.proper (pair chunk.1 chunks) (by simp)
    refine proper_concat (fun s hs => h.proper s (by simp [hs])) ⟨hpair.1, fun c hc => ?_⟩
    simp only [List.mem_append, List.mem_singleton] at hc
    rcases hc with (hc | hc) | rfl
    · exact hpair.2 c hc
    · exact .inl (h.held c hc)
    · exact .inr rfl
  spaced := h.spaced.of_concat.concat (.inl (by simp))
  renewed _ := Renewed.concat (by simp) (.inr ⟨chunk, by simp [Segment.chunks], hblank⟩)

/-- A chunk under another annotation opens its own pair. -/
private theorem Shows.opened (h : Shows r segments held) (hblank : blank chunk.2 = false)
    (hkind : chunk.1.kind ∉ [.visible, .stripped]) :
    Shows ⟨r.out ++ closing r.active ++ r.pending ++ tag (openingTag chunk.1) ++ chunk.2, [],
      some chunk.1, false⟩ (segments ++ [plain held] ++ [pair chunk.1 [chunk]]) [] := by
  refine h.closed.put ?_ ?_ rfl ⟨hkind, by simp⟩ (.inl (by simp))
    fun _ => ⟨by simp, chunk, by simp [Segment.chunks], hblank⟩
  · simp [closing, closeActive_eq, Rendering.flush, Segment.text, joined]
  · rintro mark ⟨⟩
    exact ⟨_, rfl⟩

/-- A chunk is shown in a segment or held back; stripped content is shown by a marker. -/
private theorem Shows.step (h : Shows r segments held) (chunk : AnnotationMark × Traced) :
    ∃ segments' held', Shows (r.step chunk) segments' held' ∧
      segments'.flatMap Segment.chunks ++ held' =
        segments.flatMap Segment.chunks ++ held ++ (if kept blank chunk then [chunk] else []) := by
  cases hblank : blank chunk.2 with
  | true =>
    refine ⟨segments, held ++ [chunk], ?_, by simp [kept, hblank]⟩
    rw [Rendering.step, if_pos hblank]
    exact { h with
      pending := by simp [h.pending, joined]
      held := by simpa [or_imp, forall_and, hblank] using h.held }
  | false =>
    rw [Rendering.step, if_neg (by simp [hblank])]
    split
    next hkind =>
      by_cases hlast : r.lastWasStripped = true
      · refine ⟨segments ++ [plain held], [], ?_, by simp [kept, hblank, hkind, Segment.chunks]⟩
        have hclosed := h.closed
        simpa [closeActive_eq, Rendering.flush, hlast] using hclosed
      · refine ⟨segments ++ [plain held] ++ [marker], [], ?_,
          by simp [kept, hblank, hkind, Segment.chunks]⟩
        have hrenewed := h.closed.renewed
        simp only [closeActive_eq, Rendering.flush, hlast] at hrenewed
        refine h.closed.put ?_ ?_ ?_ trivial (.inr (hrenewed trivial)) (by simp)
        all_goals simp [closeActive_eq, Rendering.flush, Rendering.put, hlast, closing,
          Segment.text, openingTag, hkind, strippedMark]
    next hkind =>
      refine ⟨segments ++ [plain held] ++ [plain [chunk]], [], ?_,
        by simp [kept, hkind, Segment.chunks]⟩
      refine h.closed.put ?_ ?_ rfl (by simp [Proper, hkind]) (.inl (by simp))
        fun _ => ⟨by simp, chunk, by simp [Segment.chunks], hblank⟩
      all_goals simp [closeActive_eq, Rendering.flush, Rendering.put, closing, Segment.text, joined]
    all_goals
      rename_i hkind
      rw [show kept blank chunk = true by simp [kept, hkind], if_pos rfl]
      dsimp only
      split_ifs with hactive
      · obtain ⟨before, chunks, rfl⟩ := h.active _ hactive
        exact ⟨_, [], h.extended hactive hblank, by simp [Segment.chunks]⟩
      · refine ⟨segments ++ [plain held] ++ [pair chunk.1 [chunk]], [], ?_,
          by simp [Segment.chunks]⟩
        have hopened := h.opened hblank (by simp [hkind])
        simpa [closeActive_eq, Rendering.flush, Rendering.put] using hopened

private theorem Shows.run (h : Shows r segments held) (chunks : Output) :
    ∃ segments' held', Shows (chunks.foldl Rendering.step r) segments' held' ∧
      segments'.flatMap Segment.chunks ++ held' =
        segments.flatMap Segment.chunks ++ held ++ chunks.filter (kept blank) := by
  induction chunks generalizing r segments held with
  | nil => exact ⟨segments, held, h, by simp⟩
  | cons chunk rest ih =>
    obtain ⟨segments', held', hstep, hshown⟩ := h.step chunk
    obtain ⟨segments'', held'', hrun, hall⟩ := ih hstep
    refine ⟨segments'', held'', hrun, ?_⟩
    rw [hall, hshown, List.append_assoc _ _ (rest.filter _), List.filter_cons]
    split <;> rfl

/-- The segments make up the rendering of the chunks and show those that are kept. -/
structure Arranged (chunks : Output) (segments : List Segment) : Prop where
  text : renderAnnotations chunks = segments.flatMap Segment.text
  shown : segments.flatMap Segment.chunks = chunks.filter (kept blank)
  proper : ∀ segment ∈ segments, segment.Proper
  spaced : Spaced segments

theorem exists_arranged (chunks : Output) : ∃ segments, Arranged chunks segments := by
  have hinit : Shows ⟨[], [], none, false⟩ [] [] :=
    ⟨rfl, nofun, rfl, nofun, nofun, by simp [Spaced], by simp [Renewed]⟩
  obtain ⟨segments, held, hrun, hshown⟩ := hinit.run chunks
  refine ⟨segments ++ [plain held], ?_, ?_, hrun.closed.proper, hrun.closed.spaced⟩
  · have htext := hrun.closed.text
    simpa [renderAnnotations, closeActive_eq, Rendering.flush, closing] using htext
  · simpa [Segment.chunks] using hshown

/-- The chunks of a sequence of writes, before any markup. -/
def written (writes : List (AnnotationMark × Bytes)) : Output :=
  (runs writes).map fun chunk => (chunk.1, typed chunk.2)

/-- Without its tags a rendering is all written data but the stripped content. Its
segments are plain text, pairs and markers, with every content under its annotation. -/
theorem written_rendered (writes : List (AnnotationMark × Bytes)) :
    joined (runs writes) = joined writes ∧
      untagged (renderAnnotations (written writes)) =
        joined ((runs writes).filter (kept annotationWhitespaceOnly)) ∧
      ∃ segments, Arranged (written writes) segments := by
  refine ⟨joined_runs writes, ?_, exists_arranged _⟩
  have hkept : kept blank ∘ (fun chunk : AnnotationMark × Bytes => (chunk.1, typed chunk.2)) =
      kept annotationWhitespaceOnly := by
    funext chunk
    simp [kept, blank]
  rw [untagged_renderAnnotations, written, List.filter_map, List.flatMap_map, hkept]
  simp only [untagged_typed]
  rfl

end MilterGuard.AnnotatedSegments
