import Mathlib.Tactic.Common

/-!
Texts with marked sections. A span holds the offsets where a section opens, where its
body begins and ends, and where the section is closed. Spans stay accurate when texts
are joined and when a text becomes the body of a new section.
-/
namespace MilterGuard.NestedSpans

structure Span (τ : Type) where
  start : ℕ
  bodyStart : ℕ
  closeStart : ℕ
  stop : ℕ
  tag : τ
  deriving DecidableEq

variable {α τ : Type}

def Span.shift (offset : ℕ) (span : Span τ) : Span τ :=
  ⟨span.start + offset, span.bodyStart + offset, span.closeStart + offset, span.stop + offset,
    span.tag⟩

def slice (text : List α) (first past : ℕ) : List α := (text.drop first).take (past - first)

/-- The span marks a section of the text that opens and closes as its tag does. -/
structure Marks (opening closing : τ → List α) (text : List α) (span : Span τ) : Prop where
  opens : span.start < span.bodyStart
  ordered : span.bodyStart ≤ span.closeStart
  closes : span.closeStart < span.stop
  within : span.stop ≤ text.length
  opened : opening span.tag <+: text.drop span.start
  closed : slice text span.closeStart span.stop = closing span.tag

instance [DecidableEq α] (opening closing : τ → List α) (text : List α) (span : Span τ) :
    Decidable (Marks opening closing text span) :=
  decidable_of_iff
    (span.start < span.bodyStart ∧ span.bodyStart ≤ span.closeStart ∧
      span.closeStart < span.stop ∧ span.stop ≤ text.length ∧
      opening span.tag <+: text.drop span.start ∧
      slice text span.closeStart span.stop = closing span.tag)
    ⟨fun ⟨h₁, h₂, h₃, h₄, h₅, h₆⟩ => ⟨h₁, h₂, h₃, h₄, h₅, h₆⟩,
      fun h => ⟨h.opens, h.ordered, h.closes, h.within, h.opened, h.closed⟩⟩

/-- The later span comes after the earlier one or lies in its body. -/
def Nests (earlier later : Span τ) : Prop :=
  earlier.stop ≤ later.start ∨
    earlier.bodyStart ≤ later.start ∧ later.stop ≤ earlier.closeStart

/-- Each span marks a section, sections do not cross, and outer ones are listed first. -/
structure Accurate (opening closing : τ → List α) (text : List α) (spans : List (Span τ)) :
    Prop where
  marks : ∀ span ∈ spans, Marks opening closing text span
  laminar : spans.Pairwise Nests

section Accurate

variable {opening closing : τ → List α} {text : List α} {spans : List (Span τ)}

theorem accurate_nil (text : List α) : Accurate opening closing text [] :=
  ⟨fun _ h => absurd h List.not_mem_nil, List.Pairwise.nil⟩

/-- A section keeps its marks inside a longer text. -/
theorem Marks.surround {span : Span τ} (h : Marks opening closing text span)
    (before after : List α) :
    Marks opening closing (before ++ text ++ after) (span.shift before.length) := by
  have hclosed := h.closed
  obtain ⟨hopens, hordered, hcloses, hwithin, hopened, -⟩ := h
  have hdrop : ∀ n, n ≤ text.length →
      (before ++ text ++ after).drop (n + before.length) = text.drop n ++ after := by
    intro n hn
    rw [List.append_assoc, Nat.add_comm, ← List.drop_drop, List.drop_left,
      List.drop_append_of_le_length hn]
  refine ⟨?_, ?_, ?_, ?_, ?_, ?_⟩
  · exact Nat.add_lt_add_right hopens _
  · exact Nat.add_le_add_right hordered _
  · exact Nat.add_lt_add_right hcloses _
  · simp only [Span.shift, List.length_append]
    omega
  · simp only [Span.shift]
    rw [hdrop _ (by omega)]
    exact hopened.trans (List.prefix_append _ _)
  · simp only [Span.shift, slice] at hclosed ⊢
    rw [hdrop _ (by omega), Nat.add_sub_add_right, List.take_append_of_le_length, hclosed]
    rw [List.length_drop]
    omega

theorem Nests.shift {a b : Span τ} (h : Nests a b) (offset : ℕ) :
    Nests (a.shift offset) (b.shift offset) := by
  unfold Nests Span.shift at *
  dsimp only at *
  omega

theorem Accurate.surround (h : Accurate opening closing text spans) (before after : List α) :
    Accurate opening closing (before ++ text ++ after)
      (spans.map (Span.shift before.length)) := by
  constructor
  · intro span hspan
    obtain ⟨inner, hinner, rfl⟩ := List.mem_map.mp hspan
    exact (h.marks inner hinner).surround before after
  · rw [List.pairwise_map]
    exact h.laminar.imp fun hnests => hnests.shift before.length

/-- One text after another, with something between them. -/
theorem Accurate.append {others : List (Span τ)} {rest : List α}
    (h : Accurate opening closing text spans) (hrest : Accurate opening closing rest others)
    (between : List α) :
    Accurate opening closing (text ++ between ++ rest)
      (spans ++ others.map (Span.shift (text.length + between.length))) := by
  have hfirst : ∀ span ∈ spans, Marks opening closing (text ++ between ++ rest) span := by
    intro span hspan
    have hmarks := (h.marks span hspan).surround [] (between ++ rest)
    simpa [Span.shift] using hmarks
  have hsecond := hrest.surround (text ++ between) []
  rw [List.append_nil, List.length_append] at hsecond
  constructor
  · exact List.forall_mem_append.mpr ⟨hfirst, hsecond.marks⟩
  · refine List.pairwise_append.mpr ⟨h.laminar, hsecond.laminar, ?_⟩
    intro a ha b hb
    obtain ⟨inner, -, rfl⟩ := List.mem_map.mp hb
    have hstop := (h.marks a ha).within
    left
    simp only [Span.shift]
    omega

/-- The text becomes the body of a new section, whose span is listed first. -/
theorem Accurate.wrap (h : Accurate opening closing text spans) {header : List α} {tag : τ}
    (hheader : opening tag <+: header) (hopening : opening tag ≠ []) (hclosing : closing tag ≠ []) :
    Accurate opening closing (header ++ text ++ closing tag)
      (⟨0, header.length, header.length + text.length,
        (header ++ text ++ closing tag).length, tag⟩ ::
        spans.map (Span.shift header.length)) := by
  have hinner := h.surround header (closing tag)
  have hheaderLength : 0 < header.length :=
    Nat.lt_of_lt_of_le (List.length_pos_iff.mpr hopening) hheader.length_le
  have hclosingLength := List.length_pos_iff.mpr hclosing
  constructor
  · intro span hspan
    rcases List.mem_cons.mp hspan with rfl | hspan
    · refine ⟨hheaderLength, Nat.le_add_right _ _, ?_, Nat.le_refl _, ?_, ?_⟩
      · simp only [List.length_append]
        omega
      · rw [List.append_assoc]
        exact hheader.trans (List.prefix_append _ _)
      · simp only [slice]
        rw [← List.length_append, List.drop_left, List.take_of_length_le]
        rw [List.length_append]
        omega
    · exact hinner.marks span hspan
  · refine List.pairwise_cons.mpr ⟨?_, hinner.laminar⟩
    intro span hspan
    obtain ⟨inner, hmem, rfl⟩ := List.mem_map.mp hspan
    have hmarks := h.marks inner hmem
    have hwithin := hmarks.within
    right
    simp only [Span.shift]
    omega

end Accurate

end MilterGuard.NestedSpans
