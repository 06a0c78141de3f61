import Mathlib.Data.List.Forall2
import Mathlib.Data.List.Induction

/-!
Text written piece by piece under labels. Neighbouring pieces with one label form
a run. Two sequences of pieces have related runs when they are put together from
parts with related runs, for every relation on texts that appending respects.
Texts are interchangeable for a property when no context tells them apart.
-/
namespace MilterGuard.TextRuns

section Runs

variable {L A B : Type} [DecidableEq L] (written : List (L × List A))

/-- Writes a text behind the runs: an empty text leaves no run, a text under the
label of the last run makes that run longer. -/
def extend (label : L) (text : List A) : List (L × List A) :=
  if text.isEmpty then written
  else match written.getLast? with
    | some (last, before) =>
      if last = label then written.dropLast ++ [(label, before ++ text)]
      else written ++ [(label, text)]
    | none => [(label, text)]

/-- Writes a sequence of pieces. -/
def writeAll (pieces : List (L × List A)) : List (L × List A) :=
  pieces.foldl (fun runs piece => extend runs piece.1 piece.2) written

def runs (pieces : List (L × List A)) : List (L × List A) := writeAll [] pieces

/-- The text of all runs. -/
def joined : List A := written.flatMap Prod.snd

section

variable (pieces : List (L × List A)) (label : L) (text : List A)

@[simp]
theorem extend_nil : extend written label [] = written :=
  rfl

theorem extend_first (h : text ≠ []) : extend [] label text = [(label, text)] := by
  simp [extend, h]

theorem extend_same (before text : List A) (h : text ≠ []) :
    extend (written ++ [(label, before)]) label text = written ++ [(label, before ++ text)] := by
  simp [extend, h]

theorem extend_other (last label : L) (before text : List A) (h : text ≠ []) (hne : last ≠ label) :
    extend (written ++ [(last, before)]) label text =
      written ++ [(last, before)] ++ [(label, text)] := by
  simp [extend, h, hne]

/-- Two writes under one label are one write. -/
theorem extend_extend (first second : List A) :
    extend (extend written label first) label second = extend written label (first ++ second) := by
  by_cases hsecond : second = []
  · subst second
    rw [extend_nil, List.append_nil]
  by_cases hfirst : first = []
  · subst first
    rw [extend_nil, List.nil_append]
  have hboth : first ++ second ≠ [] := by simp [hfirst]
  rcases List.eq_nil_or_concat' written with rfl | ⟨before, ⟨last, text⟩, rfl⟩
  · rw [extend_first label first hfirst, extend_first label _ hboth]
    exact extend_same [] label first second hsecond
  by_cases hlast : last = label
  · subst last
    rw [extend_same _ _ _ _ hfirst, extend_same _ _ _ _ hboth, extend_same _ _ _ _ hsecond,
      List.append_assoc text]
  · rw [extend_other _ _ _ _ _ hfirst hlast, extend_other _ _ _ _ _ hboth hlast,
      extend_same _ _ _ _ hsecond]

theorem writeAll_append (first second : List (L × List A)) :
    writeAll written (first ++ second) = writeAll (writeAll written first) second :=
  List.foldl_append ..

theorem writeAll_concat :
    writeAll written (pieces ++ [(label, text)]) = extend (writeAll written pieces) label text := by
  rw [writeAll_append]
  rfl

/-- Writing a run made longer is writing the run and then what was added. -/
private theorem writeAll_extend :
    writeAll written (extend pieces label text) = extend (writeAll written pieces) label text := by
  by_cases htext : text = []
  · subst text
    rw [extend_nil, extend_nil]
  rcases List.eq_nil_or_concat' pieces with rfl | ⟨before, ⟨last, run⟩, rfl⟩
  · rw [extend_first label text htext]
    rfl
  by_cases hlast : last = label
  · subst last
    rw [extend_same _ _ _ _ htext, writeAll_concat, writeAll_concat, extend_extend]
  · rw [extend_other _ _ _ _ _ htext hlast, writeAll_concat]

/-- The runs of a sequence are written as the sequence is. -/
theorem writeAll_runs : writeAll written (runs pieces) = writeAll written pieces := by
  induction pieces using List.reverseRecOn with
  | nil => rfl
  | append_singleton pieces piece ih =>
    obtain ⟨label, text⟩ := piece
    rw [runs, writeAll_concat, writeAll_extend, writeAll_concat]
    exact congrArg (extend · label text) ih

theorem runs_append (first second : List (L × List A)) :
    runs (first ++ second) = writeAll (runs first) (runs second) := by
  rw [writeAll_runs]
  exact writeAll_append [] first second

theorem joined_extend : joined (extend written label text) = joined written ++ text := by
  by_cases htext : text = []
  · simp [htext]
  rcases List.eq_nil_or_concat' written with rfl | ⟨before, ⟨last, run⟩, rfl⟩
  · simp [extend_first label text htext, joined]
  by_cases hlast : last = label
  · subst last
    simp [extend_same _ _ _ _ htext, joined]
  · simp [extend_other _ _ _ _ _ htext hlast, joined]

/-- The runs hold the whole text. -/
theorem joined_runs : joined (runs pieces) = joined pieces := by
  induction pieces using List.reverseRecOn with
  | nil => rfl
  | append_singleton pieces piece ih =>
    rw [runs, writeAll_concat, joined_extend]
    exact (congrArg (· ++ piece.2) ih).trans (by simp [joined])

/-- A label kept through a sequence of pieces gives a single run. -/
theorem writeAll_same (texts : List (List A)) :
    writeAll written (texts.map (label, ·)) = extend written label texts.flatten := by
  induction texts using List.reverseRecOn with
  | nil => rfl
  | append_singleton texts text ih =>
    rw [List.map_append, List.map_singleton, writeAll_concat, ih, extend_extend]
    simp

end

end Runs

section Related

variable {L A B : Type} [DecidableEq L] (R : List A → List B → Prop)

/-- A relation on texts that appending respects and under which only empty texts
are related to the empty text. -/
structure Appendable : Prop where
  append : ∀ {s t : List A} {s' t' : List B}, R s s' → R t t' → R (s ++ t) (s' ++ t')
  nil : R [] []
  nil_iff : ∀ {s : List A} {s' : List B}, R s s' → (s = [] ↔ s' = [])

/-- The same labels in the same order, with related texts. -/
def Paired : List (L × List A) → List (L × List B) → Prop :=
  List.Forall₂ fun run run' => run.1 = run'.1 ∧ R run.2 run'.2

variable {R : List A → List B → Prop} (hR : Appendable R)
include hR

omit [DecidableEq L] hR in
private theorem paired_concat {before : List (L × List A)} {run : L × List A}
    {written' : List (L × List B)} (h : Paired R (before ++ [run]) written') :
    ∃ before' text', written' = before' ++ [(run.1, text')] ∧ Paired R before before' ∧
      R run.2 text' := by
  induction before generalizing written' with
  | nil =>
    obtain ⟨⟨label, text'⟩, rest, ⟨rfl, htext⟩, hrest, rfl⟩ := List.forall₂_cons_left_iff.mp h
    obtain rfl := List.forall₂_nil_left_iff.mp hrest
    exact ⟨[], text', rfl, .nil, htext⟩
  | cons first before ih =>
    obtain ⟨first', rest, hfirst, hrest, rfl⟩ := List.forall₂_cons_left_iff.mp h
    obtain ⟨before', text', rfl, hbefore, htext⟩ := ih hrest
    exact ⟨first' :: before', text', rfl, .cons hfirst hbefore, htext⟩

/-- One write keeps two sequences of runs paired. -/
theorem Paired.extend {written : List (L × List A)} {written' : List (L × List B)}
    (h : Paired R written written') (label : L) {text : List A} {text' : List B}
    (htext : R text text') :
    Paired R (TextRuns.extend written label text) (TextRuns.extend written' label text') := by
  by_cases hnil : text = []
  · obtain rfl := (hR.nil_iff htext).mp hnil
    subst text
    exact h
  have hnil' : text' ≠ [] := fun hnil' => hnil ((hR.nil_iff htext).mpr hnil')
  rcases List.eq_nil_or_concat' written with rfl | ⟨before, ⟨last, run⟩, rfl⟩
  · obtain rfl := List.forall₂_nil_left_iff.mp h
    rw [extend_first label text hnil, extend_first label text' hnil']
    exact .cons ⟨rfl, htext⟩ .nil
  · obtain ⟨before', run', rfl, hbefore, hrun⟩ := paired_concat h
    by_cases hlast : last = label
    · subst last
      rw [extend_same _ _ _ _ hnil, extend_same _ _ _ _ hnil']
      exact List.rel_append hbefore (.cons ⟨rfl, hR.append hrun htext⟩ .nil)
    · rw [extend_other _ _ _ _ _ hnil hlast, extend_other _ _ _ _ _ hnil' hlast]
      exact List.rel_append h (.cons ⟨rfl, htext⟩ .nil)

theorem Paired.writeAll {written pieces : List (L × List A)} {written' pieces' : List (L × List B)}
    (h : Paired R written written') (hpieces : Paired R pieces pieces') :
    Paired R (TextRuns.writeAll written pieces) (TextRuns.writeAll written' pieces') := by
  induction hpieces generalizing written written' with
  | nil => exact h
  | @cons piece piece' _ _ hpiece _ ih =>
    obtain ⟨hlabel, htext⟩ := hpiece
    have hfirst := h.extend hR piece.1 htext
    nth_rewrite 2 [hlabel] at hfirst
    exact ih hfirst

omit [DecidableEq L] in
theorem Paired.joined {written : List (L × List A)} {written' : List (L × List B)}
    (h : Paired R written written') : R (TextRuns.joined written) (TextRuns.joined written') := by
  induction h with
  | nil => exact hR.nil
  | cons hrun _ ih => exact hR.append hrun.2 ih

/-- Two sequences of pieces whose runs are paired. -/
def Alike (R : List A → List B → Prop) (pieces : List (L × List A)) (pieces' : List (L × List B)) :
    Prop :=
  Paired R (runs pieces) (runs pieces')

theorem Alike.of_paired {pieces : List (L × List A)} {pieces' : List (L × List B)}
    (h : Paired R pieces pieces') : Alike R pieces pieces' :=
  Paired.writeAll hR .nil h

theorem Alike.append {first second : List (L × List A)} {first' second' : List (L × List B)}
    (hfirst : Alike R first first') (hsecond : Alike R second second') :
    Alike R (first ++ second) (first' ++ second') := by
  unfold Alike
  rw [runs_append, runs_append]
  exact hfirst.writeAll hR hsecond

/-- A sequence under a single label is compared as a whole. -/
theorem Alike.of_label (label : L) {texts : List (List A)} {texts' : List (List B)}
    (h : R texts.flatten texts'.flatten) :
    Alike R (texts.map (label, ·)) (texts'.map (label, ·)) := by
  unfold Alike runs
  rw [writeAll_same, writeAll_same]
  exact Paired.extend hR .nil label h

end Related

section Contexts

variable {A : Type}

/-- No context tells the texts apart by the property. -/
def Interchangeable (P : List A → Prop) (s t : List A) : Prop :=
  ∀ before after : List A, P (before ++ s ++ after) ↔ P (before ++ t ++ after)

theorem Interchangeable.refl (P : List A → Prop) (s : List A) : Interchangeable P s s :=
  fun _ _ => Iff.rfl

theorem Interchangeable.append {P : List A → Prop} {s s' t t' : List A}
    (hs : Interchangeable P s s') (ht : Interchangeable P t t') :
    Interchangeable P (s ++ t) (s' ++ t') := by
  intro before after
  calc P (before ++ (s ++ t) ++ after)
      ↔ P (before ++ s ++ (t ++ after)) := by simp
    _ ↔ P (before ++ s' ++ (t ++ after)) := hs before (t ++ after)
    _ ↔ P (before ++ s' ++ t ++ after) := by simp only [List.append_assoc]
    _ ↔ P (before ++ s' ++ t' ++ after) := ht (before ++ s') after
    _ ↔ P (before ++ (s' ++ t') ++ after) := by simp

theorem Interchangeable.trans {P : List A → Prop} {s t u : List A}
    (hst : Interchangeable P s t) (htu : Interchangeable P t u) : Interchangeable P s u :=
  fun before after => (hst before after).trans (htu before after)

theorem Interchangeable.iff {P : List A → Prop} {s t : List A} (h : Interchangeable P s t) :
    P s ↔ P t := by
  simpa using h [] []

end Contexts

end MilterGuard.TextRuns
