import MilterGuard.ByteStrings
import MilterGuard.Contests

/-!
The cascade of one element. Declarations come from presentational hints, from rules that
may be in doubt, and from the style attribute. The exact cascade needs every doubt
resolved; a winner without doubt is the one of every such cascade in light mode.
-/
namespace MilterGuard.CascadeWinners

open ByteStrings Contests

/-- Counts of selectors, each below the size of any text, in the order of Less. -/
abbrev Specificity := Fin (2 ^ 30) ×ₗ Fin (2 ^ 30) ×ₗ Fin (2 ^ 30)

/-- The specificity that makeUncertain gives a branch. -/
def ceiling : Specificity := toLex (Fin.last _, toLex (Fin.last _, Fin.last _))

def noSelector : Specificity := toLex (0, toLex (0, 0))

/-- Style properties, layout properties, custom properties and the animation slot. -/
inductive Property where
  | style (p : Fin 27)
  | layout (i : Fin 32)
  | custom (name : Bytes)
  | animation
  deriving DecidableEq

/-- What a declaration sets: one property or, with the all shorthand, every tracked one. -/
inductive Target where
  | one (p : Property)
  | all
  deriving DecidableEq

def Target.covers : Target → Property → Bool
  | .one q, p => q = p
  | .all, .style _ => true
  | .all, .layout _ => true
  | .all, _ => false

inductive ValueStatus where
  | invalid
  | resolved
  | unsupported
  deriving DecidableEq

structure Declaration where
  target : Target
  value : Bytes
  important : Bool
  order : ℤ
  unsupported : Bool
  validity : Option ValueStatus
  hasVars : Bool
  shorthand : Bool
  deriving DecidableEq

/-- What the cascade ranks: a declaration from a place with a specificity. -/
structure Entry where
  d : Declaration
  inline : Bool
  spec : Specificity
  deriving DecidableEq

def Entry.beats (c old : Entry) : Bool :=
  if c.d.important ≠ old.d.important then c.d.important
  else if c.inline ≠ old.inline then c.inline
  else if c.spec ≠ old.spec then old.spec < c.spec
  else old.d.order ≤ c.d.order

/-- Importance, then the style attribute, then specificity, then order. -/
def Entry.key (c : Entry) : Bool ×ₗ Bool ×ₗ Specificity ×ₗ ℤ :=
  toLex (c.d.important, toLex (c.inline, toLex (c.spec, c.d.order)))

theorem Entry.beats_iff (c old : Entry) : c.beats old = true ↔ old.key ≤ c.key := by
  simp only [Entry.beats, Entry.key, Prod.Lex.toLex_le_toLex]
  by_cases himportant : c.d.important = old.d.important
  · by_cases hinline : c.inline = old.inline
    · by_cases hspec : c.spec = old.spec
      · simp [himportant, hinline, hspec]
      · simp [himportant, hinline, hspec, Ne.symm hspec]
    · cases hc : c.inline <;> cases ho : old.inline <;> simp_all
  · cases hc : c.d.important <;> cases ho : old.d.important <;> simp_all

/-- An entry with the marks of the source it comes from. -/
structure Candidate extends Entry where
  uncertainOrigin : Bool
  colourSchemeDependent : Bool

inductive MediaState where
  | no
  | yes
  | unknown
  | yesColourScheme
  | alternateColourScheme
  deriving DecidableEq

structure Rule where
  media : MediaState
  decls : List Declaration
  uncertainOrigin : Bool

/-- A selector branch is known with its specificity, or only its scope is. -/
inductive Plan where
  | certain (specificity : Specificity)
  | uncertain
  deriving DecidableEq

def Plan.specificity : Plan → Specificity
  | .certain specificity => specificity
  | .uncertain => ceiling

/-- Where declarations come from. Those that are not retained count in the other colour
scheme only. -/
structure Source where
  specificity : Specificity
  inline : Bool
  uncertain : Bool
  colourSchemeDependent : Bool
  retain : Bool

structure Ref where
  rule : ℕ
  branch : ℕ

/-- All that the cascade of an element reads. A match is that of the branch or, for one in
doubt, that of its scope; there is none when the search for ancestors was given up. -/
structure Element where
  legacy : List Declaration
  inline : List Declaration
  rules : ℕ → Rule
  plans : Ref → Plan
  refs : List Ref
  matched : Ref → Option Bool
  status : Declaration → ValueStatus

/-- The places for winners: for the light scheme, for the other one, and for margins
without those in doubt. -/
inductive Slot where
  | light (p : Property)
  | alternate (p : Property)
  | ordinaryMargin (m : Fin 8)

abbrev Winners := Slot → Option Candidate

def marginIndex (i : Fin 32) : Option (Fin 8) :=
  if h : 13 ≤ i.val ∧ i.val ≤ 16 then some ⟨i.val - 13, by omega⟩
  else if h : 26 ≤ i.val ∧ i.val ≤ 29 then some ⟨i.val - 22, by omega⟩
  else none

def Source.reaches (source : Source) (d : Declaration) : Slot → Bool
  | .light p => source.retain && d.target.covers p
  | .alternate (.custom name) =>
    source.colourSchemeDependent && d.target.covers (.custom name)
  | .alternate (.style p) =>
    source.colourSchemeDependent && !source.retain && d.target.covers (.style p)
  | .alternate _ => false
  | .ordinaryMargin m =>
    source.retain && !source.uncertain &&
      (List.finRange 32).any fun i => marginIndex i = some m && d.target.covers (.layout i)

def Source.candidate (source : Source) (d : Declaration) : Candidate :=
  ⟨⟨d, source.inline, source.specificity⟩, source.uncertain, source.colourSchemeDependent⟩

def pick : Option Candidate → Candidate → Option Candidate
  | none, c => some c
  | some old, c => if c.beats old.toEntry then some c else some old

namespace Element

variable (e : Element)

/-- Invalid declarations take no part. -/
def skips (d : Declaration) : Bool :=
  match d.target with
  | .one (.custom _) => false
  | _ => !d.unsupported &&
    match d.validity with
    | some validity => validity = .invalid
    | none => !d.hasVars && !d.shorthand && e.status d = .invalid

def apply (source : Source) (ds : List Declaration) (winners : Winners) : Winners :=
  ds.foldl (fun winners d slot =>
    if !e.skips d && source.reaches d slot then pick (winners slot) (source.candidate d)
    else winners slot) winners

def source (ref : Ref) : Source :=
  let rule := e.rules ref.rule
  if rule.media = .alternateColourScheme then
    ⟨(e.plans ref).specificity, false, false, true, false⟩
  else if e.plans ref = .uncertain || rule.uncertainOrigin then
    ⟨(e.plans ref).specificity, false, true, rule.media = .yesColourScheme, true⟩
  else
    ⟨(e.plans ref).specificity, false, rule.media = .unknown, rule.media = .yesColourScheme, true⟩

def applyRefs : List Ref → Winners → Option Winners
  | [], winners => some winners
  | ref :: rest, winners =>
    if (e.rules ref.rule).media = .no then applyRefs rest winners
    else match e.matched ref with
      | none => none
      | some false => applyRefs rest winners
      | some true => applyRefs rest (e.apply (e.source ref) (e.rules ref.rule).decls winners)

def hints : Source := ⟨noSelector, false, false, false, true⟩

def styleAttribute : Source := ⟨noSelector, true, false, false, true⟩

def collectCascade : Option Winners :=
  (e.applyRefs e.refs (e.apply hints e.legacy fun _ => none)).map
    (e.apply styleAttribute e.inline)

/-! ### The exact cascade -/

/-- A rule in doubt applies or not. A branch in doubt matches with some specificity or
not at all. -/
structure Resolution where
  applies : ℕ → Bool
  branch : Ref → Option Specificity

variable (r : Resolution)

/-- Whether a rule counts in light mode. -/
def lightRule (rule : ℕ) : Bool :=
  match (e.rules rule).media with
  | .no | .alternateColourScheme => false
  | .unknown => r.applies rule
  | .yes | .yesColourScheme => !(e.rules rule).uncertainOrigin || r.applies rule

/-- The specificity with which a branch matches. One in doubt needs its scope. -/
def matchedWith (ref : Ref) : Option Specificity :=
  if e.matched ref = some true then
    match e.plans ref with
    | .certain specificity => some specificity
    | .uncertain => r.branch ref
  else none

def declared (ds : List Declaration) (p : Property) : List Declaration :=
  ds.filter fun d => !e.skips d && d.target.covers p

def exactRule (p : Property) (ref : Ref) : List Entry :=
  match e.matchedWith r ref with
  | some specificity =>
    if e.lightRule r ref.rule then
      (e.declared (e.rules ref.rule).decls p).map fun d => ⟨d, false, specificity⟩
    else []
  | none => []

/-- All declarations of a property that apply. -/
def exactCascade (p : Property) : List Entry :=
  (e.declared e.legacy p).map (fun d => ⟨d, false, noSelector⟩) ++
    e.refs.flatMap (e.exactRule r p) ++ (e.declared e.inline p).map fun d => ⟨d, true, noSelector⟩

/-! ### Certain winners -/

theorem le_ceiling (s : Specificity) : s ≤ ceiling := by
  obtain ⟨a, b, c⟩ := s
  have hlast : ∀ x : Fin (2 ^ 30), x < Fin.last _ ∨ x = Fin.last _ := fun x =>
    lt_or_eq_of_le (Fin.le_last x)
  exact Prod.Lex.toLex_le_toLex.mpr ((hlast a).imp_right fun ha => ⟨ha,
    Prod.Lex.toLex_le_toLex.mpr ((hlast b).imp_right fun hb => ⟨hb, Fin.le_last c⟩)⟩)

theorem key_le (d : Declaration) (inline : Bool) {s s' : Specificity} (h : s ≤ s') :
    (Entry.mk d inline s).key ≤ (Entry.mk d inline s').key := by
  simp only [Entry.key, Prod.Lex.toLex_le_toLex, le_refl, and_true, lt_irrefl, false_or, true_and]
  exact lt_or_eq_of_le h

theorem pick_eq : pick = stand (Entry.key ∘ Candidate.toEntry) := by
  funext old c
  cases old with
  | none => rfl
  | some old => simp only [pick, stand, Entry.beats_iff, Function.comp_apply]

/-- The candidates in doubt drop out or lose specificity. -/
abbrev Resolves : List Candidate → List Entry → Prop :=
  Resolved Candidate.toEntry Entry.key (·.uncertainOrigin = true)

theorem resolves_dropped {source : Source} (h : source.uncertain = true) (ds : List Declaration) :
    Resolves (ds.map source.candidate) [] := by
  induction ds with
  | nil => exact .nil
  | cons d ds ih => exact Resolved.dropped (a := source.candidate d) h ih

theorem resolves_lowered {source : Source} (h : source.uncertain = true)
    {specificity : Specificity} (hle : specificity ≤ source.specificity) (ds : List Declaration) :
    Resolves (ds.map source.candidate) (ds.map fun d => ⟨d, source.inline, specificity⟩) := by
  induction ds with
  | nil => exact .nil
  | cons d ds ih =>
    exact Resolved.lowered (a := source.candidate d) h (key_le d source.inline hle) ih

theorem resolves_kept (source : Source) (ds : List Declaration) :
    Resolves (ds.map source.candidate)
      (ds.map fun d => ⟨d, source.inline, source.specificity⟩) := by
  induction ds with
  | nil => exact .nil
  | cons d ds ih => exact .kept (source.candidate d) ih

/-- In a place for the light scheme only retained declarations of the property compete. -/
theorem apply_light (source : Source) (ds : List Declaration) (winners : Winners) (p : Property) :
    e.apply source ds winners (.light p) =
      (if source.retain then (e.declared ds p).map source.candidate else []).foldl pick
        (winners (.light p)) := by
  induction ds generalizing winners with
  | nil => simp [apply, declared]
  | cons d ds ih =>
    refine (ih _).trans ?_
    cases hretain : source.retain <;> cases hskips : e.skips d <;>
      cases hcovers : d.target.covers p <;>
      simp [declared, Source.reaches, hretain, hskips, hcovers]

/-- A rule that is not for the other scheme hands on its declarations, marked when the
rule or the branch is in doubt. -/
theorem source_light {ref : Ref} (h : (e.rules ref.rule).media ≠ .alternateColourScheme) :
    e.source ref = ⟨(e.plans ref).specificity, false,
      e.plans ref = .uncertain || (e.rules ref.rule).uncertainOrigin ||
        (e.rules ref.rule).media = .unknown,
      (e.rules ref.rule).media = .yesColourScheme, true⟩ := by
  unfold source
  rw [if_neg h]
  split
  · rename_i hdoubt
    rw [hdoubt, Bool.true_or]
  · rename_i hsure
    rw [Bool.not_eq_true] at hsure
    rw [hsure, Bool.false_or]

theorem matchedWith_le {ref : Ref} {specificity : Specificity}
    (h : e.matchedWith r ref = some specificity) : specificity ≤ (e.plans ref).specificity := by
  unfold matchedWith at h
  split at h
  · cases hplan : e.plans ref with
    | certain known =>
      rw [hplan] at h
      exact (Option.some.inj h).ge
    | uncertain => exact le_ceiling specificity
  · cases h

/-- What a rule brings into the light scheme, resolved. -/
theorem ref_resolves (p : Property) {ref : Ref} (hmedia : (e.rules ref.rule).media ≠ .no)
    (hmatched : e.matched ref = some true) :
    Resolves (if (e.source ref).retain then
        (e.declared (e.rules ref.rule).decls p).map (e.source ref).candidate else [])
      (e.exactRule r p ref) := by
  by_cases halternate : (e.rules ref.rule).media = .alternateColourScheme
  · have hnone : e.exactRule r p ref = [] := by
      unfold exactRule
      split <;> simp [lightRule, halternate]
    rw [hnone, source, if_pos halternate]
    exact .nil
  · rw [e.source_light halternate, if_pos rfl]
    by_cases hdoubt : (e.plans ref = .uncertain || (e.rules ref.rule).uncertainOrigin ||
        (e.rules ref.rule).media = .unknown) = true
    · unfold exactRule
      split
      · rename_i specificity hwith
        split
        · exact resolves_lowered hdoubt (e.matchedWith_le r hwith) _
        · exact resolves_dropped hdoubt _
      · exact resolves_dropped hdoubt _
    · -- Neither the rule nor the branch is in doubt: nothing is left to resolve.
      simp only [Bool.or_eq_true, decide_eq_true_eq, not_or] at hdoubt
      obtain ⟨⟨hplan, horigin⟩, hunknown⟩ := hdoubt
      have hlight : e.lightRule r ref.rule = true := by
        unfold lightRule
        split <;> simp_all
      cases hknown : e.plans ref with
      | uncertain => exact absurd hknown hplan
      | certain specificity =>
        simp only [exactRule, matchedWith, if_pos hmatched, hknown, hlight]
        exact resolves_kept _ _

theorem applyRefs_light (p : Property) {refs : List Ref} {winners winners' : Winners}
    (h : e.applyRefs refs winners = some winners') :
    ∃ cs, winners' (.light p) = cs.foldl pick (winners (.light p)) ∧
      Resolves cs (refs.flatMap (e.exactRule r p)) := by
  induction refs generalizing winners with
  | nil =>
    obtain rfl := Option.some.inj h
    exact ⟨[], rfl, .nil⟩
  | cons ref rest ih =>
    rw [applyRefs] at h
    split at h
    · rename_i hno
      have hnone : e.exactRule r p ref = [] := by
        unfold exactRule
        split <;> simp [lightRule, hno]
      simpa [hnone] using ih h
    · rename_i hmedia
      split at h
      · cases h
      · rename_i hfalse
        have hnone : e.exactRule r p ref = [] := by simp [exactRule, matchedWith, hfalse]
        simpa [hnone] using ih h
      · rename_i htrue
        obtain ⟨cs, hwinners, hcs⟩ := ih h
        rw [apply_light, ← List.foldl_append] at hwinners
        exact ⟨_, hwinners, (e.ref_resolves r p hmedia htrue).append hcs⟩

/-- A winner that is not marked uncertain wins the exact cascade in light mode, however
the doubts are resolved. -/
theorem certain_winner (p : Property) {winners : Winners} (h : e.collectCascade = some winners)
    {c : Candidate} (hc : winners (.light p) = some c) (hcertain : c.uncertainOrigin = false) :
    LastMax Entry.key (e.exactCascade r p) c.toEntry := by
  obtain ⟨applied, hrefs, rfl⟩ := Option.map_eq_some_iff.mp h
  obtain ⟨cs, happlied, hresolved⟩ := e.applyRefs_light r p hrefs
  rw [apply_light, happlied, apply_light, ← List.foldl_append, ← List.foldl_append, pick_eq] at hc
  have hall := (resolves_kept hints (e.declared e.legacy p)).append
    (hresolved.append (resolves_kept styleAttribute (e.declared e.inline p)))
  rw [exactCascade, List.append_assoc]
  exact (LastMax.of_foldl hc).resolved (by rw [hcertain]; simp) hall

private def hidden : Declaration :=
  ⟨.one (.style 0), ascii "none", false, 1, false, some .resolved, false, false⟩

/-- A style attribute against a rule whose selector is not understood. -/
private def styled : Element where
  legacy := []
  inline := [hidden]
  rules _ := ⟨.yes, [{ hidden with value := ascii "block", order := 2 }], false⟩
  plans _ := .uncertain
  refs := [⟨0, 0⟩]
  matched _ := some true
  status _ := .resolved

theorem styled_winner : ∃ winners c, styled.collectCascade = some winners ∧
    winners (.light (.style 0)) = some c ∧ c.uncertainOrigin = false ∧
      ∀ r, LastMax Entry.key (styled.exactCascade r (.style 0)) c.toEntry :=
  ⟨_, _, rfl, rfl, rfl, fun r => certain_winner styled r _ rfl rfl rfl⟩

end Element

end MilterGuard.CascadeWinners
