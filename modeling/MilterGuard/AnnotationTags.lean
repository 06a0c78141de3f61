import MilterGuard.TextRuns
import MilterGuard.Utf8

/-!
The reserved annotation tags and the pass that takes them out of a sender's text.
The pass reads the text once; a text without a tag is left as it is, and what is
left of any other text may spell a tag again. White space next to the brackets of
a link does not decide whether a text has a tag.
-/
namespace MilterGuard.AnnotationTags

open ByteStrings TextRuns

def annotationSpace (c : UInt8) : Bool :=
  c = 0x20 || c = 0x09 || c = 0x0A || c = 0x0D || c = 0x0C

def annotationWord (c : UInt8) : Bool :=
  0x61 ≤ c && c ≤ 0x7A || 0x41 ≤ c && c ≤ 0x5A || 0x30 ≤ c && c ≤ 0x39 || c = 0x5F

def annotationNames : List Bytes :=
  [ascii "invisible", ascii "visibility-varies-by-viewport-size", ascii "visibility-uncertain",
    ascii "hidden-content-stripped", ascii "quoted-content", ascii "attached-email",
    ascii "attached-file"]

/-- The text behind a name, when the text starts with it and the name ends there.
Letters match in both cases, and an s matches the long s as well. -/
def matchName : Bytes → Bytes → Option Bytes
  | [], value => if value.head?.any annotationWord then none else some value
  | _ :: _, [] => none
  | n :: name, c :: value =>
    if asciiLowerByte c = n then matchName name value
    else if n = 0x73 && hasPrefix (c :: value) [0xC5, 0xBF] then matchName name (value.drop 1)
    else none

variable (value : Bytes)

def annotationNameEnd : Option Bytes :=
  annotationNames.findSome? fun name => matchName name value

/-- What stands behind the slash and the white space that may follow a bracket. -/
def nameStart : Bytes :=
  (if value.head? = some 0x2F then value.drop 1 else value).dropWhile annotationSpace

/-- The text before the first tag and the text behind it. -/
def nextTag : Bytes → Option (Bytes × Bytes)
  | [] => none
  | c :: rest =>
    if c = 0x3C then
      match annotationNameEnd (nameStart rest) with
      | some tail => (cut 0x3E tail).map fun parts => ([], parts.2)
      -- The source goes on behind the white space, in which no bracket can stand.
      | none => (nextTag rest).map fun parts => (c :: parts.1, parts.2)
    else (nextTag rest).map fun parts => (c :: parts.1, parts.2)

def sanitizeFrom : ℕ → Bytes → Bytes
  | 0, value => value
  | fuel + 1, value =>
    match nextTag value with
    | none => value
    | some (before, after) => before ++ sanitizeFrom fuel after

/-- Every tag is longer than nothing, so the length is enough fuel. -/
def sanitizeSenderText : Bytes := sanitizeFrom value.length value

/-- The recogniser of the pass finds a tag. -/
def HasTag : Prop := (nextTag value).isSome

instance (value : Bytes) : Decidable (HasTag value) := inferInstanceAs (Decidable (_ = true))

/-- The text behind the name of the tag that a bracket before the text starts. -/
def nameTail (rest : Bytes) : Option Bytes := annotationNameEnd (nameStart rest)

/-- Some bracket of the text starts a tag, whether or not the text closes it. -/
def Opened : Bytes → Prop
  | [] => False
  | c :: rest => (c = 0x3C ∧ ∃ tail, nameTail rest = some tail) ∨ Opened rest

def nameByte (c : UInt8) : Bool := 0x61 ≤ c && c ≤ 0x7A || c = 0x2D

variable {rest : Bytes} (name value spaces after : Bytes) (c : UInt8)

private theorem nameByte_of_mem (h : name ∈ annotationNames) : ∀ n ∈ name, nameByte n = true := by
  have hall : ∀ name ∈ annotationNames, ∀ n ∈ name, nameByte n = true := by decide +kernel
  exact hall name h

private theorem closing_not_name (h : nameByte (asciiLowerByte c) = true) : c ≠ 0x3E := by
  rintro rfl
  exact absurd h (by decide)

/-- A name is matched by bytes of its own, none of which closes a tag. -/
private theorem matchName_consumes (tail : Bytes) (hname : ∀ n ∈ name, nameByte n = true)
    (h : matchName name value = some tail) :
    ∃ consumed, value = consumed ++ tail ∧ 0x3E ∉ consumed := by
  induction name, value using matchName.induct with
  | case1 value hword =>
    simp [matchName, hword] at h
  | case2 value hword =>
    obtain rfl : value = tail := by simpa [matchName, hword] using h
    exact ⟨[], rfl, by simp⟩
  | case3 => simp [matchName] at h
  | case4 name c value ih =>
    rw [matchName, if_pos rfl] at h
    obtain ⟨consumed, rfl, hconsumed⟩ := ih (fun b hb => hname b (List.mem_cons_of_mem _ hb)) h
    have hclosing := closing_not_name c (hname _ List.mem_cons_self)
    exact ⟨c :: consumed, rfl, by simp [hconsumed, Ne.symm hclosing]⟩
  | case5 n name c value hc hlong ih =>
    rw [matchName, if_neg hc, if_pos hlong] at h
    obtain ⟨consumed, hvalue, hconsumed⟩ := ih (fun b hb => hname b (List.mem_cons_of_mem n hb)) h
    cases value with
    | nil => simp [hasPrefix] at hlong
    | cons b rest =>
      obtain ⟨-, rfl, rfl⟩ : n = 0x73 ∧ (0xC5 : UInt8) = c ∧ (0xBF : UInt8) = b := by
        simpa [hasPrefix] using hlong
      obtain rfl : rest = consumed ++ tail := hvalue
      exact ⟨0xC5 :: 0xBF :: consumed, rfl, by simp [hconsumed]⟩
  | case6 n name c value hc hlong =>
    rw [matchName, if_neg hc, if_neg hlong] at h
    simp at h

private theorem nameStart_suffix :
    ∃ skipped, value = skipped ++ nameStart value ∧ 0x3E ∉ skipped := by
  unfold nameStart
  have hspaces (v : Bytes) : (0x3E : UInt8) ∉ v.takeWhile annotationSpace := by
    intro hmem
    exact absurd (List.mem_takeWhile_imp hmem) (by decide)
  split_ifs with hslash
  · obtain ⟨rest, rfl⟩ : ∃ rest, value = 0x2F :: rest := by
      cases value with
      | nil => simp at hslash
      | cons c rest => exact ⟨rest, by simpa using hslash⟩
    refine ⟨0x2F :: rest.takeWhile annotationSpace, ?_, ?_⟩
    · simp [List.takeWhile_append_dropWhile]
    · simpa using hspaces rest
  · exact ⟨value.takeWhile annotationSpace, List.takeWhile_append_dropWhile.symm, hspaces value⟩

/-- What stands between a bracket and the end of the name does not close the tag. -/
private theorem nameTail_suffix {tail : Bytes} (h : nameTail rest = some tail) :
    ∃ consumed, rest = consumed ++ tail ∧ 0x3E ∉ consumed := by
  obtain ⟨name, hname, hmatch⟩ := List.exists_of_findSome?_eq_some h
  obtain ⟨skipped, hskipped, hnone⟩ := nameStart_suffix rest
  obtain ⟨consumed, hconsumed, hnone'⟩ :=
    matchName_consumes name _ tail (nameByte_of_mem name hname) hmatch
  refine ⟨skipped ++ consumed, ?_, ?_⟩
  · rw [List.append_assoc, ← hconsumed]
    exact hskipped
  · simpa using ⟨hnone, hnone'⟩

private theorem cut_isSome (sep : UInt8) (value : Bytes) :
    (cut sep value).isSome ↔ sep ∈ value := by
  induction value with
  | nil => simp [cut]
  | cons b rest ih =>
    by_cases hb : b = sep
    · simp [cut, hb]
    · simp [cut, hb, ih, Ne.symm hb]

@[simp]
theorem not_hasTag_nil : ¬ HasTag [] := by simp [HasTag, nextTag]

private theorem hasTag_cons_of_ne {c : UInt8} (rest : Bytes) (hc : c ≠ 0x3C) :
    HasTag (c :: rest) ↔ HasTag rest := by
  unfold HasTag
  rw [nextTag, if_neg hc, Option.isSome_map]

private theorem hasTag_cons_none (h : nameTail rest = none) :
    HasTag (0x3C :: rest) ↔ HasTag rest := by
  unfold nameTail at h
  unfold HasTag
  rw [nextTag, if_pos rfl, h, Option.isSome_map]

private theorem hasTag_cons_some {tail : Bytes} (h : nameTail rest = some tail) :
    HasTag (0x3C :: rest) ↔ 0x3E ∈ tail := by
  unfold nameTail at h
  unfold HasTag
  rw [nextTag, if_pos rfl, h, Option.isSome_map, cut_isSome]

/-- A tag has a closing bracket. -/
private theorem closing_mem_of_hasTag (h : HasTag value) : 0x3E ∈ value := by
  induction value with
  | nil => exact absurd h not_hasTag_nil
  | cons c rest ih =>
    by_cases hc : c = 0x3C
    · subst c
      cases htail : nameTail rest with
      | none => exact List.mem_cons_of_mem _ (ih ((hasTag_cons_none htail).mp h))
      | some tail =>
        obtain ⟨consumed, rfl, -⟩ := nameTail_suffix htail
        have hclosing := (hasTag_cons_some htail).mp h
        simp [hclosing]
    · exact List.mem_cons_of_mem _ (ih ((hasTag_cons_of_ne rest hc).mp h))

/-- The recogniser finds a tag wherever one starts: the first bracket with a name
hides no later tag. -/
theorem hasTag_cons (rest : Bytes) :
    HasTag (c :: rest) ↔
      (c = 0x3C ∧ ∃ tail, nameTail rest = some tail ∧ 0x3E ∈ tail) ∨ HasTag rest := by
  by_cases hc : c = 0x3C
  · subst c
    cases htail : nameTail rest with
    | none =>
      rw [hasTag_cons_none htail]
      simp
    | some tail =>
      rw [hasTag_cons_some htail]
      obtain ⟨consumed, rfl, hconsumed⟩ := nameTail_suffix htail
      constructor
      · intro hclosing
        exact Or.inl ⟨rfl, tail, rfl, hclosing⟩
      · rintro (⟨-, tail', heq, hclosing⟩ | hrest)
        · obtain rfl : tail = tail' := by simpa using heq
          exact hclosing
        · have hclosing := closing_mem_of_hasTag _ hrest
          simpa [hconsumed] using hclosing
  · rw [hasTag_cons_of_ne rest hc]
    simp [hc]

/-- A byte that can neither delimit a tag nor stand in a name. -/
def idle : Bool :=
  !(c = 0x3C || c = 0x3E || c = 0x2F || annotationWord c || c = 0x2D || c = 0xC5 || c = 0xBF)

private theorem idle_spec : ∀ c : UInt8, idle c = true →
    c ≠ 0x3C ∧ c ≠ 0x3E ∧ c ≠ 0x2F ∧ annotationWord c = false ∧
      nameByte (asciiLowerByte c) = false ∧ c ≠ 0xC5 ∧ c ≠ 0xBF :=
  forall_byte _ (by decide +kernel)

/-- A name is matched before an idle byte as it is at the end of the text. -/
private theorem matchName_append (hname : ∀ n ∈ name, nameByte n = true) (hc : idle c = true) :
    matchName name (value ++ c :: after) = (matchName name value).map (· ++ c :: after) := by
  obtain ⟨-, -, -, hword, hletter, hlong, hlong'⟩ := idle_spec c hc
  induction name, value using matchName.induct with
  | case1 value h =>
    cases value with
    | nil => simp at h
    | cons b rest =>
      have hb : annotationWord b = true := by simpa using h
      simp [matchName, hb]
  | case2 value h =>
    cases value with
    | nil => simp [matchName, hword]
    | cons b rest =>
      have hb : annotationWord b = false := by simpa using h
      simp [matchName, hb]
  | case3 n name =>
    have hn : asciiLowerByte c ≠ n := by
      rintro rfl
      simp [hname _ List.mem_cons_self] at hletter
    simp [matchName, hn, hasPrefix, Ne.symm hlong]
  | case4 name b value ih =>
    have hrest := ih fun n hn => hname n (List.mem_cons_of_mem _ hn)
    simpa only [List.cons_append, matchName, if_true] using hrest
  | case5 n name b value hb hs ih =>
    have hrest := ih fun n hn => hname n (List.mem_cons_of_mem _ hn)
    cases value with
    | nil => simp [hasPrefix] at hs
    | cons d rest =>
      have hs' : (n = 0x73 && hasPrefix (b :: (d :: rest ++ c :: after)) [0xC5, 0xBF]) = true := by
        simpa [hasPrefix] using hs
      simp only [List.cons_append, matchName] at hrest hs' ⊢
      rw [if_neg hb, if_neg hb, if_pos hs, if_pos hs']
      exact hrest
  | case6 n name b value hb hs =>
    have hs' : ¬ (n = 0x73 && hasPrefix (b :: (value ++ c :: after)) [0xC5, 0xBF]) = true := by
      cases value with
      | nil => simp [hasPrefix, Ne.symm hlong']
      | cons d rest => simpa [hasPrefix] using hs
    simp only [List.cons_append, matchName, if_neg hb, if_neg hs, if_neg hs', Option.map_none]

private theorem annotationNameEnd_append (hc : idle c = true) :
    annotationNameEnd (value ++ c :: after) = (annotationNameEnd value).map (· ++ c :: after) := by
  unfold annotationNameEnd
  rw [List.map_findSome?]
  have hnames := nameByte_of_mem
  generalize annotationNames = names at hnames
  induction names with
  | nil => rfl
  | cons name names ih =>
    have hname := matchName_append name value after c (hnames name List.mem_cons_self) hc
    have hrest := ih fun name' h => hnames name' (List.mem_cons_of_mem name h)
    rw [List.findSome?_cons, List.findSome?_cons, hname, hrest]
    rfl

private theorem nameTail_nil : nameTail [] = none := rfl

/-- A name does not start in idle bytes. -/
private theorem annotationNameEnd_idle (h : ∀ c ∈ value, idle c = true) :
    annotationNameEnd value = none := by
  cases value with
  | nil => exact nameTail_nil
  | cons c rest =>
    have happend := annotationNameEnd_append [] rest c (h c List.mem_cons_self)
    rw [List.nil_append] at happend
    rw [happend]
    exact congrArg (Option.map _) nameTail_nil

/-- A byte that ends whatever a bracket before it may have started. -/
def barrier : Bool := idle c && !annotationSpace c

private theorem nameTail_append_barrier (hc : barrier c = true) :
    nameTail (value ++ c :: after) = (nameTail value).map (· ++ c :: after) := by
  obtain ⟨hidle, hspace⟩ : idle c = true ∧ annotationSpace c = false := by
    simpa [barrier] using hc
  have hslash : c ≠ 0x2F := (idle_spec c hidle).2.2.1
  have hstart : nameStart (value ++ c :: after) = nameStart value ++ c :: after := by
    unfold nameStart
    have hdrop (v : Bytes) : (v ++ c :: after).dropWhile annotationSpace =
        v.dropWhile annotationSpace ++ c :: after := by
      rw [List.dropWhile_append]
      split_ifs with hempty
      · rw [List.isEmpty_iff.mp hempty, List.dropWhile_cons_of_neg (by simp [hspace])]
        rfl
      · rfl
    cases value with
    | nil => simp [hslash, hspace]
    | cons b rest =>
      by_cases hb : b = 0x2F
      · simpa [hb] using hdrop rest
      · simpa [hb] using hdrop (b :: rest)
  unfold nameTail
  rw [hstart, annotationNameEnd_append _ _ _ hidle]

private theorem nameTail_append_idle (h : ∀ c ∈ spaces, idle c = true) :
    nameTail (value ++ spaces) = (nameTail value).map (· ++ spaces) := by
  have hdrop (v : Bytes) : annotationNameEnd ((v ++ spaces).dropWhile annotationSpace) =
      (annotationNameEnd (v.dropWhile annotationSpace)).map (· ++ spaces) := by
    rw [List.dropWhile_append]
    split_ifs with hempty
    · rw [List.isEmpty_iff.mp hempty, annotationNameEnd_idle _ fun c hc =>
        h c ((List.dropWhile_sublist _).mem hc)]
      exact (congrArg (Option.map _) nameTail_nil).symm
    · cases spaces with
      | nil => simp
      | cons c rest => exact annotationNameEnd_append _ _ _ (h c List.mem_cons_self)
  unfold nameTail nameStart
  cases value with
  | nil =>
    have hslash : spaces.head? ≠ some 0x2F := by
      intro hhead
      have hidle := h 0x2F (List.mem_of_mem_head? hhead)
      simp [idle] at hidle
    simpa [hslash] using hdrop []
  | cons b rest =>
    by_cases hb : b = 0x2F
    · simpa [hb] using hdrop rest
    · simpa [hb] using hdrop (b :: rest)

/-- What a text before a barrier tells the rest of a text. -/
theorem hasTag_append_barrier (hc : barrier c = true) :
    HasTag (value ++ c :: after) ↔ HasTag value ∨ (Opened value ∧ 0x3E ∈ after) ∨ HasTag after := by
  have hidle : idle c = true := by
    simp only [barrier, Bool.and_eq_true] at hc
    exact hc.1
  obtain ⟨hopen, hclose, -⟩ := idle_spec c hidle
  induction value with
  | nil =>
    rw [List.nil_append, hasTag_cons_of_ne after hopen]
    simp [Opened]
  | cons b rest ih =>
    rw [List.cons_append, hasTag_cons, hasTag_cons, nameTail_append_barrier rest after c hc,
      propext ih]
    cases htail : nameTail rest with
    | none => simp [Opened, htail]
    | some tail =>
      have hmem : 0x3E ∈ tail ++ c :: after ↔ 0x3E ∈ tail ∨ 0x3E ∈ after := by
        simp [Ne.symm hclose]
      simp only [Option.map_some, Option.some.injEq, exists_eq_left', hmem, Opened, htail]
      grind

private theorem hasTag_idle_append (value : Bytes) (h : ∀ c ∈ spaces, idle c = true) :
    (HasTag (spaces ++ value) ↔ HasTag value) ∧ (Opened (spaces ++ value) ↔ Opened value) := by
  induction spaces with
  | nil => exact ⟨Iff.rfl, Iff.rfl⟩
  | cons c rest ih =>
    have hopen := (idle_spec c (h c List.mem_cons_self)).1
    obtain ⟨htag, hopened⟩ := ih fun b hb => h b (List.mem_cons_of_mem c hb)
    rw [List.cons_append, hasTag_cons_of_ne _ hopen]
    exact ⟨htag, by simp [Opened, hopen, hopened]⟩

private theorem hasTag_append_idle (h : ∀ c ∈ spaces, idle c = true) :
    (HasTag (value ++ spaces) ↔ HasTag value) ∧ (Opened (value ++ spaces) ↔ Opened value) := by
  have hclosing : 0x3E ∉ spaces := fun hmem => (idle_spec _ (h _ hmem)).2.1 rfl
  induction value with
  | nil =>
    have hspaces := hasTag_idle_append spaces [] h
    rwa [List.append_nil] at hspaces
  | cons c rest ih =>
    obtain ⟨htag, hopened⟩ := ih
    rw [List.cons_append, hasTag_cons, hasTag_cons, htag, Opened, Opened, hopened,
      nameTail_append_idle rest spaces h]
    cases nameTail rest <;> simp [hclosing]

/-- Between the brackets of a link only three things count: a tag of its own, a tag
that is started and a closing bracket. -/
theorem interchangeable_bracketed (s t : Bytes) (hclosing : 0x3E ∈ s ↔ 0x3E ∈ t)
    (htag : HasTag s ↔ HasTag t) (hopened : Opened s ↔ Opened t) :
    Interchangeable HasTag (0x5B :: s ++ [0x5D]) (0x5B :: t ++ [0x5D]) := by
  intro before after
  have hview (t : Bytes) : HasTag (before ++ (0x5B :: t ++ [0x5D]) ++ after) ↔
      HasTag before ∨ (Opened before ∧ (0x3E ∈ t ∨ 0x3E ∈ after)) ∨
        HasTag t ∨ (Opened t ∧ 0x3E ∈ after) ∨ HasTag after := by
    have hassoc : before ++ (0x5B :: t ++ [0x5D]) ++ after =
        before ++ 0x5B :: (t ++ 0x5D :: after) := by simp
    have hmem : (0x3E : UInt8) ∈ t ++ 0x5D :: after ↔ 0x3E ∈ t ∨ 0x3E ∈ after := by simp
    rw [hassoc, hasTag_append_barrier _ _ _ (by decide), hasTag_append_barrier _ _ _ (by decide),
      hmem]
  rw [hview, hview, hclosing, htag, hopened]

/-- White space inside the brackets of a link does not matter. -/
theorem interchangeable_trimmed (left text right : Bytes) (hleft : ∀ c ∈ left, idle c = true)
    (hright : ∀ c ∈ right, idle c = true) :
    Interchangeable HasTag (0x5B :: (left ++ text ++ right) ++ [0x5D])
      (0x5B :: text ++ [0x5D]) := by
  have hnone (spaces : Bytes) (h : ∀ c ∈ spaces, idle c = true) : 0x3E ∉ spaces :=
    fun hmem => (idle_spec _ (h _ hmem)).2.1 rfl
  obtain ⟨hleftTag, hleftOpened⟩ := hasTag_idle_append left text hleft
  obtain ⟨hrightTag, hrightOpened⟩ := hasTag_append_idle (left ++ text) right hright
  apply interchangeable_bracketed
  · simp [hnone left hleft, hnone right hright]
  · exact hrightTag.trans hleftTag
  · exact hrightOpened.trans hleftOpened

private theorem idle_of_space : ∀ c : UInt8,
    asciiSpace c = true ∨ 0x80 ≤ c ∧ c ≤ 0x8A → idle c = true :=
  forall_byte _ (by decide +kernel)

private theorem idle_of_asciiSpace (h : asciiSpace c = true) : idle c = true :=
  idle_of_space c (Or.inl h)

private theorem idle_of_space2 {a b : UInt8} (h : space2 a b = true) :
    idle a = true ∧ idle b = true := by
  simp only [space2, Bool.and_eq_true, Bool.or_eq_true, decide_eq_true_eq] at h
  rcases h with ⟨rfl, rfl | rfl⟩ <;> decide

private theorem idle_of_space3 {a b c : UInt8} (h : space3 a b c = true) :
    idle a = true ∧ idle b = true ∧ idle c = true := by
  simp only [space3, Bool.and_eq_true, Bool.or_eq_true, decide_eq_true_eq] at h
  rcases h with ((⟨⟨rfl, rfl⟩, rfl⟩ | ⟨⟨rfl, rfl⟩, hc⟩) | ⟨⟨rfl, rfl⟩, rfl⟩) | ⟨⟨rfl, rfl⟩, rfl⟩
  · decide
  · refine ⟨by decide, by decide, ?_⟩
    rcases hc with ((⟨hhigh, hlow⟩ | rfl) | rfl) | rfl
    · exact idle_of_space c (Or.inr ⟨hlow, hhigh⟩)
    · decide
    · decide
    · decide
  · decide
  · decide

/-- Idle bytes at the start of a text are taken off. -/
def Peels (value rest : Bytes) : Prop :=
  ∃ left, value = left ++ rest ∧ ∀ c ∈ left, idle c = true

private theorem Peels.refl : Peels value value := ⟨[], rfl, by simp⟩

private theorem Peels.cons {c : UInt8} {value : Bytes} (h : Peels value rest) (hc : idle c = true) :
    Peels (c :: value) rest := by
  obtain ⟨left, rfl, hleft⟩ := h
  exact ⟨c :: left, rfl, by simpa [hc] using hleft⟩

theorem trimLeft_peels : Peels value (trimLeft value) := by
  fun_induction trimLeft value with
  | case1 a b c rest h ih | case5 a b h ih => exact ih.cons (idle_of_asciiSpace a h)
  | case2 a b c rest h h2 ih => exact (ih.cons (idle_of_space2 h2).2).cons (idle_of_space2 h2).1
  | case3 a b c rest h h2 h3 ih =>
    obtain ⟨h3, h3', h3''⟩ := idle_of_space3 h3
    exact ((ih.cons h3'').cons h3').cons h3
  | case6 a b h h2 =>
    exact ((Peels.refl []).cons (idle_of_space2 h2).2).cons (idle_of_space2 h2).1
  | case8 a h => exact (Peels.refl []).cons (idle_of_asciiSpace a h)
  | _ => exact Peels.refl _

private theorem trimReversed_peels : Peels value (trimReversed value) := by
  fun_induction trimReversed value with
  | case1 a b c rest h ih | case5 a b h ih => exact ih.cons (idle_of_asciiSpace a h)
  | case2 a b c rest h h2 ih => exact (ih.cons (idle_of_space2 h2).1).cons (idle_of_space2 h2).2
  | case3 a b c rest h h2 h3 ih =>
    obtain ⟨h3, h3', h3''⟩ := idle_of_space3 h3
    exact ((ih.cons h3).cons h3').cons h3''
  | case6 a b h h2 =>
    exact ((Peels.refl []).cons (idle_of_space2 h2).1).cons (idle_of_space2 h2).2
  | case8 a h => exact (Peels.refl []).cons (idle_of_asciiSpace a h)
  | _ => exact Peels.refl _

/-- Only idle bytes are trimmed from a text. -/
theorem trimSpace_idle :
    ∃ left right, value = left ++ trimSpace value ++ right ∧ (∀ c ∈ left, idle c = true) ∧
      (∀ c ∈ right, idle c = true) ∧ trimLeft value = trimSpace value ++ right := by
  obtain ⟨left, hvalue, hleft⟩ := trimLeft_peels value
  obtain ⟨right, hreversed, hright⟩ := trimReversed_peels (trimLeft value).reverse
  have htrimmed : trimLeft value = trimSpace value ++ right.reverse := by
    have hreverse := congrArg List.reverse hreversed
    rwa [List.reverse_reverse, List.reverse_append] at hreverse
  refine ⟨left, right.reverse, ?_, hleft, ?_, htrimmed⟩
  · rw [List.append_assoc, ← htrimmed]
    exact hvalue
  · intro c hc
    exact hright c (List.mem_reverse.mp hc)

/-! ### What the pass leaves -/

/-- A tag is completed behind a bracket that stands before the text. -/
def Completes (rest : Bytes) : Prop := ∃ tail, nameTail rest = some tail ∧ 0x3E ∈ tail

/-- The texts before, between and behind the tags that are taken out. -/
def stretchesFrom : ℕ → Bytes → List Bytes
  | 0, value => [value]
  | fuel + 1, value =>
    match nextTag value with
    | none => [value]
    | some (before, after) => before :: stretchesFrom fuel after

def stretches : List Bytes := stretchesFrom value.length value

/-- A bracket before a tag that is taken out starts a tag with the text behind that one. -/
def Mended (value : Bytes) : Prop :=
  ∃ before left right after, stretches value = before ++ (left ++ 0x3C :: right) :: after ∧
    after ≠ [] ∧ Completes (right ++ after.flatten)

theorem hasTag_iff (value : Bytes) :
    HasTag value ↔ ∃ left right, value = left ++ 0x3C :: right ∧ Completes right := by
  induction value with
  | nil => simp
  | cons c rest ih =>
    rw [hasTag_cons, ih]
    constructor
    · rintro (⟨rfl, hcompletes⟩ | ⟨left, right, rfl, hcompletes⟩)
      · exact ⟨[], rest, rfl, hcompletes⟩
      · exact ⟨c :: left, right, rfl, hcompletes⟩
    · rintro ⟨left, right, heq, hcompletes⟩
      cases left with
      | nil =>
        obtain ⟨rfl, rfl⟩ := List.cons.inj heq
        exact Or.inl ⟨rfl, hcompletes⟩
      | cons b left =>
        obtain ⟨rfl, rfl⟩ := List.cons.inj heq
        exact Or.inr ⟨left, right, rfl, hcompletes⟩

theorem nextTag_length {before after : Bytes} (h : nextTag value = some (before, after)) :
    before.length + after.length < value.length := by
  induction value generalizing before with
  | nil => cases h
  | cons c rest ih =>
    rw [nextTag] at h
    have hrest : ∀ {found : Bytes × Bytes}, nextTag rest = some found →
        (c :: found.1, found.2) = (before, after) →
        before.length + after.length < (c :: rest).length := by
      intro found hfound heq
      obtain ⟨rfl, rfl⟩ := Prod.mk.inj heq
      have hlength := ih hfound
      simp only [List.length_cons]
      omega
    split_ifs at h
    · split at h
      · rename_i tail htail
        obtain ⟨consumed, rfl, -⟩ := nameTail_suffix htail
        obtain ⟨parts, hcut, heq⟩ := Option.map_eq_some_iff.mp h
        obtain ⟨rfl, rfl⟩ := Prod.mk.inj heq
        have hparts := congrArg List.length (eq_append_of_cut _ _ _ _ hcut).1
        simp only [List.length_nil, List.length_cons, List.length_append] at hparts ⊢
        omega
      · obtain ⟨found, hfound, heq⟩ := Option.map_eq_some_iff.mp h
        exact hrest hfound heq
    · obtain ⟨found, hfound, heq⟩ := Option.map_eq_some_iff.mp h
      exact hrest hfound heq

/-- The pass keeps the stretches, and the last one has no tag. -/
theorem stretchesFrom_spec (fuel : ℕ) (value : Bytes) (hfuel : value.length ≤ fuel) :
    sanitizeFrom fuel value = (stretchesFrom fuel value).flatten ∧
      ∃ init last, stretchesFrom fuel value = init ++ [last] ∧ ¬ HasTag last := by
  induction fuel generalizing value with
  | zero =>
    obtain rfl := List.eq_nil_of_length_eq_zero (Nat.le_zero.mp hfuel)
    exact ⟨rfl, [], [], rfl, not_hasTag_nil⟩
  | succ fuel ih =>
    rw [sanitizeFrom, stretchesFrom]
    cases htag : nextTag value with
    | none => exact ⟨by simp, [], value, rfl, by simp [HasTag, htag]⟩
    | some parts =>
      have hlength := nextTag_length value htag
      obtain ⟨heq, init, last, hlast, hnone⟩ := ih parts.2 (by omega)
      exact ⟨by simp [heq], parts.1 :: init, last, by simp [hlast], hnone⟩

private theorem part_of_flatten {parts : List Bytes} {left right : Bytes} {c : UInt8}
    (h : parts.flatten = left ++ c :: right) :
    ∃ before start more after, parts = before ++ (start ++ c :: more) :: after ∧
      right = more ++ after.flatten := by
  rcases List.flatten_eq_append_iff.mp h with
    ⟨before, rest, rfl, -, hrest⟩ | ⟨before, start, b, more, after, rfl, -, hrest⟩
  · obtain ⟨skipped, more, after, rfl, -, rfl⟩ := List.flatten_eq_cons_iff.mp hrest.symm
    exact ⟨before ++ skipped, [], more, after, by simp, rfl⟩
  · obtain ⟨rfl, rfl⟩ := List.cons.inj hrest
    exact ⟨before, start, more, after, rfl, rfl⟩

theorem hasTag_sanitized_iff : HasTag (sanitizeSenderText value) ↔ Mended value := by
  obtain ⟨heq, init, last, hlast, hnone⟩ := stretchesFrom_spec value.length value le_rfl
  rw [sanitizeSenderText, heq, hasTag_iff]
  constructor
  · rintro ⟨left, right, hsplit, hcompletes⟩
    obtain ⟨before, start, more, after, hparts, rfl⟩ := part_of_flatten hsplit
    refine ⟨before, start, more, after, hparts, ?_, hcompletes⟩
    -- the last stretch has no tag of its own
    rintro rfl
    rw [hparts] at hlast
    obtain ⟨-, rfl⟩ : before = init ∧ start ++ 0x3C :: more = last := by simpa using hlast
    exact hnone ((hasTag_iff _).mpr ⟨start, more, rfl, by simpa using hcompletes⟩)
  · rintro ⟨before, left, right, after, hstretches, -, hcompletes⟩
    refine ⟨before.flatten ++ left, right ++ after.flatten, ?_, hcompletes⟩
    rw [show stretchesFrom value.length value = _ from hstretches]
    simp

theorem sanitizeFrom_length (fuel : ℕ) (value : Bytes) :
    (sanitizeFrom fuel value).length ≤ value.length := by
  fun_induction sanitizeFrom fuel value with
  | case3 fuel value before after htag ih =>
    have hlength := nextTag_length value htag
    rw [List.length_append]
    omega
  | _ => exact le_rfl

theorem sanitize_eq_self_iff : sanitizeSenderText value = value ↔ ¬ HasTag value := by
  unfold sanitizeSenderText HasTag
  cases htag : nextTag value with
  | none => cases hlength : value.length <;> simp [sanitizeFrom, htag]
  | some parts =>
    refine iff_of_false (fun heq => ?_) (by simp)
    have hlength := nextTag_length value htag
    obtain ⟨fuel, hfuel⟩ := Nat.exists_eq_succ_of_ne_zero (Nat.ne_zero_of_lt hlength)
    have hkept := sanitizeFrom_length fuel parts.2
    rw [hfuel, sanitizeFrom, htag] at heq
    have hsame := congrArg List.length heq
    rw [List.length_append] at hsame
    omega

end MilterGuard.AnnotationTags
