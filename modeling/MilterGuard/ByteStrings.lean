import Mathlib

/-!
Go strings as byte lists. Runes are decoded as the Go runtime decodes them:
a byte outside valid UTF-8 is one rune of its own, reported here as `none`.
White space and control characters are the Unicode properties; letter case
outside ASCII is left to a table, since only its ASCII part is ever decided.
-/
namespace MilterGuard.ByteStrings

abbrev Bytes := List UInt8

-- Membership in a list of texts is decided the same way everywhere.
instance : LawfulBEq Bytes := inferInstance

/-- The bytes of an ASCII text. -/
def ascii (text : String) : Bytes := text.toList.map fun c => UInt8.ofNat c.toNat

def replacement : ℕ := 0xFFFD

def continuation (b : UInt8) : Bool := 0x80 ≤ b && b ≤ 0xBF

/-- The least and greatest second byte that a lead byte admits. -/
def secondRange (lead : UInt8) : UInt8 × UInt8 :=
  if lead = 0xE0 then (0xA0, 0xBF)
  else if lead = 0xED then (0x80, 0x9F)
  else if lead = 0xF0 then (0x90, 0xBF)
  else if lead = 0xF4 then (0x80, 0x8F)
  else (0x80, 0xBF)

def secondByte (lead b : UInt8) : Bool :=
  (secondRange lead).1 ≤ b && b ≤ (secondRange lead).2

/-- The first rune with its width in bytes, or `none` when the first byte does
not start a valid sequence. -/
def decodeRune : Bytes → Option (ℕ × ℕ)
  | [] => none
  | a :: rest =>
    if a < 0x80 then some (a.toNat, 1)
    else if 0xC2 ≤ a && a ≤ 0xDF then
      match rest with
      | b :: _ =>
        if continuation b then some ((a.toNat - 0xC0) * 64 + (b.toNat - 0x80), 2) else none
      | _ => none
    else if 0xE0 ≤ a && a ≤ 0xEF then
      match rest with
      | b :: c :: _ =>
        if secondByte a b && continuation c then
          some (((a.toNat - 0xE0) * 64 + (b.toNat - 0x80)) * 64 + (c.toNat - 0x80), 3)
        else none
      | _ => none
    else if 0xF0 ≤ a && a ≤ 0xF4 then
      match rest with
      | b :: c :: d :: _ =>
        if secondByte a b && continuation c && continuation d then
          some ((((a.toNat - 0xF0) * 64 + (b.toNat - 0x80)) * 64 + (c.toNat - 0x80)) * 64 +
            (d.toNat - 0x80), 4)
        else none
      | _ => none
    else none

def runesFrom : ℕ → Bytes → List (Option ℕ)
  | 0, _ => []
  | _ + 1, [] => []
  | fuel + 1, a :: rest =>
    match decodeRune (a :: rest) with
    | some (r, width) => some r :: runesFrom fuel ((a :: rest).drop width)
    | none => none :: runesFrom fuel rest

variable (value : Bytes)

/-- The runes in order. Every step consumes at least one byte, so the length
is enough fuel. -/
def runes : List (Option ℕ) := runesFrom value.length value

def validUTF8 : Bool := (runes value).all Option.isSome

def encodeRune (r : ℕ) : Bytes :=
  if r < 0x80 then [UInt8.ofNat r]
  else if r < 0x800 then [UInt8.ofNat (0xC0 + r / 64), UInt8.ofNat (0x80 + r % 64)]
  else if 0xD800 ≤ r ∧ r ≤ 0xDFFF ∨ 0x10FFFF < r then [0xEF, 0xBF, 0xBD]
  else if r < 0x10000 then
    [UInt8.ofNat (0xE0 + r / 4096), UInt8.ofNat (0x80 + r / 64 % 64), UInt8.ofNat (0x80 + r % 64)]
  else
    [UInt8.ofNat (0xF0 + r / 262144), UInt8.ofNat (0x80 + r / 4096 % 64),
      UInt8.ofNat (0x80 + r / 64 % 64), UInt8.ofNat (0x80 + r % 64)]

/-- strings.Map: `none` drops the rune, an invalid byte is mapped as U+FFFD. -/
def mapRunes (f : ℕ → Option ℕ) (value : Bytes) : Bytes :=
  (runes value).flatMap fun r =>
    match f (r.getD replacement) with
    | some r' => encodeRune r'
    | none => []

/-- Each run of invalid bytes becomes a single U+FFFD. -/
def repairRunes : List (Option ℕ) → List ℕ
  | [] => []
  | some r :: rest => r :: repairRunes rest
  | none :: none :: rest => repairRunes (none :: rest)
  | none :: rest => replacement :: repairRunes rest

def toValidUTF8 : Bytes := (repairRunes (runes value)).flatMap encodeRune

/-- The first `count` runes, re-encoded, when the string has more than that. -/
def truncateRunes (count : ℕ) (value : Bytes) : Bytes :=
  if (runes value).length > count then
    ((runes value).take count).flatMap fun r => encodeRune (r.getD replacement)
  else value

/-- The longest prefix of at most `limit` bytes that ends between runes. -/
def cutAtRune (value : Bytes) : ℕ → Bytes
  | 0 => []
  | limit + 1 =>
    match value.drop (limit + 1) with
    | next :: _ => if continuation next then cutAtRune value limit else value.take (limit + 1)
    | [] => value

def isControl (r : ℕ) : Bool := r < 0x20 || 0x7F ≤ r && r < 0xA0

def asciiSpace (b : UInt8) : Bool := b = 0x20 || 0x09 ≤ b && b ≤ 0x0D

/-- The two bytes encode U+0085 or U+00A0. -/
def space2 (a b : UInt8) : Bool := a = 0xC2 && (b = 0x85 || b = 0xA0)

/-- The three bytes encode one of the other white-space runes. -/
def space3 (a b c : UInt8) : Bool :=
  a = 0xE1 && b = 0x9A && c = 0x80 ||
  a = 0xE2 && b = 0x80 && (c ≤ 0x8A && 0x80 ≤ c || c = 0xA8 || c = 0xA9 || c = 0xAF) ||
  a = 0xE2 && b = 0x81 && c = 0x9F ||
  a = 0xE3 && b = 0x80 && c = 0x80

def trimLeft : Bytes → Bytes
  | a :: b :: c :: rest =>
    if asciiSpace a then trimLeft (b :: c :: rest)
    else if space2 a b then trimLeft (c :: rest)
    else if space3 a b c then trimLeft rest
    else a :: b :: c :: rest
  | [a, b] => if asciiSpace a then trimLeft [b] else if space2 a b then [] else [a, b]
  | [a] => if asciiSpace a then [] else [a]
  | [] => []

/-- Trims the end of a string given in reverse. -/
def trimReversed : Bytes → Bytes
  | a :: b :: c :: rest =>
    if asciiSpace a then trimReversed (b :: c :: rest)
    else if space2 b a then trimReversed (c :: rest)
    else if space3 c b a then trimReversed rest
    else a :: b :: c :: rest
  | [a, b] => if asciiSpace a then trimReversed [b] else if space2 b a then [] else [a, b]
  | [a] => if asciiSpace a then [] else [a]
  | [] => []

def trimRight : Bytes := (trimReversed value.reverse).reverse

/-- strings.TrimSpace. -/
def trimSpace : Bytes := trimRight (trimLeft value)

/-- The width of the white-space rune that a text starts with, or zero. -/
def spaceWidth : Bytes → ℕ
  | a :: b :: c :: _ =>
    if asciiSpace a then 1 else if space2 a b then 2 else if space3 a b c then 3 else 0
  | [a, b] => if asciiSpace a then 1 else if space2 a b then 2 else 0
  | [a] => if asciiSpace a then 1 else 0
  | [] => 0

/-- The first field is the bytes collected so far; `pending` is white space
still to be skipped. -/
def fieldsFrom : ℕ → Bytes → Bytes → List Bytes
  | _, field, [] => if field = [] then [] else [field]
  | pending + 1, field, _ :: rest => fieldsFrom pending field rest
  | 0, field, a :: rest =>
    match spaceWidth (a :: rest) with
    | 0 => fieldsFrom 0 (field ++ [a]) rest
    | width + 1 =>
      if field = [] then fieldsFrom width [] rest else field :: fieldsFrom width [] rest

/-- strings.Fields. -/
def fields : List Bytes := fieldsFrom 0 [] value

def hasPrefix (start : Bytes) : Bool := start.isPrefixOf value

def hasSuffix (tail : Bytes) : Bool := tail.isSuffixOf value

def trimSuffix (tail : Bytes) : Bytes :=
  if hasSuffix value tail then value.take (value.length - tail.length) else value

def trimPrefix (start : Bytes) : Bytes :=
  if hasPrefix value start then value.drop start.length else value

/-- The text before and after the first occurrence of a byte. -/
def cut (sep : UInt8) : Bytes → Option (Bytes × Bytes)
  | [] => none
  | b :: rest => if b = sep then some ([], rest) else (cut sep rest).map fun p => (b :: p.1, p.2)

def split (sep : UInt8) : Bytes → List Bytes
  | [] => [[]]
  | b :: rest =>
    if b = sep then [] :: split sep rest
    else match split sep rest with
      | first :: more => (b :: first) :: more
      | [] => [[b]]

def join (sep : Bytes) : List Bytes → Bytes
  | [] => []
  | [value] => value
  | value :: rest => value ++ sep ++ join sep rest

/-- The search goes on after an occurrence; `skip` is what is left of it. -/
def replaceFrom (old new : Bytes) : ℕ → Bytes → Bytes
  | _, [] => []
  | skip + 1, _ :: rest => replaceFrom old new skip rest
  | 0, a :: rest =>
    if hasPrefix (a :: rest) old then new ++ replaceFrom old new (old.length - 1) rest
    else a :: replaceFrom old new 0 rest

/-- strings.ReplaceAll for a text to replace that is not empty. -/
def replaceAll (old new : Bytes) : Bytes := replaceFrom old new 0 value

def asciiLowerByte (b : UInt8) : UInt8 := if 0x41 ≤ b ∧ b ≤ 0x5A then b + 0x20 else b

/-- strings.EqualFold against an ASCII text. Simple folding adds to the two
ASCII cases the long s (U+017F) and the Kelvin sign (U+212A). -/
def foldsTo (r : Option ℕ) (b : UInt8) : Bool :=
  match r with
  | none => false
  | some r =>
    r < 0x80 && asciiLowerByte (UInt8.ofNat r) = asciiLowerByte b ||
    r = 0x17F && asciiLowerByte b = 0x73 || r = 0x212A && asciiLowerByte b = 0x6B

def equalFold (pattern : Bytes) : Bool :=
  (runes value).length = pattern.length &&
    ((runes value).zip pattern).all fun p => foldsTo p.1 p.2

variable (values : List Bytes)

/-- The distinct members of a list in ascending order. -/
def sortedSet : List Bytes := values.dedup.insertionSort (· ≤ ·)

theorem mem_sortedSet (value : Bytes) : value ∈ sortedSet values ↔ value ∈ values := by
  simp [sortedSet]

theorem sortedSet_nodup : (sortedSet values).Nodup := by
  exact ((List.perm_insertionSort _ _).nodup_iff).mpr (List.nodup_dedup _)

/-- A property of bytes is checked on the 256 values. -/
theorem forall_byte (P : UInt8 → Prop) (h : ∀ i : Fin 256, P (UInt8.ofNat i.val)) (b : UInt8) :
    P b := by
  have hb := h ⟨b.toNat, b.toNat_lt⟩
  simpa using hb

theorem asciiLowerByte_lt : ∀ b : UInt8, b < 0x80 → asciiLowerByte b < 0x80 :=
  forall_byte _ (by decide +kernel)

variable (a s sep b : UInt8) (rest value : Bytes)

theorem decodeRune_ascii (ha : a < 0x80) : decodeRune (a :: rest) = some (a.toNat, 1) := by
  simp only [decodeRune, if_pos ha]

private theorem runesFrom_ascii (h : ∀ b ∈ value, b < 0x80) :
    runesFrom value.length value = value.map fun b => some b.toNat := by
  induction value with
  | nil => rfl
  | cons a rest ih =>
    have hrest := ih fun b hb => h b (List.mem_cons_of_mem a hb)
    simp only [List.length_cons, runesFrom, decodeRune_ascii a rest (h a List.mem_cons_self),
      List.drop_succ_cons, List.drop_zero, List.map_cons, hrest]

/-- ASCII text has one rune for each byte. -/
theorem runes_ascii (h : ∀ b ∈ value, b < 0x80) : runes value = value.map fun b => some b.toNat :=
  runesFrom_ascii value h

theorem encodeRune_toNat (hb : b < 0x80) : encodeRune b.toNat = [b] := by
  have hlt : b.toNat < 0x80 := UInt8.lt_iff_toNat_lt.mp hb
  simp only [encodeRune, if_pos hlt, UInt8.ofNat_toNat]

/-- A byte below 0x80 is no part of a longer white-space rune. -/
theorem space_of_lt {s : UInt8} (hs : s < 0x80) :
    (∀ a, space2 a s = false ∧ space2 s a = false) ∧
      ∀ a b, space3 a b s = false ∧ space3 a s b = false ∧ space3 s a b = false := by
  have hne : ∀ x : UInt8, 0x80 ≤ x → s ≠ x := by
    intro x hx heq
    exact absurd (heq ▸ hs) (UInt8.not_lt.mpr hx)
  have hlow : ¬ 0x80 ≤ s := UInt8.not_le.mpr hs
  refine ⟨fun a => ⟨?_, ?_⟩, fun a b => ⟨?_, ?_, ?_⟩⟩
  · simp [space2, hne 0x85 (by decide), hne 0xA0 (by decide)]
  · simp [space2, hne 0xC2 (by decide)]
  · simp [space3, hne 0x80 (by decide), hne 0xA8 (by decide), hne 0xA9 (by decide),
      hne 0xAF (by decide), hne 0x9F (by decide), hlow]
  · simp [space3, hne 0x9A (by decide), hne 0x80 (by decide), hne 0x81 (by decide)]
  · simp [space3, hne 0xE1 (by decide), hne 0xE2 (by decide), hne 0xE3 (by decide)]

theorem trimLeft_eq_self (ha : a < 0x80) (hspace : asciiSpace a = false) :
    trimLeft (a :: rest) = a :: rest := by
  obtain ⟨h2, h3⟩ := space_of_lt ha
  rcases rest with _ | ⟨b, _ | ⟨c, rest⟩⟩ <;> simp [trimLeft, hspace, h2, h3]

private theorem trimReversed_eq_self (ha : a < 0x80) (hspace : asciiSpace a = false) :
    trimReversed (a :: rest) = a :: rest := by
  obtain ⟨h2, h3⟩ := space_of_lt ha
  rcases rest with _ | ⟨b, _ | ⟨c, rest⟩⟩ <;> simp [trimReversed, hspace, h2, h3]

/-- A text that starts and ends in an ASCII character other than white space is
already trimmed. -/
theorem trimSpace_eq_self (hhead : ∀ b, value.head? = some b → b < 0x80 ∧ asciiSpace b = false)
    (hlast : ∀ b, value.getLast? = some b → b < 0x80 ∧ asciiSpace b = false) :
    trimSpace value = value := by
  have hleft : trimLeft value = value := by
    cases value with
    | nil => rfl
    | cons a rest =>
      obtain ⟨ha, hspace⟩ := hhead a rfl
      exact trimLeft_eq_self a rest ha hspace
  have hright : trimReversed value.reverse = value.reverse := by
    cases hrev : value.reverse with
    | nil => rfl
    | cons a rest =>
      obtain ⟨ha, hspace⟩ := hlast a (by rw [← List.head?_reverse, hrev]; rfl)
      exact trimReversed_eq_self a rest ha hspace
  rw [trimSpace, hleft, trimRight, hright, List.reverse_reverse]

theorem trimLeft_idem : trimLeft (trimLeft value) = trimLeft value := by
  fun_induction trimLeft value <;> simp_all [trimLeft]

private theorem trimReversed_idem : trimReversed (trimReversed value) = trimReversed value := by
  fun_induction trimReversed value <;> simp_all [trimReversed]

theorem trimRight_idem : trimRight (trimRight value) = trimRight value := by
  simp only [trimRight, List.reverse_reverse, trimReversed_idem]

/-- The byte is no white space and part of no white-space encoding. -/
def barrier : Prop := b < 0x80 ∧ asciiSpace b = false

/-- Trimming the start stops at the first barrier. -/
theorem trimLeft_append_barrier (hs : barrier s) (value rest : Bytes) :
    trimLeft (value ++ s :: rest) = trimLeft value ++ s :: rest := by
  obtain ⟨h2, h3⟩ := space_of_lt hs.1
  fun_induction trimLeft value with
  | case1 a b c tail ha ih | case5 a b ha ih => simpa [trimLeft, ha] using ih
  | case2 a b c tail ha hb ih => simpa [trimLeft, ha, hb] using ih
  | case3 a b c tail ha hb hc ih => simpa [trimLeft, ha, hb, hc] using ih
  | case4 a b c tail ha hb hc => simp [trimLeft, ha, hb, hc]
  | case6 a b ha hb => simpa [trimLeft, ha, hb] using trimLeft_eq_self s rest hs.1 hs.2
  | case7 a b ha hb => simp [trimLeft, ha, hb, h3]
  | case8 a ha =>
    have hself := trimLeft_eq_self s rest hs.1 hs.2
    cases rest <;> simpa [trimLeft, ha] using hself
  | case9 a ha => cases rest <;> simp [trimLeft, ha, h2, h3]
  | case10 => exact trimLeft_eq_self s rest hs.1 hs.2

private theorem trimReversed_append_barrier (hs : barrier s) (value rest : Bytes) :
    trimReversed (value ++ s :: rest) = trimReversed value ++ s :: rest := by
  obtain ⟨h2, h3⟩ := space_of_lt hs.1
  fun_induction trimReversed value with
  | case1 a b c tail ha ih | case5 a b ha ih => simpa [trimReversed, ha] using ih
  | case2 a b c tail ha hb ih => simpa [trimReversed, ha, hb] using ih
  | case3 a b c tail ha hb hc ih => simpa [trimReversed, ha, hb, hc] using ih
  | case4 a b c tail ha hb hc => simp [trimReversed, ha, hb, hc]
  | case6 a b ha hb => simpa [trimReversed, ha, hb] using trimReversed_eq_self s rest hs.1 hs.2
  | case7 a b ha hb => simp [trimReversed, ha, hb, h3]
  | case8 a ha =>
    have hself := trimReversed_eq_self s rest hs.1 hs.2
    cases rest <;> simpa [trimReversed, ha] using hself
  | case9 a ha => cases rest <;> simp [trimReversed, ha, h2, h3]
  | case10 => exact trimReversed_eq_self s rest hs.1 hs.2

theorem trimRight_append_barrier (hs : barrier s) (value : Bytes) :
    trimRight (value ++ [s]) = value ++ [s] := by
  have hreverse : (value ++ [s]).reverse = s :: value.reverse := by simp
  rw [trimRight, hreverse, trimReversed_eq_self s _ hs.1 hs.2, ← hreverse, List.reverse_reverse]

/-- Around a barrier the two ends are trimmed independently. -/
theorem trimSpace_around_barrier (hs : barrier s) (before after : Bytes) :
    trimSpace (before ++ s :: after) = trimLeft before ++ s :: trimRight after := by
  have hreverse : (trimLeft before ++ s :: after).reverse =
      after.reverse ++ s :: (trimLeft before).reverse := by
    simp
  rw [trimSpace, trimLeft_append_barrier s hs, trimRight, hreverse,
    trimReversed_append_barrier s hs, List.reverse_append, List.reverse_cons, List.reverse_reverse,
    List.append_assoc]
  rfl

theorem hasSuffix_singleton (b : UInt8) : hasSuffix value [b] ↔ value.getLast? = some b := by
  rw [hasSuffix, List.isSuffixOf_iff_suffix, List.getLast?_eq_some_iff]
  constructor
  · rintro ⟨start, rfl⟩
    exact ⟨start, rfl⟩
  · rintro ⟨start, rfl⟩
    exact ⟨start, rfl⟩

theorem trimSuffix_append (tail : Bytes) : trimSuffix (value ++ tail) tail = value := by
  have hsuffix : hasSuffix (value ++ tail) tail :=
    List.isSuffixOf_iff_suffix.mpr (List.suffix_append value tail)
  rw [trimSuffix, if_pos hsuffix, List.length_append, Nat.add_sub_cancel, List.take_left]

private theorem trimReversed_suffix : trimReversed value <:+ value := by
  fun_induction trimReversed value with
  | case1 a b c rest _ ih | case5 a b _ ih => exact ih.trans (List.suffix_cons a _)
  | case2 a b c rest _ _ ih => exact ih.trans ⟨[a, b], rfl⟩
  | case3 a b c rest _ _ _ ih => exact ih.trans ⟨[a, b, c], rfl⟩
  | case4 | case7 | case9 | case10 => exact List.suffix_rfl
  | case6 | case8 => exact List.nil_suffix

theorem trimRight_prefix_of : trimRight value <+: value := by
  have hsuffix := trimReversed_suffix value.reverse
  rw [trimRight]
  simpa using List.reverse_prefix.mpr hsuffix

private theorem trimLeft_suffix : trimLeft value <:+ value := by
  fun_induction trimLeft value with
  | case1 a b c rest _ ih | case5 a b _ ih => exact ih.trans (List.suffix_cons a _)
  | case2 a b c rest _ _ ih => exact ih.trans ⟨[a, b], rfl⟩
  | case3 a b c rest _ _ _ ih => exact ih.trans ⟨[a, b, c], rfl⟩
  | case4 | case7 | case9 | case10 => exact List.suffix_rfl
  | case6 | case8 => exact List.nil_suffix

theorem trimSpace_sublist : (trimSpace value).Sublist value :=
  (trimRight_prefix_of _).sublist.trans (trimLeft_suffix value).sublist

/-- Cutting at a byte that does not occur before. -/
theorem cut_append (before after : Bytes) (h : sep ∉ before) :
    cut sep (before ++ sep :: after) = some (before, after) := by
  induction before with
  | nil => simp [cut]
  | cons b rest ih =>
    simp only [List.mem_cons, not_or] at h
    have hne : ¬ b = sep := fun heq => h.1 heq.symm
    simp only [List.cons_append, cut, if_neg hne, ih h.2, Option.map_some]

theorem eq_append_of_cut (before after : Bytes) (h : cut sep value = some (before, after)) :
    value = before ++ sep :: after ∧ sep ∉ before := by
  induction value generalizing before with
  | nil => simp [cut] at h
  | cons b rest ih =>
    simp only [cut] at h
    by_cases hb : b = sep
    · simp only [if_pos hb] at h
      obtain ⟨rfl, rfl⟩ := h
      exact ⟨by simp [hb], by simp⟩
    · simp only [if_neg hb, Option.map_eq_some_iff] at h
      obtain ⟨⟨first, second⟩, hcut, heq⟩ := h
      obtain ⟨rfl, rfl⟩ := heq
      obtain ⟨hrest, hmem⟩ := ih first hcut
      refine ⟨by rw [hrest]; rfl, ?_⟩
      simp only [List.mem_cons, not_or]
      exact ⟨fun heq => hb heq.symm, hmem⟩

/-- The part after the last separator is unique. -/
theorem append_sep_inj (l l' r r' : Bytes) (hr : sep ∉ r) (hr' : sep ∉ r')
    (h : l ++ sep :: r = l' ++ sep :: r') : l = l' ∧ r = r' := by
  have hrev : r.reverse ++ sep :: l.reverse = r'.reverse ++ sep :: l'.reverse := by
    simpa using congrArg List.reverse h
  have hcut := cut_append sep r.reverse l.reverse (by simpa using hr)
  rw [hrev, cut_append sep r'.reverse l'.reverse (by simpa using hr')] at hcut
  simp only [Option.some.injEq, Prod.mk.injEq, List.reverse_inj] at hcut
  exact ⟨hcut.2.symm, hcut.1.symm⟩

theorem mem_split_of_mem (hb : b ∈ value) (hne : b ≠ sep) : ∃ part ∈ split sep value, b ∈ part := by
  induction value with
  | nil => simp at hb
  | cons a rest ih =>
    simp only [split]
    by_cases ha : a = sep
    · have hrest : b ∈ rest := by
        rcases List.mem_cons.mp hb with rfl | h
        · exact absurd ha hne
        · exact h
      obtain ⟨part, hpart, hmem⟩ := ih hrest
      exact ⟨part, by simp [ha, hpart], hmem⟩
    · simp only [if_neg ha]
      rcases hsplit : split sep rest with _ | ⟨first, more⟩
      · rcases List.mem_cons.mp hb with rfl | h
        · exact ⟨[b], by simp, by simp⟩
        · obtain ⟨part, hpart, -⟩ := ih h
          simp [hsplit] at hpart
      · rcases List.mem_cons.mp hb with rfl | h
        · exact ⟨b :: first, by simp, by simp⟩
        · obtain ⟨part, hpart, hmem⟩ := ih h
          rw [hsplit] at hpart
          rcases List.mem_cons.mp hpart with rfl | hmore
          · exact ⟨a :: part, by simp, List.mem_cons_of_mem a hmem⟩
          · exact ⟨part, by simp [hmore], hmem⟩

theorem split_ne_nil : split sep value ≠ [] := by
  cases value with
  | nil => simp [split]
  | cons a rest =>
    simp only [split]
    split
    · simp
    · split <;> simp

theorem split_append_sep (rest : Bytes) :
    split sep (value ++ sep :: rest) = split sep value ++ split sep rest := by
  induction value with
  | nil => simp [split]
  | cons a rest ih =>
    simp only [List.cons_append, split, ih]
    by_cases ha : a = sep
    · simp [if_pos ha]
    · simp only [if_neg ha]
      rcases hsplit : split sep rest with _ | ⟨first, more⟩
      · exact absurd hsplit (split_ne_nil sep rest)
      · rfl

/-- Text without a separator in front extends the first part. -/
theorem split_append_of_not_mem (start value : Bytes) (h : sep ∉ start) :
    ∃ first more, split sep value = first :: more ∧
      split sep (start ++ value) = (start ++ first) :: more := by
  induction start with
  | nil =>
    rcases hsplit : split sep value with _ | ⟨first, more⟩
    · exact absurd hsplit (split_ne_nil sep value)
    · exact ⟨first, more, rfl, hsplit⟩
  | cons b start ih =>
    simp only [List.mem_cons, not_or] at h
    obtain ⟨first, more, hvalue, hsplit⟩ := ih h.2
    refine ⟨first, more, hvalue, ?_⟩
    simp only [List.cons_append, split, if_neg (Ne.symm h.1), hsplit]

/-- Which parts are empty depends only on where the separators are. -/
theorem split_flatMap_isEmpty {α : Type*} (f g : α → Bytes) (xs : List α)
    (h : ∀ x ∈ xs, f x = [sep] ∧ g x = [sep] ∨ f x ≠ [] ∧ sep ∉ f x ∧ g x ≠ [] ∧ sep ∉ g x) :
    (split sep (xs.flatMap f)).map List.isEmpty = (split sep (xs.flatMap g)).map List.isEmpty := by
  induction xs with
  | nil => rfl
  | cons x xs ih =>
    have hrest := ih fun y hy => h y (List.mem_cons_of_mem x hy)
    rw [List.flatMap_cons, List.flatMap_cons]
    rcases h x List.mem_cons_self with ⟨hf, hg⟩ | ⟨hf, hfsep, hg, hgsep⟩
    · rw [hf, hg]
      simp only [List.singleton_append, split, if_true, List.map_cons, hrest]
    · obtain ⟨first, more, hsplit, heq⟩ := split_append_of_not_mem sep (f x) (xs.flatMap f) hfsep
      obtain ⟨first', more', hsplit', heq'⟩ :=
        split_append_of_not_mem sep (g x) (xs.flatMap g) hgsep
      rw [hsplit, hsplit'] at hrest
      have hfirst := List.isEmpty_eq_false_iff.mpr (List.append_ne_nil_of_left_ne_nil hf first)
      have hfirst' := List.isEmpty_eq_false_iff.mpr (List.append_ne_nil_of_left_ne_nil hg first')
      rw [heq, heq', List.map_cons, List.map_cons, (List.cons.inj hrest).2, hfirst, hfirst']

end MilterGuard.ByteStrings
