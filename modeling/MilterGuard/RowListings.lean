import Mathlib.Data.List.Sort
import Mathlib.Data.List.Nodup

/-!
Rows with a generated id, a key and a content. Two lists of rows are the same up to
ids when they have the same contents, and they are aligned when in addition their ids
put the keys in the same order. A listing that sorts by a rank of the content and
then by the id shows the same contents for aligned lists.
-/
namespace MilterGuard.RowListings

variable {α κ γ : Type}

/-- The order of a listing by descending rank and then by descending id. -/
def newestFirst (id : α → ℕ) (rank : α → ℤ) (a b : α) : Prop :=
  rank b < rank a ∨ rank a = rank b ∧ id b ≤ id a

instance (id : α → ℕ) (rank : α → ℤ) : DecidableRel (newestFirst id rank) := fun a b =>
  inferInstanceAs (Decidable (rank b < rank a ∨ rank a = rank b ∧ id b ≤ id a))

instance (id : α → ℕ) (rank : α → ℤ) : Std.Total (newestFirst id rank) where
  total a b := by
    unfold newestFirst
    omega

instance (id : α → ℕ) (rank : α → ℤ) : IsTrans α (newestFirst id rank) where
  trans a b c hab hbc := by
    unfold newestFirst at hab hbc ⊢
    omega

theorem eq_of_newestFirst {id : α → ℕ} {rank : α → ℤ} {a b : α} (hab : newestFirst id rank a b)
    (hba : newestFirst id rank b a) : id a = id b := by
  unfold newestFirst at hab hba
  omega

/-- Sorting shows the same contents for two lists whose orders correspond. -/
theorem insertionSort_map_eq (content : α → γ) (le : α → α → Prop) [DecidableRel le]
    [Std.Total le] [IsTrans α le] {rows rows' : List α} (hnodup : (rows.map content).Nodup)
    (hperm : (rows.map content).Perm (rows'.map content))
    (horder : ∀ a ∈ rows, ∀ b ∈ rows, ∀ a' ∈ rows', ∀ b' ∈ rows',
      content a = content a' → content b = content b' → le a' b' → le a b)
    (hanti : ∀ a ∈ rows, ∀ b ∈ rows, le a b → le b a → a = b) :
    (rows.insertionSort le).map content = (rows'.insertionSort le).map content := by
  -- the order of the first list, carried over to the contents
  let order : γ → γ → Prop := fun c d =>
    ∃ a ∈ rows, ∃ b ∈ rows, content a = c ∧ content b = d ∧ le a b
  have hsorted : ((rows.insertionSort le).map content).Pairwise order := by
    rw [List.pairwise_map]
    refine (List.pairwise_insertionSort le rows).imp_of_mem ?_
    intro a b ha hb hab
    exact ⟨a, (List.mem_insertionSort le).mp ha, b, (List.mem_insertionSort le).mp hb, rfl, rfl,
      hab⟩
  have hsorted' : ((rows'.insertionSort le).map content).Pairwise order := by
    rw [List.pairwise_map]
    refine (List.pairwise_insertionSort le rows').imp_of_mem ?_
    intro a' b' ha' hb' hab
    rw [List.mem_insertionSort] at ha' hb'
    obtain ⟨a, ha, hca⟩ := List.mem_map.mp (hperm.mem_iff.mpr (List.mem_map_of_mem ha'))
    obtain ⟨b, hb, hcb⟩ := List.mem_map.mp (hperm.mem_iff.mpr (List.mem_map_of_mem hb'))
    exact ⟨a, ha, b, hb, hca, hcb, horder a ha b hb a' ha' b' hb' hca hcb hab⟩
  have hsame : ((rows.insertionSort le).map content).Perm
      ((rows'.insertionSort le).map content) :=
    ((List.perm_insertionSort le rows).map content).trans
      (hperm.trans ((List.perm_insertionSort le rows').map content).symm)
  refine hsame.eq_of_pairwise ?_ hsorted hsorted'
  rintro c d - - ⟨a, ha, b, hb, rfl, rfl, hab⟩ ⟨b', hb', a', ha', hcb, hca, hba⟩
  obtain rfl := List.inj_on_of_nodup_map hnodup ha' ha hca
  obtain rfl := List.inj_on_of_nodup_map hnodup hb' hb hcb
  exact congrArg content (hanti a' ha b' hb hab hba)

def SameContent (content : α → γ) (rows rows' : List α) : Prop :=
  ∀ c, c ∈ rows.map content ↔ c ∈ rows'.map content

variable {content : α → γ} {rows rows' : List α}

section

variable (h : SameContent content rows rows')

include h

theorem SameContent.exists_left {a : α} (ha : a ∈ rows') : ∃ b ∈ rows, content b = content a :=
  List.mem_map.mp ((h _).mpr (List.mem_map_of_mem ha))

omit h in
theorem SameContent.symm (h : SameContent content rows rows') :
    SameContent content rows' rows := fun c => (h c).symm

theorem SameContent.perm (hrows : (rows.map content).Nodup) (hrows' : (rows'.map content).Nodup) :
    (rows.map content).Perm (rows'.map content) :=
  (List.perm_ext_iff_of_nodup hrows hrows').mpr h

omit h in
theorem SameContent.length_eq (h : SameContent content rows rows')
    (hrows : (rows.map content).Nodup) (hrows' : (rows'.map content).Nodup) :
    rows.length = rows'.length := by
  simpa using (h.perm hrows hrows').length_eq

omit h in
/-- What is computed from contents is the same for lists with the same contents. -/
theorem map_eq_of_content {β : Type} {f : α → β}
    (hf : ∀ a b, content a = content b → f a = f b)
    (h : rows.map content = rows'.map content) : rows.map f = rows'.map f := by
  rw [← List.forall₂_eq_eq_eq, List.forall₂_map_left_iff, List.forall₂_map_right_iff] at h ⊢
  exact h.imp hf

private theorem mem_filter_of_same {chosen : α → Bool}
    (hchosen : ∀ a b, content a = content b → chosen a = chosen b) {c : γ}
    (hc : c ∈ (rows.filter chosen).map content) : c ∈ (rows'.filter chosen).map content := by
  obtain ⟨a, ha, rfl⟩ := List.mem_map.mp hc
  obtain ⟨ha, hchosenA⟩ := List.mem_filter.mp ha
  obtain ⟨b, hb, hcontent⟩ := h.symm.exists_left ha
  refine List.mem_map.mpr ⟨b, List.mem_filter.mpr ⟨hb, ?_⟩, hcontent⟩
  rw [hchosen b a hcontent]
  exact hchosenA

theorem SameContent.filter (chosen : α → Bool)
    (hchosen : ∀ a b, content a = content b → chosen a = chosen b) :
    SameContent content (rows.filter chosen) (rows'.filter chosen) := fun _ =>
  ⟨mem_filter_of_same h hchosen, mem_filter_of_same h.symm hchosen⟩

private theorem mem_map_of_same {g : α → α}
    (hg : ∀ a b, content a = content b → content (g a) = content (g b)) {c : γ}
    (hc : c ∈ (rows.map g).map content) : c ∈ (rows'.map g).map content := by
  simp only [List.map_map, List.mem_map] at hc ⊢
  obtain ⟨a, ha, rfl⟩ := hc
  obtain ⟨b, hb, hcontent⟩ := h.symm.exists_left ha
  exact ⟨b, hb, hg b a hcontent⟩

theorem SameContent.map (g : α → α)
    (hg : ∀ a b, content a = content b → content (g a) = content (g b)) :
    SameContent content (rows.map g) (rows'.map g) := fun _ =>
  ⟨mem_map_of_same h hg, mem_map_of_same h.symm hg⟩

theorem SameContent.append {a a' : α} (hcontent : content a = content a') :
    SameContent content (rows ++ [a]) (rows' ++ [a']) := by
  intro c
  simp only [List.map_append, List.map_cons, List.mem_append, hcontent, h c]

end

/-- The same contents, and the ids put the keys in the same order. -/
structure Aligned (id : α → ℕ) (key : α → κ) (content : α → γ) (rows rows' : List α) : Prop where
  same : SameContent content rows rows'
  order : ∀ a ∈ rows, ∀ b ∈ rows, ∀ a' ∈ rows', ∀ b' ∈ rows', key a = key a' → key b = key b' →
    (id a ≤ id b ↔ id a' ≤ id b')

variable {id : α → ℕ} {key : α → κ}

theorem Aligned.filter (h : Aligned id key content rows rows') (chosen : α → Bool)
    (hchosen : ∀ a b, content a = content b → chosen a = chosen b) :
    Aligned id key content (rows.filter chosen) (rows'.filter chosen) where
  same := h.same.filter chosen hchosen
  order a ha b hb a' ha' b' hb' := h.order a (List.mem_filter.mp ha).1 b (List.mem_filter.mp hb).1
    a' (List.mem_filter.mp ha').1 b' (List.mem_filter.mp hb').1

theorem Aligned.map (h : Aligned id key content rows rows') (g : α → α)
    (hg : ∀ a b, content a = content b → content (g a) = content (g b))
    (hid : ∀ a, id (g a) = id a) (hkey : ∀ a, key (g a) = key a) :
    Aligned id key content (rows.map g) (rows'.map g) where
  same := h.same.map g hg
  order := by
    intro x hx y hy x' hx' y' hy'
    obtain ⟨a, ha, rfl⟩ := List.mem_map.mp hx
    obtain ⟨b, hb, rfl⟩ := List.mem_map.mp hy
    obtain ⟨a', ha', rfl⟩ := List.mem_map.mp hx'
    obtain ⟨b', hb', rfl⟩ := List.mem_map.mp hy'
    simpa only [hid, hkey] using h.order a ha b hb a' ha' b' hb'

/-- New rows with a key of their own and the largest ids keep lists aligned. -/
theorem Aligned.append (h : Aligned id key content rows rows') {a a' : α}
    (hcontent : content a = content a') (hkey : key a = key a') (hnew : key a ∉ rows.map key)
    (hnew' : key a ∉ rows'.map key) (hid : ∀ b ∈ rows, id b < id a)
    (hid' : ∀ b ∈ rows', id b < id a') :
    Aligned id key content (rows ++ [a]) (rows' ++ [a']) where
  same := h.same.append hcontent
  order := by
    -- a row and its partner are both old or both new, since the key is new
    have hpair : ∀ x ∈ rows ++ [a], ∀ x' ∈ rows' ++ [a'], key x = key x' →
        x ∈ rows ∧ x' ∈ rows' ∨ x = a ∧ x' = a' := by
      intro x hx x' hx' hxkey
      simp only [List.mem_append, List.mem_singleton] at hx hx'
      rcases hx with hx | rfl <;> rcases hx' with hx' | rfl
      · exact Or.inl ⟨hx, hx'⟩
      · exact absurd (List.mem_map.mpr ⟨x, hx, hxkey.trans hkey.symm⟩) hnew
      · exact absurd (List.mem_map.mpr ⟨x', hx', hxkey.symm⟩) hnew'
      · exact Or.inr ⟨rfl, rfl⟩
    intro x hx y hy x' hx' y' hy' hxkey hykey
    rcases hpair x hx x' hx' hxkey with ⟨hold, hold'⟩ | ⟨rfl, rfl⟩ <;>
      rcases hpair y hy y' hy' hykey with ⟨hother, hother'⟩ | ⟨rfl, rfl⟩
    · exact h.order x hold y hother x' hold' y' hother' hxkey hykey
    · exact iff_of_true (hid x hold).le (hid' x' hold').le
    · exact iff_of_false (hid y hother).not_ge (hid' y' hother').not_ge
    · exact iff_of_true le_rfl le_rfl

/-- Aligned lists give listings with the same contents. -/
theorem Aligned.listing (h : Aligned id key content rows rows') {rank : α → ℤ}
    (hkey : ∀ a b, content a = content b → key a = key b)
    (hrank : ∀ a b, content a = content b → rank a = rank b)
    (hids : (rows.map id).Nodup) (hrows : (rows.map content).Nodup)
    (hrows' : (rows'.map content).Nodup) :
    (rows.insertionSort (newestFirst id rank)).map content =
      (rows'.insertionSort (newestFirst id rank)).map content := by
  refine insertionSort_map_eq content _ hrows (h.same.perm hrows hrows') ?_ ?_
  · intro a ha b hb a' ha' b' hb' hca hcb hle
    have hids := h.order b hb a ha b' hb' a' ha' (hkey b b' hcb) (hkey a a' hca)
    unfold newestFirst at hle ⊢
    rw [hrank a a' hca, hrank b b' hcb, hids]
    exact hle
  · intro a ha b hb hab hba
    exact List.inj_on_of_nodup_map hids ha hb (eq_of_newestFirst hab hba)

end MilterGuard.RowListings
