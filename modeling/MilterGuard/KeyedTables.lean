import Mathlib.Data.List.Sort

/-!
Tables with a unique key. Every change of a table is described by what it does to
the value of each key, and a listing in the order of the keys depends on those
values only.
-/
namespace MilterGuard.KeyedTables

structure Table (κ α : Type) where
  rows : List (κ × α)
  unique : (rows.map Prod.fst).Nodup

variable {κ α β : Type}

namespace Table

def empty : Table κ α := ⟨[], List.nodup_nil⟩

private theorem keys_filterMap_sublist (f : κ → α → Option β) (rows : List (κ × α)) :
    ((rows.filterMap fun row => (f row.1 row.2).map (row.1, ·)).map Prod.fst).Sublist
      (rows.map Prod.fst) := by
  induction rows with
  | nil => exact List.Sublist.slnil
  | cons row rest ih =>
    rw [List.filterMap_cons]
    cases f row.1 row.2 with
    | none => exact ih.cons row.1
    | some value => exact ih.cons_cons row.1

variable (table : Table κ α)

/-- Changes or removes each row. -/
def edit (f : κ → α → Option α) : Table κ α where
  rows := table.rows.filterMap fun row => (f row.1 row.2).map (row.1, ·)
  unique := (keys_filterMap_sublist f table.rows).nodup table.unique

/-- What the rows give under a key and value, with the keys. -/
def selected (f : κ → α → Option β) : List (κ × β) :=
  table.rows.filterMap fun row => (f row.1 row.2).map (row.1, ·)

theorem selected_keys_nodup (f : κ → α → Option β) : ((table.selected f).map Prod.fst).Nodup :=
  (keys_filterMap_sublist f table.rows).nodup table.unique

/-- Removes the row at a position. -/
def eraseAt (position : ℕ) : Table κ α where
  rows := table.rows.eraseIdx position
  unique := ((List.eraseIdx_sublist table.rows position).map Prod.fst).nodup table.unique

variable [DecidableEq κ]

def get (table : Table κ α) (key : κ) : Option α :=
  (table.rows.find? fun row => row.1 = key).map Prod.snd

variable (f : α → β) (table : Table κ α) (key : κ) (value : α)

theorem get_eq_some_iff : table.get key = some value ↔ (key, value) ∈ table.rows := by
  obtain ⟨rows, unique⟩ := table
  simp only [get]
  induction rows with
  | nil => simp
  | cons row rest ih =>
    obtain ⟨first, stored⟩ := row
    rw [List.map_cons, List.nodup_cons] at unique
    by_cases hkey : first = key
    · subst hkey
      have hrest : (first, value) ∉ rest := fun hmem =>
        unique.1 (List.mem_map.mpr ⟨_, hmem, rfl⟩)
      simp [hrest, eq_comm]
    · simp [hkey, Ne.symm hkey, ih unique.2]

theorem get_eq_none_iff : table.get key = none ↔ key ∉ table.rows.map Prod.fst := by
  simp only [get, Option.map_eq_none_iff, List.find?_eq_none, decide_eq_true_eq, List.mem_map,
    not_exists, not_and]

theorem get_edit (f : κ → α → Option α) (key : κ) :
    (table.edit f).get key = (table.get key).bind (f key) := by
  refine Option.ext fun value => ?_
  rw [get_eq_some_iff, Option.bind_eq_some_iff]
  simp only [edit, List.mem_filterMap, Option.map_eq_some_iff, Prod.mk.injEq]
  constructor
  · rintro ⟨⟨k, stored⟩, hmem, new, hnew, rfl, rfl⟩
    exact ⟨stored, (table.get_eq_some_iff k stored).mpr hmem, hnew⟩
  · rintro ⟨stored, hstored, hnew⟩
    exact ⟨(key, stored), (table.get_eq_some_iff key stored).mp hstored, value, hnew, rfl, rfl⟩

def erase (table : Table κ α) (key : κ) : Table κ α :=
  table.edit fun k value => if k = key then none else some value

theorem get_erase (other : κ) :
    (table.erase key).get other = if other = key then none else table.get other := by
  rw [erase, get_edit]
  split_ifs <;> simp

/-- Replaces the value of a key, or adds a row at the end. -/
def put : Table κ α :=
  if hold : key ∈ table.rows.map Prod.fst then
    table.edit fun k old => some (if k = key then value else old)
  else
    { rows := table.rows ++ [(key, value)]
      unique := by
        rw [List.map_append, List.nodup_append]
        refine ⟨table.unique, by simp, ?_⟩
        intro k hk other hother heq
        obtain rfl : other = key := by simpa using hother
        exact hold (heq ▸ hk) }

theorem get_put (other : κ) (value : α) :
    (table.put key value).get other = if other = key then some value else table.get other := by
  unfold put
  split
  · rename_i hold
    rw [get_edit]
    by_cases hother : other = key
    · subst hother
      obtain ⟨stored, hstored⟩ := Option.ne_none_iff_exists'.mp
        fun hnone => (table.get_eq_none_iff other).mp hnone hold
      simp [hstored]
    · simp [hother]
  · refine Option.ext fun stored => ?_
    rename_i hnew
    rw [get_eq_some_iff]
    by_cases hother : other = key
    · subst hother
      have habsent : (other, stored) ∉ table.rows := fun hmem =>
        hnew (List.mem_map.mpr ⟨_, hmem, rfl⟩)
      simp [habsent, eq_comm]
    · simp [hother, get_eq_some_iff]

/-- Edits that agree on the rows of the table. -/
theorem edit_congr {f g : κ → α → Option α}
    (h : ∀ key value, table.get key = some value → f key value = g key value) :
    table.edit f = table.edit g := by
  simp only [edit, Table.mk.injEq]
  apply List.filterMap_congr
  rintro ⟨key, value⟩ hrow
  rw [h key value ((table.get_eq_some_iff key value).mpr hrow)]

omit [DecidableEq κ] in
theorem edit_some : (table.edit fun _ value => some value) = table := by
  simp [edit]

theorem put_of_get {table : Table κ α} {key : κ} {old : α} (h : table.get key = some old)
    (value : α) :
    table.put key value = table.edit fun k stored => some (if k = key then value else stored) := by
  have hold : key ∈ table.rows.map Prod.fst :=
    List.mem_map.mpr ⟨_, (table.get_eq_some_iff key old).mp h, rfl⟩
  unfold put
  rw [dif_pos hold]

omit [DecidableEq κ] in
theorem length_edit_le (f : κ → α → Option α) :
    (table.edit f).rows.length ≤ table.rows.length := List.length_filterMap_le _ _

theorem length_put_le : (table.put key value).rows.length ≤ table.rows.length + 1 := by
  unfold put
  split
  · exact Nat.le_succ_of_le (length_edit_le _ _)
  · simp

/-- The table with another representation of its values. -/
def map : Table κ β where
  rows := table.rows.map fun row => (row.1, f row.2)
  unique := by simpa [Function.comp_def] using table.unique

omit [DecidableEq κ] in
/-- An edit that respects the representation. -/
theorem edit_map {f : α → β} {g : κ → β → Option β} {g' : κ → α → Option α}
    (h : ∀ key value, g key (f value) = (g' key value).map f) :
    (table.map f).edit g = (table.edit g').map f := by
  simp only [edit, map, Table.mk.injEq, List.filterMap_map, List.map_filterMap]
  congr 1
  funext row
  simp only [Function.comp_apply, h, Option.map_map]
  rfl

theorem get_map : (table.map f).get key = (table.get key).map f := by
  simp [get, map, Function.comp_def]

theorem erase_map : (table.map f).erase key = (table.erase key).map f := by
  refine edit_map table fun k value => ?_
  split_ifs <;> rfl

theorem put_map : (table.map f).put key (f value) = (table.put key value).map f := by
  have hkeys : (table.map f).rows.map Prod.fst = table.rows.map Prod.fst := by
    simp [map]
  unfold put
  by_cases hold : key ∈ table.rows.map Prod.fst
  · rw [dif_pos hold, dif_pos (hkeys ▸ hold)]
    refine edit_map table fun k old => ?_
    split_ifs <;> rfl
  · rw [dif_neg hold, dif_neg (hkeys ▸ hold)]
    simp [map]

omit [DecidableEq κ] in
/-- Changes the chosen rows. -/
def updateWhere (table : Table κ α) (chosen : κ → α → Bool) (change : α → α) : Table κ α :=
  table.edit fun key value => some (if chosen key value then change value else value)

theorem get_updateWhere (chosen : κ → α → Bool) (change : α → α) (key : κ) :
    (table.updateWhere chosen change).get key =
      (table.get key).map fun value => if chosen key value then change value else value := by
  rw [updateWhere, get_edit]
  cases table.get key <;> rfl

omit [DecidableEq κ] in
/-- Removes the chosen rows. -/
def deleteWhere (table : Table κ α) (chosen : κ → α → Bool) : Table κ α :=
  table.edit fun key value => if chosen key value then none else some value

theorem get_deleteWhere (chosen : κ → α → Bool) (key : κ) :
    (table.deleteWhere chosen).get key = (table.get key).filter fun value => !chosen key value := by
  rw [deleteWhere, get_edit]
  cases table.get key with
  | none => rfl
  | some value => cases hchosen : chosen key value <;> simp [Option.filter, hchosen]

/-- Adds a row for each of the keys that has none. The keys that were added come first. -/
def insertMissing (new : Table κ α → α) : List κ → Table κ α → List κ × Table κ α
  | [], table => ([], table)
  | key :: rest, table =>
    match table.get key with
    | some _ => insertMissing new rest table
    | none =>
      let others := insertMissing new rest (table.put key (new table))
      (key :: others.1, others.2)

section InsertMissing

variable {new : Table κ α → α} {keys : List κ} {table : Table κ α} {key : κ}

theorem get_insertMissing_of_some {value : α} (h : table.get key = some value) :
    (insertMissing new keys table).2.get key = some value := by
  induction keys generalizing table with
  | nil => exact h
  | cons first rest ih =>
    unfold insertMissing
    cases hfirst : table.get first with
    | some _ => exact ih h
    | none =>
      apply ih
      rw [get_put, if_neg, h]
      rintro rfl
      simp [hfirst] at h

theorem get_insertMissing_of_none (h : table.get key = none) :
    (key ∉ keys → (insertMissing new keys table).2.get key = none) ∧
      (key ∈ keys → ∃ before, (insertMissing new keys table).2.get key = some (new before)) := by
  induction keys generalizing table with
  | nil => exact ⟨fun _ => h, fun hmem => absurd hmem (by simp)⟩
  | cons first rest ih =>
    unfold insertMissing
    by_cases hkey : key = first
    · subst hkey
      rw [h]
      refine ⟨fun hmem => absurd (List.mem_cons_self) hmem, fun _ => ⟨table, ?_⟩⟩
      exact get_insertMissing_of_some (by rw [get_put, if_pos rfl])
    · have hrest : key ∈ first :: rest ↔ key ∈ rest := by simp [hkey]
      rw [hrest]
      cases hfirst : table.get first with
      | some _ => exact ih h
      | none => exact ih (by rw [get_put, if_neg hkey, h])

theorem mem_insertMissing :
    key ∈ (insertMissing new keys table).1 ↔ key ∈ keys ∧ table.get key = none := by
  induction keys generalizing table with
  | nil => simp [insertMissing]
  | cons first rest ih =>
    unfold insertMissing
    cases hfirst : table.get first with
    | some value =>
      simp only [ih, List.mem_cons]
      constructor
      · rintro ⟨hmem, hnone⟩
        exact ⟨Or.inr hmem, hnone⟩
      · rintro ⟨rfl | hmem, hnone⟩
        · simp [hfirst] at hnone
        · exact ⟨hmem, hnone⟩
    | none =>
      simp only [List.mem_cons, ih, get_put]
      constructor
      · rintro (rfl | ⟨hmem, hnone⟩)
        · exact ⟨Or.inl rfl, hfirst⟩
        · split_ifs at hnone
          exact ⟨Or.inr hmem, hnone⟩
      · rintro ⟨rfl | hmem, hnone⟩
        · exact Or.inl rfl
        · by_cases hkey : key = first
          · exact Or.inl hkey
          · exact Or.inr ⟨hmem, by rw [if_neg hkey, hnone]⟩

end InsertMissing

theorem mem_selected (table : Table κ α) (f : κ → α → Option β) (row : κ × β) :
    row ∈ table.selected f ↔ (table.get row.1).bind (f row.1) = some row.2 := by
  obtain ⟨key, value⟩ := row
  rw [Option.bind_eq_some_iff]
  simp [selected, get_eq_some_iff]

/-- Tables that agree on what is selected for each key select the same rows. -/
theorem selected_perm {table other : Table κ α} (f : κ → α → Option β)
    (h : ∀ key, (table.get key).bind (f key) = (other.get key).bind (f key)) :
    (table.selected f).Perm (other.selected f) := by
  apply (List.perm_ext_iff_of_nodup (table.selected_keys_nodup f).of_map
    (other.selected_keys_nodup f).of_map).mpr
  intro row
  rw [mem_selected, mem_selected, h]

/-- What is listed for a row, in the order of the keys. -/
def listed [LE κ] [DecidableLE κ] (table : Table κ α) (f : α → Option β) : List (κ × β) :=
  (table.rows.filterMap fun row => (f row.2).map (row.1, ·)).mergeSort fun a b => a.1 ≤ b.1

/-- Tables that agree on what is listed for each key have the same listing. -/
theorem listed_congr [LE κ] [DecidableLE κ] [Std.IsLinearOrder κ] {table other : Table κ α}
    (f : α → Option β) (h : ∀ key, (table.get key).bind f = (other.get key).bind f) :
    table.listed f = other.listed f := by
  have hsorted : ∀ t : Table κ α, (t.listed f).Pairwise fun a b => decide (a.1 ≤ b.1) = true :=
    fun t => List.pairwise_mergeSort
      (fun a b c hab hbc => by simpa using Std.le_trans (by simpa using hab) (by simpa using hbc))
      (fun a b => by simpa using Std.le_total) _
  have hlisted : (table.listed f).Perm (other.listed f) :=
    (List.mergeSort_perm _ _).trans
      ((selected_perm (fun _ => f) h).trans (List.mergeSort_perm _ _).symm)
  refine hlisted.eq_of_pairwise ?_ (hsorted table) (hsorted other)
  intro a b ha hb hab hba
  have hkey : a.1 = b.1 := Std.le_antisymm (by simpa using hab) (by simpa using hba)
  have hb' : b ∈ table.listed f := hlisted.mem_iff.mpr hb
  rw [listed, List.mem_mergeSort] at ha hb'
  exact List.inj_on_of_nodup_map (table.selected_keys_nodup fun _ => f) ha hb' hkey

end Table

end MilterGuard.KeyedTables
