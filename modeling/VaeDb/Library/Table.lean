import Mathlib.Data.Nat.Notation
import VaeDb.Library.KeyedList

/-!
# Tables with a primary key

A table is a list of rows whose keys are distinct.  Seen through `find`, the one row with
a given key, it is a partial map, and that is how its statements are characterised:

* `select` reads the row with a key, if there is one;
* `delete` drops the rows that meet a condition;
* `insert` adds a row, unless its key is taken;
* `update` changes rows and leaves their keys alone.

`map` reads the rows as rows of another kind, and the statements go along with it.
-/

/-- A list of rows with distinct keys. -/
structure Table {Row Key : Type*} (key : Row → Key) where
  rows : List Row
  nodup : (rows.map key).Nodup

namespace Table

variable {Row Key : Type*} {key : Row → Key}

/-- The table without rows. -/
def empty : Table key := ⟨[], List.nodup_nil⟩

/-- Drop the rows that meet a condition. -/
def delete (table : Table key) (drop : Row → Bool) : Table key where
  rows := table.rows.filter fun row => !drop row
  nodup := table.nodup.sublist (List.filter_sublist.map key)

/-- Change the rows that meet a condition, but not their keys. -/
def update (table : Table key) (change : Row → Bool) (f : Row → Row)
    (hkey : ∀ row, key (f row) = key row) : Table key where
  rows := table.rows.map fun row => if change row then f row else row
  nodup := by
    have hkeys : ∀ row, key (if change row then f row else row) = key row := by
      intro row
      split
      · exact hkey row
      · rfl
    simpa [List.map_map, Function.comp_def, hkeys] using table.nodup

/-- Read each row as one of another kind with the same key. -/
def map {Row' : Type*} {key' : Row' → Key} (table : Table key) (f : Row → Row')
    (hkey : ∀ row, key' (f row) = key row) : Table key' where
  rows := table.rows.map f
  nodup := by simpa [Function.comp_def, hkey] using table.nodup

theorem eq_of_rows {table other : Table key} (h : table.rows = other.rows) : table = other := by
  cases table
  cases other
  cases h
  rfl

section

variable {Row' : Type*} {key' : Row' → Key} (table : Table key) {f : Row → Row'}
  (hkey : ∀ row, key' (f row) = key row)

theorem map_delete {drop : Row → Bool} {drop' : Row' → Bool}
    (hdrop : ∀ row, drop' (f row) = drop row) :
    (table.delete drop).map f hkey = (table.map f hkey).delete drop' := by
  refine eq_of_rows ?_
  unfold delete map
  simp only [List.filter_map, Function.comp_def, hdrop]

theorem map_update {change : Row → Bool} {g : Row → Row} {hg : ∀ row, key (g row) = key row}
    {change' : Row' → Bool} {g' : Row' → Row'} {hg' : ∀ row, key' (g' row) = key' row}
    (hchange : ∀ row, change' (f row) = change row) (hgf : ∀ row, g' (f row) = f (g row)) :
    (table.update change g hg).map f hkey = (table.map f hkey).update change' g' hg' := by
  refine eq_of_rows ?_
  unfold update map
  simp only [List.map_map]
  refine List.map_congr_left fun row _ => ?_
  simp only [Function.comp_apply, hchange, hgf]
  split <;> rfl

end

variable [DecidableEq Key]

/-- The rows with a key, in the order of the table. -/
def select (table : Table key) (k : Key) : List Row :=
  table.rows.filter fun row => key row = k

/-- The row with a key. -/
def find (table : Table key) (k : Key) : Option Row :=
  table.rows.find? fun row => key row = k

/-- Add a row, unless there is one with its key. -/
def insert (table : Table key) (row : Row) : Option (Table key) :=
  if h : key row ∉ table.rows.map key then
    some ⟨table.rows ++ [row], by
      rw [List.map_append]
      exact table.nodup.append (List.nodup_singleton _) (by simpa using h)⟩
  else none

/-! ## The table as a partial map -/

@[simp] theorem find_empty (k : Key) : (empty : Table key).find k = none := rfl

theorem key_of_find {table : Table key} {k : Key} {row : Row} (h : table.find k = some row) :
    key row = k := by
  simpa using List.find?_some h

/-- No other row has the key of a row. -/
theorem find_eq_some {table : Table key} {k : Key} {row : Row} :
    table.find k = some row ↔ row ∈ table.rows ∧ key row = k :=
  KeyedList.find?_eq_some table.nodup

/-- At most one row is selected by a key. -/
theorem select_eq (table : Table key) (k : Key) : table.select k = (table.find k).toList := by
  obtain ⟨rows, hnodup⟩ := table
  unfold select find
  induction rows with
  | nil => rfl
  | cons row rows ih =>
      rw [List.map_cons, List.nodup_cons] at hnodup
      by_cases hkey : key row = k
      · -- no later row has the key
        have hrest : rows.filter (fun row => key row = k) = [] := by
          refine List.filter_eq_nil_iff.2 fun other hother => ?_
          have hne : key other ≠ k := by
            intro hsame
            exact hnodup.1 (List.mem_map.2 ⟨other, hother, hsame.trans hkey.symm⟩)
          simpa using hne
        simp [hkey, hrest]
      · have hrest := ih hnodup.2
        simpa [hkey] using hrest

theorem find_delete (table : Table key) (drop : Row → Bool) (k : Key) :
    (table.delete drop).find k = (table.find k).filter fun row => !drop row := by
  refine Option.ext fun row => ?_
  rw [Option.filter_eq_some_iff, find_eq_some, find_eq_some]
  simp only [delete, List.mem_filter]
  constructor
  · rintro ⟨⟨hmem, hkeep⟩, hkey⟩
    exact ⟨⟨hmem, hkey⟩, hkeep⟩
  · rintro ⟨⟨hmem, hkey⟩, hkeep⟩
    exact ⟨⟨hmem, hkeep⟩, hkey⟩

/-- A row that does not meet the condition survives a `delete`. -/
theorem find_delete_of_keep {table : Table key} {drop : Row → Bool} {k : Key} {row : Row}
    (hfind : table.find k = some row) (hkeep : drop row = false) :
    (table.delete drop).find k = some row := by
  rw [find_delete, hfind, Option.filter_some_pos (by rw [hkeep]; rfl)]

/-- A row that meets it does not. -/
theorem find_delete_of_drop {table : Table key} {drop : Row → Bool} {k : Key} {row : Row}
    (hfind : table.find k = some row) (hdrop : drop row = true) :
    (table.delete drop).find k = none := by
  rw [find_delete, hfind, Option.filter_some_neg (by rw [hdrop]; rfl)]

theorem find_delete_of_none {table : Table key} {drop : Row → Bool} {k : Key}
    (hfind : table.find k = none) : (table.delete drop).find k = none := by
  rw [find_delete, hfind, Option.filter_none]

theorem find_update (table : Table key) (change : Row → Bool) (f : Row → Row)
    (hkey : ∀ row, key (f row) = key row) (k : Key) :
    (table.update change f hkey).find k =
      (table.find k).map fun row => if change row then f row else row := by
  have hkeys : ∀ row, key (if change row then f row else row) = key row := by
    intro row
    split
    · exact hkey row
    · rfl
  unfold find update
  rw [List.find?_map]
  simp only [Function.comp_def, hkeys]

/-- Which keys a row can be inserted under, and what it changes. -/
theorem insert_eq_some {table next : Table key} {row : Row} (h : table.insert row = some next)
    (k : Key) : next.find k = if k = key row then some row else table.find k := by
  unfold insert at h
  split at h
  · next hfree =>
    obtain rfl := Option.some.inj h
    by_cases hk : k = key row
    · subst hk
      rw [if_pos rfl, find_eq_some]
      simp
    · rw [if_neg hk]
      unfold find
      rw [List.find?_append]
      simp [Ne.symm hk]
  · cases h

theorem insert_isSome {table : Table key} {row : Row} (h : table.find (key row) = none) :
    (table.insert row).isSome := by
  have hfree : key row ∉ table.rows.map key := by
    intro hmem
    obtain ⟨other, hother, hkey⟩ := List.mem_map.1 hmem
    have hnone := List.find?_eq_none.1 h other hother
    simp [hkey] at hnone
  rw [insert, dif_pos hfree]
  rfl

/-- A taken key keeps a row out. -/
theorem insert_eq_none {table : Table key} {row other : Row}
    (h : table.find (key row) = some other) : table.insert row = none := by
  obtain ⟨hmem, hkey⟩ := find_eq_some.1 h
  have htaken : key row ∈ table.rows.map key := List.mem_map.2 ⟨other, hmem, hkey⟩
  rw [insert, dif_neg (not_not.2 htaken)]

/-! ## Rows of another kind -/

section

variable {Row' : Type*} {key' : Row' → Key} (table : Table key) {f : Row → Row'}
  (hkey : ∀ row, key' (f row) = key row)

theorem select_map (k : Key) : (table.map f hkey).select k = (table.select k).map f := by
  unfold select map
  rw [List.filter_map]
  simp only [Function.comp_def, hkey]

theorem map_insert (row : Row) :
    (table.map f hkey).insert (f row) =
      (table.insert row).map fun inserted => inserted.map f hkey := by
  have hkeys : (table.map f hkey).rows.map key' = table.rows.map key := by
    simp [map, Function.comp_def, hkey]
  unfold insert
  by_cases hfree : key row ∈ table.rows.map key
  · rw [dif_neg (by rw [hkeys, hkey]; exact not_not.2 hfree), dif_neg (not_not.2 hfree)]
    rfl
  · rw [dif_pos (by rw [hkeys, hkey]; exact hfree), dif_pos hfree, Option.map_some]
    exact congrArg some (eq_of_rows (by simp [map]))

end

end Table
