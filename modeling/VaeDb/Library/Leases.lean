import Mathlib.Data.Int.Notation
import VaeDb.Library.Table

/-!
# Rows with a deadline

A row of a table may be there for a while only: it has a deadline, and a sweep deletes rows that
are past theirs.  A row `Lasts` until a time if its deadline is no earlier.  No sweep before that
time deletes it, and neither does a statement that is about other rows; an `insert` under its key
fails as long as it is there.
-/

namespace Leases

variable {Row Key : Type*} {key : Row → Key} [DecidableEq Key] {deadline : Row → ℤ}
  {P : Row → Prop} {table next : Table key} {k : Key} {time : ℤ}

/-- The row under a key meets a condition, and its deadline is not before a time. -/
def Lasts (deadline : Row → ℤ) (P : Row → Prop) (table : Table key) (k : Key) (time : ℤ) : Prop :=
  ∃ row, table.find k = some row ∧ P row ∧ time ≤ deadline row

namespace Lasts

theorem mono (h : Lasts deadline P table k time) {earlier : ℤ} (hle : earlier ≤ time) :
    Lasts deadline P table k earlier := by
  obtain ⟨row, hfind, hrow, htime⟩ := h
  exact ⟨row, hfind, hrow, by omega⟩

/-- A `delete` of other rows. -/
theorem delete (h : Lasts deadline P table k time) {drop : Row → Bool}
    (hkeep : ∀ row, key row = k → P row → time ≤ deadline row → drop row = false) :
    Lasts deadline P (table.delete drop) k time := by
  obtain ⟨row, hfind, hrow, htime⟩ := h
  have hdrop := hkeep row (Table.key_of_find hfind) hrow htime
  exact ⟨row, Table.find_delete_of_keep hfind hdrop, hrow, htime⟩

/-- A sweep deletes what is past its deadline. -/
theorem sweep (h : Lasts deadline P table k time) {drop : Row → Bool} {now : ℤ}
    (hdrop : ∀ row, drop row = true → deadline row < now) (hnow : now ≤ time) :
    Lasts deadline P (table.delete drop) k time := by
  refine h.delete fun row _ _ htime => Bool.eq_false_iff.2 fun hover => ?_
  have := hdrop row hover
  omega

/-- An `update` of other rows, or one that puts the deadline off. -/
theorem update (h : Lasts deadline P table k time) {change : Row → Bool} {f : Row → Row}
    {hkey : ∀ row, key (f row) = key row}
    (hkeep : ∀ row, key row = k → P row → change row = true →
      P (f row) ∧ time ≤ deadline (f row)) :
    Lasts deadline P (table.update change f hkey) k time := by
  obtain ⟨row, hfind, hrow, htime⟩ := h
  refine ⟨if change row then f row else row, ?_, ?_⟩
  · rw [Table.find_update, hfind, Option.map_some]
  · split
    · next hchange => exact hkeep row (Table.key_of_find hfind) hrow hchange
    · exact ⟨hrow, htime⟩

/-- An `insert` finds the key taken. -/
theorem insert_eq_none (h : Lasts deadline P table k time) {row : Row} (hkey : key row = k) :
    table.insert row = none := by
  obtain ⟨found, hfind, -, -⟩ := h
  exact Table.insert_eq_none (hkey ▸ hfind)

/-- An `insert` of another row. -/
theorem insert (h : Lasts deadline P table k time) {row : Row}
    (hinsert : table.insert row = some next) : Lasts deadline P next k time := by
  by_cases hkey : key row = k
  · rw [h.insert_eq_none hkey] at hinsert
    cases hinsert
  · obtain ⟨found, hfind, hfound⟩ := h
    refine ⟨found, ?_, hfound⟩
    rw [Table.insert_eq_some hinsert, if_neg (Ne.symm hkey), hfind]

/-- An `insert` that may fail. -/
theorem insert_getD (h : Lasts deadline P table k time) (row : Row) :
    Lasts deadline P ((table.insert row).getD table) k time := by
  cases hinsert : table.insert row with
  | none => exact h
  | some next => exact h.insert hinsert

end Lasts

/-- The row that was just inserted lasts until its deadline. -/
theorem lasts_insert {row : Row} (hinsert : table.insert row = some next) (hrow : P row) :
    Lasts deadline P next (key row) (deadline row) :=
  ⟨row, by rw [Table.insert_eq_some hinsert, if_pos rfl], hrow, Int.le_refl _⟩

omit [DecidableEq Key] in
/-- After a sweep of all rows that are past their deadline, no row is. -/
theorem le_deadline_of_mem_sweep {drop : Row → Bool} {now : ℤ}
    (hdrop : ∀ row, deadline row < now → drop row = true) {row : Row}
    (hmem : row ∈ (table.delete drop).rows) : now ≤ deadline row := by
  by_contra hover
  have hkept := (List.mem_filter.1 hmem).2
  rw [hdrop row (by omega)] at hkept
  cases hkept

end Leases
