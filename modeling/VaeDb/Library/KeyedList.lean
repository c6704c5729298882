import Mathlib.Data.List.Nodup

/-!
# Lists whose elements have different keys

Tables, maps and the lists that iterators point into are lists of this kind.  To look for a
key is to look for its one element (`find?_eq_some`), and to drop the element with a key is
to take that one away (`perm_cons_filter`).
-/

namespace KeyedList

variable {α Key : Type*} [DecidableEq Key] {key : α → Key} {list : List α}

/-- No other element has the key of an element. -/
theorem find?_eq_some (hnodup : (list.map key).Nodup) {k : Key} {a : α} :
    (list.find? fun other => key other = k) = some a ↔ a ∈ list ∧ key a = k := by
  constructor
  · intro h
    exact ⟨List.mem_of_find?_eq_some h, by simpa using List.find?_some h⟩
  · intro h
    cases hfind : list.find? fun other => key other = k with
    | none =>
        have hnone := List.find?_eq_none.1 hfind a h.1
        simp [h.2] at hnone
    | some found =>
        have hkey : key found = k := by simpa using List.find?_some hfind
        have hsame : key found = key a := hkey.trans h.2.symm
        rw [List.inj_on_of_nodup_map hnodup (List.mem_of_find?_eq_some hfind) h.1 hsame]

/-- An element, and the elements with other keys. -/
theorem perm_cons_filter (hnodup : (list.map key).Nodup) {a : α} (ha : a ∈ list) :
    list.Perm (a :: list.filter fun other => key other ≠ key a) := by
  have hfresh : a ∉ list.filter fun other => key other ≠ key a := by simp
  have hrest : (a :: list.filter fun other => key other ≠ key a).Nodup :=
    List.nodup_cons.2 ⟨hfresh, hnodup.of_map.filter _⟩
  refine (List.perm_ext_iff_of_nodup hnodup.of_map hrest).2 fun other => ?_
  rw [List.mem_cons, List.mem_filter]
  constructor
  · intro hother
    by_cases hkey : key other = key a
    · exact Or.inl (List.inj_on_of_nodup_map hnodup hother ha hkey)
    · exact Or.inr ⟨hother, by simpa using hkey⟩
  · intro hother
    rcases hother with rfl | hother
    · exact ha
    · exact hother.1

end KeyedList
