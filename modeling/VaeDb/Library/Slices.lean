import Mathlib.Algebra.Order.Group.Nat
import Mathlib.Data.List.Basic
import Mathlib.Order.Monotone.Basic

/-!
# Consecutive slices of a list

Positions that never decrease cut a list into slices.  One after the other they are the list
between the first and the last position (`flatMap_slice`), whatever the positions are, and
also where they lie behind the end of the list.
-/

namespace List

variable {α : Type*}

/-- The elements of a list from one position to another. -/
def slice (list : List α) (start stop : ℕ) : List α := (list.drop start).take (stop - start)

@[simp] theorem slice_self (list : List α) (start : ℕ) : list.slice start start = [] := by
  simp [slice]

theorem slice_append_slice (list : List α) {a b c : ℕ} (hab : a ≤ b) (hbc : b ≤ c) :
    list.slice a b ++ list.slice b c = list.slice a c := by
  have hdrop : list.drop b = (list.drop a).drop (b - a) := by
    rw [List.drop_drop]
    congr 1
    omega
  have htake : c - a = (b - a) + (c - b) := by omega
  unfold slice
  rw [hdrop, htake, List.take_add]

/-- Slices without a gap or an overlap. -/
theorem flatMap_slice (list : List α) {position : ℕ → ℕ} (hmono : Monotone position) (n : ℕ) :
    (List.range n).flatMap (fun i => list.slice (position i) (position (i + 1))) =
      list.slice (position 0) (position n) := by
  induction n with
  | zero => simp
  | succ n ih =>
      rw [List.range_succ, List.flatMap_append, ih, List.flatMap_singleton,
        slice_append_slice list (hmono (Nat.zero_le n)) (hmono (Nat.le_succ n))]

/-- A slice up to the end of the list. -/
theorem slice_eq_drop (list : List α) (start : ℕ) {stop : ℕ} (h : list.length ≤ stop) :
    list.slice start stop = list.drop start := by
  unfold slice
  rw [List.take_of_length_le]
  rw [List.length_drop]
  omega

/-- A slice behind the end of the list. -/
theorem slice_eq_nil (list : List α) {start : ℕ} (stop : ℕ) (h : list.length ≤ start) :
    list.slice start stop = [] := by
  unfold slice
  rw [List.drop_eq_nil_of_le h, List.take_nil]

theorem length_slice (list : List α) (start stop : ℕ) :
    (list.slice start stop).length = min (stop - start) (list.length - start) := by
  simp [slice]

/-- What is left from a place on, up to a later one. -/
theorem drop_eq_slice_append (list : List α) {a b : ℕ} (h : a ≤ b) :
    list.drop a = list.slice a b ++ list.drop b := by
  have hdrop : list.drop b = (list.drop a).drop (b - a) := by
    rw [drop_drop]
    congr 1
    omega
  unfold slice
  rw [hdrop, take_append_drop]

/-- A slice is empty if it is, or lies behind the end. -/
theorem slice_eq_nil_iff (list : List α) (a b : ℕ) :
    list.slice a b = [] ↔ b ≤ a ∨ list.length ≤ a := by
  rw [← length_eq_zero_iff, length_slice]
  omega

theorem slice_sublist (list : List α) (a b : ℕ) : Sublist (list.slice a b) list :=
  (take_sublist ..).trans (drop_sublist ..)

/-- Slices one behind the other. -/
theorem slice_append_sublist (list : List α) {a b c : ℕ} (hab : a ≤ b) (hbc : b ≤ c) (d : ℕ) :
    Sublist (list.slice a b ++ list.slice c d) list := by
  have hdrop : list.drop c = (list.drop b).drop (c - b) := by
    rw [drop_drop]
    congr 1
    omega
  have hback : Sublist (list.slice c d) (list.drop b) := by
    rw [slice, hdrop]
    exact (take_sublist ..).trans (drop_sublist ..)
  have hwhole : Sublist (list.slice a b ++ list.drop b) list := by
    rw [← drop_eq_slice_append list hab]
    exact drop_sublist ..
  exact (hback.append_left _).trans hwhole

/-- Without repetition, a list cannot begin as a part of it does that is further on. -/
theorem Nodup.take_append_eq_iff {front rest : List α} (h : (front ++ rest).Nodup) {n : ℕ}
    (hn : 0 < n) : (front ++ rest).take n = rest.take n ↔ front = [] := by
  constructor
  · intro hsame
    cases front with
    | nil => rfl
    | cons a front =>
        obtain ⟨m, rfl⟩ : ∃ m, n = m + 1 := ⟨n - 1, by omega⟩
        have hfirst : a ∈ rest.take (m + 1) := by
          rw [← hsame, cons_append, take_succ_cons]
          exact mem_cons_self ..
        have hfresh : a ∉ front ++ rest := (nodup_cons.1 (cons_append ▸ h)).1
        exact absurd (mem_append_right _ (mem_of_mem_take hfirst)) hfresh
  · rintro rfl
    rw [nil_append]

/-- Without repetition, overlapping parts are the same only if nothing is beside the
overlap. -/
theorem Nodup.append_eq_append_iff {front common back : List α}
    (h : (front ++ common ++ back).Nodup) :
    front ++ common = common ++ back ↔ front = [] ∧ back = [] := by
  constructor
  · intro hsame
    cases front with
    | nil => exact ⟨rfl, append_cancel_left ((append_nil common).trans hsame).symm⟩
    | cons a front =>
        have hfirst : a ∈ common ++ back := by
          rw [← hsame, cons_append]
          exact mem_cons_self ..
        have hfresh : a ∉ front ++ (common ++ back) := by
          rw [append_assoc, cons_append] at h
          exact (nodup_cons.1 h).1
        exact absurd (mem_append_right _ hfirst) hfresh
  · rintro ⟨rfl, rfl⟩
    rw [nil_append, append_nil]

/-- Taking so many of what is found, or what is found in so many: the same if something is
found at each of these places, or nowhere behind them. -/
theorem take_filterMap_eq_iff {β : Type*} (f : α → Option β) (l : List α) (n : ℕ) :
    (l.filterMap f).take n = (l.take n).filterMap f ↔
      (∀ a ∈ l.take n, (f a).isSome) ∨ ∀ a ∈ l.drop n, f a = none := by
  have hsplit : l.filterMap f = (l.take n).filterMap f ++ (l.drop n).filterMap f := by
    rw [← filterMap_append, take_append_drop]
  have hlength : ((l.take n).filterMap f).length ≤ (l.take n).length := length_filterMap_le _ _
  have htake : (l.take n).length ≤ n := length_take_le ..
  rw [hsplit, take_append]
  constructor
  · intro h
    by_cases hall : ∀ a ∈ l.take n, (f a).isSome
    · exact Or.inl hall
    · -- an element is left out, so that there is room for one more
      have hfewer : ((l.take n).filterMap f).length < (l.take n).length :=
        Nat.lt_of_le_of_ne hlength fun heq => hall (filterMap_length_eq_length.1 heq)
      rw [take_of_length_le (by omega)] at h
      have hnil : take (n - ((l.take n).filterMap f).length) ((l.drop n).filterMap f) = [] :=
        append_cancel_left (h.trans (append_nil _).symm)
      refine Or.inr (filterMap_eq_nil_iff.1 ((take_eq_nil_iff.1 hnil).resolve_left ?_))
      omega
  · have hkept : ((l.take n).filterMap f).take n = (l.take n).filterMap f :=
      take_of_length_le (by omega)
    rw [hkept]
    rintro (hall | hnone)
    · have hfull : ((l.take n).filterMap f).length = (l.take n).length :=
        filterMap_length_eq_length.2 hall
      by_cases hshort : l.length ≤ n
      · rw [drop_eq_nil_of_le hshort, filterMap_nil, take_nil, append_nil]
      · have hzero : n - ((l.take n).filterMap f).length = 0 := by
          rw [hfull, length_take]
          omega
        rw [hzero, take_zero, append_nil]
    · rw [filterMap_eq_nil_iff.2 hnone, take_nil, append_nil]

end List
