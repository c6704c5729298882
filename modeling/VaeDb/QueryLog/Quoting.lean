import Mathlib.Data.List.Range
import VaeDb.Basic

/-!
# Quoted strings in the query log

`ValueRep` of a string puts a backslash before every backslash and before every quote, with the
`str_replace` of `query_log.h`.  That goes on one place behind the last occurrence.  But what it
writes is one character longer than what it has found, and ends with it, so that the next
occurrence is always the one that it has just written:

```text
a\b  ↦  a\\b  ↦  a\\\b  ↦  ..
```

The text is quoted, and can be read back, exactly if there is nothing to escape
(`valueRep_reversible_iff`).
-/

namespace VaeDb.QueryLog

/-- `str.find(search, loc)`. -/
def find (str search : Str) (loc : ℕ) : Option ℕ :=
  (List.range (str.length + 1)).find? fun n => loc ≤ n ∧ search <+: str.drop n

/-- `str_replace` of `query_log.h`, within so many rounds, from a place on. -/
def strReplace (search replacement : Str) : ℕ → Str → ℕ → Outcome Str
  | 0, _, _ => throw .unfinished
  | rounds + 1, str, loc =>
      match find str search loc with
      | some loc =>
          strReplace search replacement rounds
            (str.take loc ++ replacement ++ str.drop (loc + search.length)) (loc + 1)
      | none => pure str

/-- `TypeHelper<std::string>::ValueRep`, with so many rounds for each replacement. -/
def valueRep (rounds : ℕ) (val : Str) : Outcome Str := do
  let escaped ← strReplace "\\" "\\\\" rounds val 0
  let escaped ← strReplace "\"" "\\\"" rounds escaped 0
  return '"' :: (escaped ++ ['"'])

/-- A backslash stands for the backslash or the quote behind it. -/
def unescape : Str → Str
  | '\\' :: '\\' :: rest => '\\' :: unescape rest
  | '\\' :: '"' :: rest => '"' :: unescape rest
  | c :: rest => c :: unescape rest
  | [] => []

/-! ## Searching for a character -/

variable {str : Str} {c d : Char} {loc : ℕ}

theorem singleton_prefix_drop {n : ℕ} : [c] <+: str.drop n ↔ str[n]? = some c := by
  rw [← List.head?_drop]
  cases str.drop n with
  | nil => simp
  | cons a rest => simp [eq_comm]

theorem find_eq_none (h : c ∉ str.drop loc) : find str [c] loc = none := by
  unfold find
  rw [List.find?_eq_none]
  intro n _ hfound
  obtain ⟨hle, hbegins⟩ := of_decide_eq_true hfound
  have hmem : c ∈ str.drop n := hbegins.subset (List.mem_singleton_self c)
  rw [← Nat.add_sub_cancel' hle, ← List.drop_drop] at hmem
  exact h (List.mem_of_mem_drop hmem)

theorem find_of_mem (h : c ∈ str.drop loc) :
    ∃ n, find str [c] loc = some n ∧ str[n]? = some c := by
  obtain ⟨i, hi, hc⟩ := List.mem_iff_getElem.1 h
  rw [List.length_drop] at hi
  rw [List.getElem_drop] at hc
  cases hfind : find str [c] loc with
  | none =>
      have hnone := List.find?_eq_none.1 hfind (loc + i) (List.mem_range.2 (by omega))
      refine absurd (decide_eq_true ⟨Nat.le_add_right .., singleton_prefix_drop.2 ?_⟩) hnone
      rw [List.getElem?_eq_getElem (by omega), hc]
  | some n =>
      have hfound := List.find?_some hfind
      simp only [decide_eq_true_eq] at hfound
      exact ⟨n, rfl, singleton_prefix_drop.1 hfound.2⟩

/-! ## The replacements -/

/-- Without the character, `str_replace` ends at once. -/
theorem strReplace_of_not_mem (h : c ∉ str) (replacement : Str) (rounds : ℕ) :
    strReplace [c] replacement (rounds + 1) str 0 = .ok str := by
  rw [strReplace, find_eq_none (by simpa using h)]
  rfl

/-- With a replacement that ends with the character, `str_replace` finds it again and again. -/
theorem strReplace_of_mem (h : c ∈ str.drop loc) (rounds : ℕ) :
    strReplace [c] [d, c] rounds str loc = .error .unfinished := by
  induction rounds generalizing str loc with
  | zero => rfl
  | succ rounds ih =>
      obtain ⟨n, hfind, hn⟩ := find_of_mem h
      have hlt : n < str.length := (List.getElem?_eq_some_iff.1 hn).1
      have hlength : (str.take n).length = n := List.length_take_of_le hlt.le
      rw [strReplace, hfind]
      refine ih ?_
      -- what has just been written is behind the new place
      have hdrop : (str.take n ++ [d, c] ++ str.drop (n + [c].length)).drop (n + 1) =
          c :: str.drop (n + 1) := by
        have hsplit : str.take n ++ [d, c] ++ str.drop (n + [c].length) =
            (str.take n ++ [d]) ++ c :: str.drop (n + 1) := by simp
        rw [hsplit]
        exact List.drop_left' (by simp [hlength])
      rw [hdrop]
      exact List.mem_cons_self ..

/-! ## The quoted text -/

variable {val : Str}

/-- What is not escaped stands for itself. -/
theorem unescape_of_not_mem (h : '\\' ∉ val) : unescape val = val := by
  induction val using unescape.induct with
  | case1 rest ih => simp at h
  | case2 rest ih => simp at h
  | case3 c rest hbackslash hquote ih =>
      rw [unescape, ih (fun hrest => h (List.mem_cons_of_mem c hrest))]
      · exact hbackslash
      · exact hquote
  | case4 => rfl

/-- Nothing to escape. -/
theorem valueRep_plain (hbackslash : '\\' ∉ val) (hquote : '"' ∉ val) (rounds : ℕ) :
    valueRep (rounds + 1) val = .ok ('"' :: (val ++ ['"'])) := by
  have hfirst : strReplace "\\" "\\\\" (rounds + 1) val 0 = .ok val :=
    strReplace_of_not_mem hbackslash _ rounds
  have hsecond : strReplace "\"" "\\\"" (rounds + 1) val 0 = .ok val :=
    strReplace_of_not_mem hquote _ rounds
  unfold valueRep
  rw [hfirst]
  simp only [bind, Except.bind]
  rw [hsecond]
  rfl

/-- Something to escape. -/
theorem valueRep_unfinished (h : '\\' ∈ val ∨ '"' ∈ val) (rounds : ℕ) :
    valueRep rounds val = .error .unfinished := by
  unfold valueRep
  by_cases hbackslash : '\\' ∈ val
  · have hfirst : strReplace "\\" "\\\\" rounds val 0 = .error .unfinished :=
      strReplace_of_mem (c := '\\') (by simpa using hbackslash) rounds
    rw [hfirst]
    rfl
  · have hquote : '"' ∈ val := h.resolve_left hbackslash
    cases rounds with
    | zero => rfl
    | succ rounds =>
        have hfirst : strReplace "\\" "\\\\" (rounds + 1) val 0 = .ok val :=
          strReplace_of_not_mem hbackslash _ rounds
        have hsecond : strReplace "\"" "\\\"" (rounds + 1) val 0 = .error .unfinished :=
          strReplace_of_mem (c := '"') (by simpa using hquote) (rounds + 1)
        rw [hfirst]
        simp only [bind, Except.bind]
        rw [hsecond]

/-- What is returned is the string between quotes. -/
theorem valueRep_eq_ok {rounds : ℕ} {text : Str} (h : valueRep rounds val = .ok text) :
    '\\' ∉ val ∧ '"' ∉ val ∧ text = '"' :: (val ++ ['"']) := by
  by_cases hescape : '\\' ∈ val ∨ '"' ∈ val
  · rw [valueRep_unfinished hescape] at h
    cases h
  · obtain ⟨hbackslash, hquote⟩ := not_or.1 hescape
    cases rounds with
    | zero => cases h
    | succ rounds =>
        rw [valueRep_plain hbackslash hquote] at h
        exact ⟨hbackslash, hquote, (Except.ok.inj h).symm⟩

/-- The quoted text can be read back, and is that of no other string, exactly if the string has
nothing to escape. -/
theorem valueRep_reversible_iff (val : Str) :
    (∃ text, (∃ enough, ∀ rounds, enough ≤ rounds → valueRep rounds val = .ok text) ∧
      (∃ body, text = '"' :: (body ++ ['"']) ∧ unescape body = val) ∧
      ∀ rounds other, valueRep rounds other = .ok text → other = val) ↔
    '\\' ∉ val ∧ '"' ∉ val := by
  constructor
  · intro hreversible
    obtain ⟨text, ⟨enough, henough⟩, -⟩ := hreversible
    obtain ⟨hbackslash, hquote, -⟩ := valueRep_eq_ok (henough enough le_rfl)
    exact ⟨hbackslash, hquote⟩
  · intro hplain
    obtain ⟨hbackslash, hquote⟩ := hplain
    refine ⟨'"' :: (val ++ ['"']), ⟨1, fun rounds hrounds => ?_⟩,
      ⟨val, rfl, unescape_of_not_mem hbackslash⟩, fun rounds other hother => ?_⟩
    · obtain ⟨rounds, rfl⟩ := Nat.exists_eq_add_of_le' hrounds
      exact valueRep_plain hbackslash hquote rounds
    · obtain ⟨-, -, htext⟩ := valueRep_eq_ok hother
      exact (List.append_cancel_right (List.cons.inj htext).2).symm

/-- One backslash is never done. -/
theorem valueRep_backslash : ¬ ∃ rounds text, valueRep rounds "\\" = .ok text := by
  intro hreturned
  obtain ⟨rounds, text, h⟩ := hreturned
  exact (valueRep_eq_ok h).1 (List.mem_singleton_self _)

end VaeDb.QueryLog
