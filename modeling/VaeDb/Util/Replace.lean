import Mathlib.Data.List.Basic
import VaeDb.Basic
import VaeDb.Library.Occurrences

/-!
# `str_replace` of `util.cpp`

A scan from left to right with two counters: the place where it stands, and how much of the
search text is there.  The lengths are converted to `int`, which is exact below 2^31.

The result is the replacement between the gaps of the text (`strReplace_spec`).
-/

namespace VaeDb

open Occurrences

/-- A `size_t` as an `int`. -/
def intOfSize (size : ℕ) : ℤ := (size : ℤ).bmod (2 ^ 32)

/-- The inner loop: how much of the search text is at a place.  All indices are in range, as
no `int` here is above the size that it comes from. -/
def matchFrom (search subject : Str) (sealeng strleng : ℤ) (i j : ℕ) : ℕ :=
  if (i + j : ℤ) < strleng ∧ (j : ℤ) < sealeng ∧ subject[i + j]? = search[j]? then
    matchFrom search subject sealeng strleng i (j + 1)
  else j
termination_by (sealeng - j).toNat

/-- The outer loop, within so many rounds, with the buffer so far. -/
def replaceLoop (search replace subject : Str) (sealeng strleng : ℤ) : ℕ → ℕ → Str → Outcome Str
  | 0, _, _ => throw .unfinished
  | rounds + 1, i, buffer =>
      if (i : ℤ) < strleng then
        let j := matchFrom search subject sealeng strleng i 0
        if (j : ℤ) = sealeng then
          replaceLoop search replace subject sealeng strleng rounds (i + sealeng.toNat)
            (buffer ++ replace)
        else
          replaceLoop search replace subject sealeng strleng rounds (i + 1)
            (buffer ++ (subject.drop i).take 1)
      else pure buffer

/-- `str_replace`: what is in `subject` afterwards. -/
def strReplace (rounds : ℕ) (search replace subject : Str) : Outcome Str :=
  let sealeng := intOfSize search.length
  let strleng := intOfSize subject.length
  if sealeng = 0 then pure subject
  else replaceLoop search replace subject sealeng strleng rounds 0 []

/-! ## The loops -/

variable {search replace subject : Str}

theorem intOfSize_eq {size : ℕ} (h : size < 2 ^ 31) : intOfSize size = size :=
  Int.bmod_eq_of_le (by omega) (by omega)

/-- The inner loop finds all of the search text where it is. -/
theorem matchFrom_eq_iff (search subject : Str) (i : ℕ) {j : ℕ} (hj : j ≤ search.length) :
    matchFrom search subject search.length subject.length i j = search.length ↔
      search.drop j <+: subject.drop (i + j) := by
  induction j using matchFrom.induct search subject search.length subject.length i with
  | case1 j hmore ih =>
      obtain ⟨hi, hj, hsame⟩ := hmore
      have hi : i + j < subject.length := by omega
      have hj : j < search.length := by omega
      rw [List.getElem?_eq_getElem hi, List.getElem?_eq_getElem hj, Option.some.injEq] at hsame
      rw [matchFrom, if_pos ⟨by omega, by omega, by simp [hi, hj, hsame]⟩, ih (by omega),
        List.drop_eq_getElem_cons hj, List.drop_eq_getElem_cons hi, hsame,
        List.cons_prefix_cons, ← Nat.add_assoc]
      simp
  | case2 j hend =>
      rw [matchFrom, if_neg hend]
      constructor
      · intro hall
        rw [hall, List.drop_length]
        exact List.nil_prefix
      · intro hbegins
        by_contra hne
        have hj : j < search.length := by omega
        rw [List.drop_eq_getElem_cons hj] at hbegins
        have hi : i + j < subject.length := by
          by_contra hge
          have hnil : subject.drop (i + j) = [] := List.drop_eq_nil_of_le (by omega)
          rw [hnil] at hbegins
          exact absurd (List.prefix_nil.1 hbegins) (List.cons_ne_nil _ _)
        rw [List.drop_eq_getElem_cons hi, List.cons_prefix_cons] at hbegins
        exact hend ⟨by omega, by omega, by simp [hi, hj, hbegins.1]⟩

/-- The outer loop puts the replacement between the gaps of what is left. -/
theorem replaceLoop_eq (hsearch : search ≠ []) {i : ℕ} {gaps : List Str}
    (hcuts : Cuts search (subject.drop i) gaps) {rounds : ℕ} (hrounds : subject.length - i < rounds)
    (buffer : Str) :
    replaceLoop search replace subject search.length subject.length rounds i buffer =
      .ok (buffer ++ replace.intercalate gaps) := by
  induction rounds generalizing i gaps buffer with
  | zero => omega
  | succ rounds ih =>
      have hwhole := matchFrom_eq_iff search subject i (Nat.zero_le _)
      rw [List.drop_zero, Nat.add_zero] at hwhole
      rw [replaceLoop]
      by_cases hi : i < subject.length
      · rw [if_pos (by omega)]
        by_cases hbegins : search <+: subject.drop i
        · obtain ⟨rest, hrest⟩ := hbegins
          have hdrop : subject.drop (i + search.length) = rest := by
            rw [← List.drop_drop, ← hrest, List.drop_left]
          have hpos := List.length_pos_iff.2 hsearch
          rw [← hrest] at hcuts
          obtain ⟨others, rfl, hothers⟩ := hcuts.of_found
          rw [if_pos (by rw [hwhole.2 ⟨rest, hrest⟩]), intercalate_nil_cons _ hothers.ne_nil,
            ← List.append_assoc]
          exact ih (hdrop ▸ hothers) (by omega) _
        · have hcons := List.drop_eq_getElem_cons hi
          rw [hcons] at hcuts
          obtain ⟨gap, others, rfl, hothers⟩ := hcuts.of_pass (hcons ▸ hbegins)
          have hpart : ¬ (matchFrom search subject search.length subject.length i 0 : ℤ) =
              search.length := fun hall => hbegins (hwhole.1 (by omega))
          have htake : (subject.drop i).take 1 = [subject[i]] := by
            rw [hcons]
            rfl
          rw [if_neg hpart, intercalate_cons, htake]
          refine (ih hothers (by omega) _).trans ?_
          rw [List.append_assoc, List.singleton_append]
      · rw [if_neg (by omega)]
        rw [List.drop_eq_nil_of_le (Nat.le_of_not_lt hi)] at hcuts
        rw [hcuts.eq_of_nil hsearch]
        simp

/-! ## The replacement -/

/-- `str_replace` cuts the text at the occurrences of the search text, the leftmost first, and
puts the replacement there.  Nothing changes if there is nothing to search, or if it does not
occur. -/
theorem strReplace_spec (search replace subject : Str) (hsearch : search.length < 2 ^ 31)
    (hsubject : subject.length < 2 ^ 31) :
    ∃ result,
      (∀ rounds, subject.length < rounds →
        strReplace rounds search replace subject = .ok result) ∧
      (search ≠ [] → ∃ gaps, Cuts search subject gaps ∧
        (∀ gaps', Cuts search subject gaps' → gaps' = gaps) ∧
        subject = search.intercalate gaps ∧ result = replace.intercalate gaps) ∧
      (search = [] → result = subject) ∧
      (¬ search <:+: subject → result = subject) := by
  by_cases hempty : search = []
  · subst hempty
    refine ⟨subject, fun rounds _ => ?_, fun hne => absurd rfl hne, fun _ => rfl, fun _ => rfl⟩
    rfl
  · obtain ⟨gaps, hcuts⟩ := exists_cuts hempty subject
    have hpos := List.length_pos_iff.2 hempty
    refine ⟨replace.intercalate gaps, fun rounds hrounds => ?_, fun _ =>
      ⟨gaps, hcuts, fun gaps' hcuts' => hcuts'.unique hempty hcuts, hcuts.intercalate.symm, rfl⟩,
      fun hnil => absurd hnil hempty, fun hcontained => ?_⟩
    · unfold strReplace
      simp only [intOfSize_eq hsearch, intOfSize_eq hsubject]
      rw [if_neg (by omega)]
      exact replaceLoop_eq hempty (i := 0) hcuts (by omega) []
    · rw [hcuts.unique hempty (cuts_of_not_contained hcontained)]
      simp

/-- Of two overlapping occurrences, the left one is replaced. -/
theorem strReplace_spec_overlap : strReplace 6 "aa" "b" "aaaba" = .ok ("baba" : Str) := by
  let search : Str := "aa"
  let rest : Str := "aba"
  obtain ⟨result, hresult, hcuts, -⟩ :=
    strReplace_spec search "b" (search ++ rest) (by decide) (by decide)
  obtain ⟨gaps, -, hunique, -, rfl⟩ := hcuts (by decide)
  have hgaps : Cuts search (search ++ rest) [[], rest] := (cuts_of_not_contained (by decide)).found
  refine (hresult 6 (by decide)).trans ?_
  rw [← hunique _ hgaps]
  rfl

end VaeDb
