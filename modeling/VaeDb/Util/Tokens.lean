import Mathlib.Algebra.Group.Nat.Even
import VaeDb.Util.NaturalOrder

/-!
# The parts of a text

`tokenize_string` and `merge_floats` with the positions that they count, and what the parts
that they yield look like:

```text
even position    no digit
odd position     nothing, digits, or, once merged, digits.digits
```

* `tokenizeFrom_eq`, `mergeFloatsIndexed_eq` : the loops end, read nothing outside of their
  input, and yield what `tokenizeString` and `mergeFloats` say.
* `tokens_partition` : the parts make up the text, and only the first and the last can be empty.
-/

namespace VaeDb

/-! ## The loops over positions -/

/-- `token_end`. -/
def tokenEndFrom (s : Str) (b : ℕ) (strmode : Bool) : ℕ :=
  if h : b < s.length then
    if s[b].isDigit ^^ strmode then tokenEndFrom s (b + 1) strmode else b
  else b
termination_by s.length - b

/-- The loop of `tokenize_string` within so many rounds, from a position and with the mode of
the part before. -/
def tokenizeFrom (s : Str) : ℕ → ℕ → Bool → Outcome (List Str)
  | 0, _, _ => throw .unfinished
  | rounds + 1, b, mstr => do
      let e := tokenEndFrom s b (!mstr)
      let tok := (s.drop b).take (e - b)
      if b < s.length then
        let tokens ← tokenizeFrom s rounds e (!mstr)
        return tok :: tokens
      else return [tok]

/-- `tokens[i]`. -/
def tokenAt (tokens : List Str) (i : ℕ) : Outcome Str :=
  match tokens[i]? with
  | some token => pure token
  | none => throw (.undefined .outOfBounds)

/-- The first loop of `merge_floats`, within so many rounds: where it ends, and the tokens so
far. -/
def mergeLoop (tokensIn : List Str) : ℕ → ℕ → List Str → Outcome (ℕ × List Str)
  | 0, _, _ => throw .unfinished
  | rounds + 1, i, tokensOut =>
      if (i : ℤ) < (tokensIn.length : ℤ) - 2 then do
        let l ← tokenAt tokensIn i
        let c ← tokenAt tokensIn (i + 1)
        let r ← tokenAt tokensIn (i + 2)
        if c = ("." : Str) ∧ l ≠ [] ∧ r ≠ [] then
          -- the jump and the step of the loop
          mergeLoop tokensIn rounds (i + 2 + 1) (tokensOut ++ [l ++ c ++ r])
        else mergeLoop tokensIn rounds (i + 1) (tokensOut ++ [l])
      else pure (i, tokensOut)

/-- The second loop of `merge_floats`, within so many rounds. -/
def copyLoop (tokensIn : List Str) : ℕ → ℕ → List Str → Outcome (List Str)
  | 0, _, _ => throw .unfinished
  | rounds + 1, i, tokensOut =>
      if i < tokensIn.length then do
        let token ← tokenAt tokensIn i
        copyLoop tokensIn rounds (i + 1) (tokensOut ++ [token])
      else pure tokensOut

/-- `merge_floats`, with so many rounds for each loop. -/
def mergeFloatsIndexed (rounds : ℕ) (tokensIn : List Str) : Outcome (List Str) := do
  let merged ← mergeLoop tokensIn rounds 0 []
  copyLoop tokensIn rounds merged.1 merged.2

/-! ## One part -/

theorem tokenEnd_cons_of_pos {strmode : Bool} {c : Char} (hmode : (c.isDigit ^^ strmode) = true)
    (rest : Str) : tokenEnd strmode (c :: rest) = c :: tokenEnd strmode rest :=
  List.takeWhile_cons_of_pos hmode

theorem tokenEnd_cons_of_neg {strmode : Bool} {c : Char} (hmode : ¬(c.isDigit ^^ strmode) = true)
    (rest : Str) : tokenEnd strmode (c :: rest) = [] :=
  List.takeWhile_cons_of_neg hmode

theorem tokenEndFrom_eq (s : Str) (b : ℕ) (strmode : Bool) :
    tokenEndFrom s b strmode = b + (tokenEnd strmode (s.drop b)).length := by
  induction b using tokenEndFrom.induct s strmode with
  | case1 b hlt hmode ih =>
      rw [tokenEndFrom, dif_pos hlt, if_pos hmode, ih, List.drop_eq_getElem_cons hlt,
        tokenEnd_cons_of_pos hmode, List.length_cons]
      omega
  | case2 b hlt hmode =>
      rw [tokenEndFrom, dif_pos hlt, if_neg hmode, List.drop_eq_getElem_cons hlt,
        tokenEnd_cons_of_neg hmode]
      rfl
  | case3 b hend =>
      rw [tokenEndFrom, dif_neg hend, List.drop_eq_nil_of_le (Nat.le_of_not_lt hend)]
      rfl

/-- A part is what the text begins with. -/
theorem tokenEnd_begins (strmode : Bool) (rest : Str) : tokenEnd strmode rest <+: rest :=
  List.takeWhile_prefix _

/-- What follows a part begins in the other mode. -/
theorem tokenEnd_next (strmode : Bool) (rest : Str)
    (hrest : rest.drop (tokenEnd strmode rest).length ≠ []) :
    tokenEnd (!strmode) (rest.drop (tokenEnd strmode rest).length) ≠ [] := by
  induction rest with
  | nil => exact absurd List.drop_nil hrest
  | cons c rest ih =>
      by_cases hmode : (c.isDigit ^^ strmode) = true
      · rw [tokenEnd_cons_of_pos hmode, List.length_cons, List.drop_succ_cons] at hrest ⊢
        exact ih hrest
      · have hother : (c.isDigit ^^ !strmode) = true := by simpa using hmode
        rw [tokenEnd_cons_of_neg hmode, List.length_nil, List.drop_zero,
          tokenEnd_cons_of_pos hother]
        exact List.cons_ne_nil _ _

/-! ## The loops end -/

/-- What `tokenize_string` takes out of the text is the next part. -/
theorem take_tokenEndFrom (s : Str) (b : ℕ) (strmode : Bool) :
    (s.drop b).take (tokenEndFrom s b strmode - b) = tokenEnd strmode (s.drop b) := by
  rw [tokenEndFrom_eq, Nat.add_sub_cancel_left]
  exact (List.prefix_iff_eq_take.1 (tokenEnd_begins ..)).symm

/-- Two rounds for a character are enough, and one more where a part may be empty: no two
parts in a row are. -/
theorem tokenizeFrom_of_lt (s : Str) {rounds b : ℕ} {mstr : Bool}
    (hrounds : 2 * (s.drop b).length +
      (if tokenEnd (!mstr) (s.drop b) = [] then 1 else 0) < rounds) :
    tokenizeFrom s rounds b mstr = .ok (tokenizeLoop mstr (s.drop b)) := by
  induction rounds generalizing b mstr with
  | zero => omega
  | succ rounds ih =>
      rw [tokenizeFrom, tokenizeLoop, take_tokenEndFrom]
      by_cases hlt : b < s.length
      · have hrest : s.drop b ≠ [] := fun hnil => by
          have hlength := congrArg List.length hnil
          rw [List.length_drop, List.length_nil] at hlength
          omega
        have hdrop : s.drop (tokenEndFrom s b !mstr) =
            (s.drop b).drop (tokenEnd (!mstr) (s.drop b)).length := by
          rw [tokenEndFrom_eq, List.drop_drop]
        have hfewer : 2 * (s.drop (tokenEndFrom s b !mstr)).length +
            (if tokenEnd (!!mstr) (s.drop (tokenEndFrom s b !mstr)) = [] then 1 else 0) <
              rounds := by
          rw [hdrop]
          by_cases htok : tokenEnd (!mstr) (s.drop b) = []
          · have hnext := tokenEnd_next (!mstr) (s.drop b) (by simpa [htok] using hrest)
            rw [if_neg hnext]
            rw [if_pos htok] at hrounds
            simp only [htok, List.length_nil, List.drop_zero]
            omega
          · have hpos := List.length_pos_iff.2 htok
            have hle := (tokenEnd_begins (!mstr) (s.drop b)).length_le
            rw [if_neg htok] at hrounds
            rw [List.length_drop]
            split <;> omega
        rw [if_pos hlt, if_neg hrest]
        simp only [ih hfewer, hdrop]
        rfl
      · have hnil : s.drop b = [] := List.drop_eq_nil_of_le (Nat.le_of_not_lt hlt)
        rw [if_neg hlt, if_pos hnil]
        rfl

theorem tokenizeFrom_eq {s : Str} {rounds : ℕ} (hrounds : 2 * s.length + 1 < rounds) :
    tokenizeFrom s rounds 0 false = .ok (tokenizeString s) := by
  refine tokenizeFrom_of_lt s (b := 0) ?_
  rw [List.drop_zero]
  split <;> omega

theorem tokenAt_eq {tokens : List Str} {i : ℕ} (h : i < tokens.length) :
    tokenAt tokens i = .ok tokens[i] := by
  unfold tokenAt
  rw [List.getElem?_eq_getElem h]
  rfl

/-- A round of the first loop reads three tokens, and all three are there. -/
theorem mergeLoop_succ {tokensIn : List Str} {i : ℕ} (h : i + 2 < tokensIn.length) (rounds : ℕ)
    (tokensOut : List Str) :
    mergeLoop tokensIn (rounds + 1) i tokensOut =
      if tokensIn[i + 1] = ("." : Str) ∧ tokensIn[i] ≠ [] ∧ tokensIn[i + 2] ≠ [] then
        mergeLoop tokensIn rounds (i + 2 + 1)
          (tokensOut ++ [tokensIn[i] ++ tokensIn[i + 1] ++ tokensIn[i + 2]])
      else mergeLoop tokensIn rounds (i + 1) (tokensOut ++ [tokensIn[i]]) := by
  have hmore : (i : ℤ) < (tokensIn.length : ℤ) - 2 := by omega
  rw [mergeLoop, if_pos hmore, tokenAt_eq (by omega), tokenAt_eq (by omega), tokenAt_eq h]
  rfl

theorem mergeLoop_end {tokensIn : List Str} {i : ℕ} (h : tokensIn.length ≤ i + 2) (rounds : ℕ)
    (tokensOut : List Str) :
    mergeLoop tokensIn (rounds + 1) i tokensOut = .ok (i, tokensOut) := by
  have hlast : ¬ (i : ℤ) < (tokensIn.length : ℤ) - 2 := by omega
  rw [mergeLoop, if_neg hlast]
  rfl

/-- Fewer than three tokens are kept as they are. -/
theorem mergeFloats_of_short {tokens : List Str}
    (hshort : ∀ l c r rest, tokens = l :: c :: r :: rest → False) :
    mergeFloats tokens = tokens := by
  unfold mergeFloats
  split
  · exact (hshort _ _ _ _ rfl).elim
  · rfl

/-- The first loop leaves what the second one copies. -/
theorem mergeLoop_eq (tokensIn : List Str) {rounds i : ℕ} (tokensOut : List Str)
    (hrounds : tokensIn.length - i < rounds) :
    ∃ j tokens, mergeLoop tokensIn rounds i tokensOut = .ok (j, tokens) ∧
      tokens ++ tokensIn.drop j = tokensOut ++ mergeFloats (tokensIn.drop i) := by
  induction rounds generalizing i tokensOut with
  | zero => omega
  | succ rounds ih =>
      by_cases h : i + 2 < tokensIn.length
      · have hnext : tokensIn.drop i = tokensIn[i] :: tokensIn.drop (i + 1) :=
          List.drop_eq_getElem_cons (by omega)
        have hthree : tokensIn.drop i =
            tokensIn[i] :: tokensIn[i + 1] :: tokensIn[i + 2] :: tokensIn.drop (i + 2 + 1) := by
          rw [hnext, List.drop_eq_getElem_cons (by omega), List.drop_eq_getElem_cons h]
        rw [mergeLoop_succ h, hthree, mergeFloats]
        split
        · obtain ⟨j, tokens, hloop, htokens⟩ :=
            ih (tokensOut ++ [tokensIn[i] ++ tokensIn[i + 1] ++ tokensIn[i + 2]])
              (i := i + 2 + 1) (by omega)
          refine ⟨j, tokens, hloop, ?_⟩
          calc tokens ++ tokensIn.drop j
              = tokensOut ++ [tokensIn[i] ++ tokensIn[i + 1] ++ tokensIn[i + 2]] ++
                  mergeFloats (tokensIn.drop (i + 2 + 1)) := htokens
            _ = _ := List.append_assoc ..
        · obtain ⟨j, tokens, hloop, htokens⟩ :=
            ih (tokensOut ++ [tokensIn[i]]) (i := i + 1) (by omega)
          refine ⟨j, tokens, hloop, ?_⟩
          rw [← (List.cons.inj (hnext.symm.trans hthree)).2]
          calc tokens ++ tokensIn.drop j
              = tokensOut ++ [tokensIn[i]] ++ mergeFloats (tokensIn.drop (i + 1)) := htokens
            _ = _ := List.append_assoc ..
      · refine ⟨i, tokensOut, mergeLoop_end (by omega) .., ?_⟩
        rw [mergeFloats_of_short]
        intro l c r rest hdrop
        have hlength := congrArg List.length hdrop
        rw [List.length_drop] at hlength
        simp only [List.length_cons] at hlength
        omega

theorem copyLoop_eq (tokensIn : List Str) {rounds i : ℕ} (tokensOut : List Str)
    (hrounds : tokensIn.length - i < rounds) :
    copyLoop tokensIn rounds i tokensOut = .ok (tokensOut ++ tokensIn.drop i) := by
  induction rounds generalizing i tokensOut with
  | zero => omega
  | succ rounds ih =>
      rw [copyLoop]
      by_cases h : i < tokensIn.length
      · rw [if_pos h, tokenAt_eq h, List.drop_eq_getElem_cons h, List.append_cons]
        exact ih _ (by omega)
      · rw [if_neg h, List.drop_eq_nil_of_le (Nat.le_of_not_lt h), List.append_nil]
        rfl

/-- `merge_floats` ends on any tokens, and reads none that is not there. -/
theorem mergeFloatsIndexed_eq {tokensIn : List Str} {rounds : ℕ}
    (hrounds : tokensIn.length < rounds) :
    mergeFloatsIndexed rounds tokensIn = .ok (mergeFloats tokensIn) := by
  obtain ⟨j, tokens, hloop, htokens⟩ := mergeLoop_eq tokensIn (i := 0) [] (by omega)
  unfold mergeFloatsIndexed
  rw [hloop]
  refine (copyLoop_eq tokensIn tokens (i := j) (by omega)).trans ?_
  rw [htokens]
  rfl

/-! ## What the parts are -/

/-- What is at a place in the sequence: a part without digits, or one of digits, which may be
two numbers with a dot between them. -/
def IsPart (number : Bool) (tok : Str) : Prop :=
  (∀ c ∈ tok, c.isDigit = number) ∨
    number = true ∧ ∃ l r : Str, l ≠ [] ∧ r ≠ [] ∧ (∀ c ∈ l ++ r, c.isDigit = true) ∧
      tok = l ++ ("." : Str) ++ r

theorem not_odd_succ (mstr : Bool) (i : ℕ) :
    (mstr ^^ decide (Odd (i + 1))) = (!mstr ^^ decide (Odd i)) := by
  by_cases hodd : Odd i <;> cases mstr <;> simp [Nat.odd_add_one, hodd]

theorem Alternates.getElem? {mstr : Bool} {tokens : List Str} (h : Alternates mstr tokens) {i : ℕ}
    {tok : Str} (htok : tokens[i]? = some tok) :
    ∀ c ∈ tok, c.isDigit = (mstr ^^ decide (Odd i)) := by
  induction tokens generalizing mstr i with
  | nil => cases htok
  | cons head tokens ih =>
      cases i with
      | zero =>
          obtain rfl : head = tok := by simpa using htok
          simpa using h.1
      | succ i =>
          rw [not_odd_succ]
          exact ih h.2 (by simpa using htok)

/-- Merging takes the dots between numbers, which keeps the turns. -/
theorem mergeFloats_isPart {mstr : Bool} {tokens : List Str} (h : Alternates mstr tokens) {i : ℕ}
    {tok : Str} (htok : (mergeFloats tokens)[i]? = some tok) :
    IsPart (mstr ^^ decide (Odd i)) tok := by
  induction tokens using mergeFloats.induct generalizing mstr i with
  | case1 l c r rest hmerge ih =>
      rw [mergeFloats, if_pos hmerge] at htok
      obtain ⟨rfl, hl, hr⟩ := hmerge
      obtain ⟨hldigits, hdot, hrdigits, hrest⟩ := h
      obtain rfl : mstr = true := by
        have hmode := hdot '.' (by simp)
        cases mstr
        · simp at hmode
        · rfl
      cases i with
      | zero =>
          obtain rfl : l ++ ("." : Str) ++ r = tok := by simpa using htok
          refine Or.inr ⟨by simp, l, r, hl, hr, fun c hc => ?_, rfl⟩
          rcases List.mem_append.1 hc with hc | hc
          · exact hldigits c hc
          · simpa using hrdigits c hc
      | succ i =>
          rw [not_odd_succ]
          exact ih hrest (by simpa using htok)
  | case2 l c r rest hkeep ih =>
      rw [mergeFloats, if_neg hkeep] at htok
      cases i with
      | zero =>
          obtain rfl : l = tok := by simpa using htok
          exact Or.inl (by simpa using h.1)
      | succ i =>
          rw [not_odd_succ]
          exact ih h.2 (by simpa using htok)
  | case3 tokens hshort =>
      rw [mergeFloats_of_short hshort] at htok
      exact Or.inl (h.getElem? htok)

theorem flatten_tokenizeLoop (mstr : Bool) (rest : Str) :
    (tokenizeLoop mstr rest).flatten = rest := by
  induction mstr, rest using tokenizeLoop.induct with
  | case1 mstr =>
      rw [tokenizeLoop, if_pos rfl]
      rfl
  | case2 mstr rest tok hrest ih =>
      rw [tokenizeLoop, if_neg hrest, List.flatten_cons, ih]
      exact List.prefix_iff_eq_append.1 (tokenEnd_begins ..)

theorem flatten_mergeFloats (tokens : List Str) :
    (mergeFloats tokens).flatten = tokens.flatten := by
  induction tokens using mergeFloats.induct with
  | case1 l c r rest hmerge ih =>
      rw [mergeFloats, if_pos hmerge, List.flatten_cons, ih]
      simp
  | case2 l c r rest hkeep ih => rw [mergeFloats, if_neg hkeep, List.flatten_cons, ih]; rfl
  | case3 tokens hshort => rw [mergeFloats_of_short hshort]

/-! ## Empty parts -/

/-- No part but the last is empty. -/
def EmptyAtEnd (tokens : List Str) : Prop :=
  ∀ i : ℕ, tokens[i]? = some [] → i + 1 = tokens.length

theorem emptyAtEnd_cons {tok : Str} {tokens : List Str} :
    EmptyAtEnd (tok :: tokens) ↔ (tok = [] → tokens = []) ∧ EmptyAtEnd tokens := by
  constructor
  · intro h
    refine ⟨fun htok => ?_, fun i hi => ?_⟩
    · have hlength := h 0 (by simp [htok])
      simpa using hlength
    · simpa using h (i + 1) (by simpa using hi)
  · intro h i hi
    cases i with
    | zero => simp [h.1 (by simpa using hi)]
    | succ i => simpa using h.2 i (by simpa using hi)

/-- Only the first part and the last can be empty. -/
theorem emptyAtEnd_tail (mstr : Bool) (rest : Str) :
    EmptyAtEnd (tokenizeLoop mstr rest).tail := by
  induction mstr, rest using tokenizeLoop.induct with
  | case1 mstr =>
      rw [tokenizeLoop, if_pos rfl]
      exact fun i hi => by simp at hi
  | case2 mstr rest tok hrest ih =>
      rw [tokenizeLoop, if_neg hrest, List.tail_cons]
      -- the part behind this one is not empty, or the text ends there
      have hnext := tokenEnd_next (!mstr) rest
      rw [tokenizeLoop] at ih ⊢
      split
      · exact emptyAtEnd_cons.2 ⟨fun _ => rfl, fun i hi => by simp at hi⟩
      · next hmore =>
        rw [if_neg hmore] at ih
        exact emptyAtEnd_cons.2 ⟨fun hempty => absurd hempty (hnext hmore), ih⟩

theorem EmptyAtEnd.mergeFloats {tokens : List Str} (h : EmptyAtEnd tokens) :
    EmptyAtEnd (mergeFloats tokens) := by
  induction tokens using mergeFloats.induct with
  | case1 l c r rest hmerge ih =>
      rw [VaeDb.mergeFloats, if_pos hmerge]
      obtain ⟨-, h⟩ := emptyAtEnd_cons.1 h
      obtain ⟨-, h⟩ := emptyAtEnd_cons.1 h
      obtain ⟨-, h⟩ := emptyAtEnd_cons.1 h
      refine emptyAtEnd_cons.2 ⟨fun hempty => absurd hempty ?_, ih h⟩
      simp [hmerge.2.1]
  | case2 l c r rest hkeep ih =>
      rw [VaeDb.mergeFloats, if_neg hkeep]
      obtain ⟨hl, h⟩ := emptyAtEnd_cons.1 h
      refine emptyAtEnd_cons.2 ⟨fun hempty => ?_, ih h⟩
      cases hl hempty
  | case3 tokens hshort => rwa [mergeFloats_of_short hshort]

theorem EmptyAtEnd.tail {tokens : List Str} (h : EmptyAtEnd tokens) : EmptyAtEnd tokens.tail := by
  cases tokens with
  | nil => exact h
  | cons tok tokens => exact (emptyAtEnd_cons.1 h).2

/-- Merging leaves an empty part alone. -/
theorem mergeFloats_nil_cons (tokens : List Str) :
    mergeFloats ([] :: tokens) = [] :: mergeFloats tokens := by
  match tokens with
  | [] => rfl
  | [_] => rfl
  | c :: r :: rest => rw [mergeFloats, if_neg fun hmerge => hmerge.2.1 rfl]

theorem emptyAtEnd_tail_mergeFloats {tokens : List Str} (h : EmptyAtEnd tokens.tail) :
    EmptyAtEnd (mergeFloats tokens).tail := by
  cases tokens with
  | nil => exact h
  | cons tok tokens =>
      by_cases htok : tok = []
      · rw [htok, mergeFloats_nil_cons]
        exact h.mergeFloats
      · exact (emptyAtEnd_cons.2 ⟨fun hempty => absurd hempty htok, h⟩).mergeFloats.tail

theorem EmptyAtEnd.first_or_last {tokens : List Str} (h : EmptyAtEnd tokens.tail) {i : ℕ}
    (hi : tokens[i]? = some []) : i = 0 ∨ i + 1 = tokens.length := by
  cases tokens with
  | nil => cases hi
  | cons tok tokens =>
      cases i with
      | zero => exact Or.inl rfl
      | succ i => exact Or.inr (congrArg (· + 1) (h i hi))

/-! ## The partition -/

/-- The parts make up the text.  Those at even positions have no digit, those at odd positions
are digits, with a dot between two of them once they are merged, and only the first and the
last part can be empty. -/
theorem tokens_partition (s : Str) :
    ∃ tokens merged : List Str,
      (∀ rounds, 2 * s.length + 1 < rounds → tokenizeFrom s rounds 0 false = .ok tokens) ∧
      (∀ rounds, tokens.length < rounds → mergeFloatsIndexed rounds tokens = .ok merged) ∧
      tokens.flatten = s ∧ merged.flatten = s ∧
      (∀ (i : ℕ) tok, tokens[i]? = some tok → ∀ c ∈ tok, c.isDigit = decide (Odd i)) ∧
      (∀ (i : ℕ) tok, merged[i]? = some tok → IsPart (decide (Odd i)) tok) ∧
      (∀ i : ℕ, tokens[i]? = some [] → i = 0 ∨ i + 1 = tokens.length) ∧
      (∀ i : ℕ, merged[i]? = some [] → i = 0 ∨ i + 1 = merged.length) := by
  have halternates : Alternates false (tokenizeString s) := tokenizeLoop_alternates false s
  have hflatten : (tokenizeString s).flatten = s := flatten_tokenizeLoop false s
  have hempty : EmptyAtEnd (tokenizeString s).tail := emptyAtEnd_tail false s
  refine ⟨tokenizeString s, mergeFloats (tokenizeString s), fun rounds => tokenizeFrom_eq,
    fun rounds => mergeFloatsIndexed_eq, hflatten, ?_, fun i tok htok => ?_,
    fun i tok htok => ?_, fun i hi => hempty.first_or_last hi,
    fun i hi => (emptyAtEnd_tail_mergeFloats hempty).first_or_last hi⟩
  · rw [flatten_mergeFloats, hflatten]
  · simpa using halternates.getElem? htok
  · simpa using mergeFloats_isPart halternates htok

end VaeDb
