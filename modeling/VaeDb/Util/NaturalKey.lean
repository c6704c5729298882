import Mathlib.Data.List.SplitBy
import Mathlib.Data.Sum.Order
import Mathlib.Tactic.FieldSimp
import Mathlib.Tactic.GCongr
import Mathlib.Tactic.Positivity
import Mathlib.Tactic.Ring
import VaeDb.Util.NaturalOrder

/-!
# The order that natural comparison is meant to be

A text is a sequence of runs, without digits and of digits in turn, and a run of digits with
a dot and another run of digits behind it is one decimal number (`parts`).  `strCompareNat`
has the order of these sequences, texts by their characters and numbers by their values,
as long as no decimal number has more than nine digits behind the dot
(`strCompareNat_eq_key`).

The parts of the program are the same, but for an empty one at the end of every text that is
not empty (`tokenizeString_eq`, `mergeFloats_eq`).  It is below every part that the other
text can have at its place, so that it does not change the comparison (`orderSign_parts`).
-/

namespace VaeDb

/-! ## Runs and parts -/

/-- The longest runs of characters that are all digits, or all not. -/
def runs (s : Str) : List Str := s.splitBy fun a b => a.isDigit == b.isDigit

/-- The runs, starting with one without digits, which may be empty. -/
def keyRuns (s : Str) : List Str :=
  if s.head?.all Char.isDigit then [] :: runs s else runs s

/-- A run without digits, or a number with the digits behind its dot. -/
inductive Part
  | text (run : Str)
  | number (whole fraction : Str)
  deriving DecidableEq

/-- Decimal numbers are put together from left to right; the first run is one of digits, or
one without. -/
def fuse : Bool → List Str → List Part
  | _, [] => []
  | false, run :: rest => .text run :: fuse true rest
  | true, whole :: dot :: fraction :: rest =>
      if dot = ("." : Str) then .number whole fraction :: fuse false rest
      else .number whole [] :: fuse false (dot :: fraction :: rest)
  | true, whole :: rest => .number whole [] :: fuse false rest

/-- A number that has no dot behind it. -/
theorem fuse_keep {dot : Str} (hdot : dot ≠ ("." : Str)) {whole fraction : Str}
    {rest : List Str} :
    fuse true (whole :: dot :: fraction :: rest) =
      .number whole [] :: fuse false (dot :: fraction :: rest) := if_neg hdot

/-- The parts of a text. -/
def parts (s : Str) : List Part := fuse false (keyRuns s)

/-- What a part is compared by. -/
def Part.value : Part → Str ⊕ₗ ℚ
  | .text run => Sum.inlₗ run
  | .number whole fraction =>
      Sum.inrₗ ((digitsValue whole : ℚ) + digitsValue fraction / 10 ^ fraction.length)

/-- What a text is compared by. -/
def key (s : Str) : List (Str ⊕ₗ ℚ) := (parts s).map Part.value

/-- No decimal number has more than nine digits behind its dot. -/
def ShortFractions (s : Str) : Prop :=
  ∀ whole fraction, Part.number whole fraction ∈ parts s → fraction.length ≤ 9

/-! ## The runs of the program -/

/-- A run at the front. -/
theorem runs_append {mstr : Bool} {run rest : Str} (hne : run ≠ [])
    (hmode : ∀ c ∈ run, c.isDigit = mstr) (hrest : ∀ c ∈ rest.head?, c.isDigit ≠ mstr) :
    runs (run ++ rest) = run :: runs rest := by
  have hlast : (run.getLast hne).isDigit = mstr := hmode _ (List.getLast_mem hne)
  unfold runs
  rw [List.splitBy_eq_iff]
  refine ⟨by simp [List.flatten_splitBy], ?_, ?_, ?_⟩
  · intro hnil
    rcases List.mem_cons.1 hnil with hnil | hnil
    · exact hne hnil.symm
    · exact List.nil_notMem_splitBy _ _ hnil
  · intro other hother
    rcases List.mem_cons.1 hother with rfl | hother
    · apply List.Pairwise.isChain
      apply List.pairwise_of_forall_mem_list
      intro a ha b hb
      simp [hmode a ha, hmode b hb]
    · exact List.isChain_of_mem_splitBy hother
  · rw [List.isChain_cons]
    refine ⟨fun next hnext => ?_,
      List.isChain_getLast_head_splitBy (fun a b => a.isDigit == b.isDigit) rest⟩
    -- the next run begins with the character behind this one
    cases rest with
    | nil => simp at hnext
    | cons c cs =>
        have hsplit := (List.splitBy_ne_nil (r := fun a b : Char => a.isDigit == b.isDigit)).2
          (List.cons_ne_nil c cs)
        have hhead := List.head_head_splitBy (fun a b => a.isDigit == b.isDigit)
          (List.cons_ne_nil c cs)
        obtain rfl : next = (List.splitBy (fun a b => a.isDigit == b.isDigit) (c :: cs)).head
            hsplit := by
          rw [List.head?_eq_some_head hsplit] at hnext
          exact (Option.mem_some_iff.1 hnext).symm
        refine ⟨hne, List.ne_nil_of_mem_splitBy (List.head_mem hsplit), ?_⟩
        have hother : c.isDigit ≠ mstr := hrest c rfl
        rw [hhead, hlast]
        simpa using hother.symm

/-- A part ends where the text does, or with a character of the other mode behind it. -/
theorem exists_tokenEnd (mstr : Bool) (rest : Str) :
    ∃ left, rest = tokenEnd (!mstr) rest ++ left ∧ ∀ c ∈ left.head?, c.isDigit ≠ mstr := by
  refine ⟨rest.dropWhile fun c => c.isDigit ^^ !mstr,
    (List.takeWhile_append_dropWhile ..).symm, ?_⟩
  intro c hc hmode
  have hnot := List.head?_dropWhile_not (fun c : Char => c.isDigit ^^ !mstr) rest
  rw [Option.mem_def.1 hc] at hnot
  simp [hmode] at hnot

/-- The loop of `tokenize_string` finds the runs, after an empty one if the text begins in the
other mode, and one more, empty, at the end. -/
theorem tokenizeLoop_eq (mstr : Bool) (rest : Str) :
    tokenizeLoop mstr rest =
      (if rest.head?.any fun c => c.isDigit != mstr then [[]] else []) ++ runs rest ++ [[]] := by
  induction mstr, rest using tokenizeLoop.induct with
  | case1 mstr =>
      rw [tokenizeLoop, if_pos rfl]
      rfl
  | case2 mstr rest tok hrest ih =>
      obtain ⟨left, hleft, hother⟩ := exists_tokenEnd mstr rest
      change rest = tok ++ left at hleft
      have hmode : ∀ c ∈ tok, c.isDigit = mstr := by
        intro c hc
        simpa using tokenEnd_mode c hc
      have hdrop : rest.drop tok.length = left := by
        conv_lhs => rw [hleft]
        exact List.drop_left
      have hnext : (left.head?.any fun c => c.isDigit != !mstr) = false := by
        cases left with
        | nil => rfl
        | cons c cs =>
            have hc : c.isDigit ≠ mstr := hother c rfl
            simpa using hc
      rw [hdrop, hnext] at ih
      rw [tokenizeLoop, if_neg hrest]
      change tok :: tokenizeLoop (!mstr) (rest.drop tok.length) = _
      rw [hdrop, ih]
      by_cases htok : tok = []
      · -- an empty part, since the text begins in the other mode
        rw [htok, List.nil_append] at hleft
        subst hleft
        have hfirst : (rest.head?.any fun c => c.isDigit != mstr) = true := by
          cases rest with
          | nil => contradiction
          | cons c cs =>
              have hc : c.isDigit ≠ mstr := hother c rfl
              simpa using hc
        rw [hfirst, htok]
        rfl
      · have hfirst : (rest.head?.any fun c => c.isDigit != mstr) = false := by
          rw [hleft, List.head?_append_of_ne_nil _ htok, List.head?_eq_some_head htok]
          simpa using hmode _ (List.head_mem htok)
        rw [hfirst, hleft, runs_append htok hmode hother]
        rfl

/-- The parts of the program are the runs, and an empty one at the end of a text. -/
theorem tokenizeString_eq (s : Str) :
    tokenizeString s = keyRuns s ++ if s = [] then [] else [[]] := by
  unfold tokenizeString keyRuns
  rw [tokenizeLoop_eq]
  cases s with
  | nil => rfl
  | cons c cs =>
      cases hdigit : c.isDigit with
      | false => simp [hdigit]
      | true => simp [hdigit]

/-! ## The parts of the program -/

/-- The text of a part. -/
def Part.token : Part → Str
  | .text run => run
  | .number whole [] => whole
  | .number whole fraction => whole ++ ("." : Str) ++ fraction

/-- The key of a part. -/
def Part.tokenKey : Part → TokenKey
  | .text run => toLex (run, ⊥)
  | .number whole fraction => toLex ([],
      ((digitsValue whole + digitsValue fraction / 10 ^ fraction.length : ℚ) : WithBot ℚ))

/-- The key of an empty part. -/
def emptyKey : TokenKey := toLex ([], ⊥)

theorem token_decimal (whole : Str) {fraction : Str} (h : fraction ≠ []) :
    (Part.number whole fraction).token = whole ++ ("." : Str) ++ fraction := by
  cases fraction with
  | nil => contradiction
  | cons c cs => rfl

/-- A part that has no dot behind it is kept. -/
theorem mergeFloats_cons (l : Str) {rest : List Str} (h : rest.head? ≠ some ("." : Str)) :
    mergeFloats (l :: rest) = l :: mergeFloats rest := by
  match rest with
  | [] => rfl
  | [c] => rfl
  | c :: r :: rest =>
      rw [mergeFloats, if_neg]
      rintro ⟨rfl, -⟩
      exact h rfl

/-- A run of digits is not a dot. -/
theorem head_ne_dot {rest : List Str} (hrest : Alternates true rest) (hempty : List Str)
    (hnil : hempty = [] ∨ hempty = [[]]) : (rest ++ hempty).head? ≠ some ("." : Str) := by
  cases rest with
  | nil =>
      rcases hnil with rfl | rfl
      · simp
      · simp
  | cons run rest =>
      intro hdot
      have hrun : run = ("." : Str) := by simpa using hdot
      have hdigit := hrest.1 '.' (by simp [hrun])
      simp at hdigit

/-- Merging puts the same decimal numbers together. -/
theorem mergeFloats_eq {mstr : Bool} {rest : List Str} (hrest : Alternates mstr rest)
    (hne : [] ∉ rest) {last : List Str} (hlast : last = [] ∨ last = [[]]) :
    mergeFloats (rest ++ last) = (fuse mstr rest).map Part.token ++ last := by
  induction mstr, rest using fuse.induct with
  | case1 mstr =>
      rcases hlast with rfl | rfl
      · simp [fuse, mergeFloats]
      · simp [fuse, mergeFloats]
  | case2 run rest ih =>
      rw [List.cons_append, mergeFloats_cons run (head_ne_dot hrest.2 last hlast),
        ih hrest.2 fun hnil => hne (List.mem_cons_of_mem _ hnil)]
      rfl
  | case3 whole fraction rest ih =>
      have hwhole : whole ≠ [] := fun hnil => hne (by simp [hnil])
      have hfraction : fraction ≠ [] := fun hnil => hne (by simp [hnil])
      have hmore := ih hrest.2.2.2 fun hnil => hne (by simp [hnil])
      simp only [List.cons_append]
      rw [mergeFloats, if_pos ⟨rfl, hwhole, hfraction⟩, hmore, fuse, if_pos rfl, List.map_cons,
        token_decimal whole hfraction]
      rfl
  | case4 whole dot fraction rest hdot ih =>
      have hkeep : (dot :: fraction :: rest ++ last).head? ≠ some ("." : Str) := by
        simpa using hdot
      rw [List.cons_append, mergeFloats_cons whole hkeep,
        ih hrest.2 fun hnil => hne (List.mem_cons_of_mem _ hnil), fuse_keep hdot]
      rfl
  | case5 whole rest hshort ih =>
      -- at most one run behind the number, so that there is nothing to merge it with
      rcases rest with _ | ⟨dot, _ | ⟨fraction, rest⟩⟩
      · rcases hlast with rfl | rfl
        · rfl
        · rfl
      · rcases hlast with rfl | rfl
        · rfl
        · simp [mergeFloats, fuse, Part.token]
      · exact (hshort dot fraction rest rfl).elim

/-- Numbers and texts in turn. -/
def InTurn : Bool → List Part → Prop
  | _, [] => True
  | false, .text _ :: rest => InTurn true rest
  | true, .number _ _ :: rest => InTurn false rest
  | _, _ :: _ => False

theorem inTurn_fuse (mstr : Bool) (rest : List Str) : InTurn mstr (fuse mstr rest) := by
  induction mstr, rest using fuse.induct with
  | case1 mstr => cases mstr <;> trivial
  | case2 run rest ih => exact ih
  | case3 whole fraction rest ih =>
      rw [fuse, if_pos rfl]
      exact ih
  | case4 whole dot fraction rest hdot ih =>
      rw [fuse_keep hdot]
      exact ih
  | case5 whole rest hshort ih =>
      rcases rest with _ | ⟨dot, _ | ⟨fraction, rest⟩⟩
      · trivial
      · trivial
      · exact (hshort dot fraction rest rfl).elim

/-- A run of digits is a number. -/
theorem tokenKey_whole {whole : Str} (hne : whole ≠ [])
    (hdigits : ∀ c ∈ whole, c.isDigit = true) :
    tokenKey true whole = (Part.number whole []).tokenKey := by
  have hwhole : whole.takeWhile Char.isDigit = whole := List.takeWhile_eq_self_iff.2 hdigits
  have hrest : whole.dropWhile Char.isDigit = [] := List.dropWhile_eq_nil_iff.2 hdigits
  have hcast : lexicalCast whole = some (digitsValue whole : ℚ) := by
    simp [lexicalCast, hwhole, hrest, hne]
  have hvalue : (digitsValue whole + digitsValue [] / 10 ^ ([] : Str).length : ℚ) =
      digitsValue whole := by simp [digitsValue]
  rw [tokenKey, if_pos rfl, hcast, Part.tokenKey, hvalue]
  rfl

/-- So is one with a dot and another run behind it. -/
theorem tokenKey_decimal {whole fraction : Str} (hwhole : whole ≠ []) (hfraction : fraction ≠ [])
    (hwholeDigits : ∀ c ∈ whole, c.isDigit = true)
    (hfractionDigits : ∀ c ∈ fraction, c.isDigit = true) :
    tokenKey true (Part.number whole fraction).token =
      (Part.number whole fraction).tokenKey := by
  rw [token_decimal whole hfraction, tokenKey, if_pos rfl,
    lexicalCast_decimal hwhole hfraction hwholeDigits hfractionDigits]
  rfl

/-- The keys of the parts of the program. -/
theorem tokenKeys_fuse {mstr : Bool} {rest : List Str} (hrest : Alternates mstr rest)
    (hne : [] ∉ rest) {last : List Str} (hlast : last = [] ∨ last = [[]]) :
    tokenKeys mstr ((fuse mstr rest).map Part.token ++ last) =
      (fuse mstr rest).map Part.tokenKey ++ last.map fun _ => emptyKey := by
  have hend (mstr : Bool) : tokenKeys mstr last = last.map fun _ => emptyKey := by
    rcases hlast with rfl | rfl
    · rfl
    · cases mstr <;> rfl
  have hnumber {whole : Str} {more : List Str} (hmore : Alternates true (whole :: more))
      (hnil : [] ∉ whole :: more) :
      tokenKey true whole = (Part.number whole []).tokenKey :=
    tokenKey_whole (fun h => hnil (by simp [h])) hmore.1
  induction mstr, rest using fuse.induct with
  | case1 mstr => simpa [fuse] using hend mstr
  | case2 run rest ih =>
      have hmore := ih hrest.2 fun hnil => hne (List.mem_cons_of_mem _ hnil)
      simp only [fuse, List.map_cons, List.cons_append, tokenKeys, Bool.not_false, hmore]
      rfl
  | case3 whole fraction rest ih =>
      have hwhole : whole ≠ [] := fun hnil => hne (by simp [hnil])
      have hfraction : fraction ≠ [] := fun hnil => hne (by simp [hnil])
      have hmore := ih hrest.2.2.2 fun hnil => hne (by simp [hnil])
      rw [fuse, if_pos rfl]
      simp only [List.map_cons, List.cons_append, tokenKeys, Bool.not_true, hmore]
      rw [tokenKey_decimal hwhole hfraction hrest.1 hrest.2.2.1]
  | case4 whole dot fraction rest hdot ih =>
      have hmore := ih hrest.2 fun hnil => hne (List.mem_cons_of_mem _ hnil)
      rw [fuse_keep hdot]
      simp only [List.map_cons, List.cons_append, tokenKeys, Bool.not_true] at hmore ⊢
      rw [hmore]
      congr 1
      exact hnumber hrest hne
  | case5 whole rest hshort ih =>
      rcases rest with _ | ⟨dot, _ | ⟨fraction, rest⟩⟩
      · have hmore := ih trivial (by simp)
        simp only [fuse, List.map_cons, List.map_nil, List.cons_append, tokenKeys,
          Bool.not_true, List.nil_append] at hmore ⊢
        rw [hmore]
        congr 1
        exact hnumber hrest hne
      · have hmore := ih hrest.2 fun hnil => hne (List.mem_cons_of_mem _ hnil)
        simp only [fuse, List.map_cons, List.map_nil, List.cons_append, tokenKeys,
          Bool.not_true, List.nil_append] at hmore ⊢
        rw [hmore]
        congr 1
        exact hnumber hrest hne
      · exact (hshort dot fraction rest rfl).elim

/-! ## The order of the parts -/

/-- Texts are compared by their characters in both keys. -/
theorem tokenKey_text (run1 run2 : Str) :
    ((Part.text run1).tokenKey < (Part.text run2).tokenKey ↔
      (Part.text run1).value < (Part.text run2).value) ∧
    ((Part.text run1).tokenKey = (Part.text run2).tokenKey ↔
      (Part.text run1).value = (Part.text run2).value) := by
  constructor
  · simp [Part.tokenKey, Part.value, Prod.Lex.toLex_lt_toLex]
  · simp [Part.tokenKey, Part.value]

/-- Numbers are compared by their values in both keys. -/
theorem tokenKey_number (whole1 fraction1 whole2 fraction2 : Str) :
    ((Part.number whole1 fraction1).tokenKey < (Part.number whole2 fraction2).tokenKey ↔
      (Part.number whole1 fraction1).value < (Part.number whole2 fraction2).value) ∧
    ((Part.number whole1 fraction1).tokenKey = (Part.number whole2 fraction2).tokenKey ↔
      (Part.number whole1 fraction1).value = (Part.number whole2 fraction2).value) := by
  constructor
  · simp [Part.tokenKey, Part.value, Prod.Lex.toLex_lt_toLex, -WithBot.coe_add]
  · simp [Part.tokenKey, Part.value, -WithBot.coe_add]

/-- Lists whose heads compare alike compare alike if their tails do. -/
theorem orderSign_cons_congr {α β : Type*} [LinearOrder α] [LinearOrder β] {a a' : α}
    {b b' : β} (hlt : a < a' ↔ b < b') (heq : a = a' ↔ b = b') {as as' : List α}
    {bs bs' : List β} (htail : a = a' → orderSign as as' = orderSign bs bs') :
    orderSign (a :: as) (a' :: as') = orderSign (b :: bs) (b' :: bs') := by
  by_cases hsame : a = a'
  · have hother := heq.1 hsame
    subst hsame
    subst hother
    rw [orderSign_cons_self, orderSign_cons_self, htail rfl]
  · rw [orderSign_cons_of_ne hsame, orderSign_cons_of_ne fun h => hsame (heq.2 h)]
    simp only [hlt]

/-- An empty part at the end does not change the comparison with parts that are not empty. -/
theorem orderSign_parts {mstr : Bool} {parts1 parts2 : List Part} (h1 : InTurn mstr parts1)
    (h2 : InTurn mstr parts2) (hne1 : ∀ part ∈ parts1, emptyKey < part.tokenKey)
    (hne2 : ∀ part ∈ parts2, emptyKey < part.tokenKey) {last1 last2 : List TokenKey}
    (hlast1 : last1 = [] ∨ last1 = [emptyKey]) (hlast2 : last2 = [] ∨ last2 = [emptyKey])
    (hsame : parts1.length = parts2.length → last1 = last2) :
    orderSign (parts1.map Part.tokenKey ++ last1) (parts2.map Part.tokenKey ++ last2) =
      orderSign (parts1.map Part.value) (parts2.map Part.value) := by
  induction parts1 generalizing mstr parts2 with
  | nil =>
      cases parts2 with
      | nil =>
          rw [hsame rfl, orderSign_self]
          exact (orderSign_self _).symm
      | cons part2 rest2 =>
          have hfirst := hne2 part2 (List.mem_cons_self ..)
          have hbefore : last1 < (part2 :: rest2).map Part.tokenKey ++ last2 := by
            rcases hlast1 with rfl | rfl
            · exact List.nil_lt_cons _ _
            · exact List.cons_lt_cons_iff.2 (Or.inl hfirst)
          simp only [List.map_nil, List.nil_append]
          rw [orderSign_of_lt hbefore]
          exact (orderSign_of_lt (List.nil_lt_cons _ _)).symm
  | cons part1 rest1 ih =>
      cases parts2 with
      | nil =>
          have hfirst := hne1 part1 (List.mem_cons_self ..)
          have hafter : last2 < (part1 :: rest1).map Part.tokenKey ++ last1 := by
            rcases hlast2 with rfl | rfl
            · exact List.nil_lt_cons _ _
            · exact List.cons_lt_cons_iff.2 (Or.inl hfirst)
          simp only [List.map_nil, List.nil_append]
          rw [orderSign_of_gt hafter]
          exact (orderSign_of_gt (List.nil_lt_cons _ _)).symm
      | cons part2 rest2 =>
          have hrest (mode : Bool) (hrest1 : InTurn mode rest1) (hrest2 : InTurn mode rest2) :=
            ih hrest1 hrest2 (fun part hpart => hne1 part (List.mem_cons_of_mem _ hpart))
              (fun part hpart => hne2 part (List.mem_cons_of_mem _ hpart))
              fun hlength => hsame (by simp [hlength])
          simp only [List.map_cons, List.cons_append]
          cases mstr with
          | false =>
              cases part1 with
              | number whole fraction => exact h1.elim
              | text run1 =>
                  cases part2 with
                  | number whole fraction => exact h2.elim
                  | text run2 =>
                      obtain ⟨hlt, heq⟩ := tokenKey_text run1 run2
                      exact orderSign_cons_congr hlt heq fun _ => hrest true h1 h2
          | true =>
              cases part1 with
              | text run => exact h1.elim
              | number whole1 fraction1 =>
                  cases part2 with
                  | text run => exact h2.elim
                  | number whole2 fraction2 =>
                      obtain ⟨hlt, heq⟩ := tokenKey_number whole1 fraction1 whole2 fraction2
                      exact orderSign_cons_congr hlt heq fun _ => hrest false h1 h2

/-! ## Short fractions -/

/-- A decimal number with at most nine digits behind its dot is a whole number of them. -/
theorem decimal_eq_div (whole : Str) {fraction : Str} (h : fraction.length ≤ 9) :
    ∃ n : ℤ, (digitsValue whole + digitsValue fraction / 10 ^ fraction.length : ℚ) =
      n / 10 ^ 9 := by
  obtain ⟨more, hmore⟩ : ∃ more, 9 = fraction.length + more :=
    ⟨9 - fraction.length, by omega⟩
  refine ⟨digitsValue whole * 10 ^ 9 + digitsValue fraction * 10 ^ more, ?_⟩
  rw [hmore, pow_add]
  push_cast
  field_simp
  ring

/-- Such numbers are equal, or differ by more than the tolerance. -/
theorem eps_le_abs_sub {d1 d2 : ℚ} {n1 n2 : ℤ} (h1 : d1 = n1 / 10 ^ 9)
    (h2 : d2 = n2 / 10 ^ 9) : d1 = d2 ∨ eps ≤ |d1 - d2| := by
  by_cases hsame : n1 = n2
  · exact Or.inl (by rw [h1, h2, hsame])
  · right
    have hapart : (1 : ℚ) ≤ |((n1 - n2 : ℤ) : ℚ)| := by
      exact_mod_cast Int.one_le_abs (sub_ne_zero.2 hsame)
    have hdifference : d1 - d2 = ((n1 - n2 : ℤ) : ℚ) / 10 ^ 9 := by
      rw [h1, h2]
      push_cast
      ring
    rw [hdifference, abs_div, abs_of_pos (by positivity : (0 : ℚ) < 10 ^ 9), eps]
    calc (1 : ℚ) / 10 ^ 10 ≤ 1 / 10 ^ 9 := by norm_num
      _ ≤ |((n1 - n2 : ℤ) : ℚ)| / 10 ^ 9 := by gcongr

theorem apart_of_forall {keys1 keys2 : List TokenKey}
    (h : ∀ key1 ∈ keys1, ∀ key2 ∈ keys2, ∀ d1 d2 : ℚ, (ofLex key1).2 = d1 →
      (ofLex key2).2 = d2 → d1 = d2 ∨ eps ≤ |d1 - d2|) : Apart keys1 keys2 := by
  induction keys1 generalizing keys2 with
  | nil => trivial
  | cons key1 rest1 ih =>
      cases keys2 with
      | nil => trivial
      | cons key2 rest2 =>
          refine ⟨h key1 (List.mem_cons_self ..) key2 (List.mem_cons_self ..), ih ?_⟩
          intro other1 hother1 other2 hother2
          exact h other1 (List.mem_cons_of_mem _ hother1) other2
            (List.mem_cons_of_mem _ hother2)

/-! ## The two keys of a text -/

theorem alternates_of_append {mstr : Bool} {front back : List Str}
    (h : Alternates mstr (front ++ back)) : Alternates mstr front := by
  induction front generalizing mstr with
  | nil => trivial
  | cons run rest ih => exact ⟨h.1, ih h.2⟩

theorem mem_of_text_mem_fuse {mstr : Bool} {rest : List Str} {run : Str}
    (h : Part.text run ∈ fuse mstr rest) : run ∈ rest := by
  induction mstr, rest using fuse.induct with
  | case1 mstr => simp [fuse] at h
  | case2 first rest ih =>
      simp only [fuse, List.mem_cons, Part.text.injEq] at h
      rcases h with rfl | h
      · exact List.mem_cons_self ..
      · exact List.mem_cons_of_mem _ (ih h)
  | case3 whole fraction rest ih =>
      rw [fuse, if_pos rfl] at h
      have hrest : Part.text run ∈ fuse false rest := by simpa using h
      simp [ih hrest]
  | case4 whole dot fraction rest hdot ih =>
      rw [fuse_keep hdot] at h
      have hrest : Part.text run ∈ fuse false (dot :: fraction :: rest) := by simpa using h
      exact List.mem_cons_of_mem _ (ih hrest)
  | case5 whole rest hshort ih =>
      rcases rest with _ | ⟨dot, _ | ⟨fraction, rest⟩⟩
      · simp [fuse] at h
      · have hrest : Part.text run ∈ fuse false [dot] := by simpa [fuse] using h
        exact List.mem_cons_of_mem _ (ih hrest)
      · exact (hshort dot fraction rest rfl).elim

theorem fuse_eq_nil_iff {rest : List Str} : fuse true rest = [] ↔ rest = [] := by
  constructor
  · intro h
    match rest with
    | [] => rfl
    | [whole] => simp [fuse] at h
    | [whole, dot] => simp [fuse] at h
    | whole :: dot :: fraction :: rest =>
        unfold fuse at h
        split at h <;> cases h
  · rintro rfl
    rfl

/-- The runs of a text, the first one apart. -/
structure Runs (s run : Str) (rest : List Str) : Prop where
  keyRuns : keyRuns s = run :: rest
  text : s = run ++ rest.flatten
  alternates : Alternates true rest
  nonempty : [] ∉ rest

theorem exists_runs (s : Str) : ∃ run rest, Runs s run rest := by
  have halternates : Alternates false (keyRuns s) := by
    have htokens := tokenizeLoop_alternates false s
    change Alternates false (tokenizeString s) at htokens
    rw [tokenizeString_eq] at htokens
    exact alternates_of_append htokens
  have hflatten : (runs s).flatten = s := List.flatten_splitBy _ _
  have hnonempty : [] ∉ runs s := List.nil_notMem_splitBy _ _
  by_cases hdigit : s.head?.all Char.isDigit = true
  · have hkey : keyRuns s = [] :: runs s := if_pos hdigit
    rw [hkey] at halternates
    exact ⟨[], runs s, hkey, hflatten.symm, halternates.2, hnonempty⟩
  · have hkey : keyRuns s = runs s := if_neg hdigit
    cases hruns : runs s with
    | nil =>
        rw [hruns] at hflatten
        rw [← hflatten] at hdigit
        exact (hdigit rfl).elim
    | cons run rest =>
        rw [hkey, hruns] at halternates
        rw [hruns] at hflatten hnonempty hkey
        exact ⟨run, rest, hkey, hflatten.symm, halternates.2,
          fun h => hnonempty (List.mem_cons_of_mem _ h)⟩

section

variable {s run : Str} {rest : List Str}

/-- What is left of the parts at the end of a text. -/
def lastParts (s : Str) : List Str := if s = [] then [] else [[]]

theorem lastParts_cases (s : Str) : lastParts s = [] ∨ lastParts s = [[]] := by
  unfold lastParts
  split
  · exact Or.inl rfl
  · exact Or.inr rfl

theorem Runs.parts_eq (h : Runs s run rest) : parts s = .text run :: fuse true rest := by
  unfold parts
  rw [h.keyRuns]
  rfl

theorem Runs.naturalKey_eq (h : Runs s run rest) :
    naturalKey s = (Part.text run).tokenKey ::
      ((fuse true rest).map Part.tokenKey ++ (lastParts s).map fun _ => emptyKey) := by
  have hlast := lastParts_cases s
  have htokens : tokenizeString s = run :: (rest ++ lastParts s) := by
    rw [tokenizeString_eq, h.keyRuns]
    rfl
  unfold naturalKey
  rw [htokens, mergeFloats_cons run (head_ne_dot h.alternates _ hlast),
    mergeFloats_eq h.alternates h.nonempty hlast]
  simp only [tokenKeys, Bool.not_false]
  rw [tokenKeys_fuse h.alternates h.nonempty hlast]
  rfl

theorem Runs.eq_nil_iff (h : Runs s run rest) : s = [] ↔ run = [] ∧ rest = [] := by
  rw [h.text, List.append_eq_nil_iff, List.flatten_eq_nil_iff]
  constructor
  · rintro ⟨hrun, hrest⟩
    refine ⟨hrun, List.eq_nil_iff_forall_not_mem.2 fun other hother => ?_⟩
    exact h.nonempty (hrest other hother ▸ hother)
  · rintro ⟨hrun, rfl⟩
    exact ⟨hrun, fun other hother => by cases hother⟩

/-- No part behind the first run is empty. -/
theorem Runs.emptyKey_lt (h : Runs s run rest) :
    ∀ part ∈ fuse true rest, emptyKey < part.tokenKey := by
  intro part hpart
  cases part with
  | text other =>
      have hne : other ≠ [] := fun hnil => h.nonempty (hnil ▸ mem_of_text_mem_fuse hpart)
      rw [emptyKey, Part.tokenKey, Prod.Lex.toLex_lt_toLex]
      cases other with
      | nil => contradiction
      | cons c cs => exact Or.inl (List.nil_lt_cons c cs)
  | number whole fraction =>
      rw [emptyKey, Part.tokenKey, Prod.Lex.toLex_lt_toLex]
      exact Or.inr ⟨rfl, WithBot.bot_lt_coe _⟩

/-- The numbers among the keys are numbers of the text. -/
theorem Runs.exists_number (h : Runs s run rest) {key : TokenKey} (hkey : key ∈ naturalKey s)
    {d : ℚ} (hd : (ofLex key).2 = d) :
    ∃ whole fraction, Part.number whole fraction ∈ parts s ∧
      d = digitsValue whole + digitsValue fraction / 10 ^ fraction.length := by
  rw [h.naturalKey_eq, List.mem_cons, List.mem_append] at hkey
  rcases hkey with rfl | hkey | hkey
  · exact (WithBot.bot_ne_coe hd).elim
  · obtain ⟨part, hpart, rfl⟩ := List.mem_map.1 hkey
    cases part with
    | text other => exact (WithBot.bot_ne_coe hd).elim
    | number whole fraction =>
        refine ⟨whole, fraction, ?_, (WithBot.coe_injective hd).symm⟩
        rw [h.parts_eq]
        exact List.mem_cons_of_mem _ hpart
  · obtain ⟨_, _, rfl⟩ := List.mem_map.1 hkey
    exact (WithBot.bot_ne_coe hd).elim

end

/-- Natural comparison is the lexicographic order of the parts: texts by their characters,
numbers by their values, and a text before those that it is the beginning of. -/
theorem strCompareNat_eq_key (s1 s2 : Str) (h1 : ShortFractions s1) (h2 : ShortFractions s2) :
    strCompareNat s1 s2 = orderSign (key s1) (key s2) := by
  obtain ⟨run1, rest1, hruns1⟩ := exists_runs s1
  obtain ⟨run2, rest2, hruns2⟩ := exists_runs s2
  have hapart : Apart (naturalKey s1) (naturalKey s2) := by
    apply apart_of_forall
    intro key1 hkey1 key2 hkey2 d1 d2 hd1 hd2
    obtain ⟨whole1, fraction1, hpart1, rfl⟩ := hruns1.exists_number hkey1 hd1
    obtain ⟨whole2, fraction2, hpart2, rfl⟩ := hruns2.exists_number hkey2 hd2
    obtain ⟨n1, hn1⟩ := decimal_eq_div whole1 (h1 _ _ hpart1)
    obtain ⟨n2, hn2⟩ := decimal_eq_div whole2 (h2 _ _ hpart2)
    exact eps_le_abs_sub hn1 hn2
  rw [strCompareNat_eq hapart.toDecide, hruns1.naturalKey_eq, hruns2.naturalKey_eq, key, key,
    hruns1.parts_eq, hruns2.parts_eq, List.map_cons, List.map_cons]
  obtain ⟨hlt, heq⟩ := tokenKey_text run1 run2
  refine orderSign_cons_congr hlt heq fun hsame => ?_
  have hrun : run1 = run2 := by simpa [Part.tokenKey] using hsame
  have hends (s : Str) : (lastParts s).map (fun _ => emptyKey) = [] ∨
      (lastParts s).map (fun _ => emptyKey) = [emptyKey] := by
    rcases lastParts_cases s with hlast | hlast
    · exact Or.inl (by rw [hlast]; rfl)
    · exact Or.inr (by rw [hlast]; rfl)
  refine orderSign_parts (inTurn_fuse true rest1) (inTurn_fuse true rest2) hruns1.emptyKey_lt
    hruns2.emptyKey_lt (hends s1) (hends s2) fun hlength => ?_
  -- With as many parts, either both texts are empty or none is.
  have hrest : rest1 = [] ↔ rest2 = [] := by
    rw [← fuse_eq_nil_iff, ← fuse_eq_nil_iff, ← List.length_eq_zero_iff, hlength,
      List.length_eq_zero_iff]
  have hempty : s1 = [] ↔ s2 = [] := by
    rw [hruns1.eq_nil_iff, hruns2.eq_nil_iff, hrun, hrest]
  unfold lastParts
  simp only [hempty]

theorem strCompareNat_eq_key_versions :
    strCompareNat "v1.10" "v1.9.2" = orderSign (key "v1.10") (key "v1.9.2") ∧
      parts "v1.9.2" = [.text "v", .number "1" "9", .text ".", .number "2" []] := by
  have h1 : parts "v1.10" = [.text "v", .number "1" "10"] := by decide
  have h2 : parts "v1.9.2" = [.text "v", .number "1" "9", .text ".", .number "2" []] := by
    decide
  refine ⟨strCompareNat_eq_key _ _ ?_ ?_, h2⟩
  · intro whole fraction hpart
    rw [h1] at hpart
    obtain ⟨-, rfl⟩ : whole = ("1" : Str) ∧ fraction = ("10" : Str) := by simpa using hpart
    decide
  · intro whole fraction hpart
    rw [h2] at hpart
    obtain ⟨-, rfl⟩ | ⟨-, rfl⟩ : (whole = ("1" : Str) ∧ fraction = ("9" : Str)) ∨
        (whole = ("2" : Str) ∧ fraction = []) := by simpa using hpart
    · decide
    · decide

end VaeDb
