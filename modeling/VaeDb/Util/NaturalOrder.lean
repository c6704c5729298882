import Mathlib.Algebra.Order.AbsoluteValue.Basic
import Mathlib.Algebra.Order.Ring.Rat
import Mathlib.Data.Char
import Mathlib.Data.List.Lex
import Mathlib.Data.List.TakeWhile
import Mathlib.Data.Prod.Lex
import Mathlib.Order.WithBot
import Mathlib.Tactic.NormNum
import VaeDb.Basic

/-!
# Natural comparison of texts

`str_compare_nat` cuts both texts into parts without digits and numbers, in turn, and
compares part by part.  Numbers count as equal when they differ by less than `eps`, so
the comparison is not that of an order: 0 and 0.00000000006 are equal to it, and so are
0.00000000006 and 0.00000000012, but 0 and 0.00000000012 are not.

On texts whose numbers are equal or further apart it compares keys from a linear order
(`strCompareNat_eq`).

`lexical_cast<double>` is taken as the exact decimal value and `isdigit` as 0 or 1.
-/

namespace VaeDb

/-! ## Cutting a text into parts -/

/-- The part at the front of the text, by `token_end`: characters that are not digits in
string mode, digits otherwise. -/
def tokenEnd (strmode : Bool) (rest : Str) : Str :=
  rest.takeWhile fun c => c.isDigit ^^ strmode

/-- The loop of `tokenize_string` on what is left of the text, with the mode of the part
before.  It ends after the part that begins at the end of the text. -/
def tokenizeLoop (mstr : Bool) (rest : Str) : List Str :=
  let tok := tokenEnd (!mstr) rest
  if rest = [] then [tok]
  else tok :: tokenizeLoop (!mstr) (rest.drop tok.length)
termination_by 2 * rest.length + (rest.head?.all fun c => c.isDigit ^^ mstr).toNat
decreasing_by
  -- an empty part is followed by one in the other mode, which then is not empty
  cases rest with
  | nil => contradiction
  | cons c cs =>
      by_cases hc : (c.isDigit ^^ !mstr) = true
      · have hbit := Bool.toNat_le ((List.drop (tokenEnd (!mstr) (c :: cs)).length
          (c :: cs)).head?.all fun c => c.isDigit ^^ !mstr)
        simp only [tokenEnd, hc, List.takeWhile_cons_of_pos, List.length_cons,
          List.drop_succ_cons, List.length_drop] at hbit ⊢
        omega
      · have hempty : tokenEnd (!mstr) (c :: cs) = [] := List.takeWhile_cons_of_neg hc
        have hother : (c.isDigit ^^ mstr) = true := by
          cases hdigit : c.isDigit <;> cases mstr <;> simp_all
        have hnot : (c.isDigit ^^ !mstr) = false := by simpa using hc
        simp only [hempty, List.length_nil, List.drop_zero, List.head?_cons, Option.all_some,
          hother, hnot, Bool.toNat_true, Bool.toNat_false]
        omega

/-- `tokenize_string`. -/
def tokenizeString (s : Str) : List Str := tokenizeLoop false s

/-- `merge_floats`: a number, a dot and a number become one part. -/
def mergeFloats : List Str → List Str
  | l :: c :: r :: rest =>
      if c = ("." : Str) ∧ l ≠ [] ∧ r ≠ [] then (l ++ c ++ r) :: mergeFloats rest
      else l :: mergeFloats (c :: r :: rest)
  | tokens => tokens

/-! ## Numbers -/

/-- The value of a string of digits. -/
def digitsValue (digits : Str) : ℕ :=
  digits.foldl (fun value c => 10 * value + (c.toNat - '0'.toNat)) 0

/-- `lexical_cast<double>` on digits and on digits with a dot between them; nothing where it
throws.  Signs and exponents do not occur in the parts it is applied to. -/
def lexicalCast (token : Str) : Option ℚ :=
  let whole := token.takeWhile Char.isDigit
  match token.dropWhile Char.isDigit with
  | [] => if whole = [] then none else some (digitsValue whole : ℚ)
  | dot :: fraction =>
      if dot = '.' ∧ whole ≠ [] ∧ fraction ≠ [] ∧ fraction.all Char.isDigit then
        some ((digitsValue whole : ℚ) + digitsValue fraction / 10 ^ fraction.length)
      else none

/-- `EPS`. -/
def eps : ℚ := 1 / 10 ^ 10

/-! ## The comparison -/

/-- The loop of `str_compare_nat` on the remaining parts, with the mode of the part before,
and what follows the loop. -/
def compareTokens : Bool → List Str → List Str → ℤ
  | mstr, stok1 :: rest1, stok2 :: rest2 =>
      if stok1.length = stok2.length ∧ stok1.length = 0 then compareTokens (!mstr) rest1 rest2
      else if stok1.length = 0 ∨ stok2.length = 0 then
        if stok1.length < stok2.length then 1 else -1
      else
        let text :=
          if stok1 = stok2 then compareTokens (!mstr) rest1 rest2
          else if stok1 < stok2 then 1 else -1
        if mstr then
          match lexicalCast stok1, lexicalCast stok2 with
          | some d1, some d2 =>
              if |d1 - d2| < eps then compareTokens (!mstr) rest1 rest2
              else if d1 < d2 then 1 else -1
          | _, _ => text
        else text
  | _, rest1, rest2 =>
      if rest1.length = rest2.length then 0 else if rest1.length < rest2.length then 1 else -1

/-- `str_compare_nat`: positive if the first text comes first. -/
def strCompareNat (s1 s2 : Str) : ℤ :=
  compareTokens false (mergeFloats (tokenizeString s1)) (mergeFloats (tokenizeString s2))

/-! ## What the parts look like -/

/-- Parts without digits and parts of digits, in turn. -/
def Alternates : Bool → List Str → Prop
  | _, [] => True
  | mstr, tok :: rest => (∀ c ∈ tok, c.isDigit = mstr) ∧ Alternates (!mstr) rest

/-- Where a number is due, there is one or nothing. -/
def Numbered : Bool → List Str → Prop
  | _, [] => True
  | mstr, tok :: rest =>
      (mstr = true → tok = [] ∨ (lexicalCast tok).isSome) ∧ Numbered (!mstr) rest

theorem tokenEnd_mode {strmode : Bool} {rest : Str} :
    ∀ c ∈ tokenEnd strmode rest, c.isDigit = !strmode := by
  intro c hc
  have hmatch := List.mem_takeWhile_imp hc
  cases hdigit : c.isDigit <;> cases strmode <;> simp_all

theorem tokenizeLoop_alternates (mstr : Bool) (rest : Str) :
    Alternates mstr (tokenizeLoop mstr rest) := by
  induction mstr, rest using tokenizeLoop.induct with
  | case1 mstr =>
      rw [tokenizeLoop, if_pos rfl]
      exact ⟨by simp [tokenEnd], trivial⟩
  | case2 mstr rest tok hrest ih =>
      rw [tokenizeLoop, if_neg hrest]
      refine ⟨fun c hc => ?_, ih⟩
      simpa using tokenEnd_mode c hc

/-- Digits have a value. -/
theorem lexicalCast_digits {tok : Str} (hne : tok ≠ []) (hdigits : ∀ c ∈ tok, c.isDigit = true) :
    (lexicalCast tok).isSome := by
  have hwhole : tok.takeWhile Char.isDigit = tok := List.takeWhile_eq_self_iff.2 hdigits
  have hrest : tok.dropWhile Char.isDigit = [] := List.dropWhile_eq_nil_iff.2 hdigits
  simp [lexicalCast, hwhole, hrest, hne]

/-- A part that is not merged is a number where one is due. -/
theorem lexicalCast_part {mstr : Bool} {tok : Str} (hmode : ∀ c ∈ tok, c.isDigit = mstr)
    (hnumber : mstr = true) : tok = [] ∨ (lexicalCast tok).isSome := by
  by_cases htok : tok = []
  · exact Or.inl htok
  · exact Or.inr (lexicalCast_digits htok (hnumber ▸ hmode))

/-- Digits with a dot between them have a value. -/
theorem lexicalCast_decimal {l r : Str} (hl : l ≠ []) (hr : r ≠ [])
    (hldigits : ∀ c ∈ l, c.isDigit = true) (hrdigits : ∀ c ∈ r, c.isDigit = true) :
    lexicalCast (l ++ ("." : Str) ++ r) =
      some ((digitsValue l : ℚ) + digitsValue r / 10 ^ r.length) := by
  have hwhole : (l ++ ("." : Str) ++ r).takeWhile Char.isDigit = l := by
    rw [List.append_assoc, List.takeWhile_append_of_pos hldigits]
    simp
  have hrest : (l ++ ("." : Str) ++ r).dropWhile Char.isDigit = '.' :: r := by
    rw [List.append_assoc, List.dropWhile_append_of_pos hldigits]
    simp
  have hall : r.all Char.isDigit = true := List.all_eq_true.2 hrdigits
  unfold lexicalCast
  simp only [hwhole, hrest]
  rw [if_pos ⟨trivial, hl, hr, hall⟩]

/-- Merging leaves numbers where numbers are due. -/
theorem mergeFloats_numbered {mstr : Bool} {tokens : List Str} (h : Alternates mstr tokens) :
    Numbered mstr (mergeFloats tokens) := by
  induction tokens using mergeFloats.induct generalizing mstr with
  | case1 l c r rest hmerge ih =>
      obtain ⟨rfl, hl, hr⟩ := hmerge
      obtain ⟨hldigits, hdot, hrdigits, hrest⟩ := h
      -- the dot is not a digit, so the parts around it are
      obtain rfl : mstr = true := by
        have hmode := hdot '.' (by simp)
        cases mstr
        · simp at hmode
        · rfl
      rw [mergeFloats, if_pos ⟨rfl, hl, hr⟩]
      have hvalue := lexicalCast_decimal hl hr hldigits (by simpa using hrdigits)
      exact ⟨fun _ => Or.inr (by rw [hvalue]; rfl), ih hrest⟩
  | case2 l c r rest hkeep ih =>
      rw [mergeFloats, if_neg hkeep]
      exact ⟨lexicalCast_part h.1, ih h.2⟩
  | case3 tokens hshort =>
      -- fewer than three parts are kept as they are
      rcases tokens with _ | ⟨l, _ | ⟨c, _ | ⟨r, rest⟩⟩⟩
      · trivial
      · exact ⟨lexicalCast_part h.1, trivial⟩
      · exact ⟨lexicalCast_part h.1, lexicalCast_part h.2.1, trivial⟩
      · exact (hshort l c r rest rfl).elim

/-! ## The order behind the comparison -/

/-- What a part is compared by: its text, or the number it stands for.  The empty part is
below all others in both. -/
abbrev TokenKey := Str ×ₗ WithBot ℚ

/-- The key of a part, which is a number after a part in string mode. -/
def tokenKey (mstr : Bool) (tok : Str) : TokenKey :=
  if mstr then toLex ([], lexicalCast tok) else toLex (tok, ⊥)

/-- The keys of parts, with the mode of the part before the first. -/
def tokenKeys : Bool → List Str → List TokenKey
  | _, [] => []
  | mstr, tok :: rest => tokenKey mstr tok :: tokenKeys (!mstr) rest

/-- The key of a text. -/
def naturalKey (s : Str) : List TokenKey :=
  tokenKeys false (mergeFloats (tokenizeString s))

/-- Numbers at the same place are equal, or not equal to the comparison either. -/
def Apart : List TokenKey → List TokenKey → Prop
  | key1 :: rest1, key2 :: rest2 =>
      (∀ d1 d2 : ℚ, (ofLex key1).2 = d1 → (ofLex key2).2 = d2 → d1 = d2 ∨ eps ≤ |d1 - d2|) ∧
        Apart rest1 rest2
  | _, _ => True

/-- The same for the first place where the keys differ only: what the comparison reaches. -/
def ApartToDecide : List TokenKey → List TokenKey → Prop
  | key1 :: rest1, key2 :: rest2 =>
      (∀ d1 d2 : ℚ, (ofLex key1).2 = d1 → (ofLex key2).2 = d2 → d1 = d2 ∨ eps ≤ |d1 - d2|) ∧
        (key1 = key2 → ApartToDecide rest1 rest2)
  | _, _ => True

theorem Apart.toDecide {keys1 keys2 : List TokenKey} (h : Apart keys1 keys2) :
    ApartToDecide keys1 keys2 := by
  induction keys1 generalizing keys2 with
  | nil => trivial
  | cons key1 rest1 ih =>
      cases keys2 with
      | nil => trivial
      | cons key2 rest2 => exact ⟨h.1, fun _ => ih h.2⟩

/-- The sign that a comparison by keys has in `str_compare_nat`. -/
def orderSign {α : Type*} [LinearOrder α] (a b : α) : ℤ :=
  if a < b then 1 else if a = b then 0 else -1

section

variable {α : Type*} [LinearOrder α] {a b : α}

theorem orderSign_of_lt (h : a < b) : orderSign a b = 1 := if_pos h

theorem orderSign_of_gt (h : b < a) : orderSign a b = -1 := by
  rw [orderSign, if_neg (lt_asymm h), if_neg (ne_of_gt h)]

theorem orderSign_self (a : α) : orderSign a a = 0 := by
  rw [orderSign, if_neg (lt_irrefl a), if_pos rfl]

theorem orderSign_eq_zero : orderSign a b = 0 ↔ a = b := by
  rcases lt_trichotomy a b with h | rfl | h
  · simp [orderSign_of_lt h, h.ne]
  · simp [orderSign_self]
  · simp [orderSign_of_gt h, h.ne']

theorem orderSign_pos : 0 < orderSign a b ↔ a < b := by
  rcases lt_trichotomy a b with h | rfl | h
  · simp [orderSign_of_lt h, h]
  · simp [orderSign_self]
  · simp [orderSign_of_gt h, lt_asymm h]

theorem orderSign_cons_self (a : α) (as bs : List α) :
    orderSign (a :: as) (a :: bs) = orderSign as bs := by
  rcases lt_trichotomy as bs with h | rfl | h
  · rw [orderSign_of_lt h, orderSign_of_lt (List.cons_lt_cons_iff.2 (Or.inr ⟨rfl, h⟩))]
  · rw [orderSign_self, orderSign_self]
  · rw [orderSign_of_gt h, orderSign_of_gt (List.cons_lt_cons_iff.2 (Or.inr ⟨rfl, h⟩))]

theorem orderSign_cons_of_ne (h : a ≠ b) (as bs : List α) :
    orderSign (a :: as) (b :: bs) = if a < b then 1 else -1 := by
  rcases lt_or_gt_of_ne h with hlt | hgt
  · rw [if_pos hlt, orderSign_of_lt (List.cons_lt_cons_iff.2 (Or.inl hlt))]
  · rw [if_neg (lt_asymm hgt), orderSign_of_gt (List.cons_lt_cons_iff.2 (Or.inl hgt))]

end

theorem tokenKey_lt_text {tok1 tok2 : Str} :
    tokenKey false tok1 < tokenKey false tok2 ↔ tok1 < tok2 := by
  simp [tokenKey, Prod.Lex.toLex_lt_toLex]

theorem tokenKey_lt_number {tok1 tok2 : Str} {d1 d2 : WithBot ℚ} (h1 : lexicalCast tok1 = d1)
    (h2 : lexicalCast tok2 = d2) : tokenKey true tok1 < tokenKey true tok2 ↔ d1 < d2 := by
  simp [tokenKey, Prod.Lex.toLex_lt_toLex, h1, h2]

theorem tokenKey_eq_number {tok1 tok2 : Str} :
    tokenKey true tok1 = tokenKey true tok2 ↔ lexicalCast tok1 = lexicalCast tok2 := by
  constructor
  · intro h
    exact (Prod.ext_iff.1 (toLex.injective h)).2
  · intro h
    rw [tokenKey, tokenKey, h]
    rfl

/-- The empty part is below every other. -/
theorem tokenKey_nil_lt {mstr : Bool} {tok : Str} (hne : tok ≠ [])
    (hnumber : mstr = true → tok = [] ∨ (lexicalCast tok).isSome) :
    tokenKey mstr [] < tokenKey mstr tok := by
  cases mstr with
  | false =>
      rw [tokenKey_lt_text]
      cases tok with
      | nil => contradiction
      | cons c cs => exact List.nil_lt_cons c cs
  | true =>
      obtain ⟨d, hd⟩ := Option.isSome_iff_exists.1 ((hnumber rfl).resolve_left hne)
      have hbot : lexicalCast [] = (⊥ : WithBot ℚ) := rfl
      rw [tokenKey_lt_number hbot hd]
      exact WithBot.bot_lt_coe d

/-- Parts without digits are compared as they are. -/
theorem compareText_eq (tok1 tok2 : Str) {keys1 keys2 : List TokenKey} {rest : ℤ}
    (hrest : tokenKey false tok1 = tokenKey false tok2 → rest = orderSign keys1 keys2) :
    (if tok1 = tok2 then rest else if tok1 < tok2 then 1 else -1) =
      orderSign (tokenKey false tok1 :: keys1) (tokenKey false tok2 :: keys2) := by
  by_cases hsame : tok1 = tok2
  · rw [if_pos hsame, hrest (by rw [hsame]), hsame, orderSign_cons_self]
  · have hne : tokenKey false tok1 ≠ tokenKey false tok2 := by
      simpa [tokenKey] using hsame
    rw [if_neg hsame, orderSign_cons_of_ne hne]
    simp only [tokenKey_lt_text]

/-- Numbers are compared with tolerance, which makes no difference if they are apart. -/
theorem compareNumber_eq {tok1 tok2 : Str} {d1 d2 : ℚ} (h1 : lexicalCast tok1 = some d1)
    (h2 : lexicalCast tok2 = some d2) (hapart : d1 = d2 ∨ eps ≤ |d1 - d2|)
    {keys1 keys2 : List TokenKey} {rest : ℤ}
    (hrest : tokenKey true tok1 = tokenKey true tok2 → rest = orderSign keys1 keys2) :
    (if |d1 - d2| < eps then rest else if d1 < d2 then 1 else -1) =
      orderSign (tokenKey true tok1 :: keys1) (tokenKey true tok2 :: keys2) := by
  by_cases hclose : |d1 - d2| < eps
  · -- numbers that are not apart are equal
    have hequal : d1 = d2 := hapart.resolve_right (not_le.2 hclose)
    have hsame : tokenKey true tok1 = tokenKey true tok2 :=
      tokenKey_eq_number.2 (by rw [h1, h2, hequal])
    rw [if_pos hclose, hrest hsame, hsame, orderSign_cons_self]
  · have hne : d1 ≠ d2 := by
      rintro rfl
      exact hclose (by simp [eps])
    have hkeys : tokenKey true tok1 ≠ tokenKey true tok2 := by
      intro hsame
      have hcast := tokenKey_eq_number.1 hsame
      rw [h1, h2] at hcast
      exact hne (Option.some.inj hcast)
    have hlt : tokenKey true tok1 < tokenKey true tok2 ↔ d1 < d2 :=
      (tokenKey_lt_number h1 h2).trans WithBot.coe_lt_coe
    rw [if_neg hclose, orderSign_cons_of_ne hkeys]
    simp only [hlt]

/-- The comparison of parts is the one of their keys, as long as numbers are apart. -/
theorem compareTokens_eq (mstr : Bool) (tokens1 tokens2 : List Str)
    (h1 : Numbered mstr tokens1) (h2 : Numbered mstr tokens2)
    (hapart : ApartToDecide (tokenKeys mstr tokens1) (tokenKeys mstr tokens2)) :
    compareTokens mstr tokens1 tokens2 =
      orderSign (tokenKeys mstr tokens1) (tokenKeys mstr tokens2) := by
  induction tokens1 generalizing mstr tokens2 with
  | nil =>
      cases tokens2 with
      | nil => simp [compareTokens, orderSign_self]
      | cons tok2 rest2 =>
          simp only [compareTokens, tokenKeys, List.length_nil, List.length_cons]
          rw [orderSign_of_lt (List.nil_lt_cons _ _), if_neg (by omega), if_pos (by omega)]
  | cons tok1 rest1 ih =>
      cases tokens2 with
      | nil =>
          simp only [compareTokens, tokenKeys, List.length_nil, List.length_cons]
          rw [orderSign_of_gt (List.nil_lt_cons _ _), if_neg (by omega), if_neg (by omega)]
      | cons tok2 rest2 =>
          have hrest : tokenKey mstr tok1 = tokenKey mstr tok2 →
              compareTokens (!mstr) rest1 rest2 =
                orderSign (tokenKeys (!mstr) rest1) (tokenKeys (!mstr) rest2) :=
            fun hsame => ih (!mstr) rest2 h1.2 h2.2 (hapart.2 hsame)
          simp only [compareTokens, tokenKeys, List.length_eq_zero_iff]
          by_cases hnil1 : tok1 = []
          · subst hnil1
            by_cases hnil2 : tok2 = []
            · subst hnil2
              rw [if_pos ⟨rfl, rfl⟩, hrest rfl, orderSign_cons_self]
            · have hlt := tokenKey_nil_lt hnil2 h2.1
              have hlength : ([] : Str).length < tok2.length := List.length_pos_iff.2 hnil2
              rw [if_neg (by rintro ⟨hsame, _⟩; omega), if_pos (Or.inl rfl), if_pos hlength,
                orderSign_cons_of_ne hlt.ne, if_pos hlt]
          · by_cases hnil2 : tok2 = []
            · subst hnil2
              have hlt := tokenKey_nil_lt hnil1 h1.1
              rw [if_neg (fun hsame => hnil1 hsame.2), if_pos (Or.inr rfl),
                if_neg (by simp), orderSign_cons_of_ne hlt.ne', if_neg (lt_asymm hlt)]
            · rw [if_neg (fun hsame => hnil1 hsame.2), if_neg (not_or.2 ⟨hnil1, hnil2⟩)]
              cases mstr with
              | false =>
                  simp only [Bool.false_eq_true, if_false]
                  exact compareText_eq tok1 tok2 hrest
              | true =>
                  obtain ⟨d1, hd1⟩ := Option.isSome_iff_exists.1 ((h1.1 rfl).resolve_left hnil1)
                  obtain ⟨d2, hd2⟩ := Option.isSome_iff_exists.1 ((h2.1 rfl).resolve_left hnil2)
                  simp only [if_true, hd1, hd2]
                  exact compareNumber_eq hd1 hd2 (hapart.1 d1 d2 hd1 hd2) hrest

theorem numbered_mergeFloats (s : Str) : Numbered false (mergeFloats (tokenizeString s)) :=
  mergeFloats_numbered (tokenizeLoop_alternates false s)

/-- Texts whose numbers are apart are compared by their keys. -/
theorem strCompareNat_eq {s1 s2 : Str}
    (hapart : ApartToDecide (naturalKey s1) (naturalKey s2)) :
    strCompareNat s1 s2 = orderSign (naturalKey s1) (naturalKey s2) :=
  compareTokens_eq false _ _ (numbered_mergeFloats s1) (numbered_mergeFloats s2) hapart

theorem apart_self (keys : List TokenKey) : Apart keys keys := by
  induction keys with
  | nil => trivial
  | cons key rest ih =>
      refine ⟨fun d1 d2 h1 h2 => Or.inl ?_, ih⟩
      exact WithBot.coe_injective (h1.symm.trans h2)

/-- A text is equal to itself. -/
theorem strCompareNat_self (s : Str) : strCompareNat s s = 0 := by
  rw [strCompareNat_eq (apart_self _).toDecide, orderSign_self]

/-! ## Numbers that are not apart -/

/-- A decimal number is one part, between empty ones. -/
theorem mergeFloats_decimal {l r : Str} (hl : l ≠ []) (hr : r ≠ [])
    (hldigits : ∀ c ∈ l, c.isDigit = true) (hrdigits : ∀ c ∈ r, c.isDigit = true) :
    mergeFloats (tokenizeString (l ++ ("." : Str) ++ r)) =
      [[], l ++ ("." : Str) ++ r, []] := by
  have htext : tokenEnd true (l ++ ("." : Str) ++ r) = [] := by
    cases l with
    | nil => contradiction
    | cons c cs => simp [tokenEnd, hldigits c (List.mem_cons_self ..)]
  have hwhole : tokenEnd false (l ++ ("." : Str) ++ r) = l := by
    rw [tokenEnd, List.append_assoc,
      List.takeWhile_append_of_pos (by simpa using hldigits)]
    simp
  have hdot : tokenEnd true (("." : Str) ++ r) = ("." : Str) := by
    cases r with
    | nil => contradiction
    | cons c cs => simp [tokenEnd, hrdigits c (List.mem_cons_self ..)]
  have hfraction : tokenEnd false r = r := by
    rw [tokenEnd, List.takeWhile_eq_self_iff]
    simpa using hrdigits
  have htokens : tokenizeString (l ++ ("." : Str) ++ r) = [[], l, ("." : Str), r, []] := by
    rw [tokenizeString, tokenizeLoop, if_neg (by simp)]
    simp only [Bool.not_false, htext, List.length_nil, List.drop_zero]
    rw [tokenizeLoop, if_neg (by simp)]
    simp only [Bool.not_true, hwhole]
    rw [List.append_assoc, List.drop_left, tokenizeLoop, if_neg (by simp)]
    simp only [Bool.not_false, hdot]
    rw [List.drop_left, tokenizeLoop, if_neg hr]
    simp only [Bool.not_true, hfraction, List.drop_length]
    rw [tokenizeLoop, if_pos rfl]
    rfl
  rw [htokens, mergeFloats, if_neg (by simp), mergeFloats, if_pos ⟨rfl, hl, hr⟩]
  rfl

/-- Decimal numbers are compared with tolerance. -/
theorem strCompareNat_decimal {l1 r1 l2 r2 : Str} (hl1 : l1 ≠ []) (hr1 : r1 ≠ [])
    (hl2 : l2 ≠ []) (hr2 : r2 ≠ []) (hdigits : ∀ c ∈ l1 ++ r1 ++ l2 ++ r2, c.isDigit = true)
    {d1 d2 : ℚ} (hd1 : (digitsValue l1 : ℚ) + digitsValue r1 / 10 ^ r1.length = d1)
    (hd2 : (digitsValue l2 : ℚ) + digitsValue r2 / 10 ^ r2.length = d2) :
    strCompareNat (l1 ++ ("." : Str) ++ r1) (l2 ++ ("." : Str) ++ r2) =
      if |d1 - d2| < eps then 0 else if d1 < d2 then 1 else -1 := by
  simp only [List.mem_append, or_imp, forall_and] at hdigits
  obtain ⟨⟨⟨hl1', hr1'⟩, hl2'⟩, hr2'⟩ := hdigits
  have hcast1 := hd1 ▸ lexicalCast_decimal hl1 hr1 hl1' hr1'
  have hcast2 := hd2 ▸ lexicalCast_decimal hl2 hr2 hl2' hr2'
  have hne1 : l1 ++ ("." : Str) ++ r1 ≠ [] := by simp [hl1]
  have hne2 : l2 ++ ("." : Str) ++ r2 ≠ [] := by simp [hl2]
  rw [strCompareNat, mergeFloats_decimal hl1 hr1 hl1' hr1',
    mergeFloats_decimal hl2 hr2 hl2' hr2']
  generalize l1 ++ ("." : Str) ++ r1 = s1 at hcast1 hne1 ⊢
  generalize l2 ++ ("." : Str) ++ r2 = s2 at hcast2 hne2 ⊢
  simp [compareTokens, hcast1, hcast2, hne1, hne2]

/-- Numbers below one, with eleven digits after the dot. -/
private theorem strCompareNat_eleven {r1 r2 : Str} {n1 n2 : ℕ} (hlength1 : r1.length = 11)
    (hlength2 : r2.length = 11)
    (hdigits : (("0" : Str) ++ r1 ++ ("0" : Str) ++ r2).all Char.isDigit = true)
    (hn1 : digitsValue r1 = n1) (hn2 : digitsValue r2 = n2) :
    strCompareNat (("0" : Str) ++ ("." : Str) ++ r1) (("0" : Str) ++ ("." : Str) ++ r2) =
      if |(n1 : ℚ) / 10 ^ 11 - n2 / 10 ^ 11| < eps then 0
      else if (n1 : ℚ) / 10 ^ 11 < n2 / 10 ^ 11 then 1 else -1 := by
  have hzero : digitsValue ("0" : Str) = 0 := by decide
  refine strCompareNat_decimal (by decide) ?_ (by decide) ?_ (List.all_eq_true.1 hdigits) ?_ ?_
  · exact List.ne_nil_of_length_pos (by omega)
  · exact List.ne_nil_of_length_pos (by omega)
  · rw [hzero, hn1, hlength1, Nat.cast_zero, zero_add]
  · rw [hzero, hn2, hlength2, Nat.cast_zero, zero_add]

/-- A number that counts as equal to two others, which do not count as equal. -/
theorem strCompareNat_intransitive :
    strCompareNat "0.00000000000" "0.00000000006" = 0 ∧
      strCompareNat "0.00000000006" "0.00000000000" = 0 ∧
      strCompareNat "0.00000000006" "0.00000000012" = 0 ∧
      strCompareNat "0.00000000012" "0.00000000006" = 0 ∧
      strCompareNat "0.00000000000" "0.00000000012" = 1 ∧
      strCompareNat "0.00000000012" "0.00000000000" = -1 := by
  have hzero : digitsValue "00000000000" = 0 := by decide
  have hsix : digitsValue "00000000006" = 6 := by decide
  have htwelve : digitsValue "00000000012" = 12 := by decide
  refine ⟨?_, ?_, ?_, ?_, ?_, ?_⟩
  · exact (strCompareNat_eleven rfl rfl rfl hzero hsix).trans (by norm_num [eps, abs_lt])
  · exact (strCompareNat_eleven rfl rfl rfl hsix hzero).trans (by norm_num [eps, abs_lt])
  · exact (strCompareNat_eleven rfl rfl rfl hsix htwelve).trans
      (by norm_num [eps, abs_lt])
  · exact (strCompareNat_eleven rfl rfl rfl htwelve hsix).trans
      (by norm_num [eps, abs_lt])
  · exact (strCompareNat_eleven rfl rfl rfl hzero htwelve).trans
      (by norm_num [eps, abs_lt])
  · exact (strCompareNat_eleven rfl rfl rfl htwelve hzero).trans
      (by norm_num [eps, abs_lt])

end VaeDb
