import VaeDb.Util.NaturalOrder

/-!
# The laws of natural comparison

`str_compare_nat` of two texts in the other order is its negative, always
(`strCompareNat_swap`).  Transitivity fails where numbers that differ count as equal.  As long
as the first parts in which two texts differ are not such numbers, the comparison is the one
of the keys, and so are its laws (`strCompareNat_preorder`).
-/

namespace VaeDb

/-! ## The other order -/

/-- What the comparison does with one part is symmetric, apart from the sign. -/
theorem compareTokens_swap (mstr : Bool) (tokens1 tokens2 : List Str) :
    compareTokens mstr tokens1 tokens2 = -compareTokens mstr tokens2 tokens1 := by
  induction tokens1 generalizing mstr tokens2 with
  | nil =>
      cases tokens2 with
      | nil => simp [compareTokens]
      | cons tok2 rest2 => simp [compareTokens]
  | cons tok1 rest1 ih =>
      cases tokens2 with
      | nil => simp [compareTokens]
      | cons tok2 rest2 =>
          have hrest := ih (!mstr) rest2
          have htext : (if tok1 = tok2 then compareTokens (!mstr) rest1 rest2
              else if tok1 < tok2 then (1 : ℤ) else -1) =
              -(if tok2 = tok1 then compareTokens (!mstr) rest2 rest1
              else if tok2 < tok1 then (1 : ℤ) else -1) := by
            rcases lt_trichotomy tok1 tok2 with hlt | rfl | hgt
            · simp [hlt, hlt.ne, hlt.ne', lt_asymm hlt]
            · simp [hrest]
            · simp [hgt, hgt.ne, hgt.ne', lt_asymm hgt]
          simp only [compareTokens]
          have hboth : tok1.length = tok2.length ∧ tok1.length = 0 ↔
              tok2.length = tok1.length ∧ tok2.length = 0 := by omega
          by_cases hempty : tok1.length = tok2.length ∧ tok1.length = 0
          · rw [if_pos hempty, if_pos (hboth.1 hempty), hrest]
          · rw [if_neg hempty, if_neg fun h => hempty (hboth.2 h)]
            by_cases hone : tok1.length = 0 ∨ tok2.length = 0
            · -- one of them is empty, and the other one is not
              rw [if_pos hone, if_pos hone.symm]
              split <;> split <;> omega
            · have hother : ¬ (tok2.length = 0 ∨ tok1.length = 0) := fun h => hone h.symm
              rw [if_neg hone, if_neg hother]
              cases mstr with
              | false => exact htext
              | true =>
                  simp only [if_true]
                  cases hcast1 : lexicalCast tok1 with
                  | none => cases lexicalCast tok2 <;> exact htext
                  | some d1 =>
                      cases hcast2 : lexicalCast tok2 with
                      | none => exact htext
                      | some d2 =>
                          simp only [abs_sub_comm d2 d1]
                          by_cases hclose : |d1 - d2| < eps
                          · rw [if_pos hclose, if_pos hclose, hrest]
                          · rw [if_neg hclose, if_neg hclose]
                            have hne : d1 ≠ d2 := by
                              rintro rfl
                              exact hclose (by simp [eps])
                            rcases lt_or_gt_of_ne hne with hlt | hgt
                            · simp [hlt, lt_asymm hlt]
                            · simp [hgt, lt_asymm hgt]

theorem strCompareNat_swap (s1 s2 : Str) : strCompareNat s1 s2 = -strCompareNat s2 s1 :=
  compareTokens_swap false _ _

/-! ## Three texts -/

theorem orderSign_nonneg {α : Type*} [LinearOrder α] {a b : α} :
    0 ≤ orderSign a b ↔ a ≤ b := by
  rcases lt_trichotomy a b with h | rfl | h
  · simp [orderSign_of_lt h, h.le]
  · simp [orderSign_self]
  · simp [orderSign_of_gt h, h]

/-- If numbers in ascending order are apart one by one, the first and the last are. -/
theorem apart_trans {n1 n2 n3 : WithBot ℚ} (h12 : n1 ≤ n2) (h23 : n2 ≤ n3)
    (hapart12 : ∀ d1 d2 : ℚ, n1 = d1 → n2 = d2 → d1 = d2 ∨ eps ≤ |d1 - d2|)
    (hapart23 : ∀ d2 d3 : ℚ, n2 = d2 → n3 = d3 → d2 = d3 ∨ eps ≤ |d2 - d3|) {d1 d3 : ℚ}
    (hd1 : n1 = d1) (hd3 : n3 = d3) : d1 = d3 ∨ eps ≤ |d1 - d3| := by
  subst hd1
  subst hd3
  obtain ⟨d2, hd2, hle12⟩ := WithBot.coe_le_iff.1 h12
  subst hd2
  have hle23 : d2 ≤ d3 := WithBot.coe_le_coe.1 h23
  rcases hapart12 d1 d2 rfl rfl with rfl | hapart
  · exact hapart23 d1 d3 rfl rfl
  · right
    calc eps ≤ |d1 - d2| := hapart
      _ = d2 - d1 := by rw [abs_sub_comm, abs_of_nonneg (sub_nonneg.2 hle12)]
      _ ≤ d3 - d1 := sub_le_sub_right hle23 d1
      _ = |d1 - d3| := by rw [abs_sub_comm, abs_of_nonneg (sub_nonneg.2 (hle12.trans hle23))]

/-- A list comes first because its head does, or because its tail does. -/
theorem cons_le_cons {α : Type*} [LinearOrder α] {a b : α} {as bs : List α}
    (h : a :: as ≤ b :: bs) : a ≤ b ∧ (a = b → as ≤ bs) := by
  refine ⟨le_of_not_gt fun hgt => ?_, fun hsame => le_of_not_gt fun hgt => ?_⟩
  · exact not_lt_of_ge h (List.cons_lt_cons_iff.2 (Or.inl hgt))
  · exact not_lt_of_ge h (List.cons_lt_cons_iff.2 (Or.inr ⟨hsame.symm, hgt⟩))

theorem apartToDecide_trans {mstr : Bool} {tokens1 tokens2 tokens3 : List Str}
    (h12 : tokenKeys mstr tokens1 ≤ tokenKeys mstr tokens2)
    (h23 : tokenKeys mstr tokens2 ≤ tokenKeys mstr tokens3)
    (hapart12 : ApartToDecide (tokenKeys mstr tokens1) (tokenKeys mstr tokens2))
    (hapart23 : ApartToDecide (tokenKeys mstr tokens2) (tokenKeys mstr tokens3)) :
    ApartToDecide (tokenKeys mstr tokens1) (tokenKeys mstr tokens3) := by
  induction tokens1 generalizing mstr tokens2 tokens3 with
  | nil => trivial
  | cons tok1 rest1 ih =>
      cases tokens3 with
      | nil => trivial
      | cons tok3 rest3 =>
          cases tokens2 with
          | nil => exact absurd (List.nil_lt_cons _ _) (not_lt_of_ge h12)
          | cons tok2 rest2 =>
              obtain ⟨hhead12, htail12⟩ := cons_le_cons h12
              obtain ⟨hhead23, htail23⟩ := cons_le_cons h23
              refine ⟨fun d1 d3 hd1 hd3 => ?_, fun hsame => ?_⟩
              · cases mstr with
                | false => exact (WithBot.bot_ne_coe hd1).elim
                | true =>
                    have hle {tok tok' : Str} (h : tokenKey true tok ≤ tokenKey true tok') :
                        (ofLex (tokenKey true tok)).2 ≤ (ofLex (tokenKey true tok')).2 := by
                      simpa [tokenKey, Prod.Lex.toLex_le_toLex] using h
                    exact apart_trans (hle hhead12) (hle hhead23) hapart12.1 hapart23.1 hd1 hd3
              · -- the part between is the same as well
                have hsame12 : tokenKey mstr tok1 = tokenKey mstr tok2 :=
                  le_antisymm hhead12 (hhead23.trans hsame.ge)
                have hsame23 : tokenKey mstr tok2 = tokenKey mstr tok3 :=
                  hsame12.symm.trans hsame
                exact ih (htail12 hsame12) (htail23 hsame23) (hapart12.2 hsame12)
                  (hapart23.2 hsame23)

/-! ## The laws -/

/-- Natural comparison changes its sign with the order of the texts.  For a text that two
others are compared with, it is transitive, both as an order and as an equality, unless the
first parts in which it differs from one of them are numbers less than `eps` apart. -/
theorem strCompareNat_preorder :
    (∀ a b, strCompareNat a b = -strCompareNat b a) ∧
    ∀ a b c, ApartToDecide (naturalKey a) (naturalKey b) →
      ApartToDecide (naturalKey b) (naturalKey c) →
      (0 ≤ strCompareNat a b → 0 ≤ strCompareNat b c → 0 ≤ strCompareNat a c) ∧
      (strCompareNat a b = 0 → strCompareNat b c = 0 → strCompareNat a c = 0) := by
  refine ⟨strCompareNat_swap, fun a b c hab hbc => ?_⟩
  rw [strCompareNat_eq hab, strCompareNat_eq hbc]
  simp only [orderSign_nonneg, orderSign_eq_zero]
  constructor
  · intro hle hle'
    rw [strCompareNat_eq (apartToDecide_trans hle hle' hab hbc), orderSign_nonneg]
    exact hle.trans hle'
  · intro heq heq'
    have hac : ApartToDecide (naturalKey a) (naturalKey c) :=
      apartToDecide_trans heq.le heq'.le hab hbc
    rw [strCompareNat_eq hac, orderSign_eq_zero]
    exact heq.trans heq'

/-- 0.00000000012 is not after 0.00000000006, nor that after 0, but it is after 0. -/
theorem strCompareNat_not_preorder :
    ¬ ∀ a b c, strCompareNat a b = -strCompareNat b a ∧
      (0 ≤ strCompareNat a b → 0 ≤ strCompareNat b c → 0 ≤ strCompareNat a c) ∧
      (strCompareNat a b = 0 → strCompareNat b c = 0 → strCompareNat a c = 0) := by
  intro h
  obtain ⟨-, h10, -, h21, -, h20⟩ := strCompareNat_intransitive
  obtain ⟨-, htrans, -⟩ := h "0.00000000012" "0.00000000006" "0.00000000000"
  have hnonneg := htrans h21.ge h10.ge
  rw [h20] at hnonneg
  omega

/-- Numbers between zero and ten with one digit after the dot are apart. -/
theorem apartToDecide_halves (c1 c2 : Char) (h1 : c1.isDigit = true) (h2 : c2.isDigit = true)
    (hapart : digitsValue [c1] + 1 = digitsValue [c2]) :
    ApartToDecide (naturalKey [c1, '.', '5']) (naturalKey [c2, '.', '5']) := by
  have hkey (c : Char) (hdigit : c.isDigit = true) : naturalKey [c, '.', '5'] =
      tokenKeys false [[], [c, '.', '5'], []] :=
    congrArg (tokenKeys false) (mergeFloats_decimal (l := [c]) (r := ['5']) (by simp) (by simp)
      (by simpa using hdigit) (by decide))
  have hcast (c : Char) (hdigit : c.isDigit = true) : lexicalCast [c, '.', '5'] =
      some ((digitsValue [c] : ℚ) + 5 / 10) := by
    have hvalue := lexicalCast_decimal (l := [c]) (r := ['5']) (by simp) (by simp)
      (by simpa using hdigit) (by decide)
    simpa [digitsValue] using hvalue
  rw [hkey c1 h1, hkey c2 h2]
  refine ⟨fun d1 d2 hd1 _ => (WithBot.bot_ne_coe hd1).elim, fun _ => ⟨fun d1 d2 hd1 hd2 => ?_,
    fun _ => ⟨fun d1 d2 hd1 _ => ?_, fun _ => trivial⟩⟩⟩
  · right
    obtain rfl := Option.some.inj ((hcast c1 h1).symm.trans hd1)
    obtain rfl := Option.some.inj ((hcast c2 h2).symm.trans hd2)
    have hnext : (digitsValue [c2] : ℚ) = digitsValue [c1] + 1 := by exact_mod_cast hapart.symm
    rw [hnext, add_sub_add_right_eq_sub, sub_add_cancel_left]
    norm_num [eps]
  · exact (WithBot.bot_ne_coe hd1).elim

theorem strCompareNat_preorder_halves : 0 ≤ strCompareNat "0.5" "2.5" := by
  have hnext (c1 c2 : Char) (h1 : c1.isDigit = true) (h2 : c2.isDigit = true)
      (hvalue : digitsValue [c1] + 1 = digitsValue [c2]) :
      0 ≤ strCompareNat [c1, '.', '5'] [c2, '.', '5'] := by
    have hvalue' : (digitsValue [c2] : ℚ) = digitsValue [c1] + 1 := by
      exact_mod_cast hvalue.symm
    have hcompare := @strCompareNat_decimal [c1] ['5'] [c2] ['5'] (by simp) (by simp)
      (by simp) (by simp) (by simp [h1, h2]) _ _ rfl rfl
    refine le_of_le_of_eq ?_ hcompare.symm
    split
    · exact le_rfl
    · rw [hvalue', if_pos ((add_lt_add_iff_right _).2 (lt_add_one _))]
      exact zero_le_one
  exact (strCompareNat_preorder.2 "0.5" "1.5" "2.5"
    (apartToDecide_halves '0' '1' (by decide) (by decide) (by decide))
    (apartToDecide_halves '1' '2' (by decide) (by decide) (by decide))).1
    (hnext '0' '1' (by decide) (by decide) (by decide))
    (hnext '1' '2' (by decide) (by decide) (by decide))

end VaeDb
