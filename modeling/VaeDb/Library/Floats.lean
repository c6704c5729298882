import Mathlib.Data.Int.Log
import Mathlib.Data.Rat.Floor
import Mathlib.Tactic.Linarith

/-!
# Rounding to a binary floating point number

A rational is rounded to the nearest number with so many binary digits, and to the one with
an even last digit where two are as near.  The exponent has no bounds.

Rounding keeps numbers that have few digits (`round_eq_self`) and the order of all others
(`round_mono`), which is all that bounds on rounded results need.  The quotient of two
integers is rounded three times; if the first is small, rounding it up to an integer is as
good as rounding up the exact quotient (`ceil_quotient`).
-/

namespace Floats

/-! ## To an integer -/

/-- The nearest integer, and of two the even one. -/
def nearest (x : ℚ) : ℤ :=
  if x - ⌊x⌋ < 1 / 2 then ⌊x⌋
  else if 1 / 2 < x - ⌊x⌋ then ⌊x⌋ + 1
  else ⌊x⌋ + ⌊x⌋ % 2

@[simp] theorem nearest_intCast (n : ℤ) : nearest n = n := by simp [nearest]

theorem nearest_between (x : ℚ) : ⌊x⌋ ≤ nearest x ∧ nearest x ≤ ⌊x⌋ + 1 := by
  unfold nearest
  split
  · omega
  · split <;> omega

theorem sub_nearest_le (x : ℚ) : x - nearest x ≤ 1 / 2 := by
  unfold nearest
  split
  · linarith
  · next hlow =>
    split
    · push_cast
      linarith [Int.lt_floor_add_one x]
    · next hhigh =>
      have hparity : (0 : ℚ) ≤ (⌊x⌋ % 2 : ℤ) := by
        exact_mod_cast Int.emod_nonneg ⌊x⌋ two_ne_zero
      push_cast
      linarith

theorem nearest_mono {x y : ℚ} (h : x ≤ y) : nearest x ≤ nearest y := by
  have hx := nearest_between x
  have hy := nearest_between y
  rcases (Int.floor_mono h).lt_or_eq with hless | hsame
  · omega
  · -- the one with the larger fraction is not rounded down where the other is rounded up
    have hfraction : x - ⌊x⌋ ≤ y - ⌊y⌋ := by
      rw [hsame]
      linarith
    unfold nearest
    rw [hsame] at hfraction ⊢
    by_cases hlow : x - ⌊y⌋ < 1 / 2
    · rw [if_pos hlow]
      split
      · exact le_rfl
      · split <;> omega
    · rw [if_neg hlow, if_neg (show ¬ y - ⌊y⌋ < 1 / 2 by linarith)]
      by_cases hhigh : 1 / 2 < x - ⌊y⌋
      · rw [if_pos hhigh, if_pos (by linarith)]
      · rw [if_neg hhigh]
        split <;> omega

theorem nearest_neg (x : ℚ) : nearest (-x) = -nearest x := by
  by_cases hint : (⌊x⌋ : ℚ) = x
  · rw [← hint, ← Int.cast_neg, nearest_intCast, nearest_intCast]
  · have hless : (⌊x⌋ : ℚ) < x := lt_of_le_of_ne (Int.floor_le x) hint
    have hfloor : ⌊-x⌋ = -⌊x⌋ - 1 := by
      rw [Int.floor_eq_iff]
      have hnext := Int.lt_floor_add_one x
      push_cast
      constructor <;> linarith
    have hrest : -x - (⌊-x⌋ : ℚ) = 1 - (x - ⌊x⌋) := by
      rw [hfloor]
      push_cast
      ring
    unfold nearest
    rw [hrest, hfloor]
    rcases lt_trichotomy (x - ⌊x⌋) (1 / 2) with hlow | htie | hhigh
    · rw [if_neg (by linarith), if_pos (by linarith), if_pos hlow]
      omega
    · rw [htie]
      norm_num
      omega
    · rw [if_pos (by linarith), if_neg (by linarith), if_pos hhigh]
      omega

/-! ## To so many digits -/

variable {precision : ℕ}

/-- The value of the last digit of a number. -/
def ulp (precision : ℕ) (x : ℚ) : ℚ := 2 ^ (Int.log 2 |x| + 1 - precision)

/-- The nearest number with so many digits. -/
def round (precision : ℕ) (x : ℚ) : ℚ := nearest (x / ulp precision x) * ulp precision x

theorem ulp_pos (precision : ℕ) (x : ℚ) : 0 < ulp precision x := by
  unfold ulp
  exact zpow_pos two_pos _

@[simp] theorem round_zero (precision : ℕ) : round precision 0 = 0 := by
  simp [round, nearest]

theorem round_neg (precision : ℕ) (x : ℚ) : round precision (-x) = -round precision x := by
  have hulp : ulp precision (-x) = ulp precision x := by
    unfold ulp
    rw [abs_neg]
  unfold round
  rw [hulp, neg_div, nearest_neg]
  push_cast
  ring

/-- A number whose last digit counts whole is not rounded. -/
theorem round_of_whole {x : ℚ} {n : ℤ} (h : x / ulp precision x = n) :
    round precision x = x := by
  have hpos := ulp_pos precision x
  rw [round, h, nearest_intCast, ← h, div_mul_cancel₀ x hpos.ne']

theorem zpow_log_le {x : ℚ} (hx : 0 < x) : (2 : ℚ) ^ Int.log 2 x ≤ x := by
  exact_mod_cast Int.zpow_log_le_self (by norm_num : 1 < 2) hx

theorem lt_zpow_log (x : ℚ) : x < (2 : ℚ) ^ (Int.log 2 x + 1) := by
  exact_mod_cast Int.lt_zpow_succ_log_self (by norm_num : 1 < 2) x

/-- Between two powers of two the last digit has one value. -/
theorem ulp_of_between {x : ℚ} {k : ℤ} (hlow : 2 ^ k ≤ x) (hhigh : x < 2 ^ (k + 1)) :
    ulp precision x = 2 ^ (k + 1 - precision) := by
  have hpos : 0 < x := (zpow_pos two_pos k).trans_le hlow
  have hlog : Int.log 2 x = k := by
    have hge := (Int.zpow_le_iff_le_log (by norm_num : 1 < 2) hpos).1 (by exact_mod_cast hlow)
    have hlt := (Int.lt_zpow_iff_log_lt (by norm_num : 1 < 2) hpos).1 (by exact_mod_cast hhigh)
    omega
  unfold ulp
  rw [abs_of_pos hpos, hlog]

theorem log_mul_zpow {m : ℤ} (hm : 0 < m) (k : ℤ) :
    Int.log 2 ((m : ℚ) * 2 ^ k) = Int.log 2 (m : ℚ) + k := by
  have hpos : (0 : ℚ) < m := by exact_mod_cast hm
  have hscale : (0 : ℚ) < 2 ^ k := zpow_pos two_pos k
  have hlow : (2 : ℚ) ^ (Int.log 2 (m : ℚ) + k) ≤ m * 2 ^ k := by
    rw [zpow_add₀ two_ne_zero]
    exact mul_le_mul_of_nonneg_right (zpow_log_le hpos) hscale.le
  have hhigh : (m : ℚ) * 2 ^ k < 2 ^ (Int.log 2 (m : ℚ) + k + 1) := by
    rw [add_right_comm, zpow_add₀ two_ne_zero]
    exact mul_lt_mul_of_pos_right (lt_zpow_log (m : ℚ)) hscale
  have hproduct : 0 < (m : ℚ) * 2 ^ k := mul_pos hpos hscale
  have hge := (Int.zpow_le_iff_le_log (by norm_num : 1 < 2) hproduct).1 (by exact_mod_cast hlow)
  have hlt := (Int.lt_zpow_iff_log_lt (by norm_num : 1 < 2) hproduct).1
    (by exact_mod_cast hhigh)
  omega

/-- A number with few digits is not rounded. -/
theorem round_eq_self (hprecision : 1 ≤ precision) {m : ℤ} (hm : |m| ≤ 2 ^ precision) (k : ℤ) :
    round precision (m * 2 ^ k) = m * 2 ^ k := by
  wlog hpos : 0 < m generalizing m
  · rcases (not_lt.1 hpos).lt_or_eq with hneg | rfl
    · have hother := this (m := -m) (by rwa [abs_neg]) (by omega)
      push_cast at hother
      rw [neg_mul, round_neg] at hother
      exact neg_inj.1 hother
    · simp
  rw [abs_of_pos hpos] at hm
  have hlog : Int.log 2 |(m : ℚ) * 2 ^ k| = Int.log 2 (m : ℚ) + k := by
    have hproduct : (0 : ℚ) < m * 2 ^ k :=
      mul_pos (by exact_mod_cast hpos) (zpow_pos two_pos k)
    rw [abs_of_pos hproduct, log_mul_zpow hpos]
  obtain ⟨n, hn⟩ : ∃ n : ℕ, (n : ℤ) = precision - 1 - Int.log 2 (m : ℚ) ∨
      m = 2 ^ precision := by
    by_cases hfull : m = 2 ^ precision
    · exact ⟨0, Or.inr hfull⟩
    · have hless : (m : ℚ) < 2 ^ (precision : ℤ) := by
        have hstrict : m < 2 ^ precision := lt_of_le_of_ne hm hfull
        rw [zpow_natCast]
        exact_mod_cast hstrict
      have hrational : (0 : ℚ) < m := by exact_mod_cast hpos
      have hfew := (Int.lt_zpow_iff_log_lt (by norm_num : 1 < 2) hrational).1
        (show (m : ℚ) < ((2 : ℕ) : ℚ) ^ (precision : ℤ) from hless)
      exact ⟨(precision - 1 - Int.log 2 (m : ℚ)).toNat, Or.inl (by omega)⟩
  rcases hn with hn | rfl
  · refine round_of_whole (n := m * 2 ^ n) ?_
    unfold ulp
    rw [hlog, mul_div_assoc, ← zpow_sub₀ two_ne_zero]
    push_cast
    rw [← zpow_natCast, hn]
    congr 2
    ring
  · refine round_of_whole (n := 2 ^ (precision - 1)) ?_
    unfold ulp
    have hpower : Int.log 2 (((2 ^ precision : ℤ)) : ℚ) = precision := by
      have hzpow := Int.log_zpow (R := ℚ) (by norm_num : 1 < 2) (precision : ℤ)
      push_cast
      exact_mod_cast hzpow
    rw [hlog, hpower, mul_div_assoc, ← zpow_sub₀ two_ne_zero]
    push_cast
    rw [← zpow_natCast, ← zpow_natCast, ← zpow_add₀ two_ne_zero]
    congr 1
    omega

/-- In particular an integer. -/
theorem round_intCast (hprecision : 1 ≤ precision) {n : ℤ} (hn : |n| ≤ 2 ^ precision) :
    round precision n = n := by
  have hwhole := round_eq_self hprecision hn 0
  simpa using hwhole

/-- And a power of two. -/
theorem round_zpow (hprecision : 1 ≤ precision) (k : ℤ) :
    round precision (2 ^ k) = 2 ^ k := by
  have hone : |(1 : ℤ)| ≤ 2 ^ precision := by
    rw [abs_one]
    exact one_le_pow₀ (by norm_num)
  have hwhole := round_eq_self hprecision hone k
  simpa using hwhole

theorem round_one (hprecision : 1 ≤ precision) : round precision 1 = 1 := by
  have hzpow := round_zpow hprecision 0
  simpa using hzpow

theorem round_mono_of_log {x y : ℚ} (hlog : Int.log 2 |x| = Int.log 2 |y|) (h : x ≤ y) :
    round precision x ≤ round precision y := by
  have hulp : ulp precision x = ulp precision y := by
    unfold ulp
    rw [hlog]
  have hpos := ulp_pos precision y
  have hscaled : x / ulp precision y ≤ y / ulp precision y :=
    div_le_div_of_nonneg_right h hpos.le
  unfold round
  rw [hulp]
  exact mul_le_mul_of_nonneg_right (by exact_mod_cast nearest_mono hscaled) hpos.le

/-- Rounding stays between two powers of two. -/
theorem round_between (hprecision : 1 ≤ precision) {x : ℚ} (hx : 0 < x) :
    2 ^ Int.log 2 x ≤ round precision x ∧ round precision x ≤ 2 ^ (Int.log 2 x + 1) := by
  have hlow := zpow_log_le hx
  have hhigh := lt_zpow_log x
  have hulp : ulp precision x = 2 ^ (Int.log 2 x + 1 - precision) := ulp_of_between hlow hhigh
  have hpos := ulp_pos precision x
  have hpower (k : ℕ) : (2 : ℚ) ^ k * ulp precision x = 2 ^ (Int.log 2 x + 1 - precision + k) := by
    rw [hulp, ← zpow_natCast, ← zpow_add₀ two_ne_zero, add_comm]
  -- both powers of two are whole multiples of the last digit
  have hfirst : (2 : ℚ) ^ (precision - 1) ≤ x / ulp precision x := by
    rw [le_div_iff₀ hpos, hpower]
    refine le_trans (le_of_eq ?_) hlow
    congr 1
    omega
  have hlast : x / ulp precision x ≤ (2 : ℚ) ^ precision := by
    rw [div_le_iff₀ hpos, hpower]
    refine hhigh.le.trans (le_of_eq ?_)
    congr 1
    omega
  have hfirstWhole := nearest_mono (x := ((2 ^ (precision - 1) : ℤ) : ℚ)) (by exact_mod_cast hfirst)
  have hlastWhole := nearest_mono (y := ((2 ^ precision : ℤ) : ℚ)) (by exact_mod_cast hlast)
  rw [nearest_intCast] at hfirstWhole hlastWhole
  constructor
  · calc (2 : ℚ) ^ Int.log 2 x = 2 ^ (precision - 1) * ulp precision x := by
          rw [hpower]
          congr 1
          omega
      _ ≤ round precision x :=
          mul_le_mul_of_nonneg_right (by exact_mod_cast hfirstWhole) hpos.le
  · calc round precision x ≤ 2 ^ precision * ulp precision x :=
          mul_le_mul_of_nonneg_right (by exact_mod_cast hlastWhole) hpos.le
      _ = (2 : ℚ) ^ (Int.log 2 x + 1) := by
          rw [hpower]
          congr 1
          omega

theorem round_pos (hprecision : 1 ≤ precision) {x : ℚ} (hx : 0 < x) :
    0 < round precision x := by
  have hpower : (0 : ℚ) < 2 ^ Int.log 2 x := zpow_pos two_pos _
  exact hpower.trans_le (round_between hprecision hx).1

theorem round_mono_of_pos (hprecision : 1 ≤ precision) {x y : ℚ} (hx : 0 < x) (h : x ≤ y) :
    round precision x ≤ round precision y := by
  have hy := hx.trans_le h
  rcases (Int.log_mono_right (b := 2) hx h).lt_or_eq with hless | hsame
  · calc round precision x ≤ 2 ^ (Int.log 2 x + 1) := (round_between hprecision hx).2
      _ ≤ 2 ^ Int.log 2 y := zpow_le_zpow_right₀ one_le_two hless
      _ ≤ round precision y := (round_between hprecision hy).1
  · exact round_mono_of_log (by rw [abs_of_pos hx, abs_of_pos hy, hsame]) h

/-- Rounding keeps the order. -/
theorem round_mono (hprecision : 1 ≤ precision) : Monotone (round precision) := by
  intro x y h
  rcases lt_trichotomy 0 x with hx | rfl | hx
  · exact round_mono_of_pos hprecision hx h
  · rw [round_zero]
    rcases h.lt_or_eq with hy | rfl
    · exact (round_pos hprecision hy).le
    · rw [round_zero]
  · rcases lt_trichotomy 0 y with hy | rfl | hy
    · have hneg := round_pos hprecision (show 0 < -x by linarith)
      have hpos := round_pos hprecision hy
      rw [round_neg] at hneg
      linarith
    · have hneg := round_pos hprecision (show 0 < -x by linarith)
      rw [round_neg] at hneg
      rw [round_zero]
      linarith
    · have hmirror := round_mono_of_pos hprecision (show 0 < -y by linarith) (neg_le_neg h)
      rw [round_neg, round_neg] at hmirror
      linarith

/-- Rounding up to twice the number, and not below half of it. -/
theorem round_le_double (hprecision : 1 ≤ precision) {x : ℚ} (hx : 0 < x) :
    round precision x ≤ 2 * x ∧ x ≤ 2 * round precision x := by
  obtain ⟨hlow, hhigh⟩ := round_between hprecision hx
  have hbelow := zpow_log_le hx
  have habove := lt_zpow_log x
  rw [zpow_add_one₀ two_ne_zero] at hhigh habove
  constructor <;> linarith

/-- What rounding takes away is small. -/
theorem sub_round_le (precision : ℕ) {x : ℚ} (hx : 0 < x) :
    x - round precision x ≤ x / 2 ^ precision := by
  have hpos := ulp_pos precision x
  have hlow := zpow_log_le hx
  have hulp : ulp precision x = 2 ^ Int.log 2 x * 2 / 2 ^ precision := by
    unfold ulp
    rw [abs_of_pos hx, zpow_sub₀ two_ne_zero, zpow_add_one₀ two_ne_zero, zpow_natCast]
  have hsmall : ulp precision x ≤ x * 2 / 2 ^ precision := by
    rw [hulp]
    exact div_le_div_of_nonneg_right (by linarith) (by positivity)
  have hscaled : x - round precision x =
      (x / ulp precision x - nearest (x / ulp precision x)) * ulp precision x := by
    rw [sub_mul, div_mul_cancel₀ x hpos.ne', round]
  have herror := mul_le_mul_of_nonneg_right (sub_nearest_le (x / ulp precision x)) hpos.le
  rw [← hscaled] at herror
  calc x - round precision x ≤ 1 / 2 * ulp precision x := herror
    _ ≤ 1 / 2 * (x * 2 / 2 ^ precision) := by linarith
    _ = x / 2 ^ precision := by ring

/-! ## Quotients of integers -/

/-- The quotient of two integers: both are rounded, and what comes out is. -/
def quotient (precision : ℕ) (a b : ℤ) : ℚ :=
  round precision (round precision a / round precision b)

variable {a b : ℤ}

theorem quotient_neg_left (precision : ℕ) (a b : ℤ) :
    quotient precision (-a) b = -quotient precision a b := by
  unfold quotient
  rw [Int.cast_neg, round_neg, neg_div, round_neg]

theorem quotient_neg_right (precision : ℕ) (a b : ℤ) :
    quotient precision a (-b) = -quotient precision a b := by
  unfold quotient
  rw [Int.cast_neg, round_neg, div_neg, round_neg]

@[simp] theorem quotient_zero (precision : ℕ) (b : ℤ) : quotient precision 0 b = 0 := by
  simp [quotient]

/-- Powers of two are divided exactly. -/
theorem quotient_pow (hprecision : 1 ≤ precision) {i j : ℕ} (h : j ≤ i) :
    quotient precision (2 ^ i) (2 ^ j) = 2 ^ (i - j) := by
  have hpower (k : ℕ) : round precision (2 ^ k) = 2 ^ k := by
    rw [← zpow_natCast, round_zpow hprecision]
  unfold quotient
  push_cast
  rw [hpower, hpower, div_eq_mul_inv, ← pow_sub₀ 2 two_ne_zero h, hpower]

/-- By one, the quotient is rounded twice. -/
theorem quotient_one (hprecision : 1 ≤ precision) (a : ℤ) :
    quotient precision a 1 = round precision (round precision a) := by
  unfold quotient
  rw [Int.cast_one, round_one hprecision, div_one]

theorem round_intCast_nonneg (hprecision : 1 ≤ precision) (ha : 0 ≤ a) :
    0 ≤ round precision a := by
  have hle := round_mono hprecision (show (0 : ℚ) ≤ a by exact_mod_cast ha)
  rwa [round_zero] at hle

/-- The quotient grows with the dividend, and as the divisor shrinks. -/
theorem quotient_mono (hprecision : 1 ≤ precision) {a' b' : ℤ} (ha : 0 ≤ a) (hle : a ≤ a')
    (hb : 0 < b') (hge : b' ≤ b) : quotient precision a b ≤ quotient precision a' b' := by
  have hdividend := round_mono hprecision (show (a : ℚ) ≤ a' by exact_mod_cast hle)
  have hdivisor := round_mono hprecision (show (b' : ℚ) ≤ b by exact_mod_cast hge)
  have hpos := round_pos hprecision (show (0 : ℚ) < b' by exact_mod_cast hb)
  refine round_mono hprecision ?_
  exact div_le_div₀ (round_intCast_nonneg hprecision (ha.trans hle)) hdividend hpos hdivisor

theorem quotient_nonneg (hprecision : 1 ≤ precision) (ha : 0 ≤ a) (hb : 0 < b) :
    0 ≤ quotient precision a b := by
  have hle := quotient_mono hprecision le_rfl ha hb le_rfl
  rwa [quotient_zero] at hle

/-- Half of what an integer is rounded to stays between two powers of two. -/
theorem quotient_two_between (hprecision : 2 ≤ precision) (ha : 0 < a) :
    quotient precision a 2 ≤ a ∧ a ≤ 4 * quotient precision a 2 := by
  have hone : 1 ≤ precision := by omega
  have hpos : (0 : ℚ) < a := by exact_mod_cast ha
  have htwo : round precision ((2 : ℤ) : ℚ) = 2 := by
    have hzpow := round_zpow hone 1
    simpa using hzpow
  obtain ⟨hlow, hhigh⟩ := round_between hone hpos
  have hbelow := zpow_log_le hpos
  have habove := lt_zpow_log (a : ℚ)
  have hhalfLow : (2 : ℚ) ^ (Int.log 2 (a : ℚ) - 1) ≤ round precision a / 2 := by
    rw [zpow_sub_one₀ two_ne_zero]
    linarith
  have hhalfHigh : round precision a / 2 ≤ 2 ^ Int.log 2 (a : ℚ) := by
    rw [zpow_add_one₀ two_ne_zero] at hhigh
    linarith
  have hleast := round_mono hone hhalfLow
  have hmost := round_mono hone hhalfHigh
  rw [round_zpow hone] at hleast hmost
  rw [zpow_sub_one₀ two_ne_zero] at hleast
  rw [zpow_add_one₀ two_ne_zero] at habove
  unfold quotient
  rw [htwo]
  constructor <;> linarith

/-- By two or more, nothing becomes larger. -/
theorem quotient_le_self (hprecision : 2 ≤ precision) (ha : 0 ≤ a) (hb : 2 ≤ b) :
    quotient precision a b ≤ a := by
  rcases ha.lt_or_eq with hpos | rfl
  · exact (quotient_mono (by omega) ha le_rfl two_pos hb).trans
      (quotient_two_between hprecision hpos).1
  · simp

/-- By one, it is at most rounded up twice. -/
theorem quotient_le_four_mul (hprecision : 1 ≤ precision) (ha : 0 ≤ a) (hb : 1 ≤ b) :
    quotient precision a b ≤ 4 * a := by
  rcases ha.lt_or_eq with hpos | rfl
  · have hrational : (0 : ℚ) < a := by exact_mod_cast hpos
    have hfirst := (round_le_double hprecision hrational).1
    have hsecond := (round_le_double hprecision (round_pos hprecision hrational)).1
    calc quotient precision a b ≤ quotient precision a 1 :=
          quotient_mono hprecision ha le_rfl one_pos hb
      _ = round precision (round precision a) := quotient_one hprecision a
      _ ≤ 4 * a := by linarith
  · simp

theorem ceil_eq_one {x : ℚ} (hpos : 0 < x) (hle : x ≤ 1) : ⌈x⌉ = 1 := by
  rw [Int.ceil_eq_iff]
  constructor
  · simpa using hpos
  · simpa using hle

/-- The quotient of a small integer is rounded to no integer that it exceeds. -/
theorem lt_round_div (ha : 0 < a) (hsmall : a < 2 ^ precision) (hb : 0 < b) {n : ℤ}
    (hlow : (n : ℚ) < (a : ℚ) / b) : (n : ℚ) < round precision ((a : ℚ) / b) := by
  by_contra hround
  have hdivisor : (0 : ℚ) < b := by exact_mod_cast hb
  have hquotient : 0 < (a : ℚ) / b := div_pos (by exact_mod_cast ha) hdivisor
  have hgap : (a : ℚ) / b - n ≤ (a : ℚ) / b / 2 ^ precision := by
    linarith [sub_round_le precision hquotient, not_lt.1 hround]
  -- times the divisor, the gap is a whole number, and rounding takes away less than one
  have hwhole : (1 : ℚ) ≤ a - n * b := by
    have hmultiple : n * b < a := by
      rw [lt_div_iff₀ hdivisor] at hlow
      exact_mod_cast hlow
    have hint : 1 ≤ a - n * b := by omega
    exact_mod_cast hint
  have hscaled : (a : ℚ) - n * b ≤ a / 2 ^ precision :=
    calc (a : ℚ) - n * b = ((a : ℚ) / b - n) * b := by
          rw [sub_mul, div_mul_cancel₀ _ hdivisor.ne']
      _ ≤ (a : ℚ) / b / 2 ^ precision * b := mul_le_mul_of_nonneg_right hgap hdivisor.le
      _ = a / 2 ^ precision := by rw [div_right_comm, div_mul_cancel₀ _ hdivisor.ne']
  have hless : (a : ℚ) / 2 ^ precision < 1 := by
    rw [div_lt_one (by positivity)]
    exact_mod_cast hsmall
  linarith

/-- So rounding carries it over no integer. -/
theorem ceil_round_div (hprecision : 1 ≤ precision) (ha : 0 < a) (hsmall : a < 2 ^ precision)
    (hb : 1 ≤ b) : ⌈round precision ((a : ℚ) / b)⌉ = ⌈(a : ℚ) / b⌉ := by
  have hdivisor : (0 : ℚ) < b := by exact_mod_cast hb
  have hquotient : 0 < (a : ℚ) / b := div_pos (by exact_mod_cast ha) hdivisor
  set n := ⌈(a : ℚ) / b⌉ with hn
  obtain ⟨hlow, hhigh⟩ := Int.ceil_eq_iff.1 hn.symm
  have hpositive : 0 < n := Int.ceil_pos.2 hquotient
  have hfew : n ≤ a := by
    rw [hn, Int.ceil_le, div_le_iff₀ hdivisor]
    exact_mod_cast le_mul_of_one_le_right ha.le hb
  rw [Int.ceil_eq_iff]
  constructor
  · have hbelow : ((n - 1 : ℤ) : ℚ) < (a : ℚ) / b := by
      push_cast
      exact hlow
    have hround := lt_round_div ha hsmall (by omega) hbelow
    push_cast at hround
    exact hround
  · have hmono := round_mono hprecision hhigh
    rwa [round_intCast hprecision (by rw [abs_of_pos hpositive]; omega)] at hmono

/-- Rounded up to an integer, the quotient of a small integer is the exact one. -/
theorem ceil_quotient (hprecision : 1 ≤ precision) (ha : 0 ≤ a) (hsmall : a < 2 ^ precision)
    (hb : 1 ≤ b) : ⌈quotient precision a b⌉ = ⌈(a : ℚ) / b⌉ := by
  rcases ha.lt_or_eq with hpos | rfl
  · have hdividend : (0 : ℚ) < a := by exact_mod_cast hpos
    have hdivisor : (0 : ℚ) < b := by exact_mod_cast hb
    have hexact : round precision a = a :=
      round_intCast hprecision (by rw [abs_of_pos hpos]; exact hsmall.le)
    unfold quotient
    rw [hexact]
    by_cases hlarge : 2 ^ precision < b
    · -- both quotients are below one
      have hge : ((2 ^ precision : ℤ) : ℚ) ≤ round precision b := by
        have hmono := round_mono hprecision
          (show (((2 ^ precision : ℤ)) : ℚ) ≤ b by exact_mod_cast hlarge.le)
        rwa [round_intCast hprecision (by rw [abs_of_pos (by positivity)])] at hmono
      have hless : (a : ℚ) < ((2 ^ precision : ℤ) : ℚ) := by exact_mod_cast hsmall
      have hround : 0 < round precision b := hdividend.trans (hless.trans_le hge)
      have hmost := round_mono hprecision ((div_le_one hround).2 (hless.le.trans hge))
      rw [round_one hprecision] at hmost
      have hbelow : (a : ℚ) / b ≤ 1 := by
        rw [div_le_one hdivisor]
        exact_mod_cast (hsmall.trans hlarge).le
      calc ⌈round precision (a / round precision b)⌉ = 1 :=
            ceil_eq_one (round_pos hprecision (div_pos hdividend hround)) hmost
        _ = ⌈(a : ℚ) / b⌉ := (ceil_eq_one (div_pos hdividend hdivisor) hbelow).symm
    · have hexact' : round precision b = b :=
        round_intCast hprecision (by rw [abs_of_pos (by omega)]; omega)
      rw [hexact']
      exact ceil_round_div hprecision hpos hsmall hb
  · simp

end Floats
