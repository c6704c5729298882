import Mathlib.Algebra.Order.Field.Basic
import Mathlib.Data.Rat.Floor
import Mathlib.Tactic.Linarith

/-!
# Dividing what remains by the parts that remain

Items are handed out in parts, each of them the rounded up quotient of the items and the
parts that are left.  The parts come out even: as far as the remainder of `n / parts` goes
they are one larger than the quotient, and that is all (`ceil_share`).  This also holds for a
negative number of items, and for a negative number of parts, from which one is taken each
time; then all parts are the quotient.
-/

namespace Shares

/-- What one part gets. -/
def share (n parts i : ℤ) : ℤ := n / parts + if 0 < parts ∧ i < n % parts then 1 else 0

/-- What the parts before one get. -/
def start (n parts i : ℤ) : ℤ :=
  i * (n / parts) + if 0 < parts then min i (n % parts) else 0

variable {n parts i : ℤ}

theorem ceil_div_eq_iff {a d m : ℤ} (hd : 0 < d) :
    ⌈(a : ℚ) / d⌉ = m ↔ (m - 1) * d < a ∧ a ≤ m * d := by
  have hpositive : (0 : ℚ) < d := by exact_mod_cast hd
  rw [Int.ceil_eq_iff, lt_div_iff₀ hpositive, div_le_iff₀ hpositive]
  constructor
  · intro h
    exact ⟨by exact_mod_cast h.1, by exact_mod_cast h.2⟩
  · intro h
    exact ⟨by exact_mod_cast h.1, by exact_mod_cast h.2⟩

@[simp] theorem start_zero : start n parts 0 = 0 := by
  unfold start
  split
  · next hparts =>
    have hnonneg := Int.emod_nonneg n hparts.ne'
    omega
  · omega

theorem start_succ (n parts i : ℤ) :
    start n parts (i + 1) = start n parts i + share n parts i := by
  have hproduct : (i + 1) * (n / parts) = i * (n / parts) + n / parts := by ring
  unfold start share
  rw [hproduct]
  by_cases hparts : 0 < parts
  · simp only [hparts, if_true, true_and]
    split <;> omega
  · simp only [hparts, if_false, false_and]
    omega

/-- All parts together get everything. -/
theorem start_parts (hparts : 0 < parts) : start n parts parts = n := by
  have hdivision := Int.mul_ediv_add_emod n parts
  have hlt := Int.emod_lt_of_pos n hparts
  unfold start
  rw [if_pos hparts]
  omega

/-! ## Rounding up gives the shares -/

theorem ceil_share_of_pos (hlt : i < parts) (hi : 0 ≤ i) :
    ⌈((n - start n parts i : ℤ) : ℚ) / ((parts - i : ℤ) : ℚ)⌉ = share n parts i := by
  have hparts : 0 < parts := by omega
  have hdivision := Int.mul_ediv_add_emod n parts
  have hremainder := Int.emod_lt_of_pos n hparts
  have hnonneg := Int.emod_nonneg n hparts.ne'
  have hleft : n - start n parts i =
      n / parts * (parts - i) + (n % parts - min i (n % parts)) := by
    unfold start
    rw [if_pos hparts]
    linarith
  rw [ceil_div_eq_iff (by omega), hleft]
  unfold share
  by_cases hextra : i < n % parts
  · have hstep : (n / parts + 1) * (parts - i) = n / parts * (parts - i) + (parts - i) := by
      ring
    rw [if_pos ⟨hparts, hextra⟩, add_sub_cancel_right, hstep]
    omega
  · have hstep : (n / parts + 0 - 1) * (parts - i) = n / parts * (parts - i) - (parts - i) := by
      ring
    rw [if_neg (fun h => hextra h.2), hstep, add_zero]
    omega

theorem ceil_share_of_neg (hparts : parts < 0) (hi : 0 ≤ i) :
    ⌈((n - start n parts i : ℤ) : ℚ) / ((parts - i : ℤ) : ℚ)⌉ = share n parts i := by
  have hdivision := Int.mul_ediv_add_emod n parts
  have hremainder := Int.emod_lt_of_neg n hparts
  have hnonneg := Int.emod_nonneg n hparts.ne
  have hnot : ¬ 0 < parts := by omega
  have hflip : ((n - start n parts i : ℤ) : ℚ) / ((parts - i : ℤ) : ℚ) =
      ((-(n - start n parts i) : ℤ) : ℚ) / ((i - parts : ℤ) : ℚ) := by
    rw [← neg_div_neg_eq]
    push_cast
    ring
  have hleft : -(n - start n parts i) = n / parts * (i - parts) - n % parts := by
    unfold start
    rw [if_neg hnot]
    linarith
  have hstep : (n / parts + 0 - 1) * (i - parts) = n / parts * (i - parts) - (i - parts) := by
    ring
  rw [hflip, ceil_div_eq_iff (by omega), hleft]
  unfold share
  rw [if_neg (fun h => hnot h.1), hstep, add_zero]
  omega

/-- What a part gets is the rounded up quotient of what is left and the parts left. -/
theorem ceil_share (hparts : i < parts ∨ parts < 0) (hi : 0 ≤ i) :
    ⌈((n - start n parts i : ℤ) : ℚ) / ((parts - i : ℤ) : ℚ)⌉ = share n parts i := by
  rcases hparts with hpos | hneg
  · exact ceil_share_of_pos hpos hi
  · exact ceil_share_of_neg hneg hi

/-- Where a part starts if each gets the rounded up quotient of what is left and the parts
left, for some reading of the quotient. -/
def startBy (quotient : ℤ → ℤ → ℚ) (n parts : ℤ) : ℕ → ℤ
  | 0 => 0
  | i + 1 => startBy quotient n parts i +
      ⌈quotient (n - startBy quotient n parts i) (parts - i)⌉

/-! ## The shares are even -/

/-- A later part gets as much as an earlier one, or one less. -/
theorem share_even (n parts : ℤ) {j : ℤ} (h : i ≤ j) :
    share n parts j ≤ share n parts i ∧ share n parts i ≤ share n parts j + 1 := by
  unfold share
  split <;> split <;> omega

theorem share_nonneg (hn : 0 ≤ n) (hparts : 0 < parts) : 0 ≤ share n parts i := by
  have hquotient := Int.ediv_nonneg hn hparts.le
  unfold share
  split <;> omega

theorem share_nonpos (hn : n ≤ 0) (hparts : 0 < parts) (hi : 0 ≤ i) :
    share n parts i ≤ 0 := by
  by_cases hzero : n = 0
  · subst hzero
    unfold share
    split <;> simp only [Int.zero_ediv, Int.zero_emod] at * <;> omega
  · have hquotient := Int.ediv_neg_of_neg_of_pos (show n < 0 by omega) hparts
    unfold share
    split <;> omega

/-- With a positive number of items no part starts outside of them. -/
theorem start_mem_of_nonneg (hn : 0 ≤ n) (hi : 0 ≤ i) (hle : i ≤ parts)
    (hparts : 0 < parts) : 0 ≤ start n parts i ∧ start n parts i ≤ n := by
  have hquotient := Int.ediv_nonneg hn hparts.le
  have hnonneg := Int.emod_nonneg n hparts.ne'
  have hdivision := Int.mul_ediv_add_emod n parts
  have hbefore : 0 ≤ i * (n / parts) := mul_nonneg hi hquotient
  have hafter : i * (n / parts) ≤ parts * (n / parts) := mul_le_mul_of_nonneg_right hle hquotient
  unfold start
  rw [if_pos hparts]
  omega

/-- With a negative one the parts go down to it. -/
theorem start_mem_of_nonpos (hn : n ≤ 0) (hi : 0 ≤ i) (hle : i ≤ parts)
    (hparts : 0 < parts) : n ≤ start n parts i ∧ start n parts i ≤ 0 := by
  by_cases hzero : n = 0
  · subst hzero
    simp [start, hi]
  · have hquotient := Int.ediv_neg_of_neg_of_pos (show n < 0 by omega) hparts
    have hremainder := Int.emod_lt_of_pos n hparts
    have hdivision := Int.mul_ediv_add_emod n parts
    have hbefore : i * (n / parts) ≤ i * (-1) := mul_le_mul_of_nonneg_left (by omega) hi
    have hafter : (parts - i) * (n / parts) ≤ (parts - i) * (-1) :=
      mul_le_mul_of_nonneg_left (by omega) (by omega)
    have hsplit : (parts - i) * (n / parts) = parts * (n / parts) - i * (n / parts) := by ring
    unfold start
    rw [if_pos hparts]
    omega

/-- A part gets nothing only if nothing is left. -/
theorem start_eq_of_share (hn : 0 ≤ n) (hparts : 0 < parts)
    (h : share n parts i ≤ 0) : start n parts i = n := by
  have hquotient := Int.ediv_nonneg hn hparts.le
  have hdivision := Int.mul_ediv_add_emod n parts
  unfold share at h
  unfold start
  rw [if_pos hparts]
  split at h
  · omega
  · next hextra =>
    have hzero : n / parts = 0 := by omega
    have hlate : n % parts ≤ i := by
      by_contra hearly
      exact hextra ⟨hparts, by omega⟩
    rw [hzero] at hdivision ⊢
    omega

end Shares
