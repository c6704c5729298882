import VaeDb.Library.Floats
import VaeDb.Response.Groups

/-!
# Single precision

`ceil((float)a / b)` divides in single precision: both `int`s are rounded to 24 binary digits,
and so is the quotient.

* `inInt32_ceil_single`: by anything but one and minus one, what comes out is an `int`.
* `queryBy_single`: as long as `skip` does not lead out of a result of less than 2^24 nodes,
  it is as good as the exact quotient.
-/

namespace VaeDb.Response

variable {α : Type} {response : Response} {surroundings : Surroundings α}
  {nodes : List (ResultNode α)} {a b : ℤ}

/-- `(float)a / b`. -/
def single (a b : ℤ) : ℚ := Floats.quotient 24 a b

/-! ## What comes out is an `int` -/

theorem single_neg_left (a b : ℤ) : single (-a) b = -single a b :=
  Floats.quotient_neg_left 24 a b

theorem single_neg_right (a b : ℤ) : single a (-b) = -single a b :=
  Floats.quotient_neg_right 24 a b

/-- By two or more, the quotient is between zero and the dividend. -/
theorem ceil_single_between (hb : 2 ≤ b) :
    min a 0 ≤ ⌈single a b⌉ ∧ ⌈single a b⌉ ≤ max a 0 := by
  have hpos : 0 < b := by omega
  by_cases ha : 0 ≤ a
  · have hlow := Int.ceil_nonneg (Floats.quotient_nonneg (by norm_num : 1 ≤ 24) ha hpos)
    have hhigh := Int.ceil_le.2 (Floats.quotient_le_self (by norm_num : 2 ≤ 24) ha hb)
    unfold single
    omega
  · have hneg : 0 ≤ -a := by omega
    have hlow := Floats.quotient_nonneg (by norm_num : 1 ≤ 24) hneg hpos
    have hhigh := Floats.quotient_le_self (by norm_num : 2 ≤ 24) hneg hb
    rw [Floats.quotient_neg_left] at hlow hhigh
    push_cast at hhigh
    have hreal : (a : ℚ) ≤ single a b := by
      unfold single
      linarith
    have hleast : a ≤ ⌈single a b⌉ := by exact_mod_cast hreal.trans (Int.le_ceil _)
    have hmost : ⌈single a b⌉ ≤ 0 := by
      rw [Int.ceil_le]
      unfold single
      push_cast
      linarith
    omega

theorem ceil_single_nonneg (ha : 0 ≤ a) (hb : 0 < b) : 0 ≤ ⌈single a b⌉ :=
  Int.ceil_nonneg (Floats.quotient_nonneg (by norm_num) ha hb)

theorem ceil_single_nonpos (ha : a ≤ 0) (hb : 0 < b) : ⌈single a b⌉ ≤ 0 := by
  have hmirror := Floats.quotient_nonneg (by norm_num : 1 ≤ 24) (show 0 ≤ -a by omega) hb
  change 0 ≤ single (-a) b at hmirror
  rw [single_neg_left] at hmirror
  exact Int.ceil_le.2 (by push_cast; linarith)

/-- And not more than half of the last `int`. -/
theorem single_le_half (hb : 2 ≤ b) (hlow : -2 ^ 31 ≤ a) (hhigh : a ≤ 2 ^ 31) :
    -2 ^ 30 ≤ single a b ∧ single a b ≤ 2 ^ 30 := by
  have hhalf : single (2 ^ 31) (2 ^ 1) = 2 ^ 30 :=
    Floats.quotient_pow (by norm_num) (by norm_num)
  have hbound {c : ℤ} (hc : 0 ≤ c) (hle : c ≤ 2 ^ 31) : single c b ≤ 2 ^ 30 := by
    rw [← hhalf, pow_one]
    exact Floats.quotient_mono (by norm_num) hc hle two_pos hb
  have hsign {c : ℤ} (hc : 0 ≤ c) : 0 ≤ single c b :=
    Floats.quotient_nonneg (by norm_num) hc (by omega)
  by_cases ha : 0 ≤ a
  · have hnonneg := hsign ha
    exact ⟨by linarith, hbound ha hhigh⟩
  · have hmirror := hbound (show 0 ≤ -a by omega) (by omega)
    have hnonneg := hsign (show 0 ≤ -a by omega)
    rw [single_neg_left] at hmirror hnonneg
    constructor <;> linarith

/-- The first `int` that is rounded up to one that is none: it is in the middle of two numbers
with 24 digits. -/
theorem single_one_first : single (2 ^ 31 - 64) 1 = 2 ^ 31 := by
  have hulp : Floats.ulp 24 (2 ^ 31 - 64) = 2 ^ 7 :=
    Floats.ulp_of_between (k := 30) (by norm_num) (by norm_num)
  have hnearest : Floats.nearest ((2 ^ 31 - 64) / 2 ^ 7) = 2 ^ 24 := by decide +kernel
  have hround : Floats.round 24 (2 ^ 31 - 64) = 2 ^ 31 := by
    rw [Floats.round, hulp, hnearest]
    norm_num
  have hagain : Floats.round 24 (2 ^ 31) = 2 ^ 31 := Floats.round_zpow (by norm_num) 31
  unfold single
  rw [Floats.quotient_one (by norm_num), Int.cast_sub, Int.cast_pow, Int.cast_ofNat,
    Int.cast_ofNat, hround, hagain]

/-- The one before it is rounded down. -/
theorem single_one_before : single (2 ^ 31 - 65) 1 = 2 ^ 31 - 128 := by
  have hulp : Floats.ulp 24 (2 ^ 31 - 65) = 2 ^ 7 :=
    Floats.ulp_of_between (k := 30) (by norm_num) (by norm_num)
  have hnearest : Floats.nearest ((2 ^ 31 - 65) / 2 ^ 7) = 2 ^ 24 - 1 := by decide +kernel
  have hround : Floats.round 24 (2 ^ 31 - 65) = 2 ^ 31 - 128 := by
    rw [Floats.round, hulp, hnearest]
    norm_num
  have hdigits : (2 ^ 31 - 128 : ℚ) = ((2 ^ 24 - 1 : ℤ) : ℚ) * 2 ^ (7 : ℤ) := by norm_num
  unfold single
  rw [Floats.quotient_one (by norm_num), Int.cast_sub, Int.cast_pow, Int.cast_ofNat,
    Int.cast_ofNat, hround, hdigits]
  exact Floats.round_eq_self (by norm_num) (by norm_num) 7

/-- By one, the last `int`s are rounded up to one that is none. -/
theorem inInt32_ceil_single_one (hlow : -2 ^ 31 ≤ a) (hhigh : a ≤ 2 ^ 31) :
    InInt32 ⌈single a 1⌉ ↔ a < 2 ^ 31 - 64 := by
  have hfirst : single (2 ^ 31 - 64) 1 = 2 ^ 31 := single_one_first
  have hbefore : single (2 ^ 31 - 65) 1 ≤ ((2 ^ 31 - 1 : ℤ) : ℚ) := by
    rw [single_one_before]
    norm_num
  have hlast : single (2 ^ 31) (2 ^ 0) = 2 ^ 31 :=
    Floats.quotient_pow (by norm_num) (Nat.zero_le _)
  have hmono {c d : ℤ} (hc : 0 ≤ c) (hle : c ≤ d) : single c 1 ≤ single d 1 :=
    Floats.quotient_mono (by norm_num) hc hle one_pos le_rfl
  unfold InInt32
  constructor
  · rintro ⟨-, hint⟩
    by_contra hlarge
    have hover := hmono (by norm_num) (not_lt.1 hlarge)
    rw [hfirst] at hover
    have hceil : (2 : ℤ) ^ 31 ≤ ⌈single a 1⌉ := by
      exact_mod_cast hover.trans (Int.le_ceil _)
    omega
  · intro hsmall
    by_cases ha : 0 ≤ a
    · have hle := Int.ceil_le.2 ((hmono ha (show a ≤ 2 ^ 31 - 65 by omega)).trans hbefore)
      have hnonneg := Int.ceil_nonneg (Floats.quotient_nonneg (by norm_num : 1 ≤ 24) ha one_pos)
      change 0 ≤ ⌈single a 1⌉ at hnonneg
      omega
    · have hneg : 0 ≤ -a := by omega
      have hle := hmono hneg (show -a ≤ 2 ^ 31 by omega)
      have hnonneg := Floats.quotient_nonneg (by norm_num : 1 ≤ 24) hneg one_pos
      change 0 ≤ single (-a) 1 at hnonneg
      rw [single_neg_left] at hle hnonneg
      rw [pow_zero] at hlast
      rw [hlast] at hle
      have hleast : ((-2 ^ 31 : ℤ) : ℚ) ≤ ⌈single a 1⌉ := by
        refine le_trans ?_ (Int.le_ceil _)
        push_cast
        linarith
      have hmost : ⌈single a 1⌉ ≤ 0 := Int.ceil_le.2 (by push_cast; linarith)
      have hceil : (-2 : ℤ) ^ 31 ≤ ⌈single a 1⌉ := by exact_mod_cast hleast
      omega

/-- What comes out is an `int`, unless the last `int`s are divided by one, or the first ones
by minus one. -/
theorem inInt32_ceil_single (ha : InInt32 a) (hb : b ≠ 0) :
    InInt32 ⌈single a b⌉ ↔ (b = 1 → a < 2 ^ 31 - 64) ∧ (b = -1 → -a < 2 ^ 31 - 64) := by
  obtain ⟨hlow, hhigh⟩ := ha
  have hint {c d : ℤ} (hd : 2 ≤ d) (hmin : -2 ^ 31 ≤ c) (hmax : c ≤ 2 ^ 31) :
      InInt32 ⌈single c d⌉ := by
    obtain ⟨hleast, hmost⟩ := single_le_half hd hmin hmax
    have hfloor : ((-2 ^ 30 : ℤ) : ℚ) ≤ ⌈single c d⌉ :=
      le_trans (by push_cast; exact hleast) (Int.le_ceil _)
    have habove : ⌈single c d⌉ ≤ 2 ^ 30 := Int.ceil_le.2 (by push_cast; exact hmost)
    have hcast : (-2 ^ 30 : ℤ) ≤ ⌈single c d⌉ := by exact_mod_cast hfloor
    unfold InInt32
    omega
  have hmirror (d : ℤ) : single a d = single (-a) (-d) := by
    rw [single_neg_left, single_neg_right, neg_neg]
  rcases (by omega : b = 1 ∨ b = -1 ∨ 2 ≤ b ∨ 2 ≤ -b) with rfl | rfl | hmore | hless
  · rw [inInt32_ceil_single_one hlow hhigh.le]
    omega
  · rw [hmirror, neg_neg, inInt32_ceil_single_one (by omega) (by omega)]
    omega
  · exact iff_of_true (hint hmore hlow hhigh.le) (by omega)
  · rw [hmirror]
    exact iff_of_true (hint hless (by omega) (by omega)) (by omega)

/-! ## Small results -/

/-- For a small dividend, the exact quotient rounded up. -/
theorem ceilDiv_single (ha : 0 ≤ a) (hsmall : a < 2 ^ 24) (hb : 0 ≤ b) :
    ceilDiv single a b = ceilDiv exactly a b := by
  unfold ceilDiv
  by_cases hzero : b = 0
  · rw [if_pos hzero, if_pos hzero]
  · have hceil : ⌈single a b⌉ = ⌈exactly a b⌉ :=
      Floats.ceil_quotient (by norm_num) ha hsmall (by omega)
    have hrational (x : ℚ) : x.ceil = ⌈x⌉ := Rat.ceil_eq_neg_floor_neg _
    rw [if_neg hzero, if_neg hzero, hrational, hrational, hceil]

/-- Each round leaves some of what it divides. -/
theorem groupLoop_single {size groups : ℤ} (hsize : size < 2 ^ 24) (rounds : ℕ)
    {j skip paginate : ℤ} (hj : j ≤ groups)
    (hfrom : 0 ≤ if j > 0 then skip + paginate else skip)
    (hto : (if j > 0 then skip + paginate else skip) ≤ size) :
    groupLoop single size groups rounds j skip paginate =
      groupLoop exactly size groups rounds j skip paginate := by
  induction rounds generalizing j skip paginate with
  | zero => rfl
  | succ rounds ih =>
      have hloop (quotient : ℤ → ℤ → ℚ) :
          groupLoop quotient size groups (rounds + 1) j skip paginate =
          (if j > 0 then int32 (skip + paginate) else pure skip) >>= (fun skip => do
            let left ← int32 (size - skip)
            let groupsLeft ← int32 (groups - j)
            let paginate ← ceilDiv quotient left groupsLeft
            groupLoop quotient size groups rounds (j + 1) skip paginate) := by
        rw [groupLoop]
        split <;> rfl
      rw [hloop, hloop]
      cases hskip : (if j > 0 then int32 (skip + paginate) else pure skip : Outcome ℤ) with
      | error fault => simp only [bind, Except.bind]
      | ok moved =>
          have hmoved : moved = if j > 0 then skip + paginate else skip := by
            by_cases hround : j > 0
            · rw [if_pos hround] at hskip ⊢
              exact int32_eq_ok hskip
            · rw [if_neg hround] at hskip ⊢
              exact (Outcome.pure_eq_ok.1 hskip).symm
          rw [← hmoved] at hfrom hto
          simp only [bind, Except.bind]
          cases hleft : int32 (size - moved) with
          | error fault => simp only
          | ok left =>
              obtain rfl := int32_eq_ok hleft
              cases hgroups : int32 (groups - j) with
              | error fault => simp only
              | ok groupsLeft =>
                  obtain rfl := int32_eq_ok hgroups
                  simp only
                  rw [ceilDiv_single (by omega) (by omega) (by omega)]
                  cases hceil : ceilDiv exactly (size - moved) (groups - j) with
                  | error fault => rfl
                  | ok share =>
                      obtain ⟨hdivisor, -, rfl⟩ := ceilDiv_eq_ok_iff.1 hceil
                      have hdividend : (0 : ℚ) ≤ (size - moved : ℤ) := by
                        exact_mod_cast (by omega : 0 ≤ size - moved)
                      have hmany : (1 : ℚ) ≤ (groups - j : ℤ) := by
                        exact_mod_cast (by omega : 1 ≤ groups - j)
                      have hnonneg : 0 ≤ ⌈exactly (size - moved) (groups - j)⌉ :=
                        Int.ceil_nonneg (div_nonneg hdividend (by linarith))
                      have hle : ⌈exactly (size - moved) (groups - j)⌉ ≤ size - moved :=
                        Int.ceil_le.2 (div_le_self hdividend hmany)
                      refine ih (by omega) ?_ ?_
                      · split <;> omega
                      · split <;> omega

/-- Inside of a result of less than 2^24 nodes, single precision changes nothing. -/
theorem queryBy_single (surroundings : Surroundings α) (hsize : nodes.length < 2 ^ 24)
    (hskip : 0 ≤ response.skip) (hinside : response.skip ≤ nodes.length)
    (hpaginate : 0 ≤ response.paginate) (hgroups : 0 ≤ response.groups) :
    response.queryBy single surroundings nodes = response.query surroundings nodes := by
  have hturn : response.turnPage single nodes.length =
      response.turnPage exactly nodes.length := by
    unfold turnPage
    split
    · exact groupLoop_single (by omega) _ hgroups (by rw [if_neg (by omega)]; exact hskip)
        (by rw [if_neg (by omega)]; exact hinside)
    · cases hleft : int32 (nodes.length - response.skip) with
      | error fault => rfl
      | ok left =>
          obtain rfl := int32_eq_ok hleft
          simp only [bind, Except.bind]
          rw [ceilDiv_single (by omega) (by omega) hpaginate]
  unfold query queryBy offsets
  rw [hturn]

end VaeDb.Response
