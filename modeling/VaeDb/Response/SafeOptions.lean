import VaeDb.Response.Clamps
import VaeDb.Response.Options
import VaeDb.Response.SinglePrecision

/-!
# Which options are safe

Nothing bounds the options, so the `int`s that `query` computes from them can overflow and a
divisor can be zero.  For which of them a window is computed is arithmetic: up to which page
(`SafePage`), and with which groups (`SafeGroup`).  The quotients are those of single
precision.  `fits_iff_safe` says that these are exactly the conditions.
-/

namespace VaeDb.Response

open Shares

variable {response : Response} {size : ℤ}

/-- No `int` overflows on the way to the window, and no divisor is zero. -/
def FitsSingle (response : Response) (size : ℤ) : Prop :=
  ∃ window, response.offsets single size = .ok window

instance (size : ℤ) : Decidable (response.FitsSingle size) :=
  decidable_of_iff _ isOk_offsets_iff

/-! ## Safe pages -/

/-- The pages whose window `query` computes.  Forward they end where the page, or with no
order its end, is not an `int` any more; with a negative `paginate` they lead backward. -/
structure InReach (response : Response) (page : ℚ) : Prop where
  forward : 0 < response.paginate →
    0 ≤ 2 ^ 31 - 1 - max 0 (response.skip +
      if response.sortType = .none then response.paginate else 0) ∧
    page ≤ (1 + (2 ^ 31 - 1 - max 0 (response.skip +
      if response.sortType = .none then response.paginate else 0)) / response.paginate : ℤ)
  backward : response.paginate < 0 →
    page ≤ (1 + (2 ^ 31 + min response.skip 0) / -response.paginate : ℤ)
  plain : response.paginate ≤ 0 → response.sortType = .none →
    response.skip < 2 ^ 31 - 1 ∨ (response.paginate < 0 ∧ 1 < page)

/-- The pages, without groups, that are safe.  The number of the last page is a quotient. -/
structure SafePage (response : Response) (size : ℤ) : Prop where
  numbered : response.page ≠ -1 → response.InReach response.page
  left : response.page = -1 → size - 2 ^ 31 < response.skip
  divisor : response.page = -1 → response.paginate ≠ 0
  one : response.page = -1 → response.paginate = 1 → size - response.skip < 2 ^ 31 - 64
  minusOne : response.page = -1 → response.paginate = -1 → response.skip - size < 2 ^ 31 - 64
  last : response.page = -1 →
    response.InReach (single (size - response.skip) response.paginate)

/-- Where the pages lead forward, all bounds are one: that of the end of the page. -/
theorem inInt32_forward {skip paginate pages : ℤ} {plain : Prop} [Decidable plain]
    (hskip : InInt32 skip) (hpaginate : InInt32 paginate) (hpositive : 0 < paginate)
    (hpages : 0 ≤ pages) :
    (InInt32 pages ∧ InInt32 (skip + pages) ∧
        (plain → max paginate 1 + max (skip + pages) 0 < 2 ^ 31)) ↔
      pages ≤ 2 ^ 31 - 1 - max 0 (skip + if plain then paginate else 0) := by
  obtain ⟨hlow, hhigh⟩ := hskip
  have hfew := hpaginate.2
  unfold InInt32
  constructor
  · rintro ⟨⟨-, hpagesHigh⟩, ⟨-, hskipHigh⟩, hend⟩
    split
    · next hplain =>
      have hend := hend hplain
      omega
    · omega
  · intro hlimit
    by_cases hplain : plain
    · rw [if_pos hplain] at hlimit
      refine ⟨by omega, by omega, fun _ => by omega⟩
    · rw [if_neg hplain] at hlimit
      exact ⟨by omega, by omega, fun h => absurd h hplain⟩

/-- Where they do not, they end where the skipped part does. -/
theorem inInt32_backward {skip paginate pages : ℤ} {plain : Prop}
    (hskip : InInt32 skip) (hnonpositive : paginate ≤ 0) (hpages : pages ≤ 0) :
    (InInt32 pages ∧ InInt32 (skip + pages) ∧
        (plain → max paginate 1 + max (skip + pages) 0 < 2 ^ 31)) ↔
      -pages ≤ 2 ^ 31 + min skip 0 ∧ (plain → skip < 2 ^ 31 - 1 ∨ pages < 0) := by
  obtain ⟨hlow, hhigh⟩ := hskip
  unfold InInt32
  constructor
  · rintro ⟨⟨hpagesLow, -⟩, ⟨hskipLow, -⟩, hend⟩
    refine ⟨by omega, fun hplain => ?_⟩
    have hend := hend hplain
    omega
  · rintro ⟨hlimit, hplain⟩
    refine ⟨by omega, by omega, fun h => ?_⟩
    have hplain := hplain h
    omega

/-- The page that is shown is in reach if the number that is asked for is, rounded up or
not. -/
theorem inReach_iff (hints : response.OfInts) {page : ℚ} {shown : ℤ}
    (hshown : shown = max ⌈page⌉ 1) :
    (InInt32 ((shown - 1) * response.paginate) ∧
        InInt32 (response.skip + (shown - 1) * response.paginate) ∧
        (response.sortType = .none → max response.paginate 1 +
          max (response.skip + (shown - 1) * response.paginate) 0 < 2 ^ 31)) ↔
      response.InReach page := by
  have hfirst : 0 ≤ shown - 1 := by omega
  have hmost (bound : ℤ) : shown - 1 ≤ bound ↔ 0 ≤ bound ∧ page ≤ (1 + bound : ℤ) := by
    rw [← Int.ceil_le]
    omega
  have hlater : 1 < shown ↔ 1 < page := by
    have hceil : 1 < ⌈page⌉ ↔ 1 < page := by rw [Int.lt_ceil, Int.cast_one]
    rw [← hceil]
    omega
  -- forward the bound on the page is divided by `paginate`, backward by what is opposite to it
  by_cases hpositive : 0 < response.paginate
  · rw [inInt32_forward hints.skip hints.paginate hpositive (mul_nonneg hfirst hpositive.le),
      ← Int.le_ediv_iff_mul_le hpositive, hmost, Int.ediv_nonneg_iff_of_pos hpositive]
    constructor
    · intro h
      exact ⟨fun _ => h, fun hnegative => absurd hpositive hnegative.not_gt,
        fun hnonpositive => absurd hpositive hnonpositive.not_gt⟩
    · exact fun h => h.forward hpositive
  · have hnonpositive := not_lt.1 hpositive
    have hbehind : (shown - 1) * response.paginate < 0 ↔
        response.paginate < 0 ∧ 1 < page := by
      rw [← hlater]
      constructor
      · intro hpages
        refine ⟨lt_of_le_of_ne hnonpositive fun hzero => ?_, ?_⟩
        · rw [hzero, mul_zero] at hpages
          exact absurd hpages (lt_irrefl _)
        · by_contra hone
          rw [show shown - 1 = 0 by omega, zero_mul] at hpages
          exact absurd hpages (lt_irrefl _)
      · rintro ⟨hnegative, hmore⟩
        exact mul_neg_of_pos_of_neg (by omega) hnegative
    rw [inInt32_backward hints.skip hnonpositive
      (mul_nonpos_of_nonneg_of_nonpos hfirst hnonpositive), hbehind, ← mul_neg]
    obtain ⟨hlow, _⟩ := hints.skip
    constructor
    · rintro ⟨hlimit, hplain⟩
      refine ⟨fun h => absurd h hpositive, fun hnegative => ?_, fun _ => hplain⟩
      exact ((hmost _).1 ((Int.le_ediv_iff_mul_le (neg_pos.2 hnegative)).2 hlimit)).2
    · intro h
      refine ⟨?_, h.plain hnonpositive⟩
      rcases hnonpositive.lt_or_eq with hnegative | hzero
      · refine (Int.le_ediv_iff_mul_le (neg_pos.2 hnegative)).1 ((hmost _).2 ⟨?_, ?_⟩)
        · exact Int.ediv_nonneg (by omega) (by omega)
        · exact h.backward hnegative
      · rw [hzero, neg_zero, mul_zero]
        omega

/-- Without groups the safe pages are those that a window is computed for. -/
theorem fits_page_iff (hgroups : response.groups = 0) (hints : response.OfInts)
    (hsize : 0 ≤ size) : response.FitsSingle size ↔ response.SafePage size := by
  have hfits : response.FitsSingle size ↔
      (response.page = -1 → response.LastPageFits single size) ∧
      InInt32 ((response.shownPage single size - 1) * response.paginate) ∧
      InInt32 (response.pageSkip single size) ∧
      (response.sortType = .none →
        max response.paginate 1 + max (response.pageSkip single size) 0 < 2 ^ 31) := by
    constructor
    · rintro ⟨window, hwindow⟩
      obtain ⟨hlast, hpages, hskip, hend, _⟩ := (offsets_page_iff hgroups).1 hwindow
      exact ⟨hlast, hpages, hskip, hend⟩
    · rintro ⟨hlast, hpages, hskip, hend⟩
      exact ⟨_, (offsets_page_iff hgroups).2 ⟨hlast, hpages, hskip, hend, rfl⟩⟩
  obtain ⟨hskipLow, hskipHigh⟩ := hints.skip
  rw [hfits, pageSkip]
  by_cases hlast : response.page = -1
  · have hshown : response.shownPage single size =
        max ⌈single (size - response.skip) response.paginate⌉ 1 := by
      rw [shownPage, askedPage, if_pos hlast]
    rw [inReach_iff hints hshown]
    constructor
    · rintro ⟨hnumber, hreach⟩
      obtain ⟨hleft, hdivisor, hceil⟩ := hnumber hlast
      obtain ⟨hone, hminusOne⟩ := (inInt32_ceil_single hleft hdivisor).1 hceil
      have hrange := hleft.2
      exact ⟨fun h => absurd hlast h, fun _ => by omega, fun _ => hdivisor, fun _ => hone,
        fun _ hdivisorOne => by have := hminusOne hdivisorOne; omega, fun _ => hreach⟩
    · intro h
      have hrange := h.left hlast
      have hleft : InInt32 (size - response.skip) := ⟨by omega, by omega⟩
      refine ⟨fun _ => ⟨hleft, h.divisor hlast, ?_⟩, h.last hlast⟩
      refine (inInt32_ceil_single hleft (h.divisor hlast)).2 ⟨h.one hlast, fun hdivisorOne => ?_⟩
      have hback := h.minusOne hlast hdivisorOne
      omega
  · have hshown : response.shownPage single size = max ⌈(response.page : ℚ)⌉ 1 := by
      rw [shownPage_of_ne single size hlast, Int.ceil_intCast]
    rw [inReach_iff hints hshown]
    constructor
    · rintro ⟨-, hreach⟩
      exact ⟨fun _ => hreach, fun h => absurd h hlast, fun h => absurd h hlast,
        fun h => absurd h hlast, fun h => absurd h hlast, fun h => absurd h hlast⟩
    · intro h
      exact ⟨fun hpage => absurd hpage hlast, h.numbered hlast⟩

/-! ## The rounds of the group loop -/

/-- `skip_` in round `i`. -/
def singleSkip (size groups skip i : ℤ) : ℤ :=
  skip + startBy single (size - skip) groups i.toNat

/-- `paginate_` after round `i`. -/
def singleSize (size groups skip i : ℤ) : ℤ :=
  ⌈single (size - singleSkip size groups skip i) (groups - i)⌉

section Rounds

variable {groups skip : ℤ}

theorem singleSkip_zero (size groups skip : ℤ) : singleSkip size groups skip 0 = skip := by
  simp [singleSkip, startBy]

theorem singleSkip_succ (size groups skip : ℤ) {i : ℤ} (hi : 0 ≤ i) :
    singleSkip size groups skip (i + 1) =
      singleSkip size groups skip i + singleSize size groups skip i := by
  have hnext : (i + 1).toNat = i.toNat + 1 := by omega
  have hround : ((i.toNat : ℕ) : ℤ) = i := by omega
  have hleft : size - singleSkip size groups skip i =
      size - skip - startBy single (size - skip) groups i.toNat := by
    unfold singleSkip
    ring
  unfold singleSize
  rw [hleft, singleSkip, hnext, startBy, hround, singleSkip]
  ring

theorem rounds_single (size groups skip : ℤ) :
    Rounds single size groups (singleSkip size groups skip) (singleSize size groups skip) where
  next := fun _ hi => singleSkip_succ size groups skip hi
  divided := fun _ _ _ => rfl

/-! ### A positive number of groups -/

/-- What is left never grows, and nothing is taken that is not there. -/
theorem left_between (size skip : ℤ) {i : ℕ} (hi : i < groups) :
    min (size - skip) 0 ≤ size - singleSkip size groups skip i ∧
      size - singleSkip size groups skip i ≤ max (size - skip) 0 := by
  induction i with
  | zero =>
      rw [Nat.cast_zero, singleSkip_zero]
      omega
  | succ i ih =>
      obtain ⟨hlow, hhigh⟩ := ih (by omega)
      have hshare := ceil_single_between (a := size - singleSkip size groups skip i)
        (show 2 ≤ groups - i by omega)
      have hsucc := singleSkip_succ size groups skip (Int.natCast_nonneg i)
      push_cast
      unfold singleSize at hsucc
      omega

/-- Before the last of two groups or more, some of it is taken. -/
theorem left_last (hgroups : 2 ≤ groups) (hleft : size - skip < 2 ^ 31) {i : ℕ}
    (hi : i + 1 = groups) : size - singleSkip size groups skip i < 2 ^ 31 - 64 := by
  obtain ⟨before, rfl⟩ : ∃ before, i = before + 1 := ⟨i - 1, by omega⟩
  have hbetween := left_between size skip (show (before : ℤ) < groups by omega)
  have hsucc := singleSkip_succ size groups skip (Int.natCast_nonneg before)
  have htwo : groups - before = 2 := by omega
  push_cast
  unfold singleSize at hsucc
  rw [htwo] at hsucc
  -- halving takes at least a quarter, also where it is rounded
  by_cases hsome : 0 < size - singleSkip size groups skip before
  · have hquarter := (Floats.quotient_two_between (by norm_num : 2 ≤ 24) hsome).2
    have hceil := Int.le_ceil (single (size - singleSkip size groups skip before) 2)
    have hint : size - singleSkip size groups skip before ≤
        4 * ⌈single (size - singleSkip size groups skip before) 2⌉ := by
      have hrational : ((size - singleSkip size groups skip before : ℤ) : ℚ) ≤
          4 * ⌈single (size - singleSkip size groups skip before) 2⌉ := by
        unfold single at hceil ⊢
        linarith
      exact_mod_cast hrational
    omega
  · have hshare := ceil_single_between (a := size - singleSkip size groups skip before)
      (show 2 ≤ (2 : ℤ) from le_rfl)
    omega

/-- No round that has groups left overflows, unless everything is one group that is too
large. -/
theorem roundFits_single_pos (hgroups : 0 < groups) (hint : groups < 2 ^ 31)
    (hskip : InInt32 skip) (hsize : 0 ≤ size) (hbound : size ≤ 2 ^ 24)
    (hleft : size - skip < 2 ^ 31) (hone : groups = 1 → size - skip < 2 ^ 31 - 64) {i : ℕ}
    (hi : i < groups) :
    RoundFits size groups (singleSkip size groups skip) (singleSize size groups skip) i := by
  obtain ⟨hlow, hhigh⟩ := hskip
  have hbetween := left_between size skip hi
  have hrest : InInt32 (size - singleSkip size groups skip i) := ⟨by omega, by omega⟩
  refine ⟨fun _ => ⟨by omega, by omega⟩, hrest, ⟨by omega, by omega⟩, by omega, ?_⟩
  refine (inInt32_ceil_single hrest (by omega)).2 ⟨fun hlast => ?_, fun hminus => ?_⟩
  · by_cases hsingle : groups = 1
    · obtain rfl : i = 0 := by omega
      rw [Nat.cast_zero, singleSkip_zero]
      exact hone hsingle
    · exact left_last (by omega) hleft (by omega)
  · omega

/-- Behind all nodes, `skip_` stays where it is as long as the quotients round up to zero. -/
theorem singleSkip_eq_iff (hpast : size ≤ skip) {i : ℕ} (hi : i < groups) :
    singleSkip size groups skip i = skip ↔
      i = 0 ∨ -1 < single (size - skip) (groups - (i - 1)) := by
  have hzero {j : ℕ} (hj : (j : ℤ) < groups) :
      ⌈single (size - skip) (groups - j)⌉ = 0 ↔ -1 < single (size - skip) (groups - j) := by
    have hnonpos := ceil_single_nonpos (a := size - skip) (by omega)
      (show 0 < groups - j by omega)
    have hceil : -1 < ⌈single (size - skip) (groups - j)⌉ ↔
        -1 < single (size - skip) (groups - j) := by
      rw [Int.lt_ceil]
      norm_num
    rw [← hceil]
    omega
  induction i with
  | zero => simp [singleSkip_zero]
  | succ i ih =>
      have hbefore : (i : ℤ) < groups := by push_cast at hi; omega
      have hsucc := singleSkip_succ size groups skip (Int.natCast_nonneg i)
      have hbetween := left_between size skip hbefore
      have hshare := ceil_single_nonpos (a := size - singleSkip size groups skip i) (by omega)
        (show 0 < groups - i by omega)
      have hcast : ((i + 1 : ℕ) : ℤ) = i + 1 := by push_cast; ring
      rw [hcast, add_sub_cancel_right]
      unfold singleSize at hsucc
      constructor
      · intro hstays
        have hhere : singleSkip size groups skip i = skip := by omega
        rw [hhere] at hsucc
        exact Or.inr ((hzero hbefore).1 (by omega))
      · rintro (hnone | hlate)
        · omega
        · -- the quotients before are closer to zero
          have hhere : singleSkip size groups skip i = skip := by
            refine (ih hbefore).2 ?_
            by_cases hfirst : i = 0
            · exact Or.inl hfirst
            · refine Or.inr (hlate.trans_le ?_)
              have hmono : single (skip - size) (groups - (i - 1)) ≤
                  single (skip - size) (groups - i) :=
                Floats.quotient_mono (by norm_num) (by omega) le_rfl (by omega) (by omega)
              have hflip (d : ℤ) : single (size - skip) d = -single (skip - size) d := by
                rw [← single_neg_left, neg_sub]
              rw [hflip, hflip]
              exact neg_le_neg hmono
          rw [hhere] at hsucc
          have hnothing := (hzero hbefore).2 hlate
          omega

/-- The end of the group is an `int` unless it starts at the last one. -/
theorem groupEnd_single_iff (hskip : InInt32 skip) (hsize : 0 ≤ size)
    (hbound : size ≤ 2 ^ 24) {i : ℕ} (hi : i < groups)
    (hfits : InInt32 (singleSize size groups skip i)) :
    max (singleSize size groups skip i) 1 + max (singleSkip size groups skip i) 0 < 2 ^ 31 ↔
      skip < 2 ^ 31 - 1 ∨
        (0 < i ∧ single (size - skip) (groups - (i - 1)) ≤ -1) := by
  obtain ⟨hlow, hhigh⟩ := hskip
  have hbetween := left_between size skip hi
  by_cases hinside : skip ≤ size
  · refine iff_of_true ?_ (Or.inl (by omega))
    have hmost : singleSize size groups skip i ≤
        4 * (size - singleSkip size groups skip i) := by
      refine Int.ceil_le.2 ?_
      have hquotient := Floats.quotient_le_four_mul (by norm_num : 1 ≤ 24)
        (show 0 ≤ size - singleSkip size groups skip i by omega)
        (show 1 ≤ groups - i by omega)
      exact_mod_cast hquotient
    have hlimit := hfits.2
    omega
  · -- behind all nodes nothing is listed, and `skip_` only goes back
    have hstays := singleSkip_eq_iff (show size ≤ skip by omega) hi
    have hnonpos : singleSize size groups skip i ≤ 0 :=
      ceil_single_nonpos (by omega) (by omega)
    constructor
    · intro hend
      by_cases hless : skip < 2 ^ 31 - 1
      · exact Or.inl hless
      · have hmoved : singleSkip size groups skip i ≠ skip := by omega
        obtain ⟨hlater, hquotient⟩ := not_or.1 (hstays.not.1 hmoved)
        exact Or.inr ⟨Nat.pos_of_ne_zero hlater, not_lt.1 hquotient⟩
    · rintro (hless | ⟨hlater, hquotient⟩)
      · omega
      · have hmoved : singleSkip size groups skip i ≠ skip :=
          hstays.not.2 (not_or.2 ⟨hlater.ne', not_lt.2 hquotient⟩)
        omega

/-! ### A negative number of groups -/

/-- The rounds move `skip_` away from the end of the nodes. -/
theorem left_neg (size skip : ℤ) (hgroups : groups < 0) (i : ℕ) :
    (size ≤ skip → 0 ≤ singleSize size groups skip i ∧
      singleSkip size groups skip i ≥ skip) ∧
    (skip ≤ size → singleSize size groups skip i ≤ 0 ∧
      singleSkip size groups skip i ≤ skip) := by
  have hsign (i : ℕ) :
      (size ≤ singleSkip size groups skip i → 0 ≤ singleSize size groups skip i) ∧
      (singleSkip size groups skip i ≤ size → singleSize size groups skip i ≤ 0) := by
    have hflip : singleSize size groups skip i =
        ⌈single (singleSkip size groups skip i - size) (i - groups)⌉ := by
      unfold singleSize
      rw [← neg_sub (singleSkip size groups skip i), ← neg_sub (i : ℤ) groups,
        single_neg_left, single_neg_right, neg_neg]
    rw [hflip]
    exact ⟨fun h => ceil_single_nonneg (by omega) (by omega),
      fun h => ceil_single_nonpos (by omega) (by omega)⟩
  have hmoves : (size ≤ skip → singleSkip size groups skip i ≥ skip) ∧
      (skip ≤ size → singleSkip size groups skip i ≤ skip) := by
    induction i with
    | zero => simp [singleSkip_zero]
    | succ i ih =>
        have hsucc := singleSkip_succ size groups skip (Int.natCast_nonneg i)
        have hround := hsign i
        push_cast
        constructor
        · intro hpast
          have hhere := ih.1 hpast
          have hshare := hround.1 (by omega)
          omega
        · intro hinside
          have hhere := ih.2 hinside
          have hshare := hround.2 (by omega)
          omega
  refine ⟨fun hpast => ?_, fun hinside => ?_⟩
  · have hhere := hmoves.1 hpast
    exact ⟨(hsign i).1 (by omega), hhere⟩
  · have hhere := hmoves.2 hinside
    exact ⟨(hsign i).2 (by omega), hhere⟩

/-- So that the last round is the furthest away. -/
theorem singleSkip_mono_neg (size skip : ℤ) (hgroups : groups < 0) {i k : ℕ} (hik : i ≤ k) :
    (size ≤ skip → singleSkip size groups skip i ≤ singleSkip size groups skip k) ∧
    (skip ≤ size → singleSkip size groups skip k ≤ singleSkip size groups skip i) := by
  induction k, hik using Nat.le_induction with
  | base => exact ⟨fun _ => le_rfl, fun _ => le_rfl⟩
  | succ k hik ih =>
      have hsucc := singleSkip_succ size groups skip (Int.natCast_nonneg k)
      have hround := left_neg size skip hgroups k
      push_cast
      refine ⟨fun hpast => ?_, fun hinside => ?_⟩
      · have hbefore := ih.1 hpast
        have hshare := (hround.1 hpast).1
        omega
      · have hbefore := ih.2 hinside
        have hshare := (hround.2 hinside).1
        omega

/-- The rounds over a negative number of groups. -/
theorem rounds_single_neg (hskip : InInt32 skip) (hint : InInt32 groups) (hsize : 0 ≤ size)
    (hbound : size ≤ 2 ^ 24) (hgroups : groups < 0) (k : ℕ) :
    (∀ i : ℕ, i ≤ k →
      RoundFits size groups (singleSkip size groups skip) (singleSize size groups skip) i) ↔
    size - 2 ^ 31 < skip ∧ (groups = -1 → skip - size < 2 ^ 31 - 64) ∧
      k ≤ groups + 2 ^ 31 ∧ size - 2 ^ 31 < singleSkip size groups skip k ∧
      singleSkip size groups skip k < 2 ^ 31 := by
  obtain ⟨hlow, hhigh⟩ := hskip
  obtain ⟨hgroupsLow, _⟩ := hint
  constructor
  -- the first round bounds what is divided, the last one how far `skip_` gets
  · intro h
    obtain ⟨-, hleft, -, -, hfirst⟩ := h 0 (by omega)
    obtain ⟨hlast, hlastLeft, hlastGroups, -, -⟩ := h k le_rfl
    unfold singleSize at hfirst
    rw [Nat.cast_zero, singleSkip_zero] at hleft hfirst
    have hdivided := (inInt32_ceil_single hleft (by omega)).1 hfirst
    have hrange := hleft.2
    have hlastRange := hlastLeft.2
    have hmany := hlastGroups.1
    refine ⟨by omega, fun hone => ?_, by omega, by omega, ?_⟩
    · have hback := hdivided.2 (by omega)
      omega
    · by_cases hzero : k = 0
      · rw [hzero, Nat.cast_zero, singleSkip_zero]
        exact hhigh
      · exact (hlast (by omega)).2
  · rintro ⟨hleft, hone, hfew, hnear, hfar⟩ i hi
    have hmono := singleSkip_mono_neg size skip hgroups hi
    have hmoved := left_neg size skip hgroups i
    -- a round before the last one is nearer than that
    have hbetween : size - 2 ^ 31 < singleSkip size groups skip i ∧
        singleSkip size groups skip i < 2 ^ 31 := by
      rcases le_total size skip with hpast | hinside
      · have hlate := hmono.1 hpast
        have hearly := (hmoved.1 hpast).2
        omega
      · have hlate := hmono.2 hinside
        have hearly := (hmoved.2 hinside).2
        omega
    have hrest : InInt32 (size - singleSkip size groups skip i) := ⟨by omega, by omega⟩
    refine ⟨fun _ => ⟨by omega, by omega⟩, hrest, ⟨by omega, by omega⟩, by omega, ?_⟩
    refine (inInt32_ceil_single hrest (by omega)).2 ⟨fun h => by omega, fun hminus => ?_⟩
    obtain rfl : i = 0 := by omega
    rw [Nat.cast_zero, singleSkip_zero, neg_sub]
    exact hone (by omega)

end Rounds

/-! ## Safe groups -/

/-- The groups that are safe.  There must be groups left to divide by, and behind all nodes
the first one is not at the last `int`.  A negative number of groups never runs out, but each
round moves `skip_` further away. -/
structure SafeGroup (response : Response) (size : ℤ) : Prop where
  left : size - 2 ^ 31 < response.skip
  one : response.groups = 1 → size - response.skip < 2 ^ 31 - 64
  minusOne : response.groups = -1 → response.skip - size < 2 ^ 31 - 64
  positive : 0 < response.groups → response.page ≤ response.groups ∧
    (response.sortType = .none → response.skip < 2 ^ 31 - 1 ∨
      (1 < response.page ∧
        single (size - response.skip) (response.groups + 2 - response.page) ≤ -1))
  negative : response.groups < 0 →
    response.shownGroup ≤ response.groups + 2 ^ 31 ∧
    size - 2 ^ 31 < singleSkip size response.groups response.skip response.shownGroup ∧
    singleSkip size response.groups response.skip response.shownGroup < 2 ^ 31 ∧
    (response.sortType = .none →
      max (singleSize size response.groups response.skip response.shownGroup) 1 +
        max (singleSkip size response.groups response.skip response.shownGroup) 0 < 2 ^ 31)

theorem offsets_single_iff (hgroups : response.groups ≠ 0) {window : Window} :
    response.offsets single size = .ok window ↔
      (∀ i : ℕ, i ≤ response.shownGroup →
        RoundFits size response.groups (singleSkip size response.groups response.skip)
          (singleSize size response.groups response.skip) i) ∧
      (response.sortType = .none →
        max (singleSize size response.groups response.skip response.shownGroup) 1 +
          max (singleSkip size response.groups response.skip response.shownGroup) 0 <
            2 ^ 31) ∧
      window = response.clamped size
        (singleSkip size response.groups response.skip response.shownGroup)
        (singleSize size response.groups response.skip response.shownGroup) :=
  offsets_rounds_iff hgroups (rounds_single size response.groups response.skip)
    (singleSkip_zero size response.groups response.skip)

/-- With a positive number of groups the safe ones are those that a window is computed for. -/
theorem fits_positive_iff (hpositive : 0 < response.groups) (hints : response.OfInts)
    (hsize : 0 ≤ size) (hbound : size ≤ 2 ^ 24) :
    response.FitsSingle size ↔ response.SafeGroup size := by
  have hshown : (response.shownGroup : ℤ) = max response.page 1 - 1 := by
    unfold shownGroup
    omega
  have hend (hlt : response.shownGroup < response.groups)
      (hfits : InInt32 (singleSize size response.groups response.skip response.shownGroup)) :
      max (singleSize size response.groups response.skip response.shownGroup) 1 +
          max (singleSkip size response.groups response.skip response.shownGroup) 0 < 2 ^ 31 ↔
        response.skip < 2 ^ 31 - 1 ∨ (1 < response.page ∧
          single (size - response.skip) (response.groups + 2 - response.page) ≤ -1) := by
    rw [groupEnd_single_iff hints.skip hsize hbound hlt hfits]
    have hlater : 0 < response.shownGroup ↔ 1 < response.page := by omega
    rw [hlater]
    refine or_congr_right (and_congr_right fun hpage => ?_)
    have hdivisor : response.groups - (response.shownGroup - 1) =
        response.groups + 2 - response.page := by omega
    rw [hdivisor]
  obtain ⟨hskipLow, hskipHigh⟩ := hints.skip
  have hmany := hints.groups.2
  constructor
  · rintro ⟨window, hwindow⟩
    obtain ⟨hrounds, hplain, -⟩ := (offsets_single_iff hpositive.ne').1 hwindow
    obtain ⟨-, hleft, -, -, hfirst⟩ := hrounds 0 (by omega)
    unfold singleSize at hfirst
    rw [Nat.cast_zero, singleSkip_zero] at hleft hfirst
    have hdivided := (inInt32_ceil_single hleft (by omega)).1 hfirst
    have hrange := hleft.2
    -- the rounds run out of groups if the page is behind the last group
    have hlt : response.shownGroup < response.groups := by
      by_contra hbehind
      have hdiffer := (hrounds response.groups.toNat (by omega)).2.2.2.1
      omega
    have hlast := (hrounds response.shownGroup le_rfl).2.2.2.2
    exact {
      left := by omega
      one := fun hone => hdivided.1 (by omega)
      minusOne := fun hminus => by omega
      positive := fun _ => ⟨by omega, fun hnone => (hend hlt hlast).1 (hplain hnone)⟩
      negative := fun hnegative => by omega }
  · intro h
    have hleft := h.left
    obtain ⟨hpage, hplain⟩ := h.positive hpositive
    have hlt : response.shownGroup < response.groups := by omega
    have hrounds (i : ℕ) (hi : i ≤ response.shownGroup) :
        RoundFits size response.groups (singleSkip size response.groups response.skip)
          (singleSize size response.groups response.skip) i :=
      roundFits_single_pos hpositive hmany hints.skip hsize hbound (by omega) h.one (by omega)
    have hlast := (hrounds response.shownGroup le_rfl).2.2.2.2
    exact ⟨_, (offsets_single_iff hpositive.ne').2
      ⟨hrounds, fun hnone => (hend hlt hlast).2 (hplain hnone), rfl⟩⟩

/-- With a negative number of groups, too. -/
theorem fits_negative_iff (hnegative : response.groups < 0) (hints : response.OfInts)
    (hsize : 0 ≤ size) (hbound : size ≤ 2 ^ 24) :
    response.FitsSingle size ↔ response.SafeGroup size := by
  have hrounds := rounds_single_neg hints.skip hints.groups hsize hbound hnegative
    response.shownGroup
  constructor
  · rintro ⟨window, hwindow⟩
    obtain ⟨hfits, hplain, -⟩ := (offsets_single_iff hnegative.ne).1 hwindow
    obtain ⟨hleft, hminusOne, hfew, hnear, hfar⟩ := hrounds.1 hfits
    exact {
      left := hleft
      one := fun hone => by omega
      minusOne := hminusOne
      positive := fun hpositive => by omega
      negative := fun _ => ⟨hfew, hnear, hfar, hplain⟩ }
  · intro h
    obtain ⟨hfew, hnear, hfar, hplain⟩ := h.negative hnegative
    exact ⟨_, (offsets_single_iff hnegative.ne).2
      ⟨hrounds.2 ⟨h.left, h.minusOne, hfew, hnear, hfar⟩, hplain, rfl⟩⟩

/-! ## Safe options -/

/-- The options that `query` computes a window for. -/
def Safe (response : Response) (size : ℤ) : Prop :=
  if response.groups = 0 then response.SafePage size else response.SafeGroup size

/-- A page that starts behind all nodes that match is empty. -/
def EmptyPastEnd (response : Response) (size : ℕ) : Prop :=
  ∀ {α : Type} (surroundings : Surroundings α) (nodes matched : List (ResultNode α))
    (contexts : List α), nodes.length = size → response.groups = 0 →
    response.counted surroundings nodes = .ok matched →
    response.arrange surroundings (matched.filterMap ResultNode.context) = .ok contexts →
    contexts.length ≤ matched.length →
    matched.length ≤ response.pageSkip single size →
    ResponseContext.contexts <$> response.queryBy single surroundings nodes = .ok []

theorem emptyPastEnd_of_fits {count : ℕ} (hfits : response.FitsSingle count) :
    response.EmptyPastEnd count := by
  intro α surroundings nodes matched contexts hlength hgroups hmatched harranged hfew hpast
  subst hlength
  obtain ⟨window, hwindow⟩ := hfits
  rw [contexts_queryBy surroundings hgroups hwindow, hmatched]
  have hnodes : matched.drop (response.pageSkip single nodes.length).toNat = [] :=
    List.drop_eq_nil_of_le (by omega)
  have hcontexts : contexts.drop (response.pageSkip single nodes.length).toNat = [] :=
    List.drop_eq_nil_of_le (by omega)
  simp only [bind, Except.bind, listedFrom, harranged, hnodes, hcontexts, List.take_nil,
    List.filterMap_nil, pure, Except.pure, ite_self]

/-- A request for nothing but a page. -/
def pageOption (page : Str) : Options :=
  fun name => if name = ("page" : Str) then some page else none

/-- The last page, with other options. -/
def lastOption (paginate skip : Str) : Options := fun name =>
  if name = ("page" : Str) then some "last"
  else if name = ("paginate" : Str) then some paginate
  else if name = ("skip" : Str) then some skip
  else none

end VaeDb.Response
