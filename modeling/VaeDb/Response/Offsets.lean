import Mathlib.Data.Rat.Floor
import VaeDb.Response.Window

/-!
# The offsets, and when they are computed

`offsets` fails where an `int` overflows or a divisor is zero, and computes the window
otherwise.  For a page both are in `offsets_page_iff`: the conditions on the way, and the
`skip` and `paginate` that come out, whatever the quotients are taken to be.
-/

namespace VaeDb.Response

variable {response : Response} {window : Window} {quotient : ℤ → ℤ → ℚ}

/-! ## `int` results -/

/-- The values of an `int`. -/
def InInt32 (n : ℤ) : Prop := -2 ^ 31 ≤ n ∧ n < 2 ^ 31

theorem int32_eq_ok_iff {n m : ℤ} : int32 n = .ok m ↔ InInt32 n ∧ m = n := by
  constructor
  · intro h
    have hvalue := int32_eq_ok h
    unfold int32 at h
    split at h
    · next hrange => exact ⟨hrange, hvalue⟩
    · cases h
  · rintro ⟨hrange, rfl⟩
    exact if_pos hrange

theorem ceilDiv_eq_ok_iff {a b m : ℤ} :
    ceilDiv quotient a b = .ok m ↔
      b ≠ 0 ∧ InInt32 ⌈quotient a b⌉ ∧ m = ⌈quotient a b⌉ := by
  have hceil : (quotient a b).ceil = ⌈quotient a b⌉ := Rat.ceil_eq_neg_floor_neg _
  unfold ceilDiv
  rw [hceil]
  split
  · next hzero => simp [hzero, throw, throwThe, MonadExceptOf.throw]
  · next hzero =>
    rw [int32_eq_ok_iff]
    exact ⟨fun h => ⟨hzero, h⟩, fun h => h.2⟩

/-! ## The window -/

/-- No `int` overflows on the way to the window, and no divisor is zero. -/
def Fits (response : Response) (size : ℤ) : Prop :=
  ∃ window, response.offsets exactly size = .ok window

theorem isOk_offsets_iff {size : ℤ} :
    (response.offsets quotient size).isOk = true ↔
      ∃ window, response.offsets quotient size = .ok window := by
  cases response.offsets quotient size with
  | error fault => simp [Except.isOk, Except.toBool]
  | ok window => simp [Except.isOk, Except.toBool]

instance (size : ℤ) : Decidable (response.Fits size) := decidable_of_iff _ isOk_offsets_iff

/-- What the clamps make of `skip_` and `paginate_`. -/
def clamped (response : Response) (size skip paginate : ℤ) : Window where
  skip := max skip 0
  paginate := max paginate 1
  start := if response.sortType = .none then max skip 0 else 0
  stop := if response.sortType = .none then min (max paginate 1 + max skip 0) size else size

/-- The window is computed if its page or group is and, without an order, its end is an
`int`. -/
theorem offsets_eq_ok_iff {size : ℤ} :
    response.offsets quotient size = .ok window ↔
      ∃ skip paginate, response.turnPage quotient size = .ok (skip, paginate) ∧
        (response.sortType = .none → max paginate 1 + max skip 0 < 2 ^ 31) ∧
        window = response.clamped size skip paginate := by
  have hskip (skip : ℤ) : (if skip < 0 then 0 else skip) = max skip 0 := by
    split <;> omega
  have hpaginate (paginate : ℤ) : (if paginate < 1 then 1 else paginate) = max paginate 1 := by
    split <;> omega
  have hstop (sum : ℤ) : (if (if sum < size then sum else size) > size then size
      else if sum < size then sum else size) = min sum size := by
    split <;> split <;> omega
  unfold offsets
  simp only [hskip, hpaginate, hstop]
  rw [Outcome.bind_eq_ok]
  constructor
  · rintro ⟨⟨skip, paginate⟩, hturn, h⟩
    refine ⟨skip, paginate, hturn, ?_⟩
    by_cases hnone : response.sortType = .none
    · simp only [hnone, if_true] at h
      obtain ⟨sum, hsum, h⟩ := Outcome.bind_eq_ok.1 h
      obtain ⟨hrange, rfl⟩ := int32_eq_ok_iff.1 hsum
      obtain rfl := Outcome.pure_eq_ok.1 h
      exact ⟨fun _ => hrange.2, by simp [clamped, hnone]⟩
    · simp only [hnone, if_false] at h
      obtain rfl := Outcome.pure_eq_ok.1 h
      exact ⟨fun hplain => absurd hplain hnone, by simp [clamped, hnone]⟩
  · rintro ⟨skip, paginate, hturn, hend, rfl⟩
    refine ⟨(skip, paginate), hturn, ?_⟩
    by_cases hnone : response.sortType = .none
    · have hrange : InInt32 (max paginate 1 + max skip 0) := ⟨by omega, hend hnone⟩
      have hsum : int32 (max paginate 1 + max skip 0) = .ok (max paginate 1 + max skip 0) :=
        int32_eq_ok_iff.2 ⟨hrange, rfl⟩
      simp [hnone, hsum, clamped, bind, Except.bind, pure, Except.pure]
    · simp [hnone, clamped, pure, Except.pure]

/-! ## Pages -/

/-- `page_` before it is raised to one: the last page is computed from the size. -/
def askedPage (quotient : ℤ → ℤ → ℚ) (response : Response) (size : ℤ) : ℤ :=
  if response.page = -1 then ⌈quotient (size - response.skip) response.paginate⌉
  else response.page

/-- `page_` when the offset is computed. -/
def shownPage (quotient : ℤ → ℤ → ℚ) (response : Response) (size : ℤ) : ℤ :=
  max (response.askedPage quotient size) 1

/-- `skip_` for the page. -/
def pageSkip (quotient : ℤ → ℤ → ℚ) (response : Response) (size : ℤ) : ℤ :=
  response.skip + (response.shownPage quotient size - 1) * response.paginate

/-- The number of the last page is computed. -/
def LastPageFits (quotient : ℤ → ℤ → ℚ) (response : Response) (size : ℤ) : Prop :=
  InInt32 (size - response.skip) ∧ response.paginate ≠ 0 ∧
    InInt32 ⌈quotient (size - response.skip) response.paginate⌉

theorem turnPage_page_eq_ok_iff (hgroups : response.groups = 0) {size skip paginate : ℤ} :
    response.turnPage quotient size = .ok (skip, paginate) ↔
      (response.page = -1 → response.LastPageFits quotient size) ∧
      InInt32 ((response.shownPage quotient size - 1) * response.paginate) ∧
      InInt32 (response.pageSkip quotient size) ∧
      skip = response.pageSkip quotient size ∧ paginate = response.paginate := by
  have hraise (page : ℤ) : (if page ≤ 0 then 1 else page) = max page 1 := by
    split <;> omega
  have hrest (page : ℤ) : (do
      let pages ← int32 ((max page 1 - 1) * response.paginate)
      let skip ← int32 (response.skip + pages)
      return (skip, response.paginate) : Outcome (ℤ × ℤ)) = .ok (skip, paginate) ↔
      InInt32 ((max page 1 - 1) * response.paginate) ∧
      InInt32 (response.skip + (max page 1 - 1) * response.paginate) ∧
      skip = response.skip + (max page 1 - 1) * response.paginate ∧
      paginate = response.paginate := by
    simp only [Outcome.bind_eq_ok, int32_eq_ok_iff, Outcome.pure_eq_ok, Prod.mk.injEq]
    constructor
    · rintro ⟨_, ⟨hpages, rfl⟩, _, ⟨hskip, rfl⟩, rfl, rfl⟩
      exact ⟨hpages, hskip, rfl, rfl⟩
    · rintro ⟨hpages, hskip, rfl, rfl⟩
      exact ⟨_, ⟨hpages, rfl⟩, _, ⟨hskip, rfl⟩, rfl, rfl⟩
  unfold turnPage pageSkip shownPage askedPage LastPageFits
  rw [if_neg (by simpa using hgroups)]
  simp only [hraise]
  by_cases hlast : response.page = -1
  · simp only [hlast, if_true, true_implies]
    rw [Outcome.bind_eq_ok]
    constructor
    · rintro ⟨left, hleft, h⟩
      obtain ⟨page, hpage, h⟩ := Outcome.bind_eq_ok.1 h
      obtain ⟨hleftRange, rfl⟩ := int32_eq_ok_iff.1 hleft
      obtain ⟨hzero, hpageRange, rfl⟩ := ceilDiv_eq_ok_iff.1 hpage
      exact ⟨⟨hleftRange, hzero, hpageRange⟩, (hrest _).1 h⟩
    · rintro ⟨⟨hleft, hzero, hpage⟩, h⟩
      refine ⟨_, int32_eq_ok_iff.2 ⟨hleft, rfl⟩, ?_⟩
      exact Outcome.bind_eq_ok.2 ⟨_, ceilDiv_eq_ok_iff.2 ⟨hzero, hpage, rfl⟩, (hrest _).2 h⟩
  · simp only [hlast, if_false, false_implies, true_and, pure_bind]
    exact hrest _

/-- Without groups the window is computed exactly if every `int` on the way is one and
`paginate` does not divide as zero. -/
theorem offsets_page_iff (hgroups : response.groups = 0) {size : ℤ} :
    response.offsets quotient size = .ok window ↔
      (response.page = -1 → response.LastPageFits quotient size) ∧
      InInt32 ((response.shownPage quotient size - 1) * response.paginate) ∧
      InInt32 (response.pageSkip quotient size) ∧
      (response.sortType = .none →
        max response.paginate 1 + max (response.pageSkip quotient size) 0 < 2 ^ 31) ∧
      window = response.clamped size (response.pageSkip quotient size) response.paginate := by
  rw [offsets_eq_ok_iff]
  constructor
  · rintro ⟨skip, paginate, hturn, hend, hwindow⟩
    obtain ⟨hlast, hpages, hskip, rfl, rfl⟩ := (turnPage_page_eq_ok_iff hgroups).1 hturn
    exact ⟨hlast, hpages, hskip, hend, hwindow⟩
  · rintro ⟨hlast, hpages, hskip, hend, hwindow⟩
    have hturn := (turnPage_page_eq_ok_iff hgroups).2 ⟨hlast, hpages, hskip, rfl, rfl⟩
    exact ⟨_, _, hturn, hend, hwindow⟩

end VaeDb.Response
