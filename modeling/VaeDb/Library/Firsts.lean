import Mathlib.Data.Nat.Find

/-!
# The first of each class

Positions that satisfy a predicate and are the first such position with their key.  Two keys,
of which the second is a function of the first, pick the same positions exactly if they tell
the same positions apart.
-/

namespace VaeDb.Firsts

variable {κ ι : Type*} {P : ℕ → Prop} {f : ℕ → κ} {g : ℕ → ι} {i j : ℕ}

/-- The first position with its key. -/
def IsFirst (P : ℕ → Prop) (f : ℕ → κ) (i : ℕ) : Prop :=
  P i ∧ ∀ j < i, P j → f j ≠ f i

theorem IsFirst.eq (hi : IsFirst P f i) (hj : IsFirst P f j) (h : f i = f j) : i = j := by
  rcases lt_trichotomy i j with hlt | heq | hgt
  · exact absurd h (hj.2 i hlt hi.1)
  · exact heq
  · exact absurd h.symm (hi.2 j hgt hj.1)

theorem exists_isFirst (hi : P i) : ∃ j, IsFirst P f j ∧ f j = f i := by
  classical
  have hexists : ∃ j, P j ∧ f j = f i := ⟨i, hi, rfl⟩
  obtain ⟨hfind, hsame⟩ := Nat.find_spec hexists
  refine ⟨Nat.find hexists, ⟨hfind, fun j hj hPj heq => ?_⟩, hsame⟩
  exact Nat.find_min hexists hj ⟨hPj, heq.trans hsame⟩

@[simp] theorem isFirst_zero : IsFirst P f 0 ↔ P 0 :=
  and_iff_left fun j hj => absurd hj (Nat.not_lt_zero j)

theorem isFirst_succ : IsFirst P f (i + 1) ↔
    IsFirst (fun i => P (i + 1)) (fun i => f (i + 1)) i ∧ (P 0 → f 0 ≠ f (i + 1)) := by
  constructor
  · intro h
    exact ⟨⟨h.1, fun j hj hPj => h.2 (j + 1) (Nat.succ_lt_succ hj) hPj⟩,
      fun hzero => h.2 0 (Nat.succ_pos i) hzero⟩
  · intro ⟨⟨hi, hearlier⟩, hzero⟩
    refine ⟨hi, fun j hj hPj => ?_⟩
    cases j with
    | zero => exact hzero hPj
    | succ j => exact hearlier j (Nat.lt_of_succ_lt_succ hj) hPj

/-- A coarser key picks the same firsts exactly if it is not coarser. -/
theorem isFirst_congr_iff (hcoarse : ∀ i j, f i = f j → g i = g j) :
    (∀ i, IsFirst P g i ↔ IsFirst P f i) ↔
      ∀ i j, P i → P j → g i = g j → f i = f j := by
  constructor
  · intro h
    have hto (i : ℕ) (hi : P i) : ∃ m, IsFirst P g m ∧ g m = g i ∧ f m = f i := by
      obtain ⟨m, hm, hsame⟩ := exists_isFirst (f := f) hi
      exact ⟨m, (h m).2 hm, hcoarse _ _ hsame, hsame⟩
    intro i j hi hj hij
    obtain ⟨m, hm, hgm, hfm⟩ := hto i hi
    obtain ⟨n, hn, hgn, hfn⟩ := hto j hj
    obtain rfl := hm.eq hn (hgm.trans (hij.trans hgn.symm))
    exact hfm.symm.trans hfn
  · intro h i
    refine and_congr_right fun hi => forall_congr' fun j => forall_congr' fun _ =>
      forall_congr' fun hj => not_congr ⟨h j i hj hi, hcoarse j i⟩

end VaeDb.Firsts
