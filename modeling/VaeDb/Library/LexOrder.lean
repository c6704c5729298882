import Mathlib.Order.Lattice
import Mathlib.Order.RelClasses

/-!
# Strict weak orders, put together

A comparison that sorts by one criterion, then by the next, is a strict weak order as soon
as every criterion is one.  A strict weak order is handled here as an asymmetric relation
that is negatively transitive (`IsOrderConnected`): if `a` is below `c`, then every `b` is
above `a` or below `c`.
-/

namespace LexOrder

variable {α β : Type*} {r s : α → α → Prop}

/-- Asymmetric and negatively transitive. -/
structure Weak (r : α → α → Prop) : Prop where
  asymm : ∀ a b, r a b → ¬ r b a
  connected : ∀ a b c, r a c → r a b ∨ r b c

theorem Weak.isStrictWeakOrder (h : Weak r) : IsStrictWeakOrder α r :=
  have : Std.Asymm r := ⟨h.asymm⟩
  have : IsOrderConnected α r := ⟨h.connected⟩
  isStrictWeakOrder_of_isOrderConnected

/-- The comparison for which all are alike. -/
theorem weak_false : Weak fun _ _ : α => False :=
  ⟨fun _ _ h => h.elim, fun _ _ _ h => h.elim⟩

/-- Comparing keys from a linear order. -/
theorem weak_key [LinearOrder β] (key : α → β) : Weak fun a b => key a < key b := by
  refine ⟨fun a b => lt_asymm, fun a b c hac => ?_⟩
  rcases lt_or_ge (key a) (key b) with hab | hba
  · exact Or.inl hab
  · exact Or.inr (lt_of_le_of_lt hba hac)

/-- The reverse comparison. -/
theorem Weak.swap (h : Weak r) : Weak fun a b => r b a :=
  ⟨fun a b => h.asymm b a, fun a b c hca => (h.connected c b a hca).symm⟩

/-- Compare by `r`, and by `s` what `r` leaves undecided. -/
def lex (r s : α → α → Prop) (a b : α) : Prop := r a b ∨ ¬ r b a ∧ s a b

theorem Weak.lex (hr : Weak r) (hs : Weak s) : Weak (lex r s) := by
  refine ⟨fun a b hab hba => ?_, fun a b c hac => ?_⟩
  · rcases hab with hab | ⟨hnot, hab⟩ <;> rcases hba with hba | ⟨hnot', hba⟩
    · exact hr.asymm a b hab hba
    · exact hnot' hab
    · exact hnot hba
    · exact hs.asymm a b hab hba
  · rcases hac with hac | ⟨hnot, hac⟩
    · exact (hr.connected a b c hac).imp Or.inl Or.inl
    · -- `b` is not strictly between in `r`, so wherever `s` puts it `r` agrees
      rcases hs.connected a b c hac with hab | hbc
      · by_cases hba : r b a
        · rcases hr.connected b c a hba with hbc | hca
          · exact Or.inr (Or.inl hbc)
          · exact absurd hca hnot
        · exact Or.inl (Or.inr ⟨hba, hab⟩)
      · by_cases hcb : r c b
        · rcases hr.connected c a b hcb with hca | hab
          · exact absurd hca hnot
          · exact Or.inl (Or.inl hab)
        · exact Or.inr (Or.inr ⟨hcb, hbc⟩)

end LexOrder
