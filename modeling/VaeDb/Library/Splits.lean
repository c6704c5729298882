import Mathlib.Data.List.Basic

/-!
# One list, split in two ways

Where two ways to split a list meet.  The first symbol without a property splits a list in one
way only, and so does the last one (`append_cons_inj_of_forall`, `append_cons_inj_of_forall'`);
a prefix ends before a symbol that it does not have (`prefix_of_not_mem`), and a symbol is
before a cut or behind it (`append_eq_append_cons`).
-/

namespace List

variable {α : Type*} {p : α → Bool} {front front' back back' word : List α} {a b : α}

theorem takeWhile_append_cons (hfront : ∀ c ∈ front, p c) (ha : p a = false) (back : List α) :
    (front ++ a :: back).takeWhile p = front := by
  rw [takeWhile_append_of_pos hfront, takeWhile_cons_of_neg (by simp [ha]), append_nil]

/-- The first symbol without a property. -/
theorem append_cons_inj_of_forall (h : front ++ a :: back = front' ++ b :: back')
    (hfront : ∀ c ∈ front, p c) (hfront' : ∀ c ∈ front', p c) (ha : p a = false)
    (hb : p b = false) : front = front' ∧ a = b ∧ back = back' := by
  have hsame : front = front' := by
    rw [← takeWhile_append_cons hfront ha back, h, takeWhile_append_cons hfront' hb]
  subst hsame
  obtain ⟨rfl, rfl⟩ := cons.inj (append_cancel_left h)
  exact ⟨rfl, rfl, rfl⟩

/-- The last symbol without a property. -/
theorem append_cons_inj_of_forall' (h : front ++ a :: back = front' ++ b :: back')
    (hback : ∀ c ∈ back, p c) (hback' : ∀ c ∈ back', p c) (ha : p a = false)
    (hb : p b = false) : front = front' ∧ a = b ∧ back = back' := by
  have hreverse : back.reverse ++ a :: front.reverse = back'.reverse ++ b :: front'.reverse := by
    simpa using congrArg reverse h
  obtain ⟨hbacks, rfl, hfronts⟩ := append_cons_inj_of_forall hreverse
    (fun c hc => hback c (mem_reverse.1 hc)) (fun c hc => hback' c (mem_reverse.1 hc)) ha hb
  exact ⟨reverse_injective hfronts, rfl, reverse_injective hbacks⟩

/-- A prefix that does not have a symbol ends before it. -/
theorem prefix_of_not_mem (h : word <+: front ++ a :: back) (ha : a ∉ word) :
    word <+: front := by
  obtain ⟨rest, hrest⟩ := h
  rcases append_eq_append_iff.1 hrest with ⟨more, rfl, -⟩ | ⟨more, rfl, hmore⟩
  · exact prefix_append word more
  · cases more with
    | nil => simp
    | cons b more =>
        obtain ⟨rfl, -⟩ := cons.inj hmore
        exact absurd (by simp) ha

/-- A symbol and a cut of the same list. -/
theorem append_eq_append_cons (h : front ++ back = front' ++ a :: back') :
    (∃ more, front' = front ++ more ∧ back = more ++ a :: back') ∨
      ∃ more, front = front' ++ a :: more ∧ back' = more ++ back := by
  rcases append_eq_append_iff.1 h with ⟨more, hfront, hback⟩ | ⟨more, hfront, hback⟩
  · exact Or.inl ⟨more, hfront, hback⟩
  · cases more with
    | nil => exact Or.inl ⟨[], by simpa using hfront.symm, hback.symm⟩
    | cons b more =>
        obtain ⟨rfl, hback'⟩ := cons.inj hback
        exact Or.inr ⟨more, hfront, hback'⟩

end List
