import Mathlib.Data.List.Infix

/-!
# The occurrences of a word

`Cuts word text gaps` says what is around the occurrences of a word that a scan from left to
right finds in a text: the word begins nowhere before the end of a gap, and the scan goes on
behind the word.

A word that is not empty cuts every text in one way (`exists_cuts`, `Cuts.unique`), and the
text is the word between the gaps (`Cuts.intercalate`).  Another word there instead replaces
all occurrences.
-/

namespace Occurrences

universe u

variable {α : Type u} {word text rest gap : List α} {gaps gaps' : List (List α)} {a : α}

/-- What is between the occurrences of a word, the leftmost ones first, and behind the last. -/
inductive Cuts (word : List α) : List α → List (List α) → Prop
  | last {gap : List α} (hfree : ∀ n, ¬ word <+: gap.drop n) : Cuts word gap [gap]
  | cut (gap : List α) {rest : List α} {gaps : List (List α)}
      (hfree : ∀ n < gap.length, ¬ word <+: (gap ++ (word ++ rest)).drop n)
      (hrest : Cuts word rest gaps) : Cuts word (gap ++ (word ++ rest)) (gap :: gaps)

/-! ## A scan -/

/-- A scan meets the word, or passes a symbol. -/
theorem scan_induction {P : List α → Prop} (hword : word ≠ []) (hnil : P [])
    (hfound : ∀ rest, P rest → P (word ++ rest))
    (hpass : ∀ a rest, ¬ word <+: a :: rest → P rest → P (a :: rest)) (text : List α) : P text := by
  induction hlength : text.length using Nat.strong_induction_on generalizing text with
  | _ length ih =>
      by_cases hbegins : word <+: text
      · obtain ⟨rest, rfl⟩ := hbegins
        have hpos := List.length_pos_iff.2 hword
        rw [List.length_append] at hlength
        exact hfound rest (ih rest.length (by omega) rest rfl)
      · cases text with
        | nil => exact hnil
        | cons a rest =>
            rw [List.length_cons] at hlength
            exact hpass a rest hbegins (ih rest.length (by omega) rest rfl)

theorem cuts_nil (hword : word ≠ []) : Cuts word [] [[]] :=
  .last fun _ hbegins => hword (List.prefix_nil.1 (List.drop_nil ▸ hbegins))

theorem Cuts.found (h : Cuts word rest gaps) : Cuts word (word ++ rest) ([] :: gaps) :=
  .cut [] (fun n hn => absurd hn (Nat.not_lt_zero n)) h

theorem Cuts.pass (hbegins : ¬ word <+: a :: rest) (h : Cuts word rest (gap :: gaps)) :
    Cuts word (a :: rest) ((a :: gap) :: gaps) := by
  cases h with
  | last hfree =>
      refine .last fun n => ?_
      cases n with
      | zero => exact hbegins
      | succ n => exact hfree n
  | cut gap hfree hrest =>
      refine .cut (a :: gap) (fun n hn => ?_) hrest
      cases n with
      | zero => exact hbegins
      | succ n => exact hfree n (Nat.lt_of_succ_lt_succ hn)

/-! ## What a scan finds -/

theorem Cuts.eq_of_nil (hword : word ≠ []) (h : Cuts word [] gaps) : gaps = [[]] := by
  generalize htext : ([] : List α) = text at h
  cases h with
  | last hfree => rw [← htext]
  | cut gap hfree hrest =>
      have hnil := (List.append_eq_nil_iff.1 htext.symm).2
      exact absurd (List.append_eq_nil_iff.1 hnil).1 hword

theorem Cuts.of_found (h : Cuts word (word ++ rest) gaps) :
    ∃ others, gaps = [] :: others ∧ Cuts word rest others := by
  generalize htext : word ++ rest = text at h
  cases h with
  | last hfree => exact absurd ⟨rest, htext⟩ (hfree 0)
  | @cut gap rest' others hfree hrest =>
      cases gap with
      | nil =>
          obtain rfl : rest = rest' := List.append_cancel_left htext
          exact ⟨others, rfl, hrest⟩
      | cons a gap => exact absurd ⟨rest, htext⟩ (hfree 0 (Nat.succ_pos _))

theorem Cuts.of_pass (hbegins : ¬ word <+: a :: rest) (h : Cuts word (a :: rest) gaps) :
    ∃ gap others, gaps = (a :: gap) :: others ∧ Cuts word rest (gap :: others) := by
  generalize htext : a :: rest = text at h
  cases h with
  | last hfree =>
      subst htext
      exact ⟨rest, [], rfl, .last fun n => hfree (n + 1)⟩
  | @cut gap rest' others hfree hrest =>
      cases gap with
      | nil => exact absurd ⟨rest', htext.symm⟩ hbegins
      | cons b gap =>
          obtain ⟨rfl, rfl⟩ := List.cons.inj htext
          exact ⟨gap, others, rfl, .cut gap (fun n hn => hfree (n + 1) (Nat.succ_lt_succ hn)) hrest⟩

/-! ## One way to cut -/

theorem Cuts.ne_nil (h : Cuts word text gaps) : gaps ≠ [] := by
  cases h with
  | last hfree => exact List.cons_ne_nil _ _
  | cut gap hfree hrest => exact List.cons_ne_nil _ _

theorem exists_cuts (hword : word ≠ []) (text : List α) : ∃ gaps, Cuts word text gaps := by
  induction text using scan_induction hword with
  | hnil => exact ⟨_, cuts_nil hword⟩
  | hfound rest ih =>
      obtain ⟨gaps, h⟩ := ih
      exact ⟨_, h.found⟩
  | hpass a rest hbegins ih =>
      obtain ⟨gaps, h⟩ := ih
      obtain ⟨gap, others, rfl⟩ := List.exists_cons_of_ne_nil h.ne_nil
      exact ⟨_, h.pass hbegins⟩

theorem Cuts.unique (hword : word ≠ []) (h : Cuts word text gaps) (h' : Cuts word text gaps') :
    gaps = gaps' := by
  induction text using scan_induction hword generalizing gaps gaps' with
  | hnil => rw [h.eq_of_nil hword, h'.eq_of_nil hword]
  | hfound rest ih =>
      obtain ⟨others, rfl, hrest⟩ := h.of_found
      obtain ⟨others', rfl, hrest'⟩ := h'.of_found
      rw [ih hrest hrest']
  | hpass a rest hbegins ih =>
      obtain ⟨gap, others, rfl, hrest⟩ := h.of_pass hbegins
      obtain ⟨gap', others', rfl, hrest'⟩ := h'.of_pass hbegins
      obtain ⟨rfl, rfl⟩ := List.cons.inj (ih hrest hrest')
      rfl

/-! ## Another word between the gaps -/

theorem intercalate_nil_cons (replacement : List α) (hgaps : gaps ≠ []) :
    replacement.intercalate ([] :: gaps) = replacement ++ replacement.intercalate gaps := by
  obtain ⟨gap, others, rfl⟩ := List.exists_cons_of_ne_nil hgaps
  rw [List.intercalate_cons_cons, List.nil_append]

theorem intercalate_cons (replacement : List α) :
    replacement.intercalate ((a :: gap) :: gaps) = a :: replacement.intercalate (gap :: gaps) := by
  cases gaps with
  | nil => simp
  | cons other gaps => rw [List.intercalate_cons_cons, List.intercalate_cons_cons]; rfl

/-- The word between the gaps is the text. -/
theorem Cuts.intercalate (h : Cuts word text gaps) : word.intercalate gaps = text := by
  induction h with
  | last hfree => simp
  | @cut gap rest gaps hfree hrest ih =>
      obtain ⟨other, others, rfl⟩ := List.exists_cons_of_ne_nil hrest.ne_nil
      rw [List.intercalate_cons_cons, ih, List.append_assoc]

/-- A text without the word is one gap. -/
theorem cuts_of_not_contained (h : ¬ word <:+: text) : Cuts word text [text] :=
  .last fun n hbegins => h (hbegins.isInfix.trans (List.drop_suffix n text).isInfix)

end Occurrences
