import Mathlib.Data.List.Forall2
import Mathlib.Data.Nat.Notation

/-!
# Patterns and repeated replacement

A pattern is a sequence of atoms: one symbol of a class, one or more symbols of a class, or
one of some words.  It is matched as a backtracking matcher does it: from the leftmost place
where it matches at all, each atom as long as the others let it be, and a word before those
that are listed after it.  A `Rule` writes something else for the first match.

* `matchAtoms_sound`, `matchAtoms_isSome`: a match splits the text into pieces that fit the
  atoms, and there is a match wherever there are such pieces.
* `replace_eq_some`, `replace_eq_none_iff`: what a replacement finds, and when there is none.
* `exhaust_eq_some_iff`: the loop that replaces until there is no match any more.
* `Rule.Maps`: the same rule on symbols that carry more than what the pattern looks at.
-/

namespace Patterns

universe u v

variable {α : Type u} {β : Type v}

/-! ## Atoms -/

inductive Atom (α : Type u)
  | one (accepts : α → Bool)
  | many (accepts : α → Bool)
  | words (alternatives : List (List (α → Bool)))

/-- The text begins with a word. -/
def begins : List (α → Bool) → List α → Bool
  | [], _ => true
  | _ :: _, [] => false
  | accepts :: word, a :: text => accepts a && begins word text

/-- The numbers from `n` down to one. -/
def countdown : ℕ → List ℕ
  | 0 => []
  | n + 1 => (n + 1) :: countdown n

namespace Atom

/-- How much of a text an atom can take, in the order in which that is tried. -/
def lengths : Atom α → List α → List ℕ
  | one _, [] => []
  | one accepts, a :: _ => if accepts a then [1] else []
  | many accepts, text => countdown (text.takeWhile accepts).length
  | words alternatives, text => (alternatives.filter (begins · text)).map List.length

/-- A piece of text that an atom stands for. -/
def Fits : Atom α → List α → Prop
  | one accepts, piece => ∃ a, piece = [a] ∧ accepts a
  | many accepts, piece => piece ≠ [] ∧ ∀ a ∈ piece, accepts a
  | words alternatives, piece =>
      ∃ word ∈ alternatives, List.Forall₂ (fun accepts a => accepts a = true) word piece

/-- The atom that looks at the image of a symbol. -/
def comap (f : α → β) : Atom β → Atom α
  | one accepts => one (accepts ∘ f)
  | many accepts => many (accepts ∘ f)
  | words alternatives => words (alternatives.map (List.map (· ∘ f)))

end Atom

theorem mem_countdown {k n : ℕ} : k ∈ countdown n ↔ 1 ≤ k ∧ k ≤ n := by
  induction n with
  | zero =>
      simp only [countdown, List.not_mem_nil, false_iff]
      omega
  | succ n ih =>
      rw [countdown, List.mem_cons, ih]
      omega

theorem begins_iff {word : List (α → Bool)} {text : List α} :
    begins word text = true ↔ word.length ≤ text.length ∧
      List.Forall₂ (fun accepts a => accepts a = true) word (text.take word.length) := by
  induction word generalizing text with
  | nil => simp [begins]
  | cons accepts word ih =>
      cases text with
      | nil => simp [begins]
      | cons a text =>
          rw [begins, Bool.and_eq_true, ih]
          simp only [List.length_cons, List.take_succ_cons, List.forall₂_cons,
            Nat.add_le_add_iff_right]
          exact and_left_comm

theorem le_length_takeWhile_iff {accepts : α → Bool} {text : List α} {n : ℕ} :
    n ≤ (text.takeWhile accepts).length ↔
      n ≤ text.length ∧ ∀ a ∈ text.take n, accepts a := by
  induction text generalizing n with
  | nil => simp
  | cons a text ih =>
      cases n with
      | zero => simp
      | succ n =>
          cases haccepts : accepts a with
          | true =>
              simp only [List.takeWhile_cons_of_pos haccepts, List.length_cons,
                Nat.add_le_add_iff_right, List.take_succ_cons, List.forall_mem_cons, haccepts,
                true_and]
              exact ih
          | false => simp [haccepts]

/-- An atom takes as many symbols as a piece that it fits has. -/
theorem Atom.mem_lengths_iff {atom : Atom α} {text : List α} {n : ℕ} :
    n ∈ atom.lengths text ↔ n ≤ text.length ∧ atom.Fits (text.take n) := by
  cases atom with
  | one accepts =>
      cases text with
      | nil => simp [lengths, Fits]
      | cons a text =>
          cases n with
          | zero => by_cases h : accepts a <;> simp [lengths, Fits, h]
          | succ n =>
              cases n with
              | zero => by_cases h : accepts a <;> simp [lengths, Fits, h]
              | succ n =>
                  cases text with
                  | nil => by_cases h : accepts a <;> simp [lengths, Fits, h]
                  | cons b text => by_cases h : accepts a <;> simp [lengths, Fits, h]
  | many accepts =>
      rw [lengths, mem_countdown, le_length_takeWhile_iff]
      simp only [Fits, ne_eq, List.take_eq_nil_iff, not_or]
      constructor
      · intro ⟨hpos, hlength, hall⟩
        refine ⟨hlength, ⟨by omega, ?_⟩, hall⟩
        rintro rfl
        simp only [List.length_nil] at hlength
        omega
      · intro ⟨hlength, ⟨hzero, _⟩, hall⟩
        exact ⟨by omega, hlength, hall⟩
  | words alternatives =>
      simp only [lengths, List.mem_map, List.mem_filter, begins_iff, Fits]
      constructor
      · rintro ⟨word, ⟨hword, hlength, hspells⟩, rfl⟩
        exact ⟨hlength, word, hword, hspells⟩
      · intro ⟨hlength, word, hword, hspells⟩
        have hsame : word.length = n := by
          rw [hspells.length_eq, List.length_take, Nat.min_eq_left hlength]
        exact ⟨word, ⟨hword, hsame ▸ hlength, hsame ▸ hspells⟩, hsame⟩

theorem Atom.lengths_comap (f : α → β) (atom : Atom β) (text : List α) :
    (atom.comap f).lengths text = atom.lengths (text.map f) := by
  have hbegins : ∀ (word : List (β → Bool)) (text : List α),
      begins (word.map (· ∘ f)) text = begins word (text.map f) := by
    intro word text
    induction word generalizing text with
    | nil => cases text <;> rfl
    | cons accepts word ih =>
        cases text with
        | nil => rfl
        | cons a text => exact congrArg (accepts (f a) && ·) (ih text)
  cases atom with
  | one accepts => cases text <;> rfl
  | many accepts =>
      have hlength : (text.takeWhile (accepts ∘ f)).length =
          ((text.map f).takeWhile accepts).length := by
        rw [List.takeWhile_map, List.length_map]
      exact congrArg countdown hlength
  | words alternatives =>
      simp only [comap, lengths, List.filter_map, List.map_map]
      have hfilter : ((begins · text) ∘ List.map (· ∘ f)) = (begins · (text.map f)) :=
        funext fun word => hbegins word text
      rw [hfilter]
      exact List.map_congr_left fun word _ => List.length_map _

/-! ## Matches -/

/-- The pieces of a match at the beginning of a text, and what is left of it. -/
def matchAtoms : List (Atom α) → List α → Option (List (List α) × List α)
  | [], text => some ([], text)
  | atom :: atoms, text =>
      (atom.lengths text).findSome? fun n =>
        (matchAtoms atoms (text.drop n)).map fun found => (text.take n :: found.1, found.2)

theorem matchAtoms_sound {atoms : List (Atom α)} {text : List α}
    {pieces : List (List α)} {rest : List α} (h : matchAtoms atoms text = some (pieces, rest)) :
    text = pieces.flatten ++ rest ∧ List.Forall₂ Atom.Fits atoms pieces := by
  induction atoms generalizing text pieces with
  | nil =>
      obtain ⟨rfl, rfl⟩ := Prod.mk.inj (Option.some.inj h)
      exact ⟨rfl, .nil⟩
  | cons atom atoms ih =>
      rw [matchAtoms] at h
      obtain ⟨n, hn, hfound⟩ := List.exists_of_findSome?_eq_some h
      obtain ⟨⟨others, rest'⟩, hothers, heq⟩ := Option.map_eq_some_iff.1 hfound
      obtain ⟨rfl, rfl⟩ := Prod.mk.inj heq
      obtain ⟨hdrop, hfits⟩ := ih hothers
      refine ⟨?_, .cons (Atom.mem_lengths_iff.1 hn).2 hfits⟩
      calc text
          = text.take n ++ text.drop n := (List.take_append_drop n text).symm
        _ = text.take n ++ (others.flatten ++ rest') := by rw [hdrop]
        _ = (text.take n :: others).flatten ++ rest' := by simp

theorem matchAtoms_isSome {atoms : List (Atom α)} {pieces : List (List α)}
    (h : List.Forall₂ Atom.Fits atoms pieces) (rest : List α) :
    (matchAtoms atoms (pieces.flatten ++ rest)).isSome := by
  induction h with
  | nil => rfl
  | @cons atom piece atoms pieces hfits _ ih =>
      have htake : ((piece :: pieces).flatten ++ rest).take piece.length = piece := by
        rw [List.flatten_cons, List.append_assoc]
        exact List.take_left
      have hdrop : ((piece :: pieces).flatten ++ rest).drop piece.length =
          pieces.flatten ++ rest := by
        rw [List.flatten_cons, List.append_assoc]
        exact List.drop_left
      rw [matchAtoms, List.findSome?_isSome_iff]
      refine ⟨piece.length, Atom.mem_lengths_iff.2 ⟨?_, by rwa [htake]⟩, ?_⟩
      · simp
      · rw [hdrop, Option.isSome_map]
        exact ih

theorem matchAtoms_one {accepts : α → Bool} {a : α} (h : accepts a = true)
    (atoms : List (Atom α)) (text : List α) :
    matchAtoms (.one accepts :: atoms) (a :: text) =
      (matchAtoms atoms text).map fun found => ([a] :: found.1, found.2) := by
  have hlengths : (Atom.one accepts).lengths (a :: text) = [1] := by
    rw [Atom.lengths, if_pos h]
  rw [matchAtoms, hlengths]
  cases hmatch : matchAtoms atoms text <;> simp [hmatch]

/-- A run at the end of a pattern is as long as possible. -/
theorem matchAtoms_many {accepts : α → Bool} {run rest : List α} (hne : run ≠ [])
    (hrun : ∀ a ∈ run, accepts a) (hrest : ∀ a ∈ rest.head?, accepts a = false) :
    matchAtoms [.many accepts] (run ++ rest) = some ([run], rest) := by
  have htake : (run ++ rest).takeWhile accepts = run := by
    rw [List.takeWhile_append_of_pos hrun]
    cases rest with
    | nil => simp
    | cons a rest => simp [hrest a rfl]
  obtain ⟨n, hn⟩ : ∃ n, run.length = n + 1 :=
    Nat.exists_eq_add_one_of_ne_zero (mt List.length_eq_zero_iff.1 hne)
  rw [matchAtoms, Atom.lengths, htake, hn, countdown, List.findSome?_cons, ← hn,
    List.take_left, List.drop_left]
  rfl

theorem matchAtoms_comap (f : α → β) (atoms : List (Atom β)) (text : List α) :
    (matchAtoms (atoms.map (Atom.comap f)) text).map
        (fun found => (found.1.map (List.map f), found.2.map f)) =
      matchAtoms atoms (text.map f) := by
  induction atoms generalizing text with
  | nil => rfl
  | cons atom atoms ih =>
      rw [List.map_cons, matchAtoms, matchAtoms, Atom.lengths_comap]
      generalize atom.lengths (text.map f) = lengths
      induction lengths with
      | nil => rfl
      | cons n lengths ihLengths =>
          have hn := ih (text.drop n)
          rw [List.map_drop] at hn
          rw [List.findSome?_cons, List.findSome?_cons, ← hn]
          cases hmatch : matchAtoms (atoms.map (Atom.comap f)) (text.drop n) with
          | none => exact ihLengths
          | some found => simp [List.map_take]

/-! ## Rules -/

/-- What is to be found, and what is written for its pieces. -/
structure Rule (α : Type u) where
  atoms : List (Atom α)
  rewrite : List (List α) → List α

variable (rule : Rule α)

namespace Rule

/-- Write for the first match; nothing if there is none. -/
def replace : List α → Option (List α)
  | [] => (matchAtoms rule.atoms []).map fun found => rule.rewrite found.1 ++ found.2
  | a :: text =>
      match matchAtoms rule.atoms (a :: text) with
      | some found => some (rule.rewrite found.1 ++ found.2)
      | none => (replace text).map (a :: ·)

/-- A place of a text where a rule matches. -/
structure Found (text before : List α) (pieces : List (List α)) (rest : List α) : Prop where
  text_eq : text = before ++ (pieces.flatten ++ rest)
  fits : List.Forall₂ Atom.Fits rule.atoms pieces

/-- No match begins earlier. -/
def Leftmost (text before : List α) : Prop :=
  ∀ before' pieces' rest', rule.Found text before' pieces' rest' →
    before.length ≤ before'.length

variable {rule} {text text' before rest : List α} {pieces : List (List α)}

theorem found_nil (h : rule.Found text [] pieces rest) :
    (matchAtoms rule.atoms text).isSome := by
  have hsome := matchAtoms_isSome h.fits rest
  rwa [← List.nil_append (pieces.flatten ++ rest), ← h.text_eq] at hsome

theorem Found.cons (h : rule.Found text before pieces rest) (a : α) :
    rule.Found (a :: text) (a :: before) pieces rest :=
  ⟨by rw [h.text_eq]; rfl, h.fits⟩

theorem Found.of_cons {a : α} (h : rule.Found (a :: text) before pieces rest)
    (hnone : matchAtoms rule.atoms (a :: text) = none) :
    ∃ before', before = a :: before' ∧ rule.Found text before' pieces rest := by
  cases before with
  | nil =>
      have hsome := found_nil h
      rw [hnone] at hsome
      cases hsome
  | cons b before =>
      obtain ⟨rfl, htext⟩ := List.cons.inj h.text_eq
      exact ⟨before, rfl, htext, h.fits⟩

/-- A replacement writes for the leftmost match. -/
theorem replace_eq_some (h : rule.replace text = some text') :
    ∃ before pieces rest, rule.Found text before pieces rest ∧
      text' = before ++ (rule.rewrite pieces ++ rest) ∧ rule.Leftmost text before := by
  induction text generalizing text' with
  | nil =>
      obtain ⟨⟨pieces, rest⟩, hfound, rfl⟩ := Option.map_eq_some_iff.1 h
      obtain ⟨htext, hfits⟩ := matchAtoms_sound hfound
      exact ⟨[], pieces, rest, ⟨htext, hfits⟩, rfl, fun _ _ _ _ => Nat.zero_le _⟩
  | cons a text ih =>
      rw [replace] at h
      cases hmatch : matchAtoms rule.atoms (a :: text) with
      | some found =>
          obtain ⟨pieces, rest⟩ := found
          rw [hmatch] at h
          obtain rfl := Option.some.inj h
          obtain ⟨htext, hfits⟩ := matchAtoms_sound hmatch
          exact ⟨[], pieces, rest, ⟨htext, hfits⟩, rfl, fun _ _ _ _ => Nat.zero_le _⟩
      | none =>
          rw [hmatch] at h
          obtain ⟨next, hnext, rfl⟩ := Option.map_eq_some_iff.1 h
          obtain ⟨before, pieces, rest, hfound, rfl, hleft⟩ := ih hnext
          refine ⟨a :: before, pieces, rest, hfound.cons a, rfl, ?_⟩
          intro before' pieces' rest' hfound'
          obtain ⟨before'', rfl, hfound''⟩ := hfound'.of_cons hmatch
          exact Nat.succ_le_succ (hleft before'' pieces' rest' hfound'')

theorem replace_eq_none_iff :
    rule.replace text = none ↔ ∀ before pieces rest, ¬ rule.Found text before pieces rest := by
  induction text with
  | nil =>
      rw [replace, Option.map_eq_none_iff]
      constructor
      · intro hnone before pieces rest hfound
        obtain ⟨rfl, -⟩ := List.append_eq_nil_iff.1 hfound.text_eq.symm
        have hsome := found_nil hfound
        rw [hnone] at hsome
        cases hsome
      · intro hnever
        cases hmatch : matchAtoms rule.atoms [] with
        | none => rfl
        | some found =>
            obtain ⟨htext, hfits⟩ := matchAtoms_sound hmatch
            exact (hnever [] found.1 found.2 ⟨htext, hfits⟩).elim
  | cons a text ih =>
      rw [replace]
      cases hmatch : matchAtoms rule.atoms (a :: text) with
      | some found =>
          obtain ⟨htext, hfits⟩ := matchAtoms_sound hmatch
          constructor
          · intro h
            cases h
          · intro hnever
            exact (hnever [] found.1 found.2 ⟨htext, hfits⟩).elim
      | none =>
          simp only [Option.map_eq_none_iff, ih]
          constructor
          · intro hnever before pieces rest hfound
            obtain ⟨before', -, hfound'⟩ := hfound.of_cons hmatch
            exact hnever before' pieces rest hfound'
          · intro hnever before pieces rest hfound
            exact hnever (a :: before) pieces rest (hfound.cons a)

/-! ## Replacing until there is no match -/

variable (rule)

/-- `while (replace) {}`, within so many rounds. -/
def exhaust : ℕ → List α → Option (List α)
  | 0, _ => none
  | rounds + 1, text =>
      match rule.replace text with
      | some next => exhaust rounds next
      | none => some text

/-- So many replacements lead from one text to another. -/
inductive Replaced : ℕ → List α → List α → Prop
  | refl (text : List α) : Replaced 0 text text
  | step {n : ℕ} {text next result : List α} (h : rule.replace text = some next)
      (hrest : Replaced n next result) : Replaced (n + 1) text result

variable {rule} {result : List α} {rounds : ℕ}

theorem exhaust_eq_some_iff :
    rule.exhaust rounds text = some result ↔
      ∃ n < rounds, rule.Replaced n text result ∧ rule.replace result = none := by
  induction rounds generalizing text with
  | zero => simp [exhaust]
  | succ rounds ih =>
      rw [exhaust]
      cases hreplace : rule.replace text with
      | some next =>
          simp only [ih]
          constructor
          · intro ⟨n, hn, hreplaced, hnone⟩
            exact ⟨n + 1, Nat.succ_lt_succ hn, .step hreplace hreplaced, hnone⟩
          · intro ⟨n, hn, hreplaced, hnone⟩
            cases hreplaced with
            | refl =>
                rw [hreplace] at hnone
                cases hnone
            | step h hrest =>
                obtain rfl := Option.some.inj (hreplace.symm.trans h)
                exact ⟨_, Nat.lt_of_succ_lt_succ hn, hrest, hnone⟩
      | none =>
          constructor
          · intro h
            obtain rfl := Option.some.inj h
            exact ⟨0, Nat.succ_pos _, .refl text, hreplace⟩
          · intro ⟨n, _, hreplaced, _⟩
            cases hreplaced with
            | refl => rfl
            | step h _ =>
                rw [hreplace] at h
                cases h

/-- Where every replacement lowers a number, the loop ends. -/
theorem exists_replaced (measure : List α → ℕ)
    (hlower : ∀ text next, rule.replace text = some next → measure next < measure text)
    (text : List α) :
    ∃ n ≤ measure text, ∃ result, rule.Replaced n text result ∧ rule.replace result = none := by
  induction hsize : measure text using Nat.strongRecOn generalizing text with
  | _ size ih =>
      subst hsize
      cases hreplace : rule.replace text with
      | none => exact ⟨0, Nat.zero_le _, text, .refl text, hreplace⟩
      | some next =>
          have hlt := hlower text next hreplace
          obtain ⟨n, hn, result, hreplaced, hnone⟩ := ih _ hlt next rfl
          exact ⟨n + 1, by omega, result, .step hreplace hreplaced, hnone⟩

/-- What every replacement keeps holds at the end of the loop. -/
theorem exhaust_invariant {P : List α → Prop} (h : P text)
    (hstep : ∀ text next, P text → rule.replace text = some next → P next)
    (hrun : rule.exhaust rounds text = some result) : P result ∧ rule.replace result = none := by
  obtain ⟨n, -, hreplaced, hnone⟩ := exhaust_eq_some_iff.1 hrun
  refine ⟨?_, hnone⟩
  clear hrun hnone
  induction hreplaced with
  | refl => exact h
  | step hreplace _ ih => exact ih (hstep _ _ h hreplace)

/-! ## Parts of a text that are passed -/

variable (rule)

/-- No match begins in this part, whatever comes after it. -/
def Passes (part : List α) : Prop :=
  ∀ rest, rule.replace (part ++ rest) = (rule.replace rest).map (part ++ ·)

variable {rule} {part part' : List α}

theorem passes_nil : rule.Passes [] := by
  intro rest
  rw [List.nil_append]
  cases rule.replace rest <;> rfl

theorem passes_cons {a : α} (h : rule.Passes part)
    (hnone : ∀ rest, matchAtoms rule.atoms (a :: (part ++ rest)) = none) :
    rule.Passes (a :: part) := by
  intro rest
  rw [List.cons_append, replace, hnone rest]
  simp only [h rest, Option.map_map]
  rfl

theorem Passes.append (h : rule.Passes part) (h' : rule.Passes part') :
    rule.Passes (part ++ part') := by
  intro rest
  rw [List.append_assoc, h, h', Option.map_map]
  congr 1
  funext text
  simp

theorem Passes.exhaust (h : rule.Passes part) (rounds : ℕ) (rest : List α) :
    rule.exhaust rounds (part ++ rest) = (rule.exhaust rounds rest).map (part ++ ·) := by
  induction rounds generalizing rest with
  | zero => rfl
  | succ rounds ih =>
      rw [Rule.exhaust, Rule.exhaust, h rest]
      cases rule.replace rest with
      | none => rfl
      | some next => exact ih next

/-! ## Symbols that carry more -/

/-- A rule on symbols does what another one does on their images. -/
structure Maps (f : α → β) (rule : Rule α) (rule' : Rule β) : Prop where
  atoms : rule.atoms = rule'.atoms.map (Atom.comap f)
  rewrite : ∀ pieces, (rule.rewrite pieces).map f = rule'.rewrite (pieces.map (List.map f))

theorem Maps.replace {f : α → β} {rule' : Rule β} (h : Maps f rule rule') (text : List α) :
    (rule.replace text).map (List.map f) = rule'.replace (text.map f) := by
  have hmatch : ∀ text, (matchAtoms rule.atoms text).map
      (fun found => (found.1.map (List.map f), found.2.map f)) =
        matchAtoms rule'.atoms (text.map f) := by
    intro text
    rw [h.atoms]
    exact matchAtoms_comap f _ text
  induction text with
  | nil =>
      have hnil := hmatch []
      rw [List.map_nil] at hnil ⊢
      rw [Rule.replace, Rule.replace, ← hnil]
      cases matchAtoms rule.atoms [] <;> simp [h.rewrite]
  | cons a text ih =>
      have hcons := hmatch (a :: text)
      rw [List.map_cons] at hcons ⊢
      rw [Rule.replace, Rule.replace, ← hcons]
      cases matchAtoms rule.atoms (a :: text) with
      | some found => simp [h.rewrite]
      | none =>
          simp only [Option.map_none, ← ih, Option.map_map]
          congr 1

theorem Maps.exhaust {f : α → β} {rule' : Rule β} (h : Maps f rule rule') (rounds : ℕ)
    (text : List α) :
    (rule.exhaust rounds text).map (List.map f) = rule'.exhaust rounds (text.map f) := by
  induction rounds generalizing text with
  | zero => rfl
  | succ rounds ih =>
      rw [Rule.exhaust, Rule.exhaust, ← h.replace text]
      cases rule.replace text with
      | none => rfl
      | some next => exact ih next

end Rule

end Patterns
