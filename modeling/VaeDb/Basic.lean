import Mathlib.Algebra.Group.Int.Defs
import Mathlib.Algebra.Group.Nat.Defs
import Mathlib.Data.Int.Notation
import Mathlib.Data.List.Infix
import Mathlib.Data.Nat.Notation
import Mathlib.Logic.Function.Basic

/-!
# Strings, exceptions, and what the program takes from its C++ libraries

A `std::string` is the list of its characters; a byte of the program is the
character with that code.  A call that does not return normally ends in a
`Fault`: an exception of `site.h`, an exception of the JSON library, the one of a vector
that is full, or one of the kinds of undefined behaviour that the modelled code can run
into.
-/

namespace VaeDb

/-- A `std::string`. -/
abbrev Str := List Char

instance : Coe String Str := ⟨String.toList⟩

instance : LawfulBEq Str := inferInstance

-- What is said of every character of a string is decided along the string: the characters are
-- a finite type too, and going through all of them does not end.
instance (priority := high) instDecidableForallMemStr {text : Str} {p : Char → Prop}
    [DecidablePred p] : Decidable (∀ c ∈ text, p c) :=
  List.decidableBAll p text

instance (priority := high) instDecidableForallMemOption {c? : Option Char} {p : Char → Prop}
    [DecidablePred p] : Decidable (∀ c ∈ c?, p c) :=
  Option.decidableForallMem c?

/-- Undefined behaviour of the C++ program. -/
inductive Undefined
  | nullPointer
  | useAfterFree
  | doubleFree
  | outOfBounds
  | intOverflow
  | divisionByZero
  deriving DecidableEq, Repr

/-- Why a call did not return normally.  A recursion that is not structural in the source
is given a number of rounds; `unfinished` says that they did not suffice. -/
inductive Fault
  | vaeDbInternalError (what : Str)
  | vaeDbQueryError (what : Str)
  | jsonTypeError (what : Str)
  | lengthError
  | undefined (kind : Undefined)
  | unfinished
  deriving DecidableEq, Repr

/-- A computation of the program: its value, or why there is none. -/
abbrev Outcome := Except Fault

/-- What a computation that returned did first. -/
theorem Outcome.bind_eq_ok {α β : Type} {x : Outcome α} {f : α → Outcome β} {b : β} :
    (x >>= f) = .ok b ↔ ∃ a, x = .ok a ∧ f a = .ok b := by
  cases x with
  | error fault => simp [bind, Except.bind]
  | ok a => simp [bind, Except.bind]

theorem Outcome.map_eq_ok {α β : Type} {x : Outcome α} {f : α → β} {b : β} :
    (f <$> x) = .ok b ↔ ∃ a, x = .ok a ∧ f a = b := by
  cases x with
  | error fault => simp [Functor.map, Except.map]
  | ok a => simp [Functor.map, Except.map]

@[simp] theorem Outcome.pure_eq_ok {α : Type} {a b : α} :
    (pure a : Outcome α) = .ok b ↔ a = b := by
  simp [pure, Except.pure]

@[simp] theorem Outcome.throw_ne_ok {α : Type} {fault : Fault} {b : α} :
    (throw fault : Outcome α) ≠ .ok b := by
  simp [throw, throwThe, MonadExceptOf.throw]

/-- What every step of a loop over a list keeps holds at its end; it may depend on what has
been done and on what is still to come. -/
theorem Outcome.foldlM_ok {α β : Type} {f : β → α → Outcome β} {P : List α → List α → β → Prop}
    (hstep : ∀ done a todo b b', P done (a :: todo) b → f b a = .ok b' → P (done ++ [a]) todo b')
    (done : List α) {todo : List α} {b b' : β} (h : P done todo b)
    (hrun : todo.foldlM f b = .ok b') : P (done ++ todo) [] b' := by
  induction todo generalizing done b with
  | nil =>
      obtain rfl := Outcome.pure_eq_ok.1 hrun
      rwa [List.append_nil]
  | cons a todo ih =>
      rw [List.foldlM_cons] at hrun
      obtain ⟨next, hnext, hrest⟩ := Outcome.bind_eq_ok.1 hrun
      rw [List.append_cons]
      exact ih (done ++ [a]) (hstep done a todo b next h hnext) hrest

/-! ## `boost::split` -/

/-- `boost::split` with `is_any_of separators` and the default
`token_compress_off`: the entries between the separators, empty ones included.
The empty string has one entry, the empty one. -/
def split (separators input : Str) : List Str :=
  input.splitOnP (· ∈ separators)

theorem split_nil (separators : Str) : split separators [] = [[]] := by
  simp [split]

theorem split_cons_of_mem {separators : Str} {c : Char} (h : c ∈ separators) (input : Str) :
    split separators (c :: input) = [] :: split separators input := by
  simp [split, List.splitOnP_cons_eq_if_modifyHead, h]

theorem split_cons_of_not_mem {separators : Str} {c : Char} (h : c ∉ separators)
    (input : Str) :
    split separators (c :: input) = (split separators input).modifyHead (c :: ·) := by
  simp [split, List.splitOnP_cons_eq_if_modifyHead, h]

theorem split_ne_nil (separators input : Str) : split separators input ≠ [] :=
  List.splitOnP_ne_nil _ _

end VaeDb
