import Mathlib.Data.Nat.Notation

/-!
# Runs of partial transition systems

A system is a step function `step : State → Label → Option State`: the label says
who moves and resolves every choice the environment has, `none` means that the
move is not possible there.  An interleaving of any number of parties is a list
of labels, and everything that is proved about all interleavings is proved by
induction over that list.

Two induction rules for what holds are stated once for all systems:

* `invariant`: what holds initially and is preserved by every step holds after
  every run;
* `invariant_of_meets`: the same when only the steps of the run that meet a
  condition `ok` on the state before them are known to preserve it.

`countP_le_of_raised` bounds the number of steps of one kind by a measure that they raise.
-/

namespace Transition

variable {State Label : Type*}

/-- Take the steps of a list of labels, from left to right. -/
def run (step : State → Label → Option State) : State → List Label → Option State
  | state, [] => some state
  | state, label :: rest => (step state label).bind fun next => run step next rest

/-- Every step that the run takes meets `ok` in the state before it. -/
def Meets (step : State → Label → Option State) (ok : State → Label → Prop) :
    State → List Label → Prop
  | _, [] => True
  | state, label :: rest =>
      ok state label ∧ ∀ next, step state label = some next → Meets step ok next rest

section

variable {step : State → Label → Option State}

@[simp] theorem run_nil (state : State) : run step state [] = some state := rfl

theorem run_cons (state : State) (label : Label) (rest : List Label) :
    run step state (label :: rest) =
      (step state label).bind fun next => run step next rest := rfl

theorem run_cons_eq_some {state final : State} {label : Label} {rest : List Label} :
    run step state (label :: rest) = some final ↔
      ∃ next, step state label = some next ∧ run step next rest = some final := by
  simp [run_cons, Option.bind_eq_some_iff]

theorem run_append (state : State) (first second : List Label) :
    run step state (first ++ second) =
      (run step state first).bind fun middle => run step middle second := by
  induction first generalizing state with
  | nil => simp
  | cons label rest ih =>
      simp only [List.cons_append, run_cons]
      cases step state label with
      | none => rfl
      | some next => exact ih next

/-- A condition that no label of the list can violate is met by every step. -/
theorem meets_of_forall_mem {ok : State → Label → Prop} {state : State} {labels : List Label}
    (h : ∀ label ∈ labels, ∀ state, ok state label) : Meets step ok state labels := by
  induction labels generalizing state with
  | nil => trivial
  | cons label rest ih =>
      exact ⟨h label (List.mem_cons_self ..) state,
        fun _ _ => ih fun other hother => h other (List.mem_cons_of_mem _ hother)⟩

/-- The condition along a run whose first step is known. -/
theorem meets_cons_of_step {ok : State → Label → Prop} {state next : State} {label : Label}
    {rest : List Label} (hstep : step state label = some next) :
    Meets step ok state (label :: rest) ↔ ok state label ∧ Meets step ok next rest := by
  simp [Meets, hstep]

theorem meets_and {ok also : State → Label → Prop} {state : State} {labels : List Label} :
    Meets step (fun state label => ok state label ∧ also state label) state labels ↔
      Meets step ok state labels ∧ Meets step also state labels := by
  induction labels generalizing state with
  | nil => simp [Meets]
  | cons label rest ih =>
      simp only [Meets, ih]
      constructor
      · rintro ⟨⟨hok, halso⟩, hrest⟩
        exact ⟨⟨hok, fun next hnext => (hrest next hnext).1⟩,
          ⟨halso, fun next hnext => (hrest next hnext).2⟩⟩
      · rintro ⟨⟨hok, hrest⟩, ⟨halso, hrest'⟩⟩
        exact ⟨⟨hok, halso⟩, fun next hnext => ⟨hrest next hnext, hrest' next hnext⟩⟩

/-- What holds initially and is preserved by every step holds after every run. -/
theorem invariant {Inv : State → Prop}
    (hstep : ∀ state label next, Inv state → step state label = some next → Inv next)
    {state final : State} {labels : List Label} (hinit : Inv state)
    (hrun : run step state labels = some final) : Inv final := by
  induction labels generalizing state with
  | nil =>
      simp only [run_nil, Option.some.injEq] at hrun
      exact hrun ▸ hinit
  | cons label rest ih =>
      obtain ⟨next, hnext, hrest⟩ := run_cons_eq_some.1 hrun
      exact ih (hstep state label next hinit hnext) hrest

/-- What holds initially and is preserved by every step that meets `ok` holds
after every run whose steps meet `ok`. -/
theorem invariant_of_meets {Inv : State → Prop} {ok : State → Label → Prop}
    (hstep : ∀ state label next, Inv state → ok state label → step state label = some next →
      Inv next)
    {state final : State} {labels : List Label} (hinit : Inv state)
    (hmeets : Meets step ok state labels) (hrun : run step state labels = some final) :
    Inv final := by
  induction labels generalizing state with
  | nil =>
      simp only [run_nil, Option.some.injEq] at hrun
      exact hrun ▸ hinit
  | cons label rest ih =>
      obtain ⟨next, hnext, hrest⟩ := run_cons_eq_some.1 hrun
      exact ih (hstep state label next hinit hmeets.1 hnext) (hmeets.2 next hnext) hrest

/-- A measure that no step lowers and that every step of one kind raises bounds how many steps
of that kind a run takes. -/
theorem countP_le_of_raised (measure : State → ℕ) (kind : Label → Bool)
    (hkept : ∀ state label next, step state label = some next → measure state ≤ measure next)
    (hraised : ∀ state label next, step state label = some next → kind label →
      measure state < measure next)
    {state final : State} {labels : List Label} (hrun : run step state labels = some final) :
    measure state + labels.countP kind ≤ measure final := by
  induction labels generalizing state with
  | nil =>
      simp only [run_nil, Option.some.injEq] at hrun
      simp [hrun]
  | cons label rest ih =>
      obtain ⟨next, hnext, hrest⟩ := run_cons_eq_some.1 hrun
      have hlater := ih hrest
      rw [List.countP_cons]
      split
      · next hkind =>
        have := hraised state label next hnext hkind
        omega
      · have := hkept state label next hnext
        omega

end

end Transition
