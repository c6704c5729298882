import Mathlib.Data.List.Basic
import Mathlib.Order.Lattice
import Mathlib.Order.Nat

/-!
# What a computation may stop for

A computation that can stop early returns a value or a reason for stopping.  `Meets allowed P`
says that it returns only what has the property `P` and stops only for reasons that are
allowed: a postcondition for each of the two ends.  The rules follow the computation.

A loop that is not structural is given a number of rounds, and stops for want of rounds if
they do not suffice.  `Settles` says that enough rounds do, and that more change nothing.
-/

namespace Stops

universe u v

variable {ε : Type u} {α β : Type v} {allowed : ε → Prop} {P : α → Prop} {Q : β → Prop}

/-- A value with the property `P`, or an allowed reason. -/
def Meets (allowed : ε → Prop) (P : α → Prop) : Except ε α → Prop
  | .ok a => P a
  | .error reason => allowed reason

theorem Meets.mono {P' : α → Prop} {x : Except ε α} (h : Meets allowed P x)
    (hmono : ∀ a, P a → P' a) : Meets allowed P' x := by
  cases x with
  | error reason => exact h
  | ok a => exact hmono a h

theorem Meets.weaken {allowed' : ε → Prop} {x : Except ε α} (h : Meets allowed P x)
    (hmono : ∀ reason, allowed reason → allowed' reason) : Meets allowed' P x := by
  cases x with
  | error reason => exact hmono reason h
  | ok a => exact h

theorem meets_pure {a : α} (h : P a) : Meets allowed P (pure a : Except ε α) := h

theorem meets_throw {reason : ε} (h : allowed reason) :
    Meets allowed P (throw reason : Except ε α) := h

/-- One computation after another. -/
theorem Meets.bind {x : Except ε α} {f : α → Except ε β} (h : Meets allowed P x)
    (hnext : ∀ a, P a → Meets allowed Q (f a)) : Meets allowed Q (x >>= f) := by
  cases x with
  | error reason => exact h
  | ok a => exact hnext a h

/-- What every round of a loop over a list keeps holds at its end. -/
theorem Meets.foldlM {f : β → α → Except ε β} {as : List α} {b : β} (h : Q b)
    (hround : ∀ b a, a ∈ as → Q b → Meets allowed Q (f b a)) :
    Meets allowed Q (as.foldlM f b) := by
  induction as generalizing b with
  | nil => exact h
  | cons a as ih =>
      rw [List.foldlM_cons]
      apply Meets.bind (hround b a (List.mem_cons_self ..) h)
      intro next hnext
      exact ih hnext fun b a ha => hround b a (List.mem_cons_of_mem _ ha)

/-- A loop that collects what each round returns stops only for allowed reasons if and only if
each round that it comes to does. -/
theorem meets_foldlM_iff {γ : Type v} {round : α → Except ε γ} {collect : β → γ → β}
    {as : List α} {b : β} :
    Meets allowed (fun _ => True)
        (as.foldlM (fun b a => round a >>= fun c => pure (collect b c)) b) ↔
      ∀ done a rest, as = done ++ a :: rest → (∀ other ∈ done, ∃ c, round other = .ok c) →
        Meets allowed (fun _ => True) (round a) := by
  induction as generalizing b with
  | nil =>
      refine iff_of_true (meets_pure trivial) fun done a rest has => ?_
      exact absurd has.symm (List.append_ne_nil_of_right_ne_nil _ (List.cons_ne_nil _ _))
  | cons first as ih =>
      rw [List.foldlM_cons]
      cases hfirst : round first with
      | error reason =>
          constructor
          · intro h done a rest has hdone
            cases done with
            | nil =>
                obtain ⟨rfl, _⟩ := List.cons.inj has
                exact hfirst ▸ h
            | cons other done =>
                obtain ⟨rfl, _⟩ := List.cons.inj has
                obtain ⟨c, hc⟩ := hdone _ (List.mem_cons_self ..)
                rw [hfirst] at hc
                cases hc
          · intro h
            have hself := h [] first as rfl fun _ hmem => nomatch hmem
            rw [hfirst] at hself
            exact hself
      | ok c =>
          change Meets _ _ (as.foldlM _ (collect b c)) ↔ _
          rw [ih]
          constructor
          · intro h done a rest has hdone
            cases done with
            | nil =>
                obtain ⟨rfl, _⟩ := List.cons.inj has
                rw [hfirst]
                exact trivial
            | cons other done =>
                obtain ⟨rfl, htail⟩ := List.cons.inj has
                exact h done a rest htail fun other hother =>
                  hdone other (List.mem_cons_of_mem _ hother)
          · intro h done a rest has hdone
            refine h (first :: done) a rest (by rw [has, List.cons_append]) fun other hother => ?_
            rcases List.mem_cons.1 hother with rfl | hother
            · exact ⟨c, hfirst⟩
            · exact hdone other hother

theorem Meets.allowed_of_error {x : Except ε α} (h : Meets allowed P x) {reason : ε}
    (hx : x = .error reason) : allowed reason := by
  subst hx
  exact h

theorem Meets.of_ok {x : Except ε α} (h : Meets allowed P x) {a : α} (hx : x = .ok a) : P a := by
  subst hx
  exact h

/-! ## Enough rounds -/

/-- With enough rounds there is one outcome, and it is not for want of rounds. -/
def Settles (unfinished : ε) (x : ℕ → Except ε α) : Prop :=
  ∃ bound outcome, outcome ≠ .error unfinished ∧ ∀ rounds, bound ≤ rounds → x rounds = outcome

variable {unfinished : ε}

theorem settles_const {outcome : Except ε α} (h : outcome ≠ .error unfinished) :
    Settles unfinished fun _ => outcome :=
  ⟨0, outcome, h, fun _ _ => rfl⟩

theorem settles_pure (a : α) : Settles unfinished fun _ => (pure a : Except ε α) :=
  settles_const (by intro h; cases h)

theorem Settles.bind {x : ℕ → Except ε α} {f : ℕ → α → Except ε β} (h : Settles unfinished x)
    (hnext : ∀ a, Settles unfinished fun rounds => f rounds a) :
    Settles unfinished fun rounds => x rounds >>= f rounds := by
  obtain ⟨bound, outcome, hne, houtcome⟩ := h
  cases outcome with
  | error reason =>
      refine ⟨bound, .error reason, ?_, fun rounds hrounds => ?_⟩
      · intro h
        obtain rfl := Except.error.inj h
        exact hne rfl
      · change x rounds >>= f rounds = _
        rw [houtcome rounds hrounds]
        rfl
  | ok a =>
      obtain ⟨bound', outcome', hne', houtcome'⟩ := hnext a
      refine ⟨max bound bound', outcome', hne', fun rounds hrounds => ?_⟩
      change x rounds >>= f rounds = _
      rw [houtcome rounds (le_trans (le_max_left ..) hrounds)]
      exact houtcome' rounds (le_trans (le_max_right ..) hrounds)

theorem Settles.foldlM {f : ℕ → β → α → Except ε β} {as : List α}
    (h : ∀ b, ∀ a ∈ as, Settles unfinished fun rounds => f rounds b a) (b : β) :
    Settles unfinished fun rounds => as.foldlM (f rounds) b := by
  induction as generalizing b with
  | nil => exact settles_pure b
  | cons a as ih =>
      simp only [List.foldlM_cons]
      exact (h b a (List.mem_cons_self ..)).bind fun next =>
        ih (fun b a ha => h b a (List.mem_cons_of_mem _ ha)) next

/-- With enough rounds it does not stop for want of rounds. -/
theorem Settles.ne_unfinished {x : ℕ → Except ε α} (h : Settles unfinished x) :
    ∃ bound, ∀ rounds, bound ≤ rounds → x rounds ≠ .error unfinished := by
  obtain ⟨bound, outcome, hne, houtcome⟩ := h
  exact ⟨bound, fun rounds hrounds => houtcome rounds hrounds ▸ hne⟩

end Stops
