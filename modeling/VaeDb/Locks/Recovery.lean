import VaeDb.Library.Leases
import VaeDb.Locks.SitewideLock

/-!
# Locks that nobody releases

A client may die while it holds a lock, and its row stays.  The row blocks others until one of
them fails more than a minute later: the cleanup of that attempt deletes it.  So a lock is a
lease that ends when somebody else wants it.

After a cleanup, and from then on whatever happens, every row is at most a minute older than the
cleanup (`Swept`).  An attempt after it fails only because of such a row (`lock_recovered`): if
a client tries twice, and the second attempt fails as well, somebody has taken the lock at most
a minute before the first one's cleanup, or later.
-/

namespace VaeDb.Locks

open Cache Leases Transition

variable {collation : Collation} {Client : Type}

/-- No row is more than a minute older than the last cleanup. -/
structure Swept (state : State collation Client) : Prop where
  cleaned_le : ∀ time, state.cleaned = some time → time ≤ state.now
  recent : ∀ time, state.cleaned = some time → ∀ row ∈ state.locks.rows, time ≤ row.createdAt + 60

namespace Swept

variable {state : State collation Client}

theorem initial (locks : LockTable collation) (now : ℤ) :
    Swept (State.initial locks now : State collation Client) :=
  ⟨fun _ h => (by cases h), fun _ h => (by cases h)⟩

variable [DecidableEq Client]

theorem step (h : Swept state) {label : Label Client} {next : State collation Client}
    (hstep : Locks.step state label = some next) : Swept next := by
  rcases step_cases hstep with hacquire | hcleanup | hrelease | hsame
  · obtain ⟨client, name, locks, sqlError, -, hinsert, rfl⟩ := hacquire
    refine ⟨h.cleaned_le, fun time htime row hrow => ?_⟩
    have hnow : time ≤ state.now := h.cleaned_le time htime
    -- the new row is from now
    have hrows : locks.rows = state.locks.rows ++ [⟨name, state.now⟩] := by
      unfold LockTable.insertRow Table.insert at hinsert
      split at hinsert
      · exact (congrArg Table.rows (Option.some.inj hinsert)).symm
      · cases hinsert
    have hmem : row ∈ locks.rows := hrow
    rw [hrows] at hmem
    rcases List.mem_append.1 hmem with hold | hnew
    · exact h.recent time htime row hold
    · obtain rfl := List.mem_singleton.1 hnew
      show time ≤ state.now + 60
      omega
  · obtain ⟨hlocks, hnow, -, -, hcleaned⟩ := hcleanup
    refine ⟨fun time htime => ?_, fun time htime row hrow => ?_⟩
    · obtain rfl := Option.some.inj (hcleaned.symm.trans htime)
      exact Int.le_of_eq hnow.symm
    · obtain rfl := Option.some.inj (hcleaned.symm.trans htime)
      rw [hlocks] at hrow
      have hdrop : ∀ row : LockRow, row.createdAt + 60 < state.now →
          decide (row.createdAt < state.now - 60) = true :=
        fun row hover => decide_eq_true (by omega)
      exact le_deadline_of_mem_sweep hdrop hrow
  · obtain ⟨client, name, -, rfl⟩ := hrelease
    refine ⟨h.cleaned_le, fun time htime row hrow => h.recent time htime row ?_⟩
    exact List.mem_of_mem_filter hrow
  · obtain ⟨hlocks, hnow, -, -, hcleaned⟩ := hsame
    refine ⟨fun time htime => ?_, fun time htime row hrow => ?_⟩
    · exact Int.le_trans (h.cleaned_le time (hcleaned ▸ htime)) hnow
    · exact h.recent time (hcleaned ▸ htime) row (hlocks ▸ hrow)

theorem run (h : Swept state) {labels : List (Label Client)} {final : State collation Client}
    (hrun : Transition.run Locks.step state labels = some final) : Swept final :=
  invariant (fun _ _ _ hinv hstep => hinv.step hstep) h hrun

end Swept

variable [DecidableEq Client]

/-- **Old locks block nobody twice.**  In every run, an attempt after a cleanup gets the lock,
or a row is in its way that was inserted at most a minute before that cleanup, or later. -/
theorem lock_recovered (collation : Collation) (locks : LockTable collation) (now : ℤ)
    {labels : List (Label Client)} {state next : State collation Client}
    (hrun : run step (State.initial locks now) labels = some state) {time : ℤ}
    (hcleaned : state.cleaned = some time) {client : Client} {name : Str}
    (hattempt : step state (.insert client name false) = some next) :
    (next.status client = some 1 ∧ next.held client name = some state.now) ∨
    ∃ row, state.locks.find (collation name) = some row ∧ time ≤ row.createdAt + 60 := by
  have hswept : Swept state := (Swept.initial locks now).run hrun
  cases hfind : state.locks.find (collation name) with
  | some row =>
      exact .inr ⟨row, rfl, hswept.recent time hcleaned row (Table.find_eq_some.1 hfind).1⟩
  | none =>
      have hfree : (state.locks.insertRow state.now name).isSome := Table.insert_isSome hfind
      obtain ⟨inserted, hinsert⟩ := Option.isSome_iff_exists.1 hfree
      have hnext : step state (.insert client name false) =
          some (state.acquire client name inserted) := by
        simp only [step, Bool.false_eq_true, if_false, hinsert]
      obtain rfl := Option.some.inj (hnext.symm.trans hattempt)
      refine .inl ⟨Function.update_self .., ?_⟩
      exact if_pos ⟨rfl, rfl⟩

/-- A holder dies; more than a minute later another client tries twice. -/
def deadHolder : List (Label ℕ) :=
  [sitewideLock 1 "shop" "feed", .tick 61, sitewideLock 2 "shop" "feed", .cleanup 2 false]

theorem lock_recovered_deadHolder :
    ∃ state next : State .binary ℕ, run step (State.initial Table.empty 0) deadHolder =
        some state ∧ step state (sitewideLock 2 "shop" "feed") = some next ∧
      next.status 2 = some 1 := by
  obtain ⟨state, hrun, hcleaned, hnone⟩ : ∃ state : State .binary ℕ,
      run step (State.initial Table.empty 0) deadHolder = some state ∧
        state.cleaned = some 61 ∧ state.locks.find (fullKey "shop" "feed") = none :=
    ⟨_, rfl, rfl, rfl⟩
  obtain ⟨next, hattempt⟩ : ∃ next, step state (sitewideLock 2 "shop" "feed") = some next := by
    obtain rfl := Option.some.inj hrun
    exact ⟨_, rfl⟩
  refine ⟨state, next, hrun, hattempt, ?_⟩
  rcases lock_recovered .binary Table.empty 0 hrun hcleaned hattempt with hlocked | hblocked
  · exact hlocked.1
  · obtain ⟨row, hrow, -⟩ := hblocked
    exact absurd (hnone.symm.trans hrow) (by simp)

end VaeDb.Locks
