import Mathlib.Algebra.Group.Nat.Defs
import Mathlib.Data.List.Infix
import Mathlib.Data.List.Nodup
import Mathlib.Logic.Function.Basic
import VaeDb.Library.Transition

/-!
# The ids of query log entries

The constructor of `QueryLogEntry` writes `boost::mutex::scoped_lock(_log._mutex);`, an
expression and not a declaration.  The lock is a temporary, which is destroyed at the end of
the statement, so that the mutex is free again when the next statement reads and increments
`_log._query_id`:

```text
lock      the temporary is created
unlock    the temporary is destroyed
read      _query_id = _log._query_id, and
write     _log._query_id = what was read + 1
```

The entries have different ids exactly if no worker reads the counter while another one has
read it and not yet written it back (`ids_nodup_iff`).
-/

namespace VaeDb.QueryLog

open Transition

variable {Worker : Type}

/-- Where a worker stands in the constructor of an entry. -/
inductive Stage
  | locked
  | unlocked
  | read (id : ℕ)

/-- A `QueryLog`, the workers, and the ids of the entries, the last one first.  The id of an
entry is what its worker reads. -/
structure State (Worker : Type) where
  mutex : Option Worker
  queryId : ℕ
  stages : Worker → Option Stage
  ids : List ℕ

/-- After the constructor of `QueryLog`. -/
def State.initial : State Worker := ⟨none, 0, fun _ => none, []⟩

/-- The steps of the constructor of an entry, each with the worker that takes it. -/
inductive Label (Worker : Type)
  | lock (worker : Worker)
  | unlock (worker : Worker)
  | read (worker : Worker)
  | write (worker : Worker)

/-- `unsigned` arithmetic. -/
def asUnsigned (n : ℕ) : ℕ := n % 2 ^ 32

section

variable [DecidableEq Worker]

/-- A worker goes on. -/
def State.proceed (state : State Worker) (worker : Worker) (stage : Option Stage) : State Worker :=
  { state with stages := Function.update state.stages worker stage }

/-- A step of the constructor of an entry. -/
def step (state : State Worker) : Label Worker → Option (State Worker)
  | .lock worker =>
      match state.stages worker, state.mutex with
      | none, none => some (({ state with mutex := some worker }).proceed worker (some .locked))
      | _, _ => none
  | .unlock worker =>
      match state.stages worker with
      | some .locked => some (({ state with mutex := none }).proceed worker (some .unlocked))
      | _ => none
  | .read worker =>
      match state.stages worker with
      | some .unlocked =>
          some (({ state with ids := state.queryId :: state.ids }).proceed worker
            (some (.read state.queryId)))
      | _ => none
  | .write worker =>
      match state.stages worker with
      | some (.read id) =>
          some (({ state with queryId := asUnsigned (id + 1) }).proceed worker none)
      | _ => none

/-- What a step does: nothing to the counter and to the ids, or a read, or a write. -/
inductive Steps (state : State Worker) : Label Worker → State Worker → Prop
  | quiet {label : Label Worker} {next : State Worker} (worker : Worker) (stage : Option Stage)
      (hlabel : label = .lock worker ∨ label = .unlock worker)
      (hold : ∀ id, state.stages worker ≠ some (.read id))
      (hnew : ∀ id, stage ≠ some (.read id)) (hcounter : next.queryId = state.queryId)
      (hids : next.ids = state.ids)
      (hstages : next.stages = Function.update state.stages worker stage) :
      Steps state label next
  | read {next : State Worker} (worker : Worker)
      (hold : state.stages worker = some .unlocked) (hcounter : next.queryId = state.queryId)
      (hids : next.ids = state.queryId :: state.ids)
      (hstages : next.stages =
        Function.update state.stages worker (some (.read state.queryId))) :
      Steps state (.read worker) next
  | write {next : State Worker} (worker : Worker) (id : ℕ)
      (hold : state.stages worker = some (.read id))
      (hcounter : next.queryId = asUnsigned (id + 1)) (hids : next.ids = state.ids)
      (hstages : next.stages = Function.update state.stages worker none) :
      Steps state (.write worker) next

theorem steps_of_step {state next : State Worker} {label : Label Worker}
    (h : step state label = some next) : Steps state label next := by
  unfold step at h
  cases label with
  | lock worker =>
      simp only at h
      split at h
      · next hstage hmutex =>
        obtain rfl := Option.some.inj h
        exact .quiet worker _ (Or.inl rfl) (by simp [hstage]) (by simp) rfl rfl rfl
      · cases h
  | unlock worker =>
      simp only at h
      split at h
      · next hstage =>
        obtain rfl := Option.some.inj h
        exact .quiet worker _ (Or.inr rfl) (by simp [hstage]) (by simp) rfl rfl rfl
      · cases h
  | read worker =>
      simp only at h
      split at h
      · next hstage =>
        obtain rfl := Option.some.inj h
        exact .read worker hstage rfl rfl rfl
      · cases h
  | write worker =>
      simp only at h
      split at h
      · next id hstage =>
        obtain rfl := Option.some.inj h
        exact .write worker id hstage rfl rfl rfl
      · cases h

/-! ## Reading alone -/

/-- No worker has read the counter without having written it back. -/
def State.NoneReading (state : State Worker) : Prop :=
  ∀ worker id, state.stages worker ≠ some (.read id)

/-- A worker reads the counter only while no other is between its `read` and its `write`. -/
def ReadsAlone (state : State Worker) : Label Worker → Prop
  | .read _ => state.NoneReading
  | _ => True

/-- The ids 0, 1 and so on, the last one first. -/
def countdown : ℕ → List ℕ
  | 0 => []
  | k + 1 => asUnsigned k :: countdown k

theorem length_countdown (k : ℕ) : (countdown k).length = k := by
  induction k with
  | zero => rfl
  | succ k ih => rw [countdown, List.length_cons, ih]

theorem mem_countdown {k id : ℕ} (h : id ∈ countdown k) : id < k := by
  induction k with
  | zero => cases h
  | succ k ih =>
      rcases List.mem_cons.1 h with rfl | h
      · exact Nat.lt_succ_of_le (Nat.mod_le ..)
      · exact Nat.lt_succ_of_lt (ih h)

/-- An `unsigned` counts so far. -/
theorem nodup_countdown {k : ℕ} (h : k ≤ 2 ^ 32) : (countdown k).Nodup := by
  induction k with
  | zero => exact List.nodup_nil
  | succ k ih =>
      have hk : asUnsigned k = k := Nat.mod_eq_of_lt (Nat.lt_of_succ_le h)
      refine List.nodup_cons.2 ⟨fun hmem => ?_, ih (by omega)⟩
      rw [hk] at hmem
      exact Nat.lt_irrefl k (mem_countdown hmem)

/-- The entries have been given the ids one after another: no worker is between its `read` and
its `write`, or one is. -/
inductive Serial : State Worker → Prop
  | between (k : ℕ) {state : State Worker} (hcounter : state.queryId = asUnsigned k)
      (hids : state.ids = countdown k) (hnone : state.NoneReading) : Serial state
  | reading (k : ℕ) {state : State Worker} (worker : Worker)
      (hcounter : state.queryId = asUnsigned k) (hids : state.ids = countdown (k + 1))
      (hworker : state.stages worker = some (.read (asUnsigned k)))
      (halone : ∀ other id, state.stages other = some (.read id) → other = worker) : Serial state

omit [DecidableEq Worker] in
theorem serial_initial : Serial (State.initial : State Worker) :=
  .between 0 rfl rfl fun _ _ h => by cases h

omit [DecidableEq Worker] in
/-- Ids that were given one after another are different. -/
theorem Serial.nodup {state : State Worker} (h : Serial state)
    (hmany : state.ids.length ≤ 2 ^ 32) : state.ids.Nodup := by
  cases h with
  | between k hcounter hids hnone =>
      rw [hids] at hmany ⊢
      rw [length_countdown] at hmany
      exact nodup_countdown hmany
  | reading k worker hcounter hids hworker halone =>
      rw [hids] at hmany ⊢
      rw [length_countdown] at hmany
      exact nodup_countdown hmany

/-- A step keeps the ids in order if no two workers read at a time. -/
theorem Serial.step {state next : State Worker} {label : Label Worker} (h : Serial state)
    (hok : ReadsAlone state label) (hstep : step state label = some next) : Serial next := by
  cases steps_of_step hstep with
  | quiet worker stage hlabel hold hnew hcounter hids hstages =>
      cases h with
      | between k hcounter' hids' hnone =>
          refine .between k (hcounter.trans hcounter') (hids.trans hids') fun other id => ?_
          rw [hstages]
          by_cases hother : other = worker
          · subst hother
            rw [Function.update_self]
            exact hnew id
          · rw [Function.update_of_ne hother]
            exact hnone other id
      | reading k reader hcounter' hids' hreader halone =>
          have hne : reader ≠ worker := fun hsame => hold _ (hsame ▸ hreader)
          refine .reading k reader (hcounter.trans hcounter') (hids.trans hids') ?_ ?_
          · rw [hstages, Function.update_of_ne hne, hreader]
          · intro other id hother
            rw [hstages] at hother
            by_cases hsame : other = worker
            · subst hsame
              rw [Function.update_self] at hother
              exact absurd hother (hnew id)
            · rw [Function.update_of_ne hsame] at hother
              exact halone other id hother
  | read worker hold hcounter hids hstages =>
      cases h with
      | between k hcounter' hids' hnone =>
          refine .reading k worker (hcounter.trans hcounter') ?_ ?_ ?_
          · rw [hids, hids', hcounter']
            rfl
          · rw [hstages, Function.update_self, hcounter']
          · intro other id hother
            rw [hstages] at hother
            by_contra hne
            rw [Function.update_of_ne hne] at hother
            exact hnone other id hother
      | reading k reader hcounter' hids' hreader halone => exact absurd hreader (hok reader _)
  | write worker id hold hcounter hids hstages =>
      cases h with
      | between k hcounter' hids' hnone => exact absurd hold (hnone worker id)
      | reading k reader hcounter' hids' hreader halone =>
          obtain rfl := halone worker id hold
          obtain rfl : id = asUnsigned k := by
            rw [hreader] at hold
            cases hold
            rfl
          refine .between (k + 1) ?_ (hids.trans hids') fun other id => ?_
          · rw [hcounter, asUnsigned, asUnsigned, Nat.mod_add_mod]
            rfl
          · rw [hstages]
            by_cases hother : other = worker
            · subst hother
              rw [Function.update_self]
              simp
            · rw [Function.update_of_ne hother]
              exact fun hread => hother (halone other id hread)

/-! ## Reading while another reads -/

/-- A worker that reads what another one has read gets the same id. -/
theorem Serial.twice {state next : State Worker} {label : Label Worker} (h : Serial state)
    (hok : ¬ ReadsAlone state label) (hstep : VaeDb.QueryLog.step state label = some next) :
    ¬ next.ids.Nodup := by
  cases steps_of_step hstep with
  | quiet worker stage hlabel hold hnew hcounter hids hstages =>
      rcases hlabel with rfl | rfl
      · exact absurd trivial hok
      · exact absurd trivial hok
  | read worker hold hcounter hids hstages =>
      cases h with
      | between k hcounter' hids' hnone => exact absurd hnone hok
      | reading k reader hcounter' hids' hreader halone =>
          rw [hids, hids', hcounter', countdown]
          exact fun hnodup => (List.nodup_cons.1 hnodup).1 (List.mem_cons_self ..)
  | write worker id hold hcounter hids hstages => exact absurd trivial hok

/-- No entry loses its id. -/
theorem ids_suffix {state next : State Worker} {label : Label Worker}
    (hstep : step state label = some next) : state.ids <:+ next.ids := by
  cases steps_of_step hstep with
  | quiet worker stage hlabel hold hnew hcounter hids hstages =>
      rw [hids]
  | read worker hold hcounter hids hstages =>
      rw [hids]
      exact List.suffix_cons ..
  | write worker id hold hcounter hids hstages =>
      rw [hids]

theorem ids_suffix_run {state final : State Worker} {labels : List (Label Worker)}
    (hrun : run step state labels = some final) : state.ids <:+ final.ids := by
  have hstep : ∀ (middle : State Worker) label next, state.ids <:+ middle.ids →
      step middle label = some next → state.ids <:+ next.ids :=
    fun _ _ _ hsuffix hstep => hsuffix.trans (ids_suffix hstep)
  exact invariant hstep List.suffix_rfl hrun

theorem Serial.meets_of_nodup {state final : State Worker} {labels : List (Label Worker)}
    (h : Serial state) (hrun : run VaeDb.QueryLog.step state labels = some final)
    (hnodup : final.ids.Nodup) : Meets VaeDb.QueryLog.step ReadsAlone state labels := by
  induction labels generalizing state with
  | nil => trivial
  | cons label rest ih =>
      obtain ⟨next, hnext, hrest⟩ := run_cons_eq_some.1 hrun
      have hok : ReadsAlone state label := by
        by_contra hviolated
        exact h.twice hviolated hnext (hnodup.sublist (ids_suffix_run hrest).sublist)
      exact (meets_cons_of_step hnext).2 ⟨hok, ih (h.step hok hnext) hrest⟩

/-! ## Different ids -/

/-- In every run that constructs no more entries than an `unsigned` can count, the entries have
different ids exactly if every worker reads the counter alone. -/
theorem ids_nodup_iff {labels : List (Label Worker)} {state : State Worker}
    (hrun : run step State.initial labels = some state)
    (hmany : state.ids.length ≤ 2 ^ 32) :
    state.ids.Nodup ↔ Meets step ReadsAlone State.initial labels := by
  constructor
  · exact serial_initial.meets_of_nodup hrun
  · intro hmeets
    have hserial : Serial state :=
      invariant_of_meets (fun _ _ _ h hok hstep => h.step hok hstep) serial_initial hmeets hrun
    exact hserial.nodup hmany

end

/-- Two workers that construct an entry each at the same time. -/
def atOnce : List (Label ℕ) :=
  [.lock 1, .unlock 1, .lock 2, .unlock 2, .read 1, .read 2, .write 1, .write 2]

/-- And one after the other. -/
def inTurn : List (Label ℕ) :=
  [.lock 1, .unlock 1, .lock 2, .read 1, .write 1, .unlock 2, .read 2, .write 2]

theorem ids_nodup_iff_inTurn :
    ∃ state : State ℕ, run step State.initial inTurn = some state ∧
      (state.ids.Nodup ↔ Meets step ReadsAlone State.initial inTurn) :=
  ⟨_, rfl, ids_nodup_iff (show run _ _ inTurn = _ from rfl) (by decide)⟩

/-- Both entries have the id 0. -/
theorem ids_atOnce :
    ∃ state : State ℕ, run step State.initial atOnce = some state ∧ ¬ state.ids.Nodup :=
  ⟨_, rfl, by decide⟩

end VaeDb.QueryLog
