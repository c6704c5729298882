import VaeDb.Cache.Storage
import VaeDb.Library.Simulations
import VaeDb.Locks.SitewideLock

/-!
# The locks among all that is stored

In `Storage` the statements on the table `locks` are some of many, and belong to the programs of
`MysqlProxy::lock` and `MysqlProxy::unlock`; in `Locks` they are the steps of a system of its own.
Every interleaving of requests, of passes of the Reaper and of time is a run of that system
(`run_locks`).  Its steps are those of the requests for locks, and what it says of a client's
last status is what the client is told.
-/

namespace VaeDb.Storage

open Cache (Collation)
open Locks (LockTable fullKey sitewideLock sitewideUnlock)
open Threads

variable {collation : Collation} {Client : Type} [DecidableEq Client]

/-- The table and the clock; of a client, the cleanups to come and the last status. -/
def locksSystem (collation : Collation) (Client : Type) [DecidableEq Client] :
    System Client (Memory collation) (LockTable collation × ℤ) (Locks.State collation Client)
      (Locks.Label Client) (ℕ × Option ℤ) where
  step := Locks.step
  view := fun memory => (memory.locks, memory.now)
  image := fun state => (state.locks, state.now)
  know := fun state client => (state.failed client, state.status client)

/-- The steps that an event may take. -/
def Event.Steps (client : Client) (event : Event) (label : Locks.Label Client) : Prop :=
  match event with
  | .serve subdomain (.sitewideLock iden) =>
      label = sitewideLock client subdomain iden ∨ label = .cleanup client false
  | .serve subdomain (.sitewideUnlock iden) => label = sitewideUnlock client subdomain iden
  | .pass seconds => label = .tick seconds
  | _ => False

/-- In the end no cleanup is to come, and the answer to a request for a lock is the status. -/
def Event.Told (event : Event) (answer : Option Reply) (known : ℕ × Option ℤ) : Prop :=
  known.1 = 0 ∧
    match event with
    | .serve _ (.sitewideLock _) => ∃ status, answer = some (.status status) ∧ known.2 = some status
    | .serve _ (.sitewideUnlock _) =>
        ∃ status, answer = some (.status status) ∧ known.2 = some status
    | _ => True

/-! ## What leaves the locks alone -/

/-- The statement is none on the table, and takes no time. -/
def Statement.SparesLocks : Statement → Prop
  | .insertLock _ => False
  | .deleteOldLocks => False
  | .deleteLock _ => False
  | .pass _ => False
  | _ => True

theorem Statement.SparesLocks.view_apply {statement : Statement} (h : statement.SparesLocks)
    (memory : Memory collation) :
    (locksSystem collation Client).view (statement.apply memory) =
      (locksSystem collation Client).view memory := by
  cases statement with
  | insertLock name => exact absurd h id
  | deleteOldLocks => exact absurd h id
  | deleteLock name => exact absurd h id
  | pass seconds => exact absurd h id
  | _ => rfl

/-- Programs of such statements go unnoticed. -/
theorem follows_of_spares {event : Event} {client : Client} {known : ℕ × Option ℤ}
    (h : ∀ statement, event.Issues statement → statement.SparesLocks)
    (hpost : ∀ answer, event.Told answer known) :
    Follows (locksSystem collation Client) client (event.Steps client) event.Told event.code
      known := by
  refine Follows.of_silent (fun seen => Event.keeps_code fun statement hissues memory hview => ?_)
    hpost
  exact ((h statement hissues).view_apply memory).trans hview

/-! ## `MysqlProxy::lock` and `MysqlProxy::unlock` -/

section

variable {client : Client} {allowed : Locks.Label Client → Prop} {known : ℕ × Option ℤ}

/-- A client whose `INSERT` failed deletes the old rows. -/
theorem follows_deleteOldLocks (hcleanup : allowed (.cleanup client false)) (hknown : known.1 = 1) :
    Follows (locksSystem collation Client) client allowed (fun _ known => known = (0, some 0))
      (execute .deleteOldLocks) known := by
  refine Follows.step fun state memory hview hknow => ?_
  obtain ⟨hlocks, hnow⟩ := Prod.mk.inj hview
  have hfailed : state.failed client = 1 := (congrArg Prod.fst hknow).trans hknown
  refine ⟨{ state with
      locks := state.locks.deleteOld state.now
      failed := Function.update state.failed client 0
      status := Function.update state.status client (some 0)
      cleaned := some state.now }, .single ?_ hcleanup ?_ fun other hother => ?_, ?_⟩
  · simp [locksSystem, Locks.step, hfailed]
  · simp [locksSystem, Statement.apply, hlocks, hnow]
  · simp [locksSystem, Function.update_of_ne hother]
  · simp [locksSystem]

/-- `MysqlProxy::lock` is the attempt, and the cleanup if it fails. -/
theorem follows_lock {name : Str} (hinsert : allowed (.insert client name false))
    (hcleanup : allowed (.cleanup client false)) (hknown : known.1 = 0) :
    Follows (locksSystem collation Client) client allowed
      (fun status known => known = (0, some status)) (MysqlProxy.lock name) known := by
  -- in between the client has the lock, or its cleanup is to come
  have hattempt : Follows (locksSystem collation Client) client allowed
      (fun gotLock known => if gotLock then known = (0, some 1) else known.1 = 1)
      (Program.step fun memory => ((memory.locks.insertRow memory.now name).isSome,
        (Statement.insertLock name).apply memory)) known := by
    refine Follows.step fun state memory hview hknow => ?_
    obtain ⟨hlocks, hnow⟩ := Prod.mk.inj hview
    have hfailed : state.failed client = 0 := (congrArg Prod.fst hknow).trans hknown
    cases hrow : state.locks.insertRow state.now name with
    | some locks =>
        refine ⟨state.acquire client name locks,
          .single ?_ hinsert ?_ fun other hother => ?_, ?_⟩
        · simp [locksSystem, Locks.step, hrow]
        · simp [locksSystem, Statement.apply, hlocks, hnow, hrow, Locks.State.acquire]
        · simp [locksSystem, Locks.State.acquire, Function.update_of_ne hother]
        · simp [locksSystem, hlocks, hnow, hrow, Locks.State.acquire, hfailed]
    | none =>
        refine ⟨{ state with
            failed := Function.update state.failed client (state.failed client + 1) },
          .single ?_ hinsert ?_ fun other hother => ?_, ?_⟩
        · simp [locksSystem, Locks.step, hrow]
        · simp [locksSystem, Statement.apply, hlocks, hnow, hrow]
        · simp [locksSystem, Function.update_of_ne hother]
        · simp [locksSystem, hlocks, hnow, hrow, hfailed]
  unfold MysqlProxy.lock
  refine hattempt.bind fun gotLock known hgot => ?_
  cases gotLock with
  | true => exact Follows.pure hgot
  | false => exact (follows_deleteOldLocks hcleanup hgot).bind fun _ _ h => Follows.pure h

theorem follows_unlock {name : Str} (hunlock : allowed (.unlock client name false))
    (hknown : known.1 = 0) :
    Follows (locksSystem collation Client) client allowed
      (fun status known => known = (0, some status)) (MysqlProxy.unlock name) known := by
  have hdelete : Follows (locksSystem collation Client) client allowed
      (fun _ known => known = (0, some 1)) (execute (.deleteLock name)) known := by
    refine Follows.step fun state memory hview hknow => ?_
    obtain ⟨hlocks, hnow⟩ := Prod.mk.inj hview
    have hfailed : state.failed client = 0 := (congrArg Prod.fst hknow).trans hknown
    refine ⟨state.release client name, .single rfl hunlock ?_ fun other hother => ?_, ?_⟩
    · simp [locksSystem, Statement.apply, hlocks, hnow, Locks.State.release]
    · simp [locksSystem, Locks.State.release, Function.update_of_ne hother]
    · simp [locksSystem, Locks.State.release, hfailed]
  unfold MysqlProxy.unlock
  exact hdelete.bind fun _ _ h => Follows.pure h

/-- Time passes in both. -/
theorem follows_pass {seconds : ℕ} (htick : allowed (.tick seconds)) :
    Follows (locksSystem collation Client) client allowed (fun _ known' => known' = known)
      (execute (.pass seconds)) known := by
  refine Follows.step fun state memory hview hknow => ?_
  obtain ⟨hlocks, hnow⟩ := Prod.mk.inj hview
  refine ⟨{ state with now := state.now + seconds }, .single rfl htick ?_ fun _ _ => rfl, hknow⟩
  show (memory.locks, memory.now + seconds) = (state.locks, state.now + seconds)
  rw [hlocks, hnow]

/-- The status goes into the answer. -/
theorem follows_told {program : Code collation ℤ} {post : Option Reply → ℕ × Option ℤ → Prop}
    (h : Follows (locksSystem collation Client) client allowed
      (fun status known => known = (0, some status)) program known)
    (hpost : ∀ status, post (some (.status status)) (0, some status)) :
    Follows (locksSystem collation Client) client allowed post
      ((program >>= fun status => pure (Reply.status status)) >>= fun reply => pure (some reply))
      known := by
  have hreply : Follows (locksSystem collation Client) client allowed
      (fun reply known => ∃ status, reply = Reply.status status ∧ known = (0, some status))
      (program >>= fun status => pure (Reply.status status)) known :=
    h.bind fun status known hknown => Follows.pure ⟨status, rfl, hknown⟩
  refine hreply.bind fun reply known hstatus => ?_
  obtain ⟨status, rfl, rfl⟩ := hstatus
  exact Follows.pure (hpost status)

end

/-! ## Whole runs -/

/-- Neither a request for a lock, nor time that passes. -/
def Event.LeavesLocks : Event → Prop
  | .serve _ (.sitewideLock _) => False
  | .serve _ (.sitewideUnlock _) => False
  | .pass _ => False
  | _ => True

theorem sparesLocks_of_issues {event : Event} (h : event.LeavesLocks) {statement : Statement}
    (hissues : event.Issues statement) : statement.SparesLocks := by
  cases event with
  | serve subdomain request =>
      cases request with
      | shortTermCacheGet key => exact absurd hissues id
      | shortTermCacheSet key value expireInterval =>
          obtain rfl := hissues
          trivial
      | shortTermCacheDelete key =>
          obtain rfl := hissues
          trivial
      | sessionCacheGet key => exact absurd hissues id
      | sessionCacheSet key value => obtain rfl | rfl := hissues <;> trivial
      | sessionCacheDelete key =>
          obtain rfl := hissues
          trivial
      | longTermCacheGet key renewExpiry useShortTermCache =>
          obtain rfl | ⟨value, rfl⟩ := hissues <;> trivial
      | longTermCacheSet key value expireInterval isFilename =>
          obtain rfl | rfl | rfl := hissues <;> trivial
      | longTermCacheDelete key => obtain rfl | rfl := hissues <;> trivial
      | longTermCacheEmpty =>
          obtain rfl := hissues
          trivial
      | longTermCacheSweeperInfo =>
          obtain rfl := hissues
          trivial
      | sitewideLock iden => exact absurd h id
      | sitewideUnlock iden => exact absurd h id
  | garbageCollect =>
      obtain rfl := hissues
      trivial
  | pass seconds => exact absurd h id
  | drop key =>
      obtain rfl := hissues
      trivial

/-- The code for every event follows the locks. -/
theorem follows_code (client : Client) (event : Event) {known : ℕ × Option ℤ}
    (hknown : known.1 = 0) :
    Follows (locksSystem collation Client) client (event.Steps client) event.Told event.code
      known := by
  have hother : event.LeavesLocks → (∀ answer, event.Told answer known) →
      Follows (locksSystem collation Client) client (event.Steps client) event.Told event.code
        known :=
    fun h hpost => follows_of_spares (fun _ hissues => sparesLocks_of_issues h hissues) hpost
  cases event with
  | serve subdomain request =>
      cases request with
      | sitewideLock iden =>
          have hlock : Follows (locksSystem collation Client) client
              (Event.Steps client (.serve subdomain (.sitewideLock iden)))
              (fun status known => known = (0, some status))
              (MysqlProxy.lock (fullKey subdomain iden)) known :=
            follows_lock (.inl rfl) (.inr rfl) hknown
          exact follows_told hlock fun status => ⟨rfl, status, rfl, rfl⟩
      | sitewideUnlock iden =>
          have hunlock : Follows (locksSystem collation Client) client
              (Event.Steps client (.serve subdomain (.sitewideUnlock iden)))
              (fun status known => known = (0, some status))
              (MysqlProxy.unlock (fullKey subdomain iden)) known := follows_unlock rfl hknown
          exact follows_told hunlock fun status => ⟨rfl, status, rfl, rfl⟩
      | _ => exact hother trivial fun _ => ⟨hknown, trivial⟩
  | pass seconds =>
      have hpass : Follows (locksSystem collation Client) client
          (Event.Steps client (.pass seconds)) (fun _ known' => known' = known)
          (execute (.pass seconds)) known := follows_pass rfl
      refine hpass.bind fun _ known' h => Follows.pure ⟨?_, trivial⟩
      rw [h]
      exact hknown
  | _ => exact hother trivial fun _ => ⟨hknown, trivial⟩

/-- **The locks are a system of their own.**  Every interleaving of requests, passes of the
Reaper, time and losses of memcached is a run of the locks from the same table and time: its
steps are those of requests that have begun, it leads to the same table and time, and where a
client is about to be answered, no cleanup of its own is to come and the answer to a request for
a lock is its status. -/
theorem run_locks (memory : Memory collation) {labels : List (Label Client Event)}
    {final : State Client (Memory collation) Event (Option Reply)}
    (hrun : Transition.run (step fun _ => Event.code) (State.initial memory) labels =
      some final) :
    ∃ steps state, Transition.run Locks.step (Locks.State.initial memory.locks memory.now) steps =
        some state ∧
      (∀ label ∈ steps, ∃ client event, .start client event ∈ labels ∧
        event.Steps client label) ∧
      final.memory.locks = state.locks ∧ final.memory.now = state.now ∧
      ∀ client event answer, final.running client = some (event, .done answer) →
        event.Told answer (state.failed client, state.status client) := by
  have hinitial : Mirrored (locksSystem collation Client) (fun client event => event.Steps client)
      Event.Told (fun known => known.1 = 0) (fun client event => .start client event ∈ labels)
      (State.initial memory) (Locks.State.initial memory.locks memory.now) :=
    ⟨rfl, fun _ _ => rfl, fun _ _ _ hrunning => by cases hrunning⟩
  obtain ⟨steps, state, hsteps, hbegun, hmirrored⟩ :=
    hinitial.run (fun _ _ _ htold => htold.1) (fun _ _ hmem => hmem)
      (fun client event _ hknown => follows_code client event hknown) hrun
  obtain ⟨hlocks, hnow⟩ := Prod.mk.inj hmirrored.view_eq
  exact ⟨steps, state, hsteps, hbegun, hlocks, hnow, fun client event answer hrunning =>
    (hmirrored.follows client event _ hrunning).2⟩

/-- Two clients try for a lock; time passes and a cart is stored before the second one's cleanup,
which comes too early for the row. -/
def secondAttempt : List (Label ℕ Event) :=
  [.start 0 (.serve "shop" (.sitewideLock "feed")), .start 1 (.serve "shop" (.sitewideLock "feed")),
    .act 0, .act 1, .start 2 (.pass 30), .act 2,
    .start 3 (.serve "shop" (.sessionCacheSet "id" "cart")), .act 3, .act 1]

theorem run_locks_secondAttempt :
    ∃ final : State ℕ (Memory .binary) Event (Option Reply),
      Transition.run (step fun _ => Event.code)
        (State.initial ⟨0, Table.empty, Table.empty, Table.empty, fun _ => none⟩) secondAttempt =
          some final ∧
      ∃ steps, ∃ state : Locks.State .binary ℕ,
        Transition.run Locks.step (Locks.State.initial Table.empty 0) steps = some state ∧
          state.now = 30 ∧ state.status 0 = some 1 ∧ state.status 1 = some 0 := by
  obtain ⟨final, hrun, hnow, hfirst, hsecond⟩ :
      ∃ final : State ℕ (Memory .binary) Event (Option Reply),
        Transition.run (step fun _ => Event.code)
          (State.initial ⟨0, Table.empty, Table.empty, Table.empty, fun _ => none⟩)
          secondAttempt = some final ∧ final.memory.now = 30 ∧
        final.running 0 = some (.serve "shop" (.sitewideLock "feed"), .done (some (.status 1))) ∧
        final.running 1 = some (.serve "shop" (.sitewideLock "feed"), .done (some (.status 0))) :=
    ⟨_, rfl, rfl, rfl, rfl⟩
  obtain ⟨steps, state, hsteps, -, -, htime, htold⟩ := run_locks _ hrun
  obtain ⟨-, status, hanswer, hstatus⟩ := htold 0 _ _ hfirst
  obtain ⟨-, status', hanswer', hstatus'⟩ := htold 1 _ _ hsecond
  cases hanswer
  cases hanswer'
  exact ⟨final, hrun, steps, state, hsteps, htime.symm.trans hnow, hstatus, hstatus'⟩

end VaeDb.Storage
