import Mathlib.Data.Int.Order.Basic
import VaeDb.Library.OrderedMap
import VaeDb.Library.Transition
import VaeDb.Server.Site

/-!
# The session registry

`Server::sessions` maps ids to sessions, and `sessionsMutex` guards it.  Four sections of
code take the mutex, each of which is one step here:

* `openSession` takes the id that the client suggests, or values of `rand()` until one is
  free, and enters a new session;
* `process` looks up the session of a request;
* `closeSession` erases the id of its request, whatever is under it by then;
* a pass of the `Reaper` erases the sessions that were created more than 62 seconds ago.

What the entry of an id can go through follows from what one step can do (`step_cases`): it
is entered when the id is free, and then stays the same object until a `closeSession` of
the id or a pass of the `Reaper` erases it (`registry_entries`).
-/

namespace VaeDb.Registry

open Transition Server

/-! ## The code under the mutex -/

/-- `SESSION_REAP_TIME`. -/
def sessionReapTime : ℤ := 62

/-- A `Session` as the registry sees it; `address` tells objects apart. -/
structure RegisteredSession where
  address : ℕ
  site : Site
  createdAt : ℤ

/-- `SessionMap`. -/
abbrev SessionMap := OrderedMap ℤ RegisteredSession

/-- `while (sessions.count(sessionId)) sessionId = rand();`, with the values that `rand()`
returns; nothing if they do not suffice. -/
def freeId (sessions : SessionMap) (sessionId : ℤ) : List ℤ → Option ℤ
  | [] =>
      match sessions.find sessionId with
      | none => some sessionId
      | some _ => none
  | rand :: rands =>
      match sessions.find sessionId with
      | none => some sessionId
      | some _ => freeId sessions rand rands

/-- The body of the `Reaper`'s loop. -/
def reapEntry (now : ℤ) (sessions : SessionMap) (entry : ℤ × RegisteredSession) : SessionMap :=
  if now - entry.2.createdAt > sessionReapTime then sessions.erase entry.1 else sessions

/-- A pass of the `Reaper`, which has read the clock before. -/
def reap (sessions : SessionMap) (now : ℤ) : SessionMap :=
  sessions.entries.foldl (reapEntry now) sessions

/-! ## Requests in steps -/

/-- The endpoints that require a session. -/
inductive Endpoint
  | closeSession
  | other

/-- Where a request is: an `openSession` has returned an id, `process` has refused a request
or found its session, a `closeSession` is between the look-up and the handler's erase. -/
inductive Phase
  | idle
  | opened (sessionId : ℤ) (session : RegisteredSession)
  | rejected
  | resolved (sessionId : ℤ) (session : RegisteredSession)
  | closing (sessionId : ℤ) (session : RegisteredSession)
  | closed

/-- The registry and the requests, which have numbers. -/
structure State where
  sessions : SessionMap
  nextAddress : ℕ
  phase : ℕ → Phase

/-- After the start of the server. -/
def State.initial : State := ⟨OrderedMap.empty, 0, fun _ => .idle⟩

/-- A section under the mutex.  `openSession` comes with the Site that `getSite` returned
for it, the values of `rand()`, and the time. -/
inductive Label
  | openSession (request : ℕ) (site : Site) (suggestedSessionId : ℤ) (rands : List ℤ)
      (time : ℤ)
  | process (request : ℕ) (endpoint : Endpoint) (sessionId : ℤ)
  | closeSession (request : ℕ)
  | reap (now : ℤ)

/-- A request has come further. -/
def State.advance (state : State) (request : ℕ) (phase : Phase) : State :=
  { state with phase := Function.update state.phase request phase }

/-- One step. -/
def step (state : State) : Label → Option State
  | .openSession request site suggestedSessionId rands time =>
      match state.phase request with
      | .idle =>
          match freeId state.sessions suggestedSessionId rands with
          | some sessionId =>
              let session : RegisteredSession := ⟨state.nextAddress, site, time⟩
              some (State.advance
                { state with
                  sessions := state.sessions.assign sessionId session
                  nextAddress := state.nextAddress + 1 }
                request (.opened sessionId session))
          | none => none
      | _ => none
  | .process request endpoint sessionId =>
      match state.phase request with
      | .idle =>
          match state.sessions.find sessionId with
          | some session =>
              match endpoint with
              | .closeSession => some (state.advance request (.closing sessionId session))
              | .other => some (state.advance request (.resolved sessionId session))
          | none => some (state.advance request .rejected)
      | _ => none
  | .closeSession request =>
      match state.phase request with
      | .closing sessionId _ =>
          some (State.advance { state with sessions := state.sessions.erase sessionId } request
            .closed)
      | _ => none
  | .reap now => some { state with sessions := reap state.sessions now }

/-! ## What the sections do -/

theorem freeId_eq_some {sessions : SessionMap} {sessionId found : ℤ} {rands : List ℤ}
    (h : freeId sessions sessionId rands = some found) : sessions.find found = none := by
  induction rands generalizing sessionId with
  | nil =>
      unfold freeId at h
      split at h
      · next hfree => exact Option.some.inj h ▸ hfree
      · cases h
  | cons rand rands ih =>
      unfold freeId at h
      split at h
      · next hfree => exact Option.some.inj h ▸ hfree
      · exact ih h

/-- The entry is too old for the pass. -/
def Old (now : ℤ) (session : RegisteredSession) : Prop :=
  now - session.createdAt > sessionReapTime

/-- A round of the loop erases its entry if that is too old. -/
theorem find_reapEntry {now id : ℤ} {sessions : SessionMap} {entry : ℤ × RegisteredSession}
    {session : RegisteredSession} : (reapEntry now sessions entry).find id = some session ↔
      sessions.find id = some session ∧ ¬ (entry.1 = id ∧ Old now entry.2) := by
  unfold reapEntry
  split
  · next hold =>
    rw [OrderedMap.find_erase]
    by_cases hid : id = entry.1
    · subst hid
      simp [Old, hold]
    · simp [hid, Ne.symm hid]
  · next hyoung =>
    have hyoung' : ¬ Old now entry.2 := hyoung
    simp [hyoung']

/-- The loop erases those of its entries that are too old. -/
theorem find_foldl_reapEntry {now id : ℤ} {session : RegisteredSession}
    {entries : List (ℤ × RegisteredSession)} {sessions : SessionMap} :
    (entries.foldl (reapEntry now) sessions).find id = some session ↔
      sessions.find id = some session ∧
        ∀ entry ∈ entries, ¬ (entry.1 = id ∧ Old now entry.2) := by
  induction entries generalizing sessions with
  | nil => simp
  | cons entry rest ih =>
      rw [List.foldl_cons, ih, find_reapEntry]
      simp only [List.forall_mem_cons]
      exact and_assoc

/-- A pass of the `Reaper` erases the entries that are too old, and no others. -/
theorem find_reap {sessions : SessionMap} {now id : ℤ} {session : RegisteredSession} :
    (reap sessions now).find id = some session ↔
      sessions.find id = some session ∧ ¬ Old now session := by
  unfold reap
  rw [find_foldl_reapEntry]
  constructor
  · intro h
    exact ⟨h.1, fun hold => h.2 (id, session) (OrderedMap.find_eq_some.1 h.1) ⟨rfl, hold⟩⟩
  · intro h
    refine ⟨h.1, fun entry hentry hdrop => h.2 ?_⟩
    have hsame : entry = (id, session) :=
      OrderedMap.eq_of_mem hentry (OrderedMap.find_eq_some.1 h.1) hdrop.1
    rw [hsame] at hdrop
    exact hdrop.2

/-! ## What a step can do -/

/-- An `openSession` enters a new session under an id that was free. -/
theorem step_openSession {state next : State} {request : ℕ} {site : Site}
    {suggestedSessionId time : ℤ} {rands : List ℤ}
    (h : step state (.openSession request site suggestedSessionId rands time) = some next) :
    ∃ sessionId, state.phase request = .idle ∧
      freeId state.sessions suggestedSessionId rands = some sessionId ∧
      state.sessions.find sessionId = none ∧
      next = State.advance
        { state with
          sessions := state.sessions.assign sessionId ⟨state.nextAddress, site, time⟩
          nextAddress := state.nextAddress + 1 }
        request (.opened sessionId ⟨state.nextAddress, site, time⟩) := by
  simp only [step] at h
  split at h
  · next hidle =>
    split at h
    · next sessionId hfree =>
      exact ⟨sessionId, hidle, hfree, freeId_eq_some hfree, (Option.some.inj h).symm⟩
    · cases h
  · cases h

/-- `process` rejects a request, or hands it the session under its id. -/
theorem step_process {state next : State} {request : ℕ} {endpoint : Endpoint} {id : ℤ}
    (h : step state (.process request endpoint id) = some next) :
    ∃ phase, state.phase request = .idle ∧ next = state.advance request phase ∧
      (state.sessions.find id = none ∧ phase = .rejected ∨
        ∃ found, state.sessions.find id = some found ∧
          (phase = .resolved id found ∨ phase = .closing id found)) := by
  simp only [step] at h
  split at h
  · next hidle =>
    split at h
    · next found hfind =>
      cases endpoint with
      | closeSession =>
          exact ⟨_, hidle, (Option.some.inj h).symm, Or.inr ⟨found, hfind, Or.inr rfl⟩⟩
      | other => exact ⟨_, hidle, (Option.some.inj h).symm, Or.inr ⟨found, hfind, Or.inl rfl⟩⟩
    · next hnone => exact ⟨_, hidle, (Option.some.inj h).symm, Or.inl ⟨hnone, rfl⟩⟩
  · cases h

/-- The handler of `closeSession` erases the id of its request. -/
theorem step_closeSession {state next : State} {request : ℕ}
    (h : step state (.closeSession request) = some next) :
    ∃ id session, state.phase request = .closing id session ∧
      next = State.advance { state with sessions := state.sessions.erase id } request
        .closed := by
  simp only [step] at h
  split at h
  · next id session hclosing => exact ⟨id, session, hclosing, (Option.some.inj h).symm⟩
  · cases h

/-- What happens to the entry of an id in a step: it is entered where there was none, it is
erased, or it is left alone. -/
inductive Entry (state next : State) (id : ℤ) : Label → Prop
  | opened {request : ℕ} {site : Site} {suggestedSessionId : ℤ} {rands : List ℤ} {time : ℤ}
      (hfree : state.sessions.find id = none)
      (hopened : next.phase request = .opened id ⟨state.nextAddress, site, time⟩)
      (hfind : next.sessions.find id = some ⟨state.nextAddress, site, time⟩) :
      Entry state next id (.openSession request site suggestedSessionId rands time)
  | closed {request : ℕ} {session : RegisteredSession}
      (hclosing : state.phase request = .closing id session)
      (hfind : next.sessions.find id = none) : Entry state next id (.closeSession request)
  | reaped {now : ℤ} {session : RegisteredSession}
      (hbefore : state.sessions.find id = some session) (hold : Old now session)
      (hfind : next.sessions.find id = none) : Entry state next id (.reap now)
  | same {label : Label} (hfind : next.sessions.find id = state.sessions.find id) :
      Entry state next id label

/-- Every step does one of the four to the entry of an id. -/
theorem step_entry {state next : State} {label : Label} (h : step state label = some next)
    (id : ℤ) : Entry state next id label := by
  cases label with
  | openSession request site suggestedSessionId rands time =>
      obtain ⟨sessionId, _, _, hfree, rfl⟩ := step_openSession h
      by_cases hid : id = sessionId
      · subst hid
        refine .opened hfree (Function.update_self ..) ?_
        show (state.sessions.assign id _).find id = _
        rw [OrderedMap.find_assign, if_pos rfl]
      · refine .same ?_
        show (state.sessions.assign sessionId _).find id = _
        rw [OrderedMap.find_assign, if_neg hid]
  | process request endpoint sessionId =>
      obtain ⟨phase, _, rfl, _⟩ := step_process h
      exact .same rfl
  | closeSession request =>
      obtain ⟨sessionId, session, hclosing, rfl⟩ := step_closeSession h
      by_cases hid : id = sessionId
      · subst hid
        refine .closed hclosing ?_
        show (state.sessions.erase id).find id = none
        rw [OrderedMap.find_erase, if_pos rfl]
      · refine .same ?_
        show (state.sessions.erase sessionId).find id = _
        rw [OrderedMap.find_erase, if_neg hid]
  | reap now =>
      obtain rfl := Option.some.inj h
      cases hbefore : state.sessions.find id with
      | none =>
          refine .same ?_
          show (reap state.sessions now).find id = _
          rw [hbefore, Option.eq_none_iff_forall_ne_some]
          intro session hfind
          rw [(find_reap.1 hfind).1] at hbefore
          cases hbefore
      | some session =>
          by_cases hold : Old now session
          · refine .reaped hbefore hold ?_
            show (reap state.sessions now).find id = none
            rw [Option.eq_none_iff_forall_ne_some]
            intro found hfind
            obtain ⟨hfound, hyoung⟩ := find_reap.1 hfind
            rw [hbefore] at hfound
            exact hyoung (Option.some.inj hfound ▸ hold)
          · refine .same ?_
            show (reap state.sessions now).find id = _
            rw [hbefore]
            exact find_reap.2 ⟨hbefore, hold⟩

/-! ## Every run -/

/-- The sessions of the registry are older objects than the next one. -/
def Allocated (state : State) : Prop :=
  ∀ id session, state.sessions.find id = some session → session.address < state.nextAddress

/-- Objects are only ever added. -/
theorem nextAddress_le {state next : State} {label : Label} (h : step state label = some next) :
    state.nextAddress ≤ next.nextAddress := by
  cases label with
  | openSession request site suggestedSessionId rands time =>
      obtain ⟨sessionId, _, _, _, rfl⟩ := step_openSession h
      exact Nat.le_succ _
  | process request endpoint sessionId =>
      obtain ⟨phase, _, rfl, _⟩ := step_process h
      exact Nat.le_refl _
  | closeSession request =>
      obtain ⟨sessionId, session, _, rfl⟩ := step_closeSession h
      exact Nat.le_refl _
  | reap now => exact Option.some.inj h ▸ Nat.le_refl _

theorem Allocated.step {state next : State} {label : Label} (h : Allocated state)
    (hstep : step state label = some next) : Allocated next := by
  intro id session hfind
  have hle := nextAddress_le hstep
  cases step_entry hstep id with
  | opened hfree hopened hnew =>
      rw [hnew] at hfind
      obtain rfl := Option.some.inj hfind
      obtain ⟨sessionId, _, _, _, rfl⟩ := step_openSession hstep
      exact Nat.lt_succ_self _
  | closed hclosing hgone =>
      rw [hgone] at hfind
      cases hfind
  | reaped hbefore hold hgone =>
      rw [hgone] at hfind
      cases hfind
  | same hsame =>
      rw [hsame] at hfind
      exact Nat.lt_of_lt_of_le (h id session hfind) hle

/-- The step is not one of the two that may erase the session from under the id. -/
def Spares (id : ℤ) (session : RegisteredSession) (state : State) : Label → Prop
  | .closeSession request => ∀ found, state.phase request ≠ .closing id found
  | .reap now => ¬ Old now session
  | _ => True

/-- An entry outlives every other step. -/
theorem find_of_spares {state next : State} {label : Label} {id : ℤ}
    {session : RegisteredSession} (hfind : state.sessions.find id = some session)
    (hok : Spares id session state label) (hstep : step state label = some next) :
    next.sessions.find id = some session := by
  cases step_entry hstep id with
  | opened hfree hopened hnew =>
      rw [hfree] at hfind
      cases hfind
  | closed hclosing hgone => exact absurd hclosing (hok _)
  | reaped hbefore hold hgone =>
      rw [hfind] at hbefore
      exact absurd (Option.some.inj hbefore ▸ hold) hok
  | same hsame => exact hsame.trans hfind

/-- In every state that is reached: an `openSession` enters a new session on its Site under
the id that it returns, which was free, and touches no other entry; an entry stays the same
object until a `closeSession` erases its id or a pass of the `Reaper` finds it too old; and
such a pass erases the entries that are too old, and no others. -/
theorem registry_entries {labels : List Label} {state : State}
    (hrun : run step State.initial labels = some state) :
    (∀ request site suggestedSessionId rands time next,
      step state (.openSession request site suggestedSessionId rands time) = some next →
      ∃ id session, next.phase request = .opened id session ∧ session.site = site ∧
        session.createdAt = time ∧
        (∀ other found, state.sessions.find other = some found →
          found.address ≠ session.address) ∧
        state.sessions.find id = none ∧ next.sessions.find id = some session ∧
        ∀ other, other ≠ id → next.sessions.find other = state.sessions.find other) ∧
    (∀ id session, state.sessions.find id = some session →
      ∀ more final, run step state more = some final →
        Meets step (Spares id session) state more →
        final.sessions.find id = some session) ∧
    ∀ now next, step state (.reap now) = some next → ∀ id session,
      next.sessions.find id = some session ↔
        state.sessions.find id = some session ∧ ¬ Old now session := by
  have hallocated : Allocated state :=
    invariant (fun _ _ _ h hstep => h.step hstep) (fun _ _ h => by cases h) hrun
  refine ⟨?_, ?_, ?_⟩
  · intro request site suggestedSessionId rands time next hopen
    obtain ⟨sessionId, _, _, hfree, rfl⟩ := step_openSession hopen
    refine ⟨sessionId, ⟨state.nextAddress, site, time⟩, Function.update_self .., rfl, rfl, ?_,
      hfree, ?_, ?_⟩
    · intro other found hfind
      exact Nat.ne_of_lt (hallocated other found hfind)
    · show (state.sessions.assign sessionId _).find sessionId = _
      rw [OrderedMap.find_assign, if_pos rfl]
    · intro other hother
      show (state.sessions.assign sessionId _).find other = _
      rw [OrderedMap.find_assign, if_neg hother]
  · intro id session hfind more final hmore hok
    exact invariant_of_meets (fun _ _ _ h hok hstep => find_of_spares h hok hstep) hfind hok
      hmore
  · intro now next hreap id session
    obtain rfl := Option.some.inj hreap
    exact find_reap

/-- Two live sites. -/
def shop : Site := ⟨0, "shop", false, some "key", 1, 0⟩

/-- The other one. -/
def blog : Site := ⟨1, "blog", false, some "key", 1, 0⟩

/-- Two sessions whose clients suggest the same id, and a pass of the `Reaper` that comes too
early for both. -/
def sameSuggestion : List Label :=
  [.openSession 1 shop 7 [] 0, .openSession 2 blog 7 [7, 9] 10, .process 3 .other 9,
    .reap 62]

theorem registry_entries_sameSuggestion :
    ∃ state, run step State.initial sameSuggestion = some state ∧
      state.phase 2 = .opened 9 ⟨1, blog, 10⟩ ∧
      ∀ more final, run step state more = some final →
        Meets step (Spares 7 ⟨0, shop, 0⟩) state more →
        final.sessions.find 7 = some ⟨0, shop, 0⟩ := by
  refine ⟨_, rfl, rfl, ?_⟩
  exact (registry_entries (show run _ _ sameSuggestion = _ from rfl)).2.1 7 ⟨0, shop, 0⟩ rfl

end VaeDb.Registry
