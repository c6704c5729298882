import VaeDb.Session.Registry

/-!
# What a session id is bound to

After `openSession` the id of a session is all that a request shows, and all that
`closeSession` looks at when it erases.  Ids are suggested by clients and are free again
once their session is closed or reaped, so an id is bound to a session only as long as
nobody opens another one under it (`session_binding`):

* a request finds a session of the same subdomain and staging mode, if every later
  `openSession` that returns the id is for these (`ReopensAlike`);
* `closeSession` erases the session that its look-up found, if no `openSession` returns the
  id in between (`ReopensNot`).

Without these conditions both fail (`session_binding_fails`).
-/

namespace VaeDb.Registry

open Transition Server

/-- Two sessions of one subdomain and staging mode. -/
def SameTenant (session other : RegisteredSession) : Prop :=
  session.site.subdomain = other.site.subdomain ∧
    session.site.stagingMode = other.site.stagingMode

/-- No `openSession` returns the id for another subdomain or staging mode than the
session's. -/
def ReopensAlike (id : ℤ) (session : RegisteredSession) (state : State) : Label → Prop
  | .openSession _ site suggestedSessionId rands _ =>
      freeId state.sessions suggestedSessionId rands = some id →
        session.site.subdomain = site.subdomain ∧ session.site.stagingMode = site.stagingMode
  | _ => True

/-- No `openSession` returns the id. -/
def ReopensNot (id : ℤ) (state : State) : Label → Prop
  | .openSession _ _ suggestedSessionId rands _ =>
      freeId state.sessions suggestedSessionId rands ≠ some id
  | _ => True

/-! ## The entry of an id -/

/-- The entry of an id after a step is the one before, or there is none, or an `openSession`
has just returned the id. -/
theorem find_of_step {state next : State} {label : Label} {id : ℤ} {found : RegisteredSession}
    (hstep : step state label = some next) (hfind : next.sessions.find id = some found) :
    state.sessions.find id = some found ∨
      ∃ request site suggestedSessionId rands time,
        label = .openSession request site suggestedSessionId rands time ∧
        freeId state.sessions suggestedSessionId rands = some id ∧
        found.site = site := by
  cases label with
  | openSession request site suggestedSessionId rands time =>
      obtain ⟨sessionId, _, hreturned, _, rfl⟩ := step_openSession hstep
      by_cases hid : id = sessionId
      · subst hid
        refine Or.inr ⟨request, site, suggestedSessionId, rands, time, rfl, hreturned, ?_⟩
        have hnew : (state.sessions.assign id ⟨state.nextAddress, site, time⟩).find id =
            some found := hfind
        rw [OrderedMap.find_assign, if_pos rfl] at hnew
        exact (Option.some.inj hnew) ▸ rfl
      · have hold : (state.sessions.assign sessionId _).find id = some found := hfind
        rw [OrderedMap.find_assign, if_neg hid] at hold
        exact Or.inl hold
  | process request endpoint sessionId =>
      left
      cases step_entry hstep id with
      | same hsame => exact hsame ▸ hfind
  | closeSession request =>
      left
      cases step_entry hstep id with
      | closed hclosing hgone =>
          rw [hgone] at hfind
          cases hfind
      | same hsame => exact hsame ▸ hfind
  | reap now =>
      left
      cases step_entry hstep id with
      | reaped hbefore hold hgone =>
          rw [hgone] at hfind
          cases hfind
      | same hsame => exact hsame ▸ hfind

/-- A step that opens alike keeps the tenant of an id. -/
theorem sameTenant_of_step {id : ℤ} {session : RegisteredSession} {state next : State}
    {label : Label}
    (h : ∀ found, state.sessions.find id = some found → SameTenant session found)
    (hok : ReopensAlike id session state label) (hstep : step state label = some next)
    (found : RegisteredSession) (hfind : next.sessions.find id = some found) :
    SameTenant session found := by
  rcases find_of_step hstep hfind with hbefore |
    ⟨request, site, suggestedSessionId, rands, time, rfl, hfree, rfl⟩
  · exact h found hbefore
  · exact hok hfree

/-- A step that does not return an id leaves its session there, or nothing. -/
theorem only_of_step {id : ℤ} {session : RegisteredSession} {state next : State} {label : Label}
    (h : ∀ found, state.sessions.find id = some found → found = session)
    (hok : ReopensNot id state label) (hstep : step state label = some next)
    (found : RegisteredSession) (hfind : next.sessions.find id = some found) :
    found = session := by
  rcases find_of_step hstep hfind with hbefore |
    ⟨request, site, suggestedSessionId, rands, time, rfl, hfree, rfl⟩
  · exact h found hbefore
  · exact absurd hfree hok

/-! ## The look-up and the erase -/

/-- A request that has looked up its session for `closeSession` goes on to the erase. -/
def Closing (request : ℕ) (id : ℤ) (session : RegisteredSession) (state : State) : Prop :=
  state.phase request = .closing id session ∨ state.phase request = .closed

theorem Closing.not_idle {request : ℕ} {id : ℤ} {session : RegisteredSession} {state : State}
    (h : Closing request id session state) : state.phase request ≠ .idle := by
  intro hidle
  rcases h with h | h
  · rw [hidle] at h
    cases h
  · rw [hidle] at h
    cases h

theorem Closing.of_phase {request : ℕ} {id : ℤ} {session : RegisteredSession}
    {state next : State} (h : Closing request id session state)
    (hphase : next.phase request = state.phase request) : Closing request id session next := by
  unfold Closing
  rw [hphase]
  exact h

/-- The steps of other requests leave it there. -/
theorem Closing.advance {request other : ℕ} {id : ℤ} {session : RegisteredSession}
    {state : State} (h : Closing request id session state) {sessions : SessionMap}
    {nextAddress : ℕ} {phase : Phase} (hidle : state.phase other = .idle) :
    Closing request id session
      (State.advance ⟨sessions, nextAddress, state.phase⟩ other phase) := by
  have hne : request ≠ other := fun hsame => h.not_idle (hsame ▸ hidle)
  exact h.of_phase (Function.update_of_ne hne ..)

theorem Closing.step {request : ℕ} {id : ℤ} {session : RegisteredSession} {state next : State}
    {label : Label} (h : Closing request id session state)
    (hstep : step state label = some next) : Closing request id session next := by
  cases label with
  | openSession other site suggestedSessionId rands time =>
      obtain ⟨sessionId, hidle, _, _, rfl⟩ := step_openSession hstep
      exact h.advance hidle
  | process other endpoint sessionId =>
      obtain ⟨phase, hidle, rfl, _⟩ := step_process hstep
      exact h.advance hidle
  | closeSession other =>
      obtain ⟨closed, _, _, rfl⟩ := step_closeSession hstep
      by_cases hsame : request = other
      · subst hsame
        exact Or.inr (Function.update_self ..)
      · exact h.of_phase (Function.update_of_ne hsame ..)
  | reap now =>
      obtain rfl := Option.some.inj hstep
      exact h

/-! ## What holds while an id is not opened for others -/

/-- What an `openSession` leaves under the id that it returns. -/
theorem find_opened {state next : State} {request : ℕ} {site : Site}
    {suggestedSessionId : ℤ} {rands : List ℤ} {time id : ℤ} {session : RegisteredSession}
    (hopen : step state (.openSession request site suggestedSessionId rands time) = some next)
    (hopened : next.phase request = .opened id session) :
    next.sessions.find id = some session := by
  obtain ⟨sessionId, _, _, _, rfl⟩ := step_openSession hopen
  have hreturned : Function.update state.phase request _ request = _ := hopened
  rw [Function.update_self] at hreturned
  cases hreturned
  show (state.sessions.assign id ⟨state.nextAddress, site, time⟩).find id = _
  rw [OrderedMap.find_assign, if_pos rfl]

/-- What the look-up of a `closeSession` leaves under the id of its request. -/
theorem find_closing {state next : State} {request : ℕ} {id : ℤ} {session : RegisteredSession}
    (hprocess : step state (.process request .closeSession id) = some next)
    (hclosing : next.phase request = .closing id session) :
    next.sessions.find id = some session := by
  obtain ⟨phase, _, rfl, hcase⟩ := step_process hprocess
  have hadvanced : (state.advance request phase).phase request = phase :=
    Function.update_self ..
  rw [hadvanced] at hclosing
  subst hclosing
  rcases hcase with ⟨_, hphase⟩ | ⟨found, hfound, hphase | hphase⟩
  · cases hphase
  · cases hphase
  · cases hphase
    exact hfound

/-- The erase of a request that looked up an id takes away nothing but the entry of the id. -/
theorem Closing.find_removed {request : ℕ} {id : ℤ} {session : RegisteredSession}
    {state next : State} (h : Closing request id session state)
    (hclose : Registry.step state (.closeSession request) = some next) {other : ℤ}
    {removed : RegisteredSession} (hbefore : state.sessions.find other = some removed)
    (hafter : next.sessions.find other = none) : other = id := by
  cases step_entry hclose other with
  | closed hphase hgone =>
      rcases h with h | h
      · rw [h] at hphase
        cases hphase
        rfl
      · rw [h] at hphase
        cases hphase
  | same hsame =>
      rw [hsame, hbefore] at hafter
      cases hafter

/-- Once an `openSession` has returned an id, and as long as no other one returns it for
another subdomain or staging mode, a request with the id is rejected or finds a session of
these.  And a `closeSession` erases no other session than its look-up found, if no
`openSession` returns the id between the two. -/
theorem session_binding (state : State) :
    (∀ request site suggestedSessionId rands time next id session,
      step state (.openSession request site suggestedSessionId rands time) = some next →
      next.phase request = .opened id session →
      ∀ more final, run step next more = some final →
        Meets step (ReopensAlike id session) next more →
        ∀ other endpoint last, step final (.process other endpoint id) = some last →
          last.phase other = .rejected ∨
            ∃ found, (last.phase other = .resolved id found ∨
              last.phase other = .closing id found) ∧ SameTenant session found) ∧
    ∀ request id next session, step state (.process request .closeSession id) = some next →
      next.phase request = .closing id session →
      ∀ more final, run step next more = some final → Meets step (ReopensNot id) next more →
        ∀ last, step final (.closeSession request) = some last →
          ∀ other removed, final.sessions.find other = some removed →
            last.sessions.find other = none → removed = session := by
  constructor
  · intro request site suggestedSessionId rands time next id session hopen hopened more final
      hmore hok other endpoint last hprocess
    have hfirst : ∀ found, next.sessions.find id = some found → SameTenant session found := by
      intro found hfind
      rw [find_opened hopen hopened] at hfind
      exact Option.some.inj hfind ▸ ⟨rfl, rfl⟩
    have hlater : ∀ found, final.sessions.find id = some found → SameTenant session found :=
      invariant_of_meets
        (fun _ _ _ h hok hstep found hfind => sameTenant_of_step h hok hstep found hfind)
        hfirst hok hmore
    obtain ⟨phase, _, rfl, hcase⟩ := step_process hprocess
    have hphase : (final.advance other phase).phase other = phase := Function.update_self ..
    rw [hphase]
    rcases hcase with ⟨_, hrejected⟩ | ⟨found, hfind, hphase⟩
    · exact Or.inl hrejected
    · exact Or.inr ⟨found, hphase, hlater found hfind⟩
  · intro request id next session hprocess hclosing more final hmore hok last hclose other
      removed hbefore hafter
    have hfirst : ∀ found, next.sessions.find id = some found → found = session := by
      intro found hfind
      rw [find_closing hprocess hclosing] at hfind
      exact (Option.some.inj hfind).symm
    have hlater : ∀ found, final.sessions.find id = some found → found = session :=
      invariant_of_meets
        (fun _ _ _ h hok hstep found hfind => only_of_step h hok hstep found hfind)
        hfirst hok hmore
    have hstill : Closing request id session final :=
      invariant (fun _ _ _ h hstep => h.step hstep) (Or.inl hclosing) hmore
    -- the handler erases the id of its own request
    obtain rfl := hstill.find_removed hclose hbefore hafter
    exact hlater removed hbefore

/-- A client opens a session. -/
def opening : Label := .openSession 1 shop 7 [] 0

/-- It closes it and opens another one under the same id. -/
def reopening : List Label :=
  [.process 2 .closeSession 7, .closeSession 2, .openSession 3 shop 7 [] 5]

/-- The state after that. -/
def reopened : State := (run step State.initial (opening :: reopening)).getD State.initial

theorem session_binding_reopened :
    (∃ next final last, step State.initial opening = some next ∧
      run step next reopening = some final ∧
      step final (.process 4 .other 7) = some last ∧
      (last.phase 4 = .rejected ∨
        ∃ found, (last.phase 4 = .resolved 7 found ∨ last.phase 4 = .closing 7 found) ∧
          SameTenant ⟨0, shop, 0⟩ found)) ∧
    ∃ next final last, step reopened (.process 4 .closeSession 7) = some next ∧
      run step next [.reap 10] = some final ∧ step final (.closeSession 4) = some last ∧
      final.sessions.find 7 = some ⟨1, shop, 5⟩ ∧ last.sessions.find 7 = none ∧
      ∀ other removed, final.sessions.find other = some removed →
        last.sessions.find other = none → removed = ⟨1, shop, 5⟩ := by
  constructor
  · refine ⟨_, _, _, rfl, rfl, rfl, ?_⟩
    refine (session_binding State.initial).1 1 shop 7 [] 0 _ 7 ⟨0, shop, 0⟩ rfl rfl reopening _
      rfl ?_ 4 .other _ rfl
    exact (meets_cons_of_step rfl).2 ⟨trivial, (meets_cons_of_step rfl).2 ⟨trivial,
      (meets_cons_of_step rfl).2 ⟨fun _ => ⟨rfl, rfl⟩, trivial⟩⟩⟩
  · refine ⟨_, _, _, rfl, rfl, rfl, rfl, rfl, ?_⟩
    exact (session_binding reopened).2 4 7 _ ⟨1, shop, 5⟩ rfl rfl [.reap 10] _ rfl
      ((meets_cons_of_step rfl).2 ⟨trivial, trivial⟩) _ rfl

/-- A client opens a session; it closes it, and another client is given the id. -/
def reused : List Label :=
  [.openSession 1 shop 7 [] 0, .process 2 .closeSession 7, .closeSession 2,
    .openSession 3 blog 7 [] 5, .process 4 .other 7]

/-- A `closeSession` that is overtaken by the `Reaper` and by another client. -/
def overtaken : List Label :=
  [.openSession 1 shop 7 [] 0, .process 2 .closeSession 7, .reap 63,
    .openSession 3 blog 7 [] 64]

theorem session_binding_fails :
    (∃ state, run step State.initial reused = some state ∧
      state.phase 1 = .opened 7 ⟨0, shop, 0⟩ ∧ state.phase 4 = .resolved 7 ⟨1, blog, 5⟩ ∧
      shop.subdomain ≠ blog.subdomain) ∧
    ∃ state next, run step State.initial overtaken = some state ∧
      state.phase 2 = .closing 7 ⟨0, shop, 0⟩ ∧
      step state (.closeSession 2) = some next ∧
      state.sessions.find 7 = some ⟨1, blog, 64⟩ ∧ next.sessions.find 7 = none :=
  ⟨⟨_, rfl, rfl, rfl, by decide⟩, _, _, rfl, rfl, rfl, rfl, rfl⟩

end VaeDb.Registry
