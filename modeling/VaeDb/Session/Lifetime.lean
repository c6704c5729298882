import VaeDb.Library.Clocks
import VaeDb.Server.Serving

/-!
# How long a session is served

The Reaper reads the clock, and goes through the registry when it has got `sessionsMutex`.  By
then the clock may have moved on, but it does not go back, so a session is in the registry for as
long as `SESSION_REAP_TIME` says, unless a `closeSession` of its id erases it: no other request
takes its place, and no request with its id that begins while it is there is told that the id is
invalid (`session_served`).  A request that has looked for the id before the session was registered
may still be told so.
-/

namespace VaeDb.Process

open Server (Params iparam openSessionArguments)
open Registry (RegisteredSession SessionMap find_reap freeId freeId_eq_some reap sessionReapTime)
open Storage (Reply Statement)
open Threads

variable {collation : Cache.Collation}

/-- The clock. -/
def clock (memory : Memory collation) : ℤ := memory.storage.now

/-- A session is in the registry until it is old. -/
def Present (id : ℤ) (session : RegisteredSession) (memory : Memory collation) : Prop :=
  clock memory ≤ session.createdAt + sessionReapTime → memory.sessions.find id = some session

/-- The event is not a `closeSession` of the id. -/
def Event.SparesId (id : ℤ) : Event → Prop
  | .request _ .closeSession (some body) =>
      ∀ params, body.params = .ok params → iparam params "sessionId" ≠ .ok id
  | _ => True

/-- The response to a request with the id does not say that the id is invalid. -/
def Served (id : ℤ) (event : Event) (response : Option Response) : Prop :=
  ∀ surroundings endpoint body params, event = .request surroundings endpoint (some body) →
    body.params = .ok params → params "sessionId" ≠ .null →
    iparam params "sessionId" = .ok id → endpoint ≠ .ping → endpoint ≠ .openSession →
    response ≠ some .invalidId

variable {id : ℤ} {session : RegisteredSession} {time : ℤ}

/-! ## What programs keep -/

/-- The registry stays as it is, and the clock does not go back. -/
theorem Present.of_same {memory memory' : Memory collation} (h : Present id session memory)
    (hsessions : memory'.sessions = memory.sessions) (hclock : clock memory ≤ clock memory') :
    Present id session memory' := by
  intro hyoung
  rw [hsessions]
  exact h (hclock.trans hyoung)

theorem now_le_apply (memory : Storage.Memory collation) (statement : Statement) :
    memory.now ≤ (statement.apply memory).now := by
  cases statement with
  | pass seconds => exact Int.le_add_of_nonneg_right (Int.natCast_nonneg seconds)
  | _ => exact Int.le_refl _

/-- The databases change, and the registry does not. -/
theorem keepsSince_zoom {Value : Type} {program : Storage.Code collation Value}
    (hclock : ∀ time : ℤ, Keeps (fun memory => time ≤ memory.now) program) :
    KeepsSince clock (Present id session) time (program.zoom Memory.storage Memory.store) := by
  have hput : ∀ (memory : Memory collation) storage,
      (memory.store storage).sessions = memory.sessions := fun _ _ => rfl
  have hsilent : Silent Memory.sessions (program.zoom Memory.storage Memory.store) :=
    Silent.zoom hput program
  exact .of_silent hsilent (fun time => (hclock time).zoom (fun _ h => h) fun _ _ _ h => h)
    fun _ _ hsessions hle h => h.of_same hsessions hle

theorem keepsSince_given {Value : Type} (outcome : Outcome Value) :
    KeepsSince clock (Present id session) time (given outcome : Code collation Value).run :=
  KeepsSince.pure _

/-- A new session gets an id that is free. -/
theorem keepsSince_openSession (surroundings : Surroundings) (body : Body) :
    KeepsSince clock (Present id session) time
      (openSession surroundings body : Code collation Content).run := by
  refine KeepsSince.run_bind (keepsSince_given _) fun params _ _ => ?_
  refine KeepsSince.run_bind (keepsSince_given _) fun arguments _ _ => ?_
  refine KeepsSince.run_bind (keepsSince_given _) fun site _ _ => ?_
  intro memory result _ hresult
  obtain ⟨sessionId, hfree, rfl⟩ := Option.map_eq_some_iff.1 hresult
  refine ⟨fun hpresent hyoung => ?_, Int.le_refl _, trivial⟩
  have hfind := hpresent hyoung
  have hne : id ≠ sessionId := by
    rintro rfl
    rw [freeId_eq_some hfree] at hfind
    cases hfind
  show (memory.sessions.assign sessionId _).find id = some session
  rw [OrderedMap.find_assign, if_neg hne, hfind]

theorem keepsSince_closeSession {params : Params} (hspares : iparam params "sessionId" ≠ .ok id) :
    KeepsSince clock (Present id session) time
      (closeSession params : Code collation Content).run := by
  unfold closeSession
  cases hid : iparam params "sessionId" with
  | error fault => exact KeepsSince.pure _
  | ok sessionId =>
      have hne : id ≠ sessionId := fun hsame => hspares (hsame ▸ hid)
      have herase : KeepsSince clock (Present id session) time (Throwing.write fun memory =>
          { memory with sessions := memory.sessions.erase sessionId } :
            Code collation Unit).run := by
        refine KeepsSince.step fun memory _ => ⟨fun hpresent hyoung => ?_, Int.le_refl _⟩
        show (memory.sessions.erase sessionId).find id = some session
        rw [OrderedMap.find_erase, if_neg hne, hpresent hyoung]
      have hwhole := herase.run_bind fun _ _ _ =>
        KeepsSince.pure (Except.ok (Content.closed sessionId))
      exact hwhole

theorem keepsSince_caught {handler : Code collation Content}
    (h : KeepsSince clock (Present id session) time handler.run) :
    KeepsSince clock (Present id session) time (caught handler) := by
  refine h.bind fun ended _ _ => ?_
  cases ended with
  | ok content => exact KeepsSince.pure _
  | error fault => exact KeepsSince.pure _

theorem keepsSince_cached (endpoint : CacheEndpoint) (found : RegisteredSession) (params : Params) :
    KeepsSince clock (Present id session) time
      (cached endpoint found params : Program (Memory collation) Response) := by
  unfold cached
  cases endpoint.read params with
  | error fault => exact KeepsSince.pure _
  | ok request =>
      refine (keepsSince_zoom fun time => ?_).bind fun _ _ _ => KeepsSince.pure _
      exact Storage.keeps_serve fun statement _ memory htime =>
        htime.trans (now_le_apply memory statement)

theorem keepsSince_call {endpoint : Endpoint} (found : RegisteredSession) {params : Params}
    (surroundings : Surroundings)
    (hspares : endpoint = .closeSession → iparam params "sessionId" ≠ .ok id) :
    KeepsSince clock (Present id session) time
      (call surroundings endpoint found params : Program (Memory collation) Response) := by
  cases endpoint with
  | ping => exact keepsSince_caught (KeepsSince.pure _)
  | openSession => exact keepsSince_caught (keepsSince_openSession surroundings _)
  | closeSession => exact keepsSince_caught (keepsSince_closeSession (hspares rfl))
  | createInfo => exact keepsSince_caught (keepsSince_given _)
  | data => exact keepsSince_caught (keepsSince_given _)
  | get => exact keepsSince_caught (keepsSince_given _)
  | structures => exact keepsSince_caught (keepsSince_given _)
  | cache endpoint => exact keepsSince_cached endpoint found params

theorem keepsSince_withSession {endpoint : Endpoint} {body : Body} (surroundings : Surroundings)
    (hspares : endpoint = .closeSession → ∀ params, body.params = .ok params →
      iparam params "sessionId" ≠ .ok id) :
    KeepsSince clock (Present id session) time
      (withSession surroundings endpoint body : Program (Memory collation) Response) := by
  unfold withSession
  cases hparams : body.params with
  | error fault => exact KeepsSince.pure _
  | ok params =>
      simp only
      split
      · exact KeepsSince.pure _
      · cases iparam params "sessionId" with
        | error fault => exact KeepsSince.pure _
        | ok sessionId =>
            refine (KeepsSince.read _).bind fun found later _ => ?_
            cases found with
            | none => exact KeepsSince.pure _
            | some found =>
                exact keepsSince_call found surroundings fun hclose => hspares hclose params hparams

theorem keepsSince_stored {event : Storage.Event} :
    KeepsSince clock (Present id session) time (stored event : Program (Memory collation) _) := by
  refine (keepsSince_zoom fun time => ?_).bind fun _ _ _ => KeepsSince.pure _
  exact Storage.Event.keeps_code fun statement _ memory htime =>
    htime.trans (now_le_apply memory statement)

/-- The Reaper goes by a time that is over. -/
theorem keepsSince_reaper :
    KeepsSince clock (Present id session) time
      (Event.reaper.code : Program (Memory collation) _) := by
  refine KeepsSince.readClock fun now => (KeepsSince.step fun memory hnow =>
    ⟨fun hpresent hyoung => ?_, Int.le_refl _⟩).bind fun _ _ _ => ?_
  · refine find_reap.2 ⟨hpresent hyoung, fun hold => ?_⟩
    have hold : now - session.createdAt > sessionReapTime := hold
    have hyoung : clock memory ≤ session.createdAt + sessionReapTime := hyoung
    omega
  · exact keepsSince_stored

theorem keepsSince_code {event : Event} (hspares : event.SparesId id) :
    KeepsSince clock (Present id session) time (event.code : Program (Memory collation) _) := by
  cases event with
  | reaper => exact keepsSince_reaper
  | pass seconds => exact keepsSince_stored
  | drop key => exact keepsSince_stored
  | request surroundings endpoint body =>
      refine KeepsSince.bind ?_ fun _ _ _ => KeepsSince.pure _
      cases body with
      | none => exact KeepsSince.pure _
      | some body =>
          cases endpoint with
          | ping => exact keepsSince_caught (KeepsSince.pure _)
          | openSession => exact keepsSince_caught (keepsSince_openSession surroundings body)
          | closeSession => exact keepsSince_withSession surroundings fun _ => hspares
          | createInfo => exact keepsSince_withSession surroundings nofun
          | data => exact keepsSince_withSession surroundings nofun
          | get => exact keepsSince_withSession surroundings nofun
          | structures => exact keepsSince_withSession surroundings nofun
          | cache endpoint => exact keepsSince_withSession surroundings nofun

/-- A `closeSession` names one id at most. -/
theorem Event.exists_sparesId (event : Event) : ∃ id, event.SparesId id := by
  by_cases hcloses : ∃ surroundings body params closed,
      event = .request surroundings .closeSession (some body) ∧ body.params = .ok params ∧
        iparam params "sessionId" = .ok closed
  · obtain ⟨surroundings, body, params, closed, rfl, hparams, hid⟩ := hcloses
    refine ⟨closed + 1, fun params' hparams' hsame => ?_⟩
    obtain rfl := Except.ok.inj (hparams.symm.trans hparams')
    have : closed = closed + 1 := Except.ok.inj (hid.symm.trans hsame)
    omega
  · refine ⟨0, ?_⟩
    unfold Event.SparesId
    split
    · next surroundings body =>
      exact fun params hparams hid => hcloses ⟨surroundings, body, params, 0, rfl, hparams, hid⟩
    · trivial

/-- No event puts the clock back. -/
theorem forward_code (event : Event) :
    KeepsSince clock (fun _ => True) time (event.code : Program (Memory collation) _) := by
  obtain ⟨id, hspares⟩ := event.exists_sparesId
  have hkeeps : KeepsSince clock (Present id (⟨0, ⟨0, [], false, none, 0, 0⟩, 0⟩)) time
      (event.code : Program (Memory collation) _) := keepsSince_code hspares
  exact hkeeps.forward

/-! ## What programs answer -/

/-- The session is there. -/
def There (id : ℤ) (session : RegisteredSession) (memory : Memory collation) : Prop :=
  memory.sessions.find id = some session

theorem ne_invalidId_of_status {status : ℕ} (h : status ≠ 400) (content : Content) :
    (⟨status, content⟩ : Response) ≠ .invalidId := fun hsame => h (congrArg Response.status hsame)

theorem ofFault_ne_invalidId (fault : Fault) : Response.ofFault fault ≠ .invalidId := by
  cases fault with
  | vaeDbQueryError what =>
      intro hsame
      have hcontent : Content.error "VaedbQueryError" what = Response.invalidId.content :=
        congrArg Response.content hsame
      exact Content.noConfusion hcontent
  | _ => exact ne_invalidId_of_status (by decide) _

theorem ensures_caught (handler : Code collation Content) :
    Ensures (There id session) (fun response => response ≠ .invalidId) (caught handler) := by
  have hany : Ensures (There id session) (fun _ => True) handler.run :=
    Ensures.of_forall (fun _ => trivial) _
  refine hany.bind fun ended _ => ?_
  cases ended with
  | ok content => exact ne_invalidId_of_status (by decide) content
  | error fault => exact ofFault_ne_invalidId fault

theorem ensures_call (surroundings : Surroundings) (endpoint : Endpoint)
    (found : RegisteredSession) (params : Params) :
    Ensures (There id session) (fun response => response ≠ .invalidId)
      (call surroundings endpoint found params : Program (Memory collation) Response) := by
  cases endpoint with
  | cache endpoint =>
      show Ensures _ _ (cached endpoint found params)
      unfold cached
      cases endpoint.read params with
      | error fault => exact ofFault_ne_invalidId fault
      | ok request =>
          have hany : Ensures (There id session) (fun _ => True)
              ((Storage.serve found.site.subdomain request).zoom Memory.storage Memory.store :
                Program (Memory collation) Reply) := Ensures.of_forall (fun _ => trivial) _
          refine hany.bind fun reply _ => ?_
          exact ne_invalidId_of_status (by decide) _
  | _ => exact ensures_caught _

theorem ensures_withSession {surroundings : Surroundings} {endpoint : Endpoint} {body : Body}
    {params : Params} (hparams : body.params = .ok params)
    (hpresent : params "sessionId" ≠ .null) (hid : iparam params "sessionId" = .ok id) :
    Ensures (There id session) (fun response => response ≠ .invalidId)
      (withSession surroundings endpoint body : Program (Memory collation) Response) := by
  unfold withSession
  rw [hparams]
  simp only [hpresent, if_false, hid]
  intro memory result hthere hresult
  obtain rfl := Option.some.inj hresult
  have hfind : memory.sessions.find id = some session := hthere
  show Ensures _ _ ((pure (memory.sessions.find id) : Program (Memory collation) _) >>= _)
  rw [hfind]
  exact ensures_call surroundings endpoint session params

/-- While the session is there, requests with its id are served. -/
theorem ensures_code (event : Event) :
    Ensures (There id session) (Served id event) (event.code : Program (Memory collation) _) := by
  by_cases hasks : ∃ surroundings endpoint body params,
      event = .request surroundings endpoint (some body) ∧ body.params = .ok params ∧
      params "sessionId" ≠ .null ∧ iparam params "sessionId" = .ok id ∧ endpoint ≠ .ping ∧
      endpoint ≠ .openSession
  · obtain ⟨surroundings, endpoint, body, params, rfl, hparams, hpresent, hid, hping, hopen⟩ :=
      hasks
    have hsession : Ensures (There id session) (fun response => response ≠ .invalidId)
        (withSession surroundings endpoint body : Program (Memory collation) Response) :=
      ensures_withSession hparams hpresent hid
    have hprocess : (process surroundings endpoint (some body) :
        Program (Memory collation) Response) = withSession surroundings endpoint body := by
      cases endpoint <;> first | rfl | exact absurd rfl hping | exact absurd rfl hopen
    show Ensures _ _ (process surroundings endpoint (some body) >>= _)
    rw [hprocess]
    refine hsession.bind fun response hresponse => ?_
    intro _ _ _ _ _ _ _ _ _ _ hsame
    exact hresponse (Option.some.inj hsame)
  · refine Ensures.of_forall (fun response => ?_) _
    intro surroundings endpoint body params hevent hparams hpresent hid hping hopen
    exact absurd ⟨surroundings, endpoint, body, params, hevent, hparams, hpresent, hid, hping,
      hopen⟩ hasks

/-! ## Runs -/

/-- **A session is served for 62 seconds.**  From any moment of a run at which it is in the
registry, until it is older than `SESSION_REAP_TIME`, and unless somebody asks to close its id, no
interleaving of requests with the Reaper takes a session from the registry or puts another one in
its place, and no request with its id that begins after that moment is told that the id is
invalid. -/
theorem session_served {Client : Type} [DecidableEq Client] {memory : Memory collation}
    {earlier labels : List (Label Client Event)}
    {moment final : State Client (Memory collation) Event (Option Response)}
    (hearlier : Transition.run (step fun _ => Event.code) (State.initial memory) earlier =
      some moment)
    (hfind : moment.memory.sessions.find id = some session)
    (hunderway : ∀ client event program, moment.running client = some (event, program) →
      event.SparesId id)
    (hrun : Transition.run (step fun _ => Event.code) moment labels = some final)
    (hspares : ∀ client event, .start client event ∈ labels → event.SparesId id)
    (hyoung : final.memory.storage.now ≤ session.createdAt + sessionReapTime) :
    final.memory.sessions.find id = some session ∧
      ∀ client event response,
        Answers (fun _ => Event.code) moment labels client event response →
          Served id event response := by
  have hleaves : Leaves clock (Present id session) (Event.SparesId id) moment :=
    leaves_of_run (fun _ event _ => forward_code event)
      (fun _ _ _ hevent => keepsSince_code hevent) hearlier
  -- what was under way at that moment keeps the session as well
  have hmoment : KeptSince clock (Present id session) moment :=
    ⟨fun _ => hfind, fun client event program hrunning _ => hleaves client event program hrunning
      (hunderway client event program hrunning)⟩
  have halways : ∀ first rest middle, labels = first ++ rest →
      Transition.run (step fun _ => Event.code) moment first = some middle →
        There id session middle.memory := by
    rintro first rest middle rfl hfirst
    rw [Transition.run_append, hfirst] at hrun
    obtain ⟨hmiddle, -⟩ := hmoment.run (fun client event _ hmem =>
      keepsSince_code (hspares client event (List.mem_append_left _ hmem))) hfirst
    obtain ⟨-, hclock⟩ := hmiddle.run (fun client event _ hmem =>
      keepsSince_code (hspares client event (List.mem_append_right _ hmem))) hrun
    exact hmiddle.memory (hclock.trans hyoung)
  exact ⟨halways labels [] final (List.append_nil _).symm hrun,
    fun client event response hanswers => right_of_answers halways (ensures_code event) hanswers⟩

/-- The beginning of a round of the Reaper. -/
def roundBegins : List (Label ℕ Event) := [.start 0 .reaper, .act 0]

/-- A minute passes, another client wants the id, the round goes on, and a request with the id
comes. -/
def slowRound : List (Label ℕ Event) :=
  [.start 1 (.pass 62), .act 1,
    .start 2 (.request idle .openSession (some (.object fun name =>
      if name = ("suggestedSessionId" : Str) then .number 7 else .null))), .act 2, .act 2,
    .act 0, .start 3 (.request idle (.cache .sessionCacheGet) (withKey 7 "id" [])),
    .act 3, .act 3, .act 3]

theorem session_served_slowRound :
    ∃ moment final : State ℕ (Memory .binary) Event (Option Response),
      Transition.run (step fun _ => Event.code) (State.initial shopOpen) roundBegins =
        some moment ∧
      Transition.run (step fun _ => Event.code) moment slowRound = some final ∧
      final.memory.sessions.find 7 = some shopSession ∧
      (final.memory.sessions.find 8).isSome := by
  obtain ⟨moment, hbegins, hfind, hreaper, hothers⟩ :
      ∃ moment : State ℕ (Memory .binary) Event (Option Response),
        Transition.run (step fun _ => Event.code) (State.initial shopOpen) roundBegins =
          some moment ∧ moment.memory.sessions.find 7 = some shopSession ∧
        (∀ event program, moment.running 0 = some (event, program) → event = .reaper) ∧
        ∀ client, client ≠ 0 → moment.running client = none := by
    refine ⟨_, rfl, rfl, fun event program hrunning => ?_, fun client hclient => ?_⟩
    · cases hrunning
      rfl
    · exact (Function.update_of_ne hclient _ _).trans (Function.update_of_ne hclient _ _)
  obtain ⟨final, hrun, hnow, hopened⟩ :
      ∃ final : State ℕ (Memory .binary) Event (Option Response),
        Transition.run (step fun _ => Event.code) (State.initial shopOpen)
          (roundBegins ++ slowRound) = some final ∧ final.memory.storage.now = 62 ∧
        (final.memory.sessions.find 8).isSome := ⟨_, rfl, rfl, rfl⟩
  rw [Transition.run_append, hbegins] at hrun
  have hunderway : ∀ client event program, moment.running client = some (event, program) →
      event.SparesId 7 := by
    intro client event program hrunning
    by_cases hclient : client = 0
    · subst hclient
      obtain rfl := hreaper event program hrunning
      trivial
    · rw [hothers client hclient] at hrunning
      cases hrunning
  have hspares : ∀ client event, .start client event ∈ slowRound → event.SparesId 7 := by
    intro client event h
    simp only [slowRound, List.mem_cons, Label.start.injEq, reduceCtorEq, List.not_mem_nil,
      or_false, false_or] at h
    rcases h with ⟨-, rfl⟩ | ⟨-, rfl⟩ | ⟨-, rfl⟩
    · trivial
    · trivial
    · trivial
  exact ⟨moment, final, hbegins, hrun,
    (session_served hbegins hfind hunderway hrun hspares (by rw [hnow]; decide)).1, hopened⟩

end VaeDb.Process
