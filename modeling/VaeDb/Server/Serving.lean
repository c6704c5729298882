import VaeDb.Library.Stops
import VaeDb.Server.Requests

/-!
# What the databases see of the requests

The requests of a server, seen from the databases, are the events of `Storage`: a request to a
cache or the lock is a `serve` for the subdomain of the session that was found under its id, and
all others, and those that are refused, are nothing (`served_by_storage`).  A request is refused
for what it says itself, or because there was no session under its id when it was looked up.  So
what holds of every run of `Storage` holds of every run of the server.
-/

namespace VaeDb.Process

open Server (Params iparam)
open Registry (RegisteredSession reap)
open Storage (Reply)
open Threads

variable {collation : Cache.Collation}

/-! ## Guests -/

/-- What an event does to the databases, and when. -/
inductive Lets : Event → Memory collation → Storage.Event → Prop
  | serve {surroundings : Surroundings} {endpoint : CacheEndpoint} {body : Body} {params : Params}
      {sessionId : ℤ} {session : RegisteredSession} {request : Storage.Request}
      {memory : Memory collation} (hparams : body.params = .ok params)
      (hpresent : params "sessionId" ≠ .null) (hid : iparam params "sessionId" = .ok sessionId)
      (hfind : memory.sessions.find sessionId = some session)
      (hread : endpoint.read params = .ok request) :
      Lets (.request surroundings (.cache endpoint) (some body)) memory
        (.serve session.site.subdomain request)
  | garbageCollect {memory : Memory collation} : Lets .reaper memory .garbageCollect
  | pass {memory : Memory collation} {seconds : ℕ} : Lets (.pass seconds) memory (.pass seconds)
  | drop {memory : Memory collation} {key : Str} : Lets (.drop key) memory (.drop key)

/-- Why a request to a cache is refused, when, and with which response. -/
inductive Refusal (endpoint : CacheEndpoint) (memory : Memory collation) :
    Option Body → Response → Prop
  | malformed : Refusal endpoint memory none .failed
  | noObject {body : Body} {fault : Fault} (hparams : body.params = .error fault) :
      Refusal endpoint memory (some body) .failed
  | missing {body : Body} {params : Params} (hparams : body.params = .ok params)
      (hmissing : params "sessionId" = .null) : Refusal endpoint memory (some body) .missingId
  | noNumber {body : Body} {params : Params} {fault : Fault} (hparams : body.params = .ok params)
      (hid : iparam params "sessionId" = .error fault) :
      Refusal endpoint memory (some body) .failed
  | invalid {body : Body} {params : Params} {sessionId : ℤ} (hparams : body.params = .ok params)
      (hpresent : params "sessionId" ≠ .null) (hid : iparam params "sessionId" = .ok sessionId)
      (hfind : memory.sessions.find sessionId = none) :
      Refusal endpoint memory (some body) .invalidId
  | mismatch {body : Body} {params : Params} {sessionId : ℤ} {session : RegisteredSession}
      {fault : Fault} (hparams : body.params = .ok params)
      (hpresent : params "sessionId" ≠ .null) (hid : iparam params "sessionId" = .ok sessionId)
      (hfind : memory.sessions.find sessionId = some session)
      (hread : endpoint.read params = .error fault) : Refusal endpoint memory (some body) .failed

/-- The responses without a statement. -/
inductive Alone : Event → Memory collation → Option Response → Prop
  | refused {surroundings : Surroundings} {endpoint : CacheEndpoint} {body : Option Body}
      {memory : Memory collation} {response : Response}
      (hrefusal : Refusal endpoint memory body response) :
      Alone (.request surroundings (.cache endpoint) body) memory (some response)
  | other {surroundings : Surroundings} {endpoint : Endpoint} {body : Option Body}
      {memory : Memory collation} {response : Response}
      (hother : ∀ cache, endpoint ≠ .cache cache) :
      Alone (.request surroundings endpoint body) memory (some response)

/-- The responses that are made of a reply; whom the statement was for, and why, is in `Lets`. -/
inductive Renders : Event → Storage.Event → Option Reply → Option Response → Prop
  | serve {surroundings : Surroundings} {endpoint : CacheEndpoint} {body : Option Body}
      {subdomain : Str} {request : Storage.Request} {reply : Reply} :
      Renders (.request surroundings (.cache endpoint) body) (.serve subdomain request)
        (some reply) (some ⟨200, .reply reply⟩)
  | garbageCollect {reply : Option Reply} : Renders .reaper .garbageCollect reply none
  | pass {seconds : ℕ} {reply : Option Reply} : Renders (.pass seconds) (.pass seconds) reply none
  | drop {key : Str} {reply : Option Reply} : Renders (.drop key) (.drop key) reply none

variable (collation) in
/-- The databases as a part of the server. -/
def hosting : Hosting (Memory collation) (Storage.Memory collation) Event (Option Response)
    Storage.Event (Option Reply) where
  view := Memory.storage
  code := Storage.Event.code
  Lets := Lets
  Alone := Alone
  Renders := Renders

/-! ## The parts of `process` -/

/-- What never touches the databases. -/
abbrev Quiet {Value : Type} (program : Program (Memory collation) Value) : Prop :=
  Silent Memory.storage program

theorem quiet_given {Value : Type} (outcome : Outcome Value) :
    Quiet (given outcome : Code collation Value).run := fun _ => Keeps.pure _

theorem quiet_openSession (surroundings : Surroundings) (body : Body) :
    Quiet (openSession surroundings body : Code collation Content).run := by
  intro seen
  refine Keeps.run_bind (quiet_given _ seen) fun params => ?_
  refine Keeps.run_bind (quiet_given _ seen) fun arguments => ?_
  refine Keeps.run_bind (quiet_given _ seen) fun site => ⟨fun memory result hmemory hresult => ?_,
    fun _ => trivial⟩
  obtain ⟨sessionId, -, rfl⟩ := Option.map_eq_some_iff.1 hresult
  exact hmemory

theorem quiet_closeSession (params : Params) :
    Quiet (closeSession params : Code collation Content).run := by
  intro seen
  refine Keeps.run_bind (quiet_given _ seen) fun sessionId => ?_
  exact Keeps.run_bind (Keeps.step fun _ h => h) fun _ => Keeps.pure _

theorem quiet_caught {handler : Code collation Content} (h : Quiet handler.run) :
    Quiet (caught handler) := by
  intro seen
  refine Keeps.bind (h seen) fun ended => ?_
  cases ended with
  | ok content => exact Keeps.pure _
  | error fault => exact Keeps.pure _

/-- All handlers but those of the caches and the lock. -/
theorem quiet_call {endpoint : Endpoint} (hother : ∀ cache, endpoint ≠ .cache cache)
    (surroundings : Surroundings) (session : RegisteredSession) (params : Params) :
    Quiet (call surroundings endpoint session params : Program (Memory collation) Response) := by
  cases endpoint with
  | ping => exact quiet_caught fun _ => Keeps.pure _
  | openSession => exact quiet_caught (quiet_openSession surroundings _)
  | closeSession => exact quiet_caught (quiet_closeSession params)
  | createInfo => exact quiet_caught (quiet_given _)
  | data => exact quiet_caught (quiet_given _)
  | get => exact quiet_caught (quiet_given _)
  | structures => exact quiet_caught (quiet_given _)
  | cache endpoint => exact absurd rfl (hother endpoint)

theorem quiet_withSession {endpoint : Endpoint} (hother : ∀ cache, endpoint ≠ .cache cache)
    (surroundings : Surroundings) (body : Body) :
    Quiet (withSession surroundings endpoint body : Program (Memory collation) Response) := by
  intro seen
  unfold withSession
  cases body.params with
  | error fault => exact Keeps.pure _
  | ok params =>
      simp only
      split
      · exact Keeps.pure _
      · cases iparam params "sessionId" with
        | error fault => exact Keeps.pure _
        | ok sessionId =>
            refine Keeps.bind (Keeps.read _) fun session => ?_
            cases session with
            | none => exact Keeps.pure _
            | some session => exact quiet_call hother surroundings session params seen

theorem quiet_process {endpoint : Endpoint} (hother : ∀ cache, endpoint ≠ .cache cache)
    (surroundings : Surroundings) (body : Option Body) :
    Quiet (process surroundings endpoint body : Program (Memory collation) Response) := by
  cases body with
  | none => exact fun _ => Keeps.pure _
  | some body =>
      cases endpoint with
      | ping => exact quiet_caught fun _ => Keeps.pure _
      | openSession => exact quiet_caught (quiet_openSession surroundings body)
      | cache endpoint => exact absurd rfl (hother endpoint)
      | closeSession => exact quiet_withSession hother surroundings body
      | createInfo => exact quiet_withSession hother surroundings body
      | data => exact quiet_withSession hother surroundings body
      | get => exact quiet_withSession hother surroundings body
      | structures => exact quiet_withSession hother surroundings body

/-! ## Faults of parameters -/

/-- What stops for an exception of the JSON library only, if at all. -/
abbrev Reads {Value : Type} (outcome : Outcome Value) : Prop :=
  Stops.Meets (fun fault => Response.ofFault fault = .failed) (fun _ => True) outcome

theorem reads_params (body : Body) : Reads body.params := by
  cases body with
  | object params => exact trivial
  | null => exact trivial
  | other typeName => exact Stops.meets_throw rfl

theorem reads_sparam (params : Params) (name : Str) : Reads (Server.sparam params name) := by
  unfold Server.sparam
  split
  · exact trivial
  · exact trivial
  · exact Stops.meets_throw rfl

theorem reads_iparam (params : Params) (name : Str) : Reads (iparam params name) := by
  unfold iparam
  split
  · exact trivial
  · exact trivial
  · exact trivial
  · exact Stops.meets_throw rfl

theorem reads_oneString (params : Params) (name : Str) (request : Str → Storage.Request) :
    Reads (oneString params name request) :=
  (reads_sparam params name).bind fun _ _ => trivial

theorem reads_cacheEndpoint (endpoint : CacheEndpoint) (params : Params) :
    Reads (endpoint.read params) := by
  cases endpoint with
  | shortTermCacheGet =>
      exact (reads_sparam params _).bind fun _ _ => (reads_iparam params _).bind fun _ _ => trivial
  | shortTermCacheSet =>
      exact (reads_sparam params _).bind fun _ _ => (reads_sparam params _).bind fun _ _ =>
        (reads_iparam params _).bind fun _ _ => (reads_iparam params _).bind fun _ _ => trivial
  | sessionCacheSet =>
      exact (reads_sparam params _).bind fun _ _ => (reads_sparam params _).bind fun _ _ => trivial
  | longTermCacheGet =>
      exact (reads_sparam params _).bind fun _ _ => (reads_iparam params _).bind fun _ _ =>
        (reads_iparam params _).bind fun _ _ => trivial
  | longTermCacheSet =>
      exact (reads_sparam params _).bind fun _ _ => (reads_sparam params _).bind fun _ _ =>
        (reads_iparam params _).bind fun _ _ => (reads_iparam params _).bind fun _ _ => trivial
  | longTermCacheEmpty => exact trivial
  | longTermCacheSweeperInfo => exact trivial
  | shortTermCacheDelete => exact reads_oneString ..
  | sessionCacheGet => exact reads_oneString ..
  | sessionCacheDelete => exact reads_oneString ..
  | longTermCacheDelete => exact reads_oneString ..
  | sitewideLock => exact reads_oneString ..
  | sitewideUnlock => exact reads_oneString ..

/-! ## Hosts -/

/-- A request to a cache whose session has been found. -/
theorem within_cached {surroundings : Surroundings} {endpoint : CacheEndpoint} {body : Body}
    {params : Params} (session : RegisteredSession) {request : Storage.Request}
    (hread : endpoint.read params = .ok request) :
    Within (hosting collation) (.request surroundings (.cache endpoint) (some body))
      (.serve session.site.subdomain request)
      ((cached endpoint session params : Program (Memory collation) Response) >>=
        fun response => pure (some response))
      (Storage.Event.code (.serve session.site.subdomain request)) := by
  unfold cached
  rw [hread]
  show Within (hosting collation) _ _
    (((Storage.serve session.site.subdomain request).zoom _ _ >>= fun reply =>
      pure (⟨200, .reply reply⟩ : Response)) >>= fun response => pure (some response)) _
  rw [Program.bind_assoc]
  exact Within.zoom (h := hosting collation) (fun _ _ => rfl) (fun reply => Renders.serve)
    (Storage.serve session.site.subdomain request)

/-- A request to a cache: it is refused, or the session is found and the parameters are read. -/
theorem hosts_cache {surroundings : Surroundings} {endpoint : CacheEndpoint} (body : Body)
    (last : Memory collation) :
    Hosts (hosting collation) (.request surroundings (.cache endpoint) (some body)) last
      ((withSession surroundings (.cache endpoint) body : Program (Memory collation) Response) >>=
        fun response => pure (some response)) := by
  have halone : ∀ {memory : Memory collation} {response : Response},
      Refusal endpoint memory (some body) response →
      Hosts (hosting collation) (.request surroundings (.cache endpoint) (some body)) memory
        (pure (some response)) := fun hrefusal => Alone.refused hrefusal
  unfold withSession
  cases hparams : body.params with
  | error fault =>
      have hfailed := (reads_params body).allowed_of_error hparams
      exact halone (hfailed ▸ .noObject hparams)
  | ok params =>
      by_cases hmissing : params "sessionId" = .null
      · simp only [hmissing, if_true]
        exact halone (.missing hparams hmissing)
      · simp only [hmissing, if_false]
        cases hid : iparam params "sessionId" with
        | error fault =>
            have hfailed := (reads_iparam params "sessionId").allowed_of_error hid
            exact halone (hfailed ▸ .noNumber hparams hid)
        | ok sessionId =>
            refine Hosts.read fun memory => ?_
            cases hfind : memory.sessions.find sessionId with
            | none => exact .inl (halone (.invalid hparams hmissing hid hfind))
            | some session =>
                cases hread : endpoint.read params with
                | error fault =>
                    have hfailed := (reads_cacheEndpoint endpoint params).allowed_of_error hread
                    refine .inl ?_
                    show Hosts (hosting collation) _ memory (cached endpoint session params >>= _)
                    unfold cached
                    rw [hread]
                    exact halone (hfailed ▸ .mismatch hparams hmissing hid hfind hread)
                | ok request =>
                    exact .inr ⟨_, .serve hparams hmissing hid hfind hread,
                      within_cached session hread⟩

theorem within_stored {event : Event} {guest : Storage.Event}
    (hrenders : ∀ reply, Renders event guest reply none) :
    Within (hosting collation) event guest (stored guest) (Storage.Event.code guest) := by
  have hzoom : Within (hosting collation) event guest (stored guest)
      (Storage.Event.code guest >>= fun reply => pure (id reply)) :=
    Within.zoom (h := hosting collation) (fun _ _ => rfl) hrenders (Storage.Event.code guest)
  have hsame : (Storage.Event.code guest >>= fun reply => pure (id reply) :
      Storage.Code collation (Option Reply)) = Storage.Event.code guest :=
    Program.bind_pure _
  rw [hsame] at hzoom
  exact hzoom

/-- Every event begins without a guest, or with one that may be let in at any time. -/
theorem receives (event : Event) :
    Receives (hosting collation) event event.code := by
  intro last
  cases event with
  | request surroundings endpoint body =>
      refine .inl ?_
      by_cases hcache : ∃ cache, endpoint = .cache cache
      · obtain ⟨cache, rfl⟩ := hcache
        cases body with
        | none => exact Alone.refused .malformed
        | some body => exact hosts_cache body last
      · have hother : ∀ cache, endpoint ≠ .cache cache := fun cache hsame => hcache ⟨cache, hsame⟩
        exact Hosts.of_silent (quiet_process hother surroundings body)
          (fun _ _ => Alone.other hother) last
  | reaper =>
      refine .inl (Hosts.read fun memory => .inl (Hosts.step (fun _ => rfl) fun memory => .inr ?_))
      exact ⟨.garbageCollect, .garbageCollect, within_stored fun _ => .garbageCollect⟩
  | pass seconds => exact .inr ⟨.pass seconds, .pass, within_stored fun _ => .pass⟩
  | drop key => exact .inr ⟨.drop key, .drop, within_stored fun _ => .drop⟩

/-! ## Runs -/

/-- **What the databases see is a run of `Storage`.**  In every interleaving of requests over HTTP
with the Reaper and the clock, the statements are those of a run in which every request to a cache
or the lock is one for the subdomain of the session that was in the registry under its id at a
moment of its call.  The responses to these requests are made of the replies, in the same order;
each other request to a cache or the lock was refused, for a reason that held at a moment of its
call, and has executed nothing. -/
theorem served_by_storage {Client : Type} [DecidableEq Client] {memory : Memory collation}
    {labels : List (Label Client Event)}
    {final : State Client (Memory collation) Event (Option Response)}
    (hrun : Transition.run (step fun _ => Event.code) (State.initial memory) labels =
      some final) :
    ∃ labels' final', Transition.run (step fun _ => Storage.Event.code)
        (State.initial memory.storage) labels' = some final' ∧
      final'.memory = final.memory.storage ∧
      Matched (hosting collation) (AnswersNext (fun _ => Event.code) memory labels)
        final.ended final'.ended ∧
      ∀ client event, .start client event ∈ labels' →
        Admits (hosting collation) (fun _ => Event.code) memory labels client event := by
  obtain ⟨labels', final', hrun', hhosted, hadmits⟩ :=
    State.run_guests (h := hosting collation) (fun _ event _ => receives event) hrun
  exact ⟨labels', final', hrun', hhosted.memory, hhosted.ended, hadmits⟩

/-! ## A session of a shop -/

/-- What is given with requests that ask for nothing. -/
def idle : Surroundings where
  getSite := fun _ => .ok ⟨1, "blog", false, none, 1, 0⟩
  rands := [8]
  createInfo := fun _ _ _ => .ok []
  data := fun _ _ => .ok []
  get := fun _ _ _ _ => .ok []
  structures := fun _ _ => .ok []
  options := .ok []

/-- A body with an id, a key and a value. -/
def withKey (id : ℤ) (key value : Str) : Option Body :=
  some (.object fun name =>
    if name = ("sessionId" : Str) then .number id
    else if name = ("key" : Str) then .string key
    else if name = ("value" : Str) then .string value
    else .null)

/-- A session of the shop that was opened at time zero. -/
def shopSession : RegisteredSession := ⟨0, ⟨0, "shop", false, none, 1, 0⟩, 0⟩

/-- Nothing is stored, and the session has the id 7. -/
def shopOpen : Memory .binary :=
  ⟨OrderedMap.empty.assign 7 shopSession, 1,
    ⟨0, Table.empty, Table.empty, Table.empty, fun _ => none⟩⟩

/-- A Set with the id of the session, and one with an id that is not there. -/
def rightAndWrongId : List (Label Bool Event) :=
  [.start true (.request idle (.cache .sessionCacheSet) (withKey 7 "id" "cart")),
    .start false (.request idle (.cache .sessionCacheSet) (withKey 9 "id" "none")),
    .act true, .act true, .act false, .act false, .act true, .act true]

theorem served_by_storage_rightAndWrongId :
    ∃ (labels : List (Label Bool Storage.Event))
        (final : State Bool (Storage.Memory .binary) Storage.Event (Option Reply)),
      Transition.run (step fun _ => Storage.Event.code) (State.initial shopOpen.storage) labels =
        some final ∧
      (Storage.MysqlProxy.sessionCacheGet "shop" "id").alone final.memory =
        some (("cart" : Str), final.memory) := by
  obtain ⟨final, hrun, hget⟩ : ∃ final : State Bool (Memory .binary) Event (Option Response),
      Transition.run (step fun _ => Event.code) (State.initial shopOpen) rightAndWrongId =
        some final ∧
      (Storage.MysqlProxy.sessionCacheGet "shop" "id").alone final.memory.storage =
        some (("cart" : Str), final.memory.storage) := ⟨_, rfl, rfl⟩
  obtain ⟨labels, seen, hseen, hmemory, -, -⟩ := served_by_storage hrun
  exact ⟨labels, seen, hseen, hmemory ▸ hget⟩

end VaeDb.Process
