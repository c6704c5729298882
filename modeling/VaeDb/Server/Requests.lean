import VaeDb.Cache.Storage
import VaeDb.Library.Guests
import VaeDb.Server.Authentication
import VaeDb.Session.Registry

/-!
# Requests over HTTP

`Server::process` and the handlers, from the body of a request to the response, and the Reaper:
programs over the registry of the sessions and all that is stored.  The registry is read and
changed in one step at a time, under `sessionsMutex`, and what a handler does to the databases
are the statements of `Storage.serve`.

The other calls of a request are given with it: what `getSite` returns, the values of `rand()`,
and what a `Session` makes of a query.
-/

namespace VaeDb.Process

open Registry (SessionMap RegisteredSession freeId reap)
open Server (Json OpenSessionArguments Params Site iparam openSessionArguments sparam typeMismatch)
open Storage (Reply)
open Threads

/-! ## Bodies and responses -/

/-- What `json::parse` makes of a body.  Of a value that is no object only the name of its type
counts; the empty body is taken for an object without members. -/
inductive Body
  | object (params : Params)
  | null
  | other (typeName : Str)

/-- The object that `params[..]` looks into; a `null` turns into one. -/
def Body.params : Body → Outcome Params
  | .object params => pure params
  | .null => pure fun _ => .null
  | .other typeName => throw (.jsonTypeError
      (("[json.exception.type_error.305] cannot use operator[] with " : Str) ++ typeName))

/-- What a response is made of. -/
inductive Content
  | text (content : Str)
  | error (name what : Str)
  | pong
  | opened (sessionId generation : ℤ)
  | closed (sessionId : ℤ)
  | reply (reply : Reply)
  | answer (json : Str)

/-- A response: its status, and its content. -/
structure Response where
  status : ℕ
  content : Content

/-- What `process` makes of an exception. -/
def Response.ofFault : Fault → Response
  | .vaeDbQueryError what => ⟨400, .error "VaedbQueryError" what⟩
  | .vaeDbInternalError what => ⟨500, .error "VaedbInternalError" what⟩
  | _ => ⟨500, .text "\x7berror:'error'\x7d"⟩

def Response.missingId : Response := ⟨400, .text "\x7berror:'missing session ID'\x7d"⟩

def Response.invalidId : Response := ⟨400, .text "\x7berror:'invalid session ID'\x7d"⟩

def Response.failed : Response := ⟨500, .text "\x7berror:'error'\x7d"⟩

/-! ## Endpoints -/

/-- The endpoints of the caches and the lock. -/
inductive CacheEndpoint
  | shortTermCacheGet
  | shortTermCacheSet
  | shortTermCacheDelete
  | sessionCacheGet
  | sessionCacheSet
  | sessionCacheDelete
  | longTermCacheGet
  | longTermCacheSet
  | longTermCacheDelete
  | longTermCacheEmpty
  | longTermCacheSweeperInfo
  | sitewideLock
  | sitewideUnlock
  deriving DecidableEq

inductive Endpoint
  | ping
  | openSession
  | closeSession
  | createInfo
  | data
  | get
  | structures
  | cache (endpoint : CacheEndpoint)

section

variable (params : Params)

/-- How `Server::shortTermCacheGet` reads its parameters. -/
def shortTermCacheGet : Outcome Storage.Request := do
  let key ← sparam params "key"
  let _ ← iparam params "flags"
  return .shortTermCacheGet key

def shortTermCacheSet : Outcome Storage.Request := do
  let key ← sparam params "key"
  let value ← sparam params "value"
  let _ ← iparam params "flags"
  let expireInterval ← iparam params "expireInterval"
  return .shortTermCacheSet key value expireInterval

def longTermCacheGet : Outcome Storage.Request := do
  let key ← sparam params "key"
  let renewExpiry ← iparam params "renewExpiry"
  let useShortTermCache ← iparam params "useShortTermCache"
  return .longTermCacheGet key renewExpiry useShortTermCache

def longTermCacheSet : Outcome Storage.Request := do
  let key ← sparam params "key"
  let value ← sparam params "value"
  let expireInterval ← iparam params "expireInterval"
  let isFilename ← iparam params "isFilename"
  return .longTermCacheSet key value expireInterval isFilename

def sessionCacheSet : Outcome Storage.Request := do
  let key ← sparam params "key"
  let value ← sparam params "value"
  return .sessionCacheSet key value

/-- The handlers that read one string. -/
def oneString (name : Str) (request : Str → Storage.Request) : Outcome Storage.Request := do
  let value ← sparam params name
  return request value

def shortTermCacheDelete : Outcome Storage.Request := oneString params "key" .shortTermCacheDelete

def sessionCacheGet : Outcome Storage.Request := oneString params "key" .sessionCacheGet

def sessionCacheDelete : Outcome Storage.Request := oneString params "key" .sessionCacheDelete

def longTermCacheDelete : Outcome Storage.Request := oneString params "key" .longTermCacheDelete

def sitewideLock : Outcome Storage.Request := oneString params "iden" .sitewideLock

def sitewideUnlock : Outcome Storage.Request := oneString params "iden" .sitewideUnlock

end

/-- What the handler of an endpoint reads, before it does anything. -/
def CacheEndpoint.read (params : Params) : CacheEndpoint → Outcome Storage.Request
  | .shortTermCacheGet => Process.shortTermCacheGet params
  | .shortTermCacheSet => Process.shortTermCacheSet params
  | .shortTermCacheDelete => Process.shortTermCacheDelete params
  | .sessionCacheGet => Process.sessionCacheGet params
  | .sessionCacheSet => Process.sessionCacheSet params
  | .sessionCacheDelete => Process.sessionCacheDelete params
  | .longTermCacheGet => Process.longTermCacheGet params
  | .longTermCacheSet => Process.longTermCacheSet params
  | .longTermCacheDelete => Process.longTermCacheDelete params
  | .longTermCacheEmpty => pure .longTermCacheEmpty
  | .longTermCacheSweeperInfo => pure .longTermCacheSweeperInfo
  | .sitewideLock => Process.sitewideLock params
  | .sitewideUnlock => Process.sitewideUnlock params

/-! ## What a request works on -/

variable {collation : Cache.Collation}

/-- The registry, the address of the next `Session`, and all that is stored. -/
structure Memory (collation : Cache.Collation) where
  sessions : SessionMap
  nextAddress : ℕ
  storage : Storage.Memory collation

/-- The databases have changed. -/
def Memory.store (memory : Memory collation) (storage : Storage.Memory collation) :
    Memory collation :=
  { memory with storage }

/-- What is given with a request: `getSite`, the values of `rand()`, and the functions of
`Session`, with the `options` of a `get`. -/
structure Surroundings where
  getSite : Server.Request → Outcome Site
  rands : List ℤ
  createInfo : RegisteredSession → ℤ → Str → Outcome Str
  data : RegisteredSession → ℤ → Outcome Str
  get : RegisteredSession → ℤ → Str → List (Str × Str) → Outcome Str
  structures : RegisteredSession → ℤ → Outcome Str
  options : Outcome (List (Str × Str))

/-- The code of a request, which may throw. -/
abbrev Code (collation : Cache.Collation) := Throwing Fault (Memory collation)

/-- A computation that touches nothing. -/
def given {Value : Type} (outcome : Outcome Value) : Code collation Value :=
  ExceptT.mk (pure outcome)

/-! ## Handlers -/

/-- `Server::openSession`.  The last step is under `sessionsMutex`. -/
def openSession (surroundings : Surroundings) (body : Body) : Code collation Content := do
  let params ← given body.params
  let arguments ← given (openSessionArguments params)
  let site ← given (surroundings.getSite arguments.request)
  ExceptT.mk (Program.act (fun memory =>
    (freeId memory.sessions arguments.suggestedSessionId surroundings.rands).map fun sessionId =>
      (Except.ok (Content.opened sessionId site.generation),
        { memory with
          sessions := memory.sessions.assign sessionId
            ⟨memory.nextAddress, site, memory.storage.now⟩
          nextAddress := memory.nextAddress + 1 })) .done)

/-- `Server::closeSession`. -/
def closeSession (params : Params) : Code collation Content := do
  let sessionId ← given (iparam params "sessionId")
  Throwing.write fun memory => { memory with sessions := memory.sessions.erase sessionId }
  return .closed sessionId

/-- The handlers that ask the session. -/
def createInfo (surroundings : Surroundings) (session : RegisteredSession) (params : Params) :
    Outcome Content := do
  let query ← sparam params "query"
  let responseId ← iparam params "responseId"
  let json ← surroundings.createInfo session responseId query
  return .answer json

def data (surroundings : Surroundings) (session : RegisteredSession) (params : Params) :
    Outcome Content := do
  let responseId ← iparam params "responseId"
  let json ← surroundings.data session responseId
  return .answer json

def get (surroundings : Surroundings) (session : RegisteredSession) (params : Params) :
    Outcome Content := do
  let query ← sparam params "query"
  let responseId ← iparam params "responseId"
  let options ←
    match params "options" with
    | .null => pure []
    | .object => surroundings.options
    | value => throw (typeMismatch "object" value)
  let json ← surroundings.get session responseId query options
  return .answer json

def structures (surroundings : Surroundings) (session : RegisteredSession) (params : Params) :
    Outcome Content := do
  let responseId ← iparam params "responseId"
  let json ← surroundings.structures session responseId
  return .answer json

/-- A handler of the caches or the lock: what it reads, and then its statements. -/
def cached (endpoint : CacheEndpoint) (session : RegisteredSession) (params : Params) :
    Program (Memory collation) Response :=
  match endpoint.read params with
  | .error fault => pure (.ofFault fault)
  | .ok request =>
      (Storage.serve session.site.subdomain request).zoom Memory.storage Memory.store >>=
        fun reply => pure ⟨200, .reply reply⟩

/-! ## `Server::process` -/

/-- The `try` around a handler. -/
def caught (handler : Code collation Content) : Program (Memory collation) Response :=
  handler.run >>= fun ended =>
    match ended with
    | .ok content => pure ⟨200, content⟩
    | .error fault => pure (.ofFault fault)

/-- `func(session, params)`. -/
def call (surroundings : Surroundings) (endpoint : Endpoint) (session : RegisteredSession)
    (params : Params) : Program (Memory collation) Response :=
  match endpoint with
  | .ping => caught (pure .pong)
  | .openSession => caught (openSession surroundings (.object params))
  | .closeSession => caught (closeSession params)
  | .createInfo => caught (given (createInfo surroundings session params))
  | .data => caught (given (data surroundings session params))
  | .get => caught (given (get surroundings session params))
  | .structures => caught (given (structures surroundings session params))
  | .cache endpoint => cached endpoint session params

/-- `process` for an endpoint that requires a session: it is looked up under `sessionsMutex`. -/
def withSession (surroundings : Surroundings) (endpoint : Endpoint) (body : Body) :
    Program (Memory collation) Response :=
  match body.params with
  | .error fault => pure (.ofFault fault)
  | .ok params =>
      if params "sessionId" = .null then pure .missingId
      else
        match iparam params "sessionId" with
        | .error fault => pure (.ofFault fault)
        | .ok sessionId =>
            Program.read (fun memory => memory.sessions.find sessionId) >>= fun session =>
              match session with
              | none => pure .invalidId
              | some session => call surroundings endpoint session params

/-- `Server::process`; nothing for a body that `json::parse` throws at. -/
def process (surroundings : Surroundings) (endpoint : Endpoint) (body : Option Body) :
    Program (Memory collation) Response :=
  match body with
  | none => pure .failed
  | some body =>
      match endpoint with
      | .ping => caught (pure .pong)
      | .openSession => caught (openSession surroundings body)
      | endpoint => withSession surroundings endpoint body

/-! ## Events -/

/-- What happens: a request, a round of the `Reaper`, seconds that pass, or an item that memcached
drops. -/
inductive Event
  | request (surroundings : Surroundings) (endpoint : Endpoint) (body : Option Body)
  | reaper
  | pass (seconds : ℕ)
  | drop (key : Str)

/-- Something that concerns the databases only. -/
def stored (event : Storage.Event) : Program (Memory collation) (Option Response) :=
  event.code.zoom Memory.storage Memory.store >>= fun _ => pure none

/-- What it does, and the response to a request.  The Reaper reads the clock before it takes
`sessionsMutex`. -/
def Event.code : Event → Program (Memory collation) (Option Response)
  | .request surroundings endpoint body =>
      process surroundings endpoint body >>= fun response => pure (some response)
  | .reaper =>
      Program.read (fun memory => memory.storage.now) >>= fun now =>
        Program.step (fun memory => ((), { memory with sessions := reap memory.sessions now })) >>=
          fun _ => stored .garbageCollect
  | .pass seconds => stored (.pass seconds)
  | .drop key => stored (.drop key)

end VaeDb.Process
