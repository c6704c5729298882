import Mathlib.Data.Char
import Mathlib.Data.List.Lex
import VaeDb.Cache.SessionCache
import VaeDb.Cache.SharedKeys
import VaeDb.Library.Isolation
import VaeDb.Library.OrderedMap
import VaeDb.Locks.SitewideLock

/-!
# All that is stored, and a clock

The three tables in MySQL, memcached, and the time.  The functions of `MysqlProxy` and
`MemcacheProxy` are programs whose actions are single statements and commands, and so are the
handlers of `Server` that use them: the statements of concurrent requests interleave.

Time counts in seconds.  Values that are over stay where they are until somebody deletes them:
the Sweeper deletes rows of `kvstore`, the Reaper rows of `session_data`, a failed attempt to
lock rows of `locks`, and memcached gives nothing that is over.  Besides it may drop anything at
any time.

Dates are in UTC and do not overflow, values fit their columns, and a statement fails only if
its key is taken.
-/

namespace VaeDb.Storage

open Cache (Collation primaryKey longTermKey shortTermKey)
open Locks (LockTable fullKey)
open SessionCache (SessionData)
open Threads

/-! ## Dates -/

/-- `DATE_ADD(NOW(), INTERVAL ? DAY)`. -/
def dateAdd (now days : ℤ) : ℤ := now + 86400 * days

/-- `DATEDIFF`: how many midnights lie between two times. -/
def dateDiff (later earlier : ℤ) : ℤ := later / 86400 - earlier / 86400

/-! ## `kvstore` -/

/-- A row of `kvstore`; `expireAt` is a time. -/
structure KvRow where
  subdomain : Str
  k : Str
  v : Str
  expireAt : ℤ
  isFilename : ℤ

/-- The primary key of a row. -/
def KvRow.key (collation : Collation) (row : KvRow) : Str × Str :=
  primaryKey collation row.subdomain row.k

/-- A row with a new expiry. -/
def KvRow.expiringAt (expireAt : ℤ) (row : KvRow) : KvRow := { row with expireAt }

theorem KvRow.key_expiringAt (collation : Collation) (expireAt : ℤ) (row : KvRow) :
    (row.expiringAt expireAt).key collation = row.key collation := rfl

/-- The table `kvstore`. -/
abbrev KvStore (collation : Collation) := Table (KvRow.key collation)

variable {collation : Collation}

namespace KvStore

/-- ``SELECT `v`, .. WHERE `k`=? AND `subdomain`=?`` -/
def selectRows (store : KvStore collation) (subdomain key : Str) : List KvRow :=
  store.select (primaryKey collation subdomain key)

/-- ``UPDATE .. SET `expire_at`=DATE_ADD(NOW(),INTERVAL ? DAY) WHERE `k`=? AND `subdomain`=?`` -/
def renew (store : KvStore collation) (now : ℤ) (subdomain key : Str) (renewExpiry : ℤ) :
    KvStore collation :=
  store.update (fun row => row.key collation = primaryKey collation subdomain key)
    (KvRow.expiringAt (dateAdd now renewExpiry)) (KvRow.key_expiringAt collation _)

/-- ``DELETE .. WHERE `subdomain`=? AND `k`=?`` -/
def deleteKey (store : KvStore collation) (subdomain key : Str) : KvStore collation :=
  store.delete fun row => row.key collation = primaryKey collation subdomain key

/-- ``DELETE .. WHERE `subdomain`=?`` -/
def deleteSubdomain (store : KvStore collation) (subdomain : Str) : KvStore collation :=
  store.delete fun row => collation row.subdomain = collation subdomain

/-- ``INSERT .. VALUES(?,?,?,DATE_ADD(NOW(), INTERVAL ? DAY),?)``; nothing if the primary
key is taken. -/
def insertRow (store : KvStore collation) (now : ℤ) (subdomain key value : Str)
    (expireInterval isFilename : ℤ) : Option (KvStore collation) :=
  store.insert ⟨subdomain, key, value, dateAdd now expireInterval, isFilename⟩

/-- ``DELETE .. WHERE `expire_at`<NOW() AND `subdomain`=?`` -/
def deleteExpired (store : KvStore collation) (now : ℤ) (subdomain : Str) : KvStore collation :=
  store.delete fun row => row.expireAt < now ∧ collation row.subdomain = collation subdomain

/-- ``SELECT `k`,`v` .. WHERE `is_filename`='1' AND `subdomain`=?`` -/
def filenameRows (store : KvStore collation) (subdomain : Str) : List KvRow :=
  store.rows.filter fun row =>
    row.isFilename = 1 ∧ collation row.subdomain = collation subdomain

end KvStore

/-- ``DELETE .. WHERE `expires`<UNIX_TIMESTAMP()`` -/
def deleteExpired (table : SessionData collation) (now : ℤ) : SessionData collation :=
  table.delete fun row => row.expires < now

/-! ## memcached -/

/-- A value, and when it is over, if ever. -/
structure Item where
  value : Str
  exptime : Option ℤ

/-- memcached gives the item. -/
def Item.isLive (item : Item) (now : ℤ) : Bool := item.exptime.all fun time => now < time

/-- What an `expireInterval` says: never for zero, a Unix time for more than thirty days, and
else the seconds from now on.  The binary protocol sends it in 32 bits without a sign, so a
negative one is a time in the next century. -/
def exptime (now expireInterval : ℤ) : Option ℤ :=
  let sent := expireInterval % 2 ^ 32
  if sent = 0 then none
  else if sent > 60 * 60 * 24 * 30 then some sent
  else some (now + sent)

theorem exptime_day (now : ℤ) : exptime now 86400 = some (now + 86400) := rfl

/-- What memcached holds. -/
abbrev Memcached := Str → Option Item

/-! ## What requests share -/

/-- The databases, and the time. -/
structure Memory (collation : Collation) where
  now : ℤ
  kvstore : KvStore collation
  sessionData : SessionData collation
  locks : LockTable collation
  memcached : Memcached

/-- The statements and commands that change something. -/
inductive Statement
  | renew (subdomain key : Str) (renewExpiry : ℤ)
  | deleteKey (subdomain key : Str)
  | deleteSubdomain (subdomain : Str)
  | insertRow (subdomain key value : Str) (expireInterval isFilename : ℤ)
  | deleteExpired (subdomain : Str)
  | deleteSession (subdomain key : Str)
  | insertSession (subdomain key value : Str)
  | deleteExpiredSessions
  | insertLock (name : Str)
  | deleteOldLocks
  | deleteLock (name : Str)
  | set (key value : Str) (expireInterval : ℤ)
  | remove (key : Str)
  | pass (seconds : ℕ)

/-- What a statement does; an `INSERT` whose key is taken does nothing. -/
def Statement.apply (memory : Memory collation) : Statement → Memory collation
  | .renew subdomain key renewExpiry =>
      { memory with kvstore := memory.kvstore.renew memory.now subdomain key renewExpiry }
  | .deleteKey subdomain key =>
      { memory with kvstore := memory.kvstore.deleteKey subdomain key }
  | .deleteSubdomain subdomain =>
      { memory with kvstore := memory.kvstore.deleteSubdomain subdomain }
  | .insertRow subdomain key value expireInterval isFilename =>
      { memory with
        kvstore := (memory.kvstore.insertRow memory.now subdomain key value expireInterval
          isFilename).getD memory.kvstore }
  | .deleteExpired subdomain =>
      { memory with kvstore := memory.kvstore.deleteExpired memory.now subdomain }
  | .deleteSession subdomain key =>
      { memory with sessionData := memory.sessionData.deleteRow subdomain key }
  | .insertSession subdomain key value =>
      { memory with
        sessionData := (memory.sessionData.insertRow memory.now subdomain key value
          (86400 * 2)).getD memory.sessionData }
  | .deleteExpiredSessions =>
      { memory with sessionData := Storage.deleteExpired memory.sessionData memory.now }
  | .insertLock name =>
      { memory with locks := (memory.locks.insertRow memory.now name).getD memory.locks }
  | .deleteOldLocks => { memory with locks := memory.locks.deleteOld memory.now }
  | .deleteLock name => { memory with locks := memory.locks.deleteName name }
  | .set key value expireInterval =>
      { memory with
        memcached := Function.update memory.memcached key
          (some ⟨value, exptime memory.now expireInterval⟩) }
  | .remove key => { memory with memcached := Function.update memory.memcached key none }
  | .pass seconds => { memory with now := memory.now + seconds }

/-- A program of statements and commands. -/
abbrev Code (collation : Collation) := Program (Memory collation)

/-- Execute one. -/
def execute (statement : Statement) : Code collation Unit :=
  Program.write fun memory => statement.apply memory

namespace MysqlProxy

/-- The body of the loop over the result set: a row is its value and its remaining days. -/
def visitRow (subdomain key : Str) (renewExpiry : ℤ) (row : Str × ℤ) : Code collation Str := do
  if renewExpiry > 0 ∧ row.2 < 10 then execute (.renew subdomain key renewExpiry)
  return row.1

/-- `MysqlProxy::longTermCacheGet`. -/
def longTermCacheGet (subdomain key : Str) (renewExpiry : ℤ) : Code collation Str := do
  let rows ← Program.read fun memory =>
    (memory.kvstore.selectRows subdomain key).map fun row =>
      (row.v, dateDiff row.expireAt memory.now)
  rows.foldlM (fun _ row => visitRow subdomain key renewExpiry row) []

/-- `MysqlProxy::longTermCacheSet`.  A failing `INSERT` is logged. -/
def longTermCacheSet (subdomain key value : Str) (expireInterval isFilename : ℤ) :
    Code collation Unit := do
  execute (.deleteKey subdomain key)
  execute (.insertRow subdomain key value expireInterval isFilename)

/-- `MysqlProxy::longTermCacheEmpty`. -/
def longTermCacheEmpty (subdomain : Str) : Code collation Unit :=
  execute (.deleteSubdomain subdomain)

/-- `MysqlProxy::longTermCacheDelete`. -/
def longTermCacheDelete (subdomain key : Str) : Code collation Unit :=
  execute (.deleteKey subdomain key)

/-- `MysqlProxy::longTermCacheSweeperInfo`: the `DELETE` comes first. -/
def longTermCacheSweeperInfo (subdomain : Str) : Code collation (OrderedMap Str Str) := do
  execute (.deleteExpired subdomain)
  let rows ← Program.read fun memory => memory.kvstore.filenameRows subdomain
  return rows.foldl (fun data row => data.assign row.k row.v) OrderedMap.empty

/-- `MysqlProxy::sessionCacheGet`. -/
def sessionCacheGet (subdomain key : Str) : Code collation Str :=
  Program.read fun memory =>
    (memory.sessionData.selectRows subdomain key).foldl (fun _ row => row.data) []

/-- `MysqlProxy::sessionCacheSet`.  A failing `INSERT` is logged. -/
def sessionCacheSet (subdomain key value : Str) : Code collation Unit := do
  execute (.deleteSession subdomain key)
  execute (.insertSession subdomain key value)

/-- `MysqlProxy::sessionCacheDelete`. -/
def sessionCacheDelete (subdomain key : Str) : Code collation Unit :=
  execute (.deleteSession subdomain key)

/-- `MysqlProxy::lock`. -/
def lock (subdomain : Str) : Code collation ℤ := do
  let gotLock ← Program.step fun memory =>
    ((memory.locks.insertRow memory.now subdomain).isSome,
      (Statement.insertLock subdomain).apply memory)
  if gotLock then return 1
  else
    execute .deleteOldLocks
    return 0

/-- `MysqlProxy::unlock`. -/
def unlock (subdomain : Str) : Code collation ℤ := do
  execute (.deleteLock subdomain)
  return 1

/-- `MysqlProxy::garbageCollect`. -/
def garbageCollect : Code collation Unit := execute .deleteExpiredSessions

end MysqlProxy

namespace MemcacheProxy

/-- `MemcacheProxy::get`; a key without an item reads as the empty string. -/
def get (key : Str) : Code collation Str :=
  Program.read fun memory =>
    match memory.memcached key with
    | some item => if item.isLive memory.now then item.value else []
    | none => []

/-- `MemcacheProxy::set`. -/
def set (key value : Str) (expireInterval : ℤ) : Code collation Unit :=
  execute (.set key value expireInterval)

/-- `MemcacheProxy::remove`. -/
def remove (key : Str) : Code collation Unit := execute (.remove key)

end MemcacheProxy

/-! ## The handlers of `Server` -/

/-- The JSON that a handler answers with. -/
inductive Reply
  | value (key value : Str)
  | key (key : Str)
  | empty
  | entries (data : OrderedMap Str Str)
  | status (status : ℤ)

/-- A request to the caches or for a lock. -/
inductive Request
  | shortTermCacheGet (key : Str)
  | shortTermCacheSet (key value : Str) (expireInterval : ℤ)
  | shortTermCacheDelete (key : Str)
  | sessionCacheGet (key : Str)
  | sessionCacheSet (key value : Str)
  | sessionCacheDelete (key : Str)
  | longTermCacheGet (key : Str) (renewExpiry useShortTermCache : ℤ)
  | longTermCacheSet (key value : Str) (expireInterval isFilename : ℤ)
  | longTermCacheDelete (key : Str)
  | longTermCacheEmpty
  | longTermCacheSweeperInfo
  | sitewideLock (iden : Str)
  | sitewideUnlock (iden : Str)

/-- `Server::longTermCacheGet`. -/
def longTermCacheGet (subdomain key : Str) (renewExpiry useShortTermCache : ℤ) :
    Code collation Reply := do
  if useShortTermCache ≠ 0 then
    let answer ← MemcacheProxy.get (longTermKey subdomain key)
    if answer.length > 0 then return .value key answer
  let value ← MysqlProxy.longTermCacheGet subdomain key renewExpiry
  MemcacheProxy.set (longTermKey subdomain key) value 86400
  return .value key value

/-- `Server::longTermCacheSet`. -/
def longTermCacheSet (subdomain key value : Str) (expireInterval isFilename : ℤ) :
    Code collation Reply := do
  MysqlProxy.longTermCacheSet subdomain key value expireInterval isFilename
  MemcacheProxy.set (longTermKey subdomain key) value 86400
  return .value key value

/-- `Server::longTermCacheDelete`. -/
def longTermCacheDelete (subdomain key : Str) : Code collation Reply := do
  MysqlProxy.longTermCacheDelete subdomain key
  MemcacheProxy.remove (longTermKey subdomain key)
  return .key key

/-- The handler of a request of a session on a Site with this subdomain. -/
def serve (subdomain : Str) : Request → Code collation Reply
  | .shortTermCacheGet key => do
      let value ← MemcacheProxy.get (shortTermKey subdomain key)
      return .value key value
  | .shortTermCacheSet key value expireInterval => do
      MemcacheProxy.set (shortTermKey subdomain key) value expireInterval
      return .value key value
  | .shortTermCacheDelete key => do
      MemcacheProxy.remove (shortTermKey subdomain key)
      return .key key
  | .sessionCacheGet key => do
      let value ← MysqlProxy.sessionCacheGet subdomain key
      return .value key value
  | .sessionCacheSet key value => do
      MysqlProxy.sessionCacheSet subdomain key value
      return .value key value
  | .sessionCacheDelete key => do
      MysqlProxy.sessionCacheDelete subdomain key
      return .key key
  | .longTermCacheGet key renewExpiry useShortTermCache =>
      longTermCacheGet subdomain key renewExpiry useShortTermCache
  | .longTermCacheSet key value expireInterval isFilename =>
      longTermCacheSet subdomain key value expireInterval isFilename
  | .longTermCacheDelete key => longTermCacheDelete subdomain key
  | .longTermCacheEmpty => do
      MysqlProxy.longTermCacheEmpty subdomain
      return .empty
  | .longTermCacheSweeperInfo => do
      let data ← MysqlProxy.longTermCacheSweeperInfo subdomain
      return .entries data
  | .sitewideLock iden => do
      let status ← MysqlProxy.lock (fullKey subdomain iden)
      return .status status
  | .sitewideUnlock iden => do
      let status ← MysqlProxy.unlock (fullKey subdomain iden)
      return .status status

/-- What happens: a request of a session, a pass of the Reaper, seconds that pass, or an item
that memcached drops. -/
inductive Event
  | serve (subdomain : Str) (request : Request)
  | garbageCollect
  | pass (seconds : ℕ)
  | drop (key : Str)

/-- What it does, and the answer to a request. -/
def Event.code : Event → Code collation (Option Reply)
  | .serve subdomain request => do
      let reply ← Storage.serve subdomain request
      return some reply
  | .garbageCollect => do
      MysqlProxy.garbageCollect
      return none
  | .pass seconds => do
      execute (.pass seconds)
      return none
  | .drop key => do
      MemcacheProxy.remove key
      return none

/-! ## What is executed for an event -/

/-- The statements that the code for an event may execute. -/
def Event.Issues : Event → Statement → Prop
  | .serve subdomain request, statement =>
      match request with
      | .shortTermCacheGet _ => False
      | .shortTermCacheSet key value expireInterval =>
          statement = .set (shortTermKey subdomain key) value expireInterval
      | .shortTermCacheDelete key => statement = .remove (shortTermKey subdomain key)
      | .sessionCacheGet _ => False
      | .sessionCacheSet key value =>
          statement = .deleteSession subdomain key ∨ statement = .insertSession subdomain key value
      | .sessionCacheDelete key => statement = .deleteSession subdomain key
      | .longTermCacheGet key renewExpiry _ =>
          statement = .renew subdomain key renewExpiry ∨
            ∃ value, statement = .set (longTermKey subdomain key) value 86400
      | .longTermCacheSet key value expireInterval isFilename =>
          statement = .deleteKey subdomain key ∨
            statement = .insertRow subdomain key value expireInterval isFilename ∨
            statement = .set (longTermKey subdomain key) value 86400
      | .longTermCacheDelete key =>
          statement = .deleteKey subdomain key ∨ statement = .remove (longTermKey subdomain key)
      | .longTermCacheEmpty => statement = .deleteSubdomain subdomain
      | .longTermCacheSweeperInfo => statement = .deleteExpired subdomain
      | .sitewideLock iden =>
          statement = .insertLock (fullKey subdomain iden) ∨ statement = .deleteOldLocks
      | .sitewideUnlock iden => statement = .deleteLock (fullKey subdomain iden)
  | .garbageCollect, statement => statement = .deleteExpiredSessions
  | .pass seconds, statement => statement = .pass seconds
  | .drop key, statement => statement = .remove key

section

variable {A : Memory collation → Prop}

theorem keeps_execute {statement : Statement}
    (h : ∀ memory : Memory collation, A memory → A (statement.apply memory)) :
    Keeps A (execute statement) := Keeps.write h

theorem MysqlProxy.keeps_longTermCacheGet {subdomain key : Str} {renewExpiry : ℤ}
    (h : ∀ memory : Memory collation, A memory →
      A ((Statement.renew subdomain key renewExpiry).apply memory)) :
    Keeps A (MysqlProxy.longTermCacheGet subdomain key renewExpiry) := by
  refine (Keeps.read _).bind fun rows => Keeps.foldlM (fun _ row => ?_) rows []
  unfold visitRow
  split
  · exact (keeps_execute h).bind fun _ => Keeps.pure _
  · exact Keeps.pure _

/-- A Get asks MySQL and fills memcached, or does not. -/
theorem keeps_longTermCacheGet {subdomain key : Str} {renewExpiry useShortTermCache : ℤ}
    (hfill : Keeps A (do
      let value ← MysqlProxy.longTermCacheGet subdomain key renewExpiry
      MemcacheProxy.set (longTermKey subdomain key) value 86400
      return .value key value : Code collation Reply)) :
    Keeps A (longTermCacheGet subdomain key renewExpiry useShortTermCache) := by
  unfold longTermCacheGet
  split
  · refine (Keeps.read _).bind fun answer => ?_
    split
    · exact Keeps.pure _
    · exact hfill
  · exact hfill

/-- What all statements keep that a request may execute, its handler keeps. -/
theorem keeps_serve {subdomain : Str} {request : Request}
    (h : ∀ statement, (Event.serve subdomain request).Issues statement →
      ∀ memory : Memory collation, A memory → A (statement.apply memory)) :
    Keeps A (serve subdomain request) := by
  cases request with
  | shortTermCacheGet key => exact (Keeps.read _).bind fun _ => Keeps.pure _
  | shortTermCacheSet key value expireInterval =>
      exact (keeps_execute (h _ rfl)).bind fun _ => Keeps.pure _
  | shortTermCacheDelete key => exact (keeps_execute (h _ rfl)).bind fun _ => Keeps.pure _
  | sessionCacheGet key => exact (Keeps.read _).bind fun _ => Keeps.pure _
  | sessionCacheSet key value =>
      exact ((keeps_execute (h _ (.inl rfl))).bind fun _ =>
        keeps_execute (h _ (.inr rfl))).bind fun _ => Keeps.pure _
  | sessionCacheDelete key => exact (keeps_execute (h _ rfl)).bind fun _ => Keeps.pure _
  | longTermCacheGet key renewExpiry useShortTermCache =>
      exact keeps_longTermCacheGet
        ((MysqlProxy.keeps_longTermCacheGet (h _ (.inl rfl))).bind fun value =>
          (keeps_execute (h _ (.inr ⟨value, rfl⟩))).bind fun _ => Keeps.pure _)
  | longTermCacheSet key value expireInterval isFilename =>
      exact ((keeps_execute (h _ (.inl rfl))).bind fun _ =>
        keeps_execute (h _ (.inr (.inl rfl)))).bind fun _ =>
          (keeps_execute (h _ (.inr (.inr rfl)))).bind fun _ => Keeps.pure _
  | longTermCacheDelete key =>
      exact (keeps_execute (h _ (.inl rfl))).bind fun _ =>
        (keeps_execute (h _ (.inr rfl))).bind fun _ => Keeps.pure _
  | longTermCacheEmpty => exact (keeps_execute (h _ rfl)).bind fun _ => Keeps.pure _
  | longTermCacheSweeperInfo =>
      exact ((keeps_execute (h _ rfl)).bind fun _ => (Keeps.read _).bind fun _ =>
        Keeps.pure _).bind fun _ => Keeps.pure _
  | sitewideLock iden =>
      refine ((Keeps.step (h _ (.inl rfl))).bind fun gotLock => ?_).bind fun _ => Keeps.pure _
      split
      · exact Keeps.pure _
      · exact (keeps_execute (h _ (.inr rfl))).bind fun _ => Keeps.pure _
  | sitewideUnlock iden =>
      exact ((keeps_execute (h _ rfl)).bind fun _ => Keeps.pure _).bind fun _ => Keeps.pure _

/-- What all statements keep that an event may lead to, its code keeps. -/
theorem Event.keeps_code {event : Event}
    (h : ∀ statement, event.Issues statement →
      ∀ memory : Memory collation, A memory → A (statement.apply memory)) :
    Keeps A event.code := by
  cases event with
  | serve subdomain request => exact (keeps_serve h).bind fun _ => Keeps.pure _
  | garbageCollect => exact (keeps_execute (h _ rfl)).bind fun _ => Keeps.pure _
  | pass seconds => exact (keeps_execute (h _ rfl)).bind fun _ => Keeps.pure _
  | drop key => exact (keeps_execute (h _ rfl)).bind fun _ => Keeps.pure _

end

end VaeDb.Storage
