import VaeDb.Cache.Agreement
import VaeDb.Cache.Storage

/-!
# Days and seconds

`Cache.Stores` counts days and lets nothing in memcached expire; `Storage` counts seconds, and
each statement is an action of its own.  Seen in days (`Memory.stores`), a request that nothing
interleaves with does to the second what it does to the first, and is answered alike
(`alone_longTerm`); so it is for the session cache (`alone_session`), whose table the two share.

Between the requests seconds pass, and memcached drops values.  Neither disturbs the agreement
of the two stores, which may find nothing in memcached at any time.  So what the first model says
of a key holds in the second as well (`answered_from_contents`).
-/

namespace VaeDb.Storage

open Cache (Agrees Collation Contents Undisturbed longTermKey shortTermKey)
open Threads

variable {collation : Collation}

/-! ## A memory seen in days -/

/-- A row whose expiry is a day. -/
def KvRow.inDays (row : KvRow) : Cache.KvRow :=
  ⟨row.subdomain, row.k, row.v, row.expireAt / 86400, row.isFilename⟩

theorem KvRow.key_inDays (collation : Collation) (row : KvRow) :
    row.inDays.key collation = row.key collation := rfl

/-- The table `kvstore`, in days. -/
def KvStore.inDays (store : KvStore collation) : Cache.KvStore collation :=
  store.map KvRow.inDays (KvRow.key_inDays collation)

/-- What memcached gives. -/
def Memory.given (memory : Memory collation) : Cache.Memcached := fun key =>
  ((memory.memcached key).filter fun item => item.isLive memory.now).map Item.value

/-- Both stores of the long-term cache. -/
def Memory.stores (memory : Memory collation) : Cache.Stores collation :=
  ⟨memory.kvstore.inDays, memory.given⟩

/-- The day. -/
def Memory.today (memory : Memory collation) : ℤ := memory.now / 86400

theorem dateAdd_inDays (now days : ℤ) : dateAdd now days / 86400 = now / 86400 + days := by
  unfold dateAdd
  omega

/-! ## Statements -/

namespace KvStore

variable (store : KvStore collation) (now : ℤ) (subdomain key : Str)

theorem selectRows_inDays : store.inDays.selectRows subdomain key =
    (store.selectRows subdomain key).map KvRow.inDays :=
  store.select_map (KvRow.key_inDays collation) _

theorem renew_inDays (renewExpiry : ℤ) : (store.renew now subdomain key renewExpiry).inDays =
    store.inDays.renew (now / 86400) subdomain key renewExpiry := by
  refine store.map_update (KvRow.key_inDays collation) (fun _ => rfl) fun row => ?_
  simp only [KvRow.inDays, KvRow.expiringAt, Cache.KvRow.expiringAt, dateAdd_inDays]

theorem deleteKey_inDays :
    (store.deleteKey subdomain key).inDays = store.inDays.deleteKey subdomain key :=
  store.map_delete (KvRow.key_inDays collation) fun _ => rfl

theorem deleteSubdomain_inDays :
    (store.deleteSubdomain subdomain).inDays = store.inDays.deleteSubdomain subdomain :=
  store.map_delete (KvRow.key_inDays collation) fun _ => rfl

theorem insertRow_inDays (value : Str) (expireInterval isFilename : ℤ) :
    store.inDays.insertRow (now / 86400) subdomain key value expireInterval isFilename =
      (store.insertRow now subdomain key value expireInterval isFilename).map inDays := by
  unfold Cache.KvStore.insertRow
  rw [← dateAdd_inDays]
  exact store.map_insert (KvRow.key_inDays collation) ⟨subdomain, key, value, _, isFilename⟩

end KvStore

/-- A value that memcached is given for a day is there. -/
theorem Memory.given_set (memory : Memory collation) (key value : Str) :
    ((Statement.set key value 86400).apply memory).given =
      Cache.MemcacheProxy.set memory.given key value := by
  have hlive : (Item.mk value (exptime memory.now 86400)).isLive memory.now = true := by
    rw [exptime_day]
    simp [Item.isLive]
  funext other
  unfold Memory.given Cache.MemcacheProxy.set
  by_cases hother : other = key
  · subst hother
    simp [Statement.apply, Option.filter, hlive]
  · simp [Statement.apply, hother]

theorem Memory.given_remove (memory : Memory collation) (key : Str) :
    ((Statement.remove key).apply memory).given = Cache.MemcacheProxy.remove memory.given key := by
  funext other
  unfold Memory.given Cache.MemcacheProxy.remove
  by_cases hother : other = key
  · subst hother
    simp [Statement.apply]
  · simp [Statement.apply, hother]

/-! ## Programs without interruption -/

theorem MemcacheProxy.alone_get (memory : Memory collation) (key : Str) :
    (MemcacheProxy.get key).alone memory =
      some (Cache.MemcacheProxy.get memory.given key, memory) := by
  unfold MemcacheProxy.get
  rw [Program.alone_read]
  congr 2
  unfold Cache.MemcacheProxy.get Memory.given
  cases memory.memcached key with
  | none => rfl
  | some item => by_cases hlive : item.isLive memory.now <;> simp [Option.filter, hlive]

namespace MysqlProxy

/-- The loop over a result set, from any row on. -/
theorem alone_visitRows (subdomain key : Str) (renewExpiry now : ℤ) (rows : List KvRow)
    (found : Str) (memory : Memory collation) (hnow : memory.now = now) :
    ∃ kvstore, ((rows.map fun row => (row.v, dateDiff row.expireAt now)).foldlM
        (fun _ row => visitRow subdomain key renewExpiry row) found).alone memory =
      some (((rows.map KvRow.inDays).foldl (Cache.MysqlProxy.visitRow (now / 86400) (now / 86400)
        subdomain key renewExpiry) (found, memory.kvstore.inDays)).1, { memory with kvstore }) ∧
      kvstore.inDays = ((rows.map KvRow.inDays).foldl (Cache.MysqlProxy.visitRow (now / 86400)
        (now / 86400) subdomain key renewExpiry) (found, memory.kvstore.inDays)).2 := by
  subst hnow
  -- the days that remain are part of the result set, so renewing one row does not change those of
  -- the next
  induction rows generalizing found memory with
  | nil => exact ⟨memory.kvstore, rfl, rfl⟩
  | cons row rest ih =>
      have hdays : dateDiff row.expireAt memory.now =
          Cache.MysqlProxy.remainingDays (memory.now / 86400) row.inDays := rfl
      simp only [List.map_cons, List.foldlM_cons, List.foldl_cons, Program.alone_bind,
        Cache.MysqlProxy.visitRow, visitRow, ← hdays]
      by_cases hrenew : renewExpiry > 0 ∧ dateDiff row.expireAt memory.now < 10
      · rw [if_pos hrenew, if_pos hrenew]
        obtain ⟨kvstore, halone, hdays⟩ :=
          ih row.v ((Statement.renew subdomain key renewExpiry).apply memory)
        refine ⟨kvstore, ?_, ?_⟩
        · rw [← KvStore.renew_inDays]
          exact halone
        · rw [← KvStore.renew_inDays]
          exact hdays
      · rw [if_neg hrenew, if_neg hrenew]
        exact ih row.v memory

theorem alone_longTermCacheGet_inDays (memory : Memory collation) (subdomain key : Str)
    (renewExpiry : ℤ) :
    ∃ kvstore, (longTermCacheGet subdomain key renewExpiry).alone memory =
      some ((Cache.MysqlProxy.longTermCacheGet memory.kvstore.inDays memory.today subdomain key
        renewExpiry).1, { memory with kvstore }) ∧
      kvstore.inDays = (Cache.MysqlProxy.longTermCacheGet memory.kvstore.inDays memory.today
        subdomain key renewExpiry).2 := by
  unfold longTermCacheGet Cache.MysqlProxy.longTermCacheGet
  rw [Program.alone_bind, Program.alone_read, KvStore.selectRows_inDays]
  exact alone_visitRows subdomain key renewExpiry memory.now _ [] memory rfl

theorem alone_longTermCacheSet_inDays (memory : Memory collation) (subdomain key value : Str)
    (expireInterval isFilename : ℤ) :
    ∃ kvstore, (longTermCacheSet subdomain key value expireInterval isFilename).alone memory =
        some ((), { memory with kvstore }) ∧
      kvstore.inDays = Cache.MysqlProxy.longTermCacheSet memory.kvstore.inDays memory.today
        subdomain key value expireInterval isFilename := by
  have hinsert := (memory.kvstore.deleteKey subdomain key).insertRow_inDays memory.now subdomain
    key value expireInterval isFilename
  refine ⟨_, rfl, ?_⟩
  unfold Cache.MysqlProxy.longTermCacheSet
  simp only [← KvStore.deleteKey_inDays, Memory.today, hinsert, Statement.apply]
  cases (memory.kvstore.deleteKey subdomain key).insertRow memory.now subdomain key value
    expireInterval isFilename with
  | none => rfl
  | some inserted => rfl

end MysqlProxy

/-! ## The handlers -/

/-- The JSON of an answer. -/
def ofReply : Cache.Reply → Reply
  | .value key value => .value key value
  | .key key => .key key
  | .empty => .empty

/-- A request to the long-term cache, as one of all that happens. -/
def ofLongTerm : Cache.Request → Event
  | .get subdomain key renewExpiry useShortTermCache =>
      .serve subdomain (.longTermCacheGet key renewExpiry useShortTermCache)
  | .set subdomain key value expireInterval isFilename =>
      .serve subdomain (.longTermCacheSet key value expireInterval isFilename)
  | .delete subdomain key => .serve subdomain (.longTermCacheDelete key)
  | .empty subdomain => .serve subdomain .longTermCacheEmpty

/-- A request to the session cache, as one of all that happens. -/
def ofSession : SessionCache.Request → Event
  | .get subdomain key => .serve subdomain (.sessionCacheGet key)
  | .set subdomain key value => .serve subdomain (.sessionCacheSet key value)
  | .delete subdomain key => .serve subdomain (.sessionCacheDelete key)

/-- Without interruption the program gives the value, leaves the stores like this, and changes
nothing else. -/
def Leaves {Value : Type} (program : Code collation Value) (memory : Memory collation)
    (value : Value) (stores : Cache.Stores collation) : Prop :=
  ∃ kvstore memcached, program.alone memory = some (value, { memory with kvstore, memcached }) ∧
    ({ memory with kvstore, memcached } : Memory collation).stores = stores

theorem Leaves.of {Value : Type} {program : Code collation Value} {memory : Memory collation}
    {value : Value} {kvstore : KvStore collation} {memcached : Memcached}
    {stores : Cache.Stores collation}
    (halone : program.alone memory = some (value, { memory with kvstore, memcached }))
    (hkvstore : kvstore.inDays = stores.kvstore)
    (hmemcached : ({ memory with kvstore, memcached } : Memory collation).given =
      stores.memcached) : Leaves program memory value stores := by
  refine ⟨kvstore, memcached, halone, ?_⟩
  cases stores
  exact (Cache.Stores.mk.injEq ..).mpr ⟨hkvstore, hmemcached⟩

/-- The code for a request hands on the answer of its handler. -/
theorem Leaves.answered {program : Code collation Reply} {memory : Memory collation}
    {reply : Reply} {stores : Cache.Stores collation} (h : Leaves program memory reply stores) :
    Leaves (do
      let reply ← program
      return some reply : Code collation (Option Reply)) memory (some reply) stores := by
  obtain ⟨kvstore, memcached, halone, hstores⟩ := h
  refine ⟨kvstore, memcached, ?_, hstores⟩
  rw [Program.alone_bind, halone]
  rfl

section

variable (memory : Memory collation) (subdomain key value : Str)

/-- What a Get does that memcached does not answer. -/
theorem leaves_fill (renewExpiry : ℤ) :
    let found := Cache.MysqlProxy.longTermCacheGet memory.stores.kvstore memory.today subdomain
      key renewExpiry
    Leaves (do
        let value ← MysqlProxy.longTermCacheGet subdomain key renewExpiry
        MemcacheProxy.set (longTermKey subdomain key) value 86400
        return .value key value : Code collation Reply) memory (.value key found.1)
      ⟨found.2, Cache.MemcacheProxy.set memory.stores.memcached (longTermKey subdomain key)
        found.1⟩ := by
  intro found
  obtain ⟨kvstore, halone, hdays⟩ :=
    MysqlProxy.alone_longTermCacheGet_inDays memory subdomain key renewExpiry
  have hgiven := Memory.given_set { memory with kvstore } (longTermKey subdomain key) found.1
  refine .of ?_ hdays hgiven
  rw [Program.alone_bind, halone]
  rfl

theorem leaves_longTermCacheGet (renewExpiry useShortTermCache : ℤ) :
    Leaves (longTermCacheGet subdomain key renewExpiry useShortTermCache) memory
      (ofReply (memory.stores.longTermCacheGet memory.today subdomain key renewExpiry
        useShortTermCache).1)
      (memory.stores.longTermCacheGet memory.today subdomain key renewExpiry
        useShortTermCache).2 := by
  have hfill := leaves_fill memory subdomain key renewExpiry
  unfold longTermCacheGet
  by_cases huse : useShortTermCache ≠ 0
  · rw [if_pos huse]
    by_cases hhit : (Cache.MemcacheProxy.get memory.given (longTermKey subdomain key)).length > 0
    · have hget := memory.stores.longTermCacheGet_of_hit memory.today subdomain key renewExpiry
        useShortTermCache huse (List.length_pos_iff.1 hhit)
      rw [hget]
      refine ⟨memory.kvstore, memory.memcached, ?_, rfl⟩
      rw [Program.alone_bind, MemcacheProxy.alone_get, Option.bind_some, if_pos hhit]
      rfl
    · -- nothing is found in memcached
      have hmiss := Nat.eq_zero_of_not_pos hhit
      rw [memory.stores.longTermCacheGet_eq_fill memory.today subdomain key renewExpiry
        useShortTermCache (.inr (List.length_eq_zero_iff.1 hmiss))]
      obtain ⟨kvstore, memcached, halone, hstores⟩ := hfill
      refine ⟨kvstore, memcached, ?_, hstores⟩
      rw [Program.alone_bind, MemcacheProxy.alone_get, Option.bind_some, if_neg hhit]
      exact halone
  · rw [if_neg huse, memory.stores.longTermCacheGet_eq_fill memory.today subdomain key renewExpiry
      useShortTermCache (.inl (not_not.1 huse))]
    exact hfill

theorem leaves_longTermCacheSet (expireInterval isFilename : ℤ) :
    Leaves (longTermCacheSet subdomain key value expireInterval isFilename) memory
      (ofReply (memory.stores.longTermCacheSet memory.today subdomain key value expireInterval
        isFilename).1)
      (memory.stores.longTermCacheSet memory.today subdomain key value expireInterval
        isFilename).2 := by
  obtain ⟨kvstore, halone, hdays⟩ := MysqlProxy.alone_longTermCacheSet_inDays memory subdomain key
    value expireInterval isFilename
  have hgiven := Memory.given_set { memory with kvstore } (longTermKey subdomain key) value
  unfold longTermCacheSet
  refine .of ?_ hdays hgiven
  rw [Program.alone_bind, halone]
  rfl

theorem leaves_longTermCacheDelete :
    Leaves (longTermCacheDelete subdomain key) memory
      (ofReply (memory.stores.longTermCacheDelete subdomain key).1)
      (memory.stores.longTermCacheDelete subdomain key).2 :=
  .of rfl (memory.kvstore.deleteKey_inDays subdomain key)
    (Memory.given_remove memory (longTermKey subdomain key))

/-- Without interruption a request to the long-term cache does to the stores what it does to
them in days, and is answered alike. -/
theorem alone_longTerm (request : Cache.Request) :
    Leaves (ofLongTerm request).code memory
      (some (ofReply (memory.stores.serve memory.today request).1))
      (memory.stores.serve memory.today request).2 := by
  cases request with
  | get subdomain key renewExpiry useShortTermCache =>
      exact (leaves_longTermCacheGet memory subdomain key renewExpiry useShortTermCache).answered
  | set subdomain key value expireInterval isFilename =>
      exact (leaves_longTermCacheSet memory subdomain key value expireInterval isFilename).answered
  | delete subdomain key => exact (leaves_longTermCacheDelete memory subdomain key).answered
  | empty subdomain =>
      refine ⟨_, memory.memcached, rfl, ?_⟩
      exact congrArg (Cache.Stores.mk · memory.given)
        (memory.kvstore.deleteSubdomain_inDays subdomain)

/-- Without interruption a request to the session cache does to the table what it does there. -/
theorem alone_session (request : SessionCache.Request) :
    (ofSession request).code.alone memory =
      some (some (ofReply (memory.sessionData.serve memory.now request).1),
        { memory with sessionData := (memory.sessionData.serve memory.now request).2 }) := by
  cases request with
  | get subdomain key => rfl
  | delete subdomain key => rfl
  | set subdomain key value =>
      simp only [ofSession, Event.code, serve, MysqlProxy.sessionCacheSet, execute,
        Program.alone_bind, Program.alone_write, Program.alone_pure, Option.bind_some,
        Statement.apply, SessionCache.SessionData.serve, SessionCache.SessionData.sessionCacheSet,
        SessionCache.MysqlProxy.sessionCacheSet, ofReply]
      cases (memory.sessionData.deleteRow subdomain key).insertRow memory.now subdomain key value
        (86400 * 2) with
      | none => rfl
      | some inserted => rfl

end

/-! ## One request after another -/

/-- A request to the long-term cache, or something else that happens. -/
inductive Turn
  | serve (request : Cache.Request)
  | other (event : Event)

/-- The event of a turn. -/
def Turn.event : Turn → Event
  | .serve request => ofLongTerm request
  | .other event => event

/-- Only requests to the long-term cache change what it should hold. -/
def Turn.contents (contents : Contents) : Turn → Contents
  | .serve request => contents.serve request
  | .other _ => contents

/-- Take a turn, and note what the cache should hold from then on. -/
def turnStep (state : Memory collation × Contents) (turn : Turn) :
    Option (Memory collation × Contents) :=
  (turn.event.code.alone state.1).map fun result => (result.2, turn.contents state.2)

section

variable (site key : Str)

/-- The event is none of the long-term cache, and its name in memcached is another one. -/
def Event.IsElsewhere : Event → Prop
  | .serve subdomain request =>
      match request with
      | .shortTermCacheSet k _ _ => shortTermKey subdomain k ≠ longTermKey site key
      | .longTermCacheGet .. => False
      | .longTermCacheSet .. => False
      | .longTermCacheDelete _ => False
      | .longTermCacheEmpty => False
      | .longTermCacheSweeperInfo => False
      | _ => True
  | _ => True

/-- The turn does not disturb the key. -/
def Turn.Spares (memory : Memory collation) : Turn → Prop
  | .serve request => Undisturbed site key memory.stores request
  | .other event => event.IsElsewhere site key

/-- The statement leaves the rows alone, and puts nothing under the name in memcached. -/
def Statement.IsElsewhere : Statement → Prop
  | .renew .. => False
  | .deleteKey .. => False
  | .deleteSubdomain _ => False
  | .insertRow .. => False
  | .deleteExpired _ => False
  | .set name _ _ => name ≠ longTermKey site key
  | _ => True

variable {site key}

theorem isElsewhere_of_issues {event : Event} (h : event.IsElsewhere site key)
    {statement : Statement} (hissues : event.Issues statement) :
    statement.IsElsewhere site key := by
  cases event with
  | serve subdomain request =>
      cases request with
      | shortTermCacheGet k => exact absurd hissues id
      | shortTermCacheSet k value expireInterval =>
          obtain rfl := hissues
          exact h
      | shortTermCacheDelete k =>
          obtain rfl := hissues
          trivial
      | sessionCacheGet k => exact absurd hissues id
      | sessionCacheSet k value => obtain rfl | rfl := hissues <;> trivial
      | sessionCacheDelete k =>
          obtain rfl := hissues
          trivial
      | longTermCacheGet k renewExpiry useShortTermCache => exact absurd h id
      | longTermCacheSet k value expireInterval isFilename => exact absurd h id
      | longTermCacheDelete k => exact absurd h id
      | longTermCacheEmpty => exact absurd h id
      | longTermCacheSweeperInfo => exact absurd h id
      | sitewideLock iden => obtain rfl | rfl := hissues <;> trivial
      | sitewideUnlock iden =>
          obtain rfl := hissues
          trivial
  | garbageCollect =>
      obtain rfl := hissues
      trivial
  | pass seconds =>
      obtain rfl := hissues
      trivial
  | drop name =>
      obtain rfl := hissues
      trivial

/-- With time memcached gives no more than before. -/
theorem Memory.given_pass (memory : Memory collation) (seconds : ℕ) (name : Str) :
    Cache.MemcacheProxy.get ((Statement.pass seconds).apply memory).given name = [] ∨
      Cache.MemcacheProxy.get ((Statement.pass seconds).apply memory).given name =
        Cache.MemcacheProxy.get memory.given name := by
  unfold Cache.MemcacheProxy.get Memory.given
  cases hitem : memory.memcached name with
  | none => exact .inl (by simp [Statement.apply, hitem])
  | some item =>
      by_cases hlater : item.isLive (memory.now + seconds) = true
      · -- what is not over later is not over now
        have hlive : item.isLive memory.now = true := by
          cases htime : item.exptime with
          | none => simp [Item.isLive, htime]
          | some time =>
              simp only [Item.isLive, htime, Option.all_some, decide_eq_true_eq] at hlater ⊢
              omega
        exact .inr (by simp [Statement.apply, hitem, Option.filter, hlater, hlive])
      · exact .inl (by simp [Statement.apply, hitem, Option.filter, hlater])

/-- Memcached may lose the value. -/
theorem agrees_of_given {contents : Contents} {memory next : Memory collation}
    (hagrees : Agrees site key memory.stores contents) (hkvstore : next.kvstore = memory.kvstore)
    (hgiven : Cache.MemcacheProxy.get next.given (longTermKey site key) = [] ∨
      Cache.MemcacheProxy.get next.given (longTermKey site key) =
        Cache.MemcacheProxy.get memory.given (longTermKey site key)) :
    Agrees site key next.stores contents := by
  refine ⟨?_, ?_⟩
  · show next.kvstore.inDays.value site key = contents site key
    rw [hkvstore]
    exact hagrees.kvstore
  · show Cache.MemcacheProxy.get next.given (longTermKey site key) = [] ∨
      Cache.MemcacheProxy.get next.given (longTermKey site key) = contents site key
    rcases hgiven with hnone | hsame
    · exact .inl hnone
    · rw [hsame]
      exact hagrees.memcached

/-- Such a statement keeps the stores in agreement on the key. -/
theorem agrees_apply {contents : Contents} {statement : Statement}
    (h : statement.IsElsewhere site key) {memory : Memory collation}
    (hagrees : Agrees site key memory.stores contents) :
    Agrees site key (statement.apply memory).stores contents := by
  cases statement with
  | renew s k renewExpiry => exact absurd h id
  | deleteKey s k => exact absurd h id
  | deleteSubdomain s => exact absurd h id
  | insertRow s k value expireInterval isFilename => exact absurd h id
  | deleteExpired s => exact absurd h id
  | deleteSession s k => exact hagrees
  | insertSession s k value => exact hagrees
  | deleteExpiredSessions => exact hagrees
  | insertLock name => exact hagrees
  | deleteOldLocks => exact hagrees
  | deleteLock name => exact hagrees
  | set name value expireInterval =>
      refine agrees_of_given hagrees rfl (.inr ?_)
      unfold Cache.MemcacheProxy.get Memory.given
      simp [Statement.apply, Function.update_of_ne (Ne.symm h)]
  | remove name =>
      refine agrees_of_given hagrees rfl ?_
      rw [Memory.given_remove, Cache.MemcacheProxy.get_remove]
      split
      · exact .inl rfl
      · exact .inr rfl
  | pass seconds => exact agrees_of_given hagrees rfl (memory.given_pass seconds _)

/-- So does every turn that spares the key. -/
theorem agrees_turnStep {state next : Memory collation × Contents} {turn : Turn}
    (hagrees : Agrees site key state.1.stores state.2) (hspares : turn.Spares site key state.1)
    (hstep : turnStep state turn = some next) : Agrees site key next.1.stores next.2 := by
  obtain ⟨result, halone, rfl⟩ := Option.map_eq_some_iff.1 hstep
  cases turn with
  | serve request =>
      obtain ⟨kvstore, memcached, hleaves, hstores⟩ := alone_longTerm state.1 request
      obtain rfl := Option.some.inj (hleaves.symm.trans halone)
      show Agrees site key (Memory.stores _) _
      rw [hstores]
      exact hagrees.serve hspares
  | other event =>
      have hkeeps : Keeps (fun memory : Memory collation =>
          Agrees site key memory.stores state.2) event.code :=
        Event.keeps_code fun _ hissues _ hmemory =>
          agrees_apply (isElsewhere_of_issues hspares hissues) hmemory
      exact hkeeps.alone hagrees halone

/-- **What holds in days holds in seconds.**  From stores that agree on a key, in every run of
requests one after another whose requests to the long-term cache do not disturb the key, with
whatever else happens between them, a Get of the key answers with the last value set and not
deleted or emptied, with and without `useShortTermCache`. -/
theorem answered_from_contents {memory : Memory collation} {contents : Contents}
    (hagrees : Agrees site key memory.stores contents) {turns : List Turn}
    {final : Memory collation × Contents}
    (hrun : Transition.run turnStep (memory, contents) turns = some final)
    (hspares : Transition.Meets turnStep (fun state turn => turn.Spares site key state.1)
      (memory, contents) turns)
    (renewExpiry useShortTermCache : ℤ) :
    ∃ after, (Event.serve site (.longTermCacheGet key renewExpiry useShortTermCache)).code.alone
      final.1 = some (some (.value key (final.2 site key)), after) := by
  have hfinal : Agrees site key final.1.stores final.2 :=
    Transition.invariant_of_meets (fun _ _ _ hagrees hspares hstep =>
      agrees_turnStep hagrees hspares hstep) hagrees hspares hrun
  obtain ⟨kvstore, memcached, halone, -⟩ :=
    alone_longTerm final.1 (.get site key renewExpiry useShortTermCache)
  have hanswer := hfinal.longTermCacheGet_eq final.1.today renewExpiry useShortTermCache
  refine ⟨{ final.1 with kvstore, memcached }, halone.trans ?_⟩
  simp only [Cache.Stores.serve, hanswer]
  rfl

/-- A value that is set, over in memcached, and asked for. -/
def dayLater : List Turn :=
  [.serve (.set "shop" "a" "1" 30 0), .other (.serve "blog" (.shortTermCacheSet "a" "2" 60)),
    .other (.pass 90000), .serve (.get "shop" "a" 30 1),
    .other (.drop (longTermKey "shop" "b")), .serve (.empty "blog")]

theorem answered_from_contents_dayLater :
    ∃ final after, Transition.run turnStep
        (⟨0, Table.empty, Table.empty, Table.empty, fun _ => none⟩, fun _ _ => []) dayLater =
          some final ∧
      (Event.serve "shop" (.longTermCacheGet "a" 30 1)).code.alone
        (final.1 : Memory .caseInsensitive) = some (some (.value "a" "1"), after) := by
  let memory : Memory .caseInsensitive :=
    ⟨0, Table.empty, Table.empty, Table.empty, fun _ => none⟩
  have hspares : Transition.Meets turnStep (fun state turn => turn.Spares "shop" "a" state.1)
      (memory, fun _ _ => []) dayLater := by
    refine Transition.meets_of_forall_mem fun turn hturn state => ?_
    simp only [dayLater, List.mem_cons, List.not_mem_nil, or_false] at hturn
    rcases hturn with rfl | rfl | rfl | rfl | rfl | rfl
    · exact ⟨fun _ => ⟨rfl, rfl⟩, fun _ => ⟨rfl, rfl⟩⟩
    · show shortTermKey "blog" "a" ≠ longTermKey "shop" "a"
      decide
    · trivial
    · exact fun _ => ⟨rfl, rfl⟩
    · trivial
    · exact ⟨fun h => absurd h (by decide), fun h => absurd h (by decide)⟩
  obtain ⟨final, hrun⟩ : ∃ final, Transition.run turnStep (memory, fun _ _ => []) dayLater =
      some final := ⟨_, rfl⟩
  have hfinal : final.2 "shop" "a" = "1" := by
    obtain rfl := Option.some.inj hrun
    rfl
  obtain ⟨after, hanswer⟩ := answered_from_contents (Agrees.initial "shop" "a") hrun hspares 30 1
  exact ⟨final, after, hrun, hfinal ▸ hanswer⟩

end

end VaeDb.Storage
