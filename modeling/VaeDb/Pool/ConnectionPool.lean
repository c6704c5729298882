import Mathlib.Data.List.ReduceOption
import Mathlib.Data.Nat.Basic
import VaeDb.Basic
import VaeDb.Library.OrderedMap
import VaeDb.Library.Transition

/-!
# The connection pools

`MysqlProxy` and `MemcacheProxy` hand out connections alike.  A map says of every
connection whether it is in use, a counter how many are not, and a mutex guards both.
`getConnection` waits while the counter is zero and then takes the first free connection;
the `shared_ptr` that it returns calls `freeConnection` when the last copy is gone.

Each passage under the mutex is one step.  A call that waits may wake up at any time, as a
condition variable allows, and looks at the counter again.

The counter, the map and the calls that hold a connection agree in every state
(`Consistent`), so a call that gets past the counter finds a free connection, and nobody
else holds it (`connections_consistent`).
-/

namespace VaeDb.Pool

open Transition

/-! ## The code of both proxies -/

/-- `POOL_FREE` and `POOL_INUSE`, or `MEMCACHE_POOL_FREE` and `MEMCACHE_POOL_INUSE`. -/
inductive Flag
  | free
  | inUse
  deriving DecidableEq

/-- The members that `poolMutex` guards; connections are compared by address. -/
structure ConnectionPool (Con : Type) [LinearOrder Con] where
  connPool : OrderedMap Con Flag
  availableConnections : ℤ

/-- What a passage of `getConnection` under the mutex comes to. -/
inductive Passage (Con : Type) [LinearOrder Con]
  | waits
  | takes (con : Con) (pool : ConnectionPool Con)
  | throws (what : Str)

variable {Con Call : Type} [LinearOrder Con]

namespace ConnectionPool

/-- No attempt to connect has been made yet. -/
def empty : ConnectionPool Con := ⟨OrderedMap.empty, 0⟩

/-- A round of the constructor's loop, with what `createConnection` returned. -/
def connect (pool : ConnectionPool Con) : Option Con → ConnectionPool Con
  | some con =>
      { connPool := pool.connPool.assign con .free
        availableConnections := pool.availableConnections + 1 }
  | none => pool

/-- The constructors of the proxies. -/
def create (attempts : List (Option Con)) : ConnectionPool Con :=
  attempts.foldl connect empty

/-- The first connection that is free. -/
def firstFree (pool : ConnectionPool Con) : Option Con :=
  (pool.connPool.entries.find? fun entry => entry.2 = .free).map Prod.fst

/-- `getConnection` from the test of the counter on. -/
def getConnection (what : Str) (pool : ConnectionPool Con) : Passage Con :=
  if pool.availableConnections = 0 then .waits
  else
    match pool.firstFree with
    | some con =>
        .takes con
          { connPool := pool.connPool.assign con .inUse
            availableConnections := pool.availableConnections - 1 }
    | none => .throws what

/-- The body of the loop in `freeConnection`. -/
def freeEntry (con : Con) (pool : ConnectionPool Con) (entry : Con × Flag) :
    ConnectionPool Con :=
  if entry.1 = con then
    { connPool := pool.connPool.assign entry.1 .free
      availableConnections := pool.availableConnections + 1 }
  else pool

/-- `freeConnection`. -/
def freeConnection (pool : ConnectionPool Con) (con : Con) : ConnectionPool Con :=
  pool.connPool.entries.foldl (freeEntry con) pool

end ConnectionPool

/-- `MysqlProxy::getConnection`. -/
def MysqlProxy.getConnection : ConnectionPool Con → Passage Con :=
  ConnectionPool.getConnection "MySQL Thread Pool Error: Should never get here"

/-- `MemcacheProxy::getConnection`. -/
def MemcacheProxy.getConnection : ConnectionPool Con → Passage Con :=
  ConnectionPool.getConnection "Memcache Thread Pool Error: Should never get here"

/-- The two proxies. -/
inductive Proxy
  | mysql
  | memcache

/-- The `getConnection` of a proxy. -/
def Proxy.getConnection : Proxy → ConnectionPool Con → Passage Con
  | .mysql => MysqlProxy.getConnection
  | .memcache => MemcacheProxy.getConnection

/-! ## Calls -/

/-- Where a request that needs a connection is. -/
inductive Phase (Con : Type)
  | idle
  | waiting
  | holding (con : Con)
  | done
  | threw (what : Str)

/-- A pool and the requests that use it. -/
structure State (Con Call : Type) [LinearOrder Con] where
  pool : ConnectionPool Con
  phase : Call → Phase Con

/-- After the constructor. -/
def State.initial (attempts : List (Option Con)) : State Con Call :=
  ⟨ConnectionPool.create attempts, fun _ => .idle⟩

/-- A call enters `getConnection`, wakes up in it, or lets its connection go. -/
inductive Label (Call : Type)
  | enter (call : Call)
  | wake (call : Call)
  | release (call : Call)

variable [DecidableEq Call]

/-- A call passes through `getConnection` under the mutex. -/
def State.pass (proxy : Proxy) (state : State Con Call) (call : Call) : State Con Call :=
  match proxy.getConnection state.pool with
  | .waits => { state with phase := Function.update state.phase call .waiting }
  | .takes con pool => ⟨pool, Function.update state.phase call (.holding con)⟩
  | .throws what => { state with phase := Function.update state.phase call (.threw what) }

/-- One step. -/
def step (proxy : Proxy) (state : State Con Call) : Label Call → Option (State Con Call)
  | .enter call =>
      match state.phase call with
      | .idle => some (state.pass proxy call)
      | _ => none
  | .wake call =>
      match state.phase call with
      | .waiting => some (state.pass proxy call)
      | _ => none
  | .release call =>
      match state.phase call with
      | .holding con =>
          some ⟨state.pool.freeConnection con, Function.update state.phase call .done⟩
      | _ => none

/-! ## The map and the counter -/

namespace ConnectionPool

variable {pool : ConnectionPool Con} {con : Con}

/-- How many entries are marked free. -/
def freeCount (pool : ConnectionPool Con) : ℕ :=
  pool.connPool.entries.countP fun entry => entry.2 = .free

/-- The free entries after an assignment. -/
theorem freeCount_assign (map : OrderedMap Con Flag) (con : Con) (flag : Flag) (n : ℤ) :
    freeCount ⟨map.assign con flag, n⟩ =
      freeCount ⟨map.erase con, n⟩ + if flag = .free then 1 else 0 := by
  unfold freeCount
  rw [OrderedMap.assign_perm.countP_eq, List.countP_cons]
  simp

/-- The free entries before it, if the connection was there. -/
theorem freeCount_of_find {flag : Flag} (hfind : pool.connPool.find con = some flag) (n : ℤ) :
    pool.freeCount =
      freeCount ⟨pool.connPool.erase con, n⟩ + if flag = .free then 1 else 0 := by
  unfold freeCount
  rw [(OrderedMap.perm_of_find hfind).countP_eq, List.countP_cons]
  simp

/-- The free entries before it, if it was not. -/
theorem freeCount_of_new (hnew : pool.connPool.find con = none) (n : ℤ) :
    pool.freeCount = freeCount ⟨pool.connPool.erase con, n⟩ := by
  have herase : (pool.connPool.erase con).entries = pool.connPool.entries := by
    refine List.filter_eq_self.2 fun entry hentry => ?_
    have hne : entry.1 ≠ con := by
      intro hkey
      subst hkey
      exact OrderedMap.find_eq_none.1 hnew entry.2 hentry
    simpa using hne
  unfold freeCount
  rw [herase]

/-- A connection is found free, unless none is. -/
theorem firstFree_eq_some (h : pool.firstFree = some con) :
    pool.connPool.find con = some .free := by
  obtain ⟨entry, hentry, rfl⟩ := Option.map_eq_some_iff.1 h
  have hfree : entry.2 = .free := by simpa using List.find?_some hentry
  rw [OrderedMap.find_eq_some, ← hfree]
  exact List.mem_of_find?_eq_some hentry

theorem firstFree_eq_none (h : pool.firstFree = none) : pool.freeCount = 0 := by
  have hnone := List.find?_eq_none.1 (Option.map_eq_none_iff.1 h)
  exact List.countP_eq_zero.2 hnone

/-- The loop of `freeConnection` changes the one entry of the connection. -/
theorem foldl_freeEntry (con : Con) {entries : List (Con × Flag)}
    (hnodup : (entries.map Prod.fst).Nodup) (pool : ConnectionPool Con) :
    entries.foldl (freeEntry con) pool =
      if con ∈ entries.map Prod.fst then
        { connPool := pool.connPool.assign con .free
          availableConnections := pool.availableConnections + 1 }
      else pool := by
  induction entries generalizing pool with
  | nil => rfl
  | cons entry rest ih =>
      rw [List.map_cons, List.nodup_cons] at hnodup
      rw [List.foldl_cons, ih hnodup.2]
      by_cases hkey : entry.1 = con
      · subst hkey
        have hmem : entry.1 ∈ (entry :: rest).map Prod.fst := List.mem_cons_self ..
        rw [if_neg hnodup.1, if_pos hmem, freeEntry, if_pos rfl]
      · have hmem : con ∈ (entry :: rest).map Prod.fst ↔ con ∈ rest.map Prod.fst := by
          simp [Ne.symm hkey]
        simp only [hmem, freeEntry, if_neg hkey]

theorem freeConnection_eq {flag : Flag} (hfind : pool.connPool.find con = some flag) :
    pool.freeConnection con =
      { connPool := pool.connPool.assign con .free
        availableConnections := pool.availableConnections + 1 } := by
  have hmem : con ∈ pool.connPool.entries.map Prod.fst :=
    List.mem_map.2 ⟨_, OrderedMap.find_eq_some.1 hfind, rfl⟩
  rw [freeConnection, foldl_freeEntry con pool.connPool.nodup_keys, if_pos hmem]

/-- Nothing has been handed out, and the counter counts all connections. -/
structure Unused (pool : ConnectionPool Con) : Prop where
  counted : pool.availableConnections = pool.freeCount
  notInUse : ∀ con, pool.connPool.find con ≠ some .inUse

theorem Unused.connect (h : Unused pool) (hnew : pool.connPool.find con = none) :
    Unused (pool.connect (some con)) where
  counted := by
    have hbefore := freeCount_of_new hnew (pool.availableConnections + 1)
    have hafter := freeCount_assign pool.connPool con .free (pool.availableConnections + 1)
    have hcounted := h.counted
    rw [if_pos rfl] at hafter
    show pool.availableConnections + 1 =
      (freeCount ⟨pool.connPool.assign con .free, pool.availableConnections + 1⟩ : ℤ)
    omega
  notInUse := by
    intro other
    show (pool.connPool.assign con .free).find other ≠ _
    rw [OrderedMap.find_assign]
    split
    · simp
    · exact h.notInUse other

/-- The loop of the constructor, over connections that are all different. -/
theorem Unused.foldl_connect {attempts : List (Option Con)} (h : Unused pool)
    (hdistinct : attempts.reduceOption.Nodup)
    (hnew : ∀ con ∈ attempts.reduceOption, pool.connPool.find con = none) :
    Unused (attempts.foldl ConnectionPool.connect pool) := by
  induction attempts generalizing pool with
  | nil => exact h
  | cons attempt rest ih =>
      cases attempt with
      | none => exact ih h hdistinct hnew
      | some con =>
          rw [List.reduceOption_cons_of_some, List.nodup_cons] at hdistinct
          have hfirst : pool.connPool.find con = none :=
            hnew con (by simp [List.reduceOption_cons_of_some])
          refine ih (h.connect hfirst) hdistinct.2 fun other hother => ?_
          show (pool.connPool.assign con .free).find other = none
          have hne : other ≠ con := by
            rintro rfl
            exact hdistinct.1 hother
          rw [OrderedMap.find_assign, if_neg hne]
          exact hnew other (by simp [List.reduceOption_cons_of_some, hother])

theorem unused_create {attempts : List (Option Con)} (hdistinct : attempts.reduceOption.Nodup) :
    Unused (create attempts) := by
  have hempty : Unused (empty : ConnectionPool Con) := ⟨rfl, fun _ h => by cases h⟩
  exact hempty.foldl_connect hdistinct fun _ _ => rfl

end ConnectionPool

/-! ## The invariant -/

/-- The counter counts the free entries, the connections in use are those that calls hold,
no two hold one, and no call has got past the counter for nothing. -/
structure Consistent (state : State Con Call) : Prop where
  counted : state.pool.availableConnections = state.pool.freeCount
  held : ∀ con, state.pool.connPool.find con = some .inUse ↔
    ∃ call, state.phase call = .holding con
  one : ∀ call other con, state.phase call = .holding con → state.phase other = .holding con →
    call = other
  notThrown : ∀ call what, state.phase call ≠ .threw what

namespace Consistent

variable {state : State Con Call}

omit [DecidableEq Call] in
theorem initial {attempts : List (Option Con)} (hdistinct : attempts.reduceOption.Nodup) :
    Consistent (State.initial attempts : State Con Call) where
  counted := (ConnectionPool.unused_create hdistinct).counted
  held := fun con =>
    ⟨fun h => absurd h ((ConnectionPool.unused_create hdistinct).notInUse con),
      fun ⟨_, h⟩ => by cases h⟩
  one := fun _ _ _ h => by cases h
  notThrown := fun _ _ h => by cases h

omit [LinearOrder Con] in
/-- Who holds a connection after one call has moved on. -/
theorem holding_update {phase : Call → Phase Con} {call other : Call} {next : Phase Con}
    {con : Con} : Function.update phase call next other = .holding con ↔
      (other = call ∧ next = .holding con) ∨ (other ≠ call ∧ phase other = .holding con) := by
  by_cases hsame : other = call
  · subst hsame
    simp
  · simp [hsame]

omit [LinearOrder Con] in
/-- A connection that the call neither held nor holds now. -/
theorem held_update {phase : Call → Phase Con} {call : Call} {next : Phase Con} {con : Con}
    (hcall : phase call ≠ .holding con) (hnext : next ≠ .holding con) :
    (∃ holder, Function.update phase call next holder = .holding con) ↔
      ∃ holder, phase holder = .holding con := by
  constructor
  · intro hholds
    obtain ⟨holder, hholder⟩ := hholds
    rcases holding_update.1 hholder with ⟨_, hnew⟩ | ⟨_, hold⟩
    · exact absurd hnew hnext
    · exact ⟨holder, hold⟩
  · intro hholds
    obtain ⟨holder, hholder⟩ := hholds
    have hother : holder ≠ call := fun hcalls => hcall (hcalls ▸ hholder)
    exact ⟨holder, holding_update.2 (Or.inr ⟨hother, hholder⟩)⟩

/-- A call that ends up with nothing shares nothing. -/
theorem one_update (h : Consistent state) {call : Call} {next : Phase Con}
    (hnext : ∀ con, next ≠ .holding con) (first second : Call) (con : Con)
    (hfirst : Function.update state.phase call next first = .holding con)
    (hsecond : Function.update state.phase call next second = .holding con) :
    first = second := by
  rcases holding_update.1 hfirst with ⟨_, hnew⟩ | ⟨_, hold⟩
  · exact absurd hnew (hnext con)
  · rcases holding_update.1 hsecond with ⟨_, hnew⟩ | ⟨_, hold'⟩
    · exact absurd hnew (hnext con)
    · exact h.one first second con hold hold'

/-- A call that has not thrown leaves it at that. -/
theorem notThrown_update (h : Consistent state) {call : Call} {next : Phase Con}
    (hnext : ∀ what, next ≠ .threw what) (other : Call) (what : Str) :
    Function.update state.phase call next other ≠ .threw what := by
  by_cases hsame : other = call
  · subst hsame
    rw [Function.update_self]
    exact hnext what
  · rw [Function.update_of_ne hsame]
    exact h.notThrown other what

/-- A call that holds nothing takes a connection that is free. -/
theorem take (h : Consistent state) {call : Call} {con : Con}
    (hcall : ∀ con, state.phase call ≠ .holding con)
    (hfree : state.pool.connPool.find con = some .free) :
    Consistent ⟨⟨state.pool.connPool.assign con .inUse, state.pool.availableConnections - 1⟩,
      Function.update state.phase call (.holding con)⟩ where
  counted := by
    have hbefore := ConnectionPool.freeCount_of_find hfree (state.pool.availableConnections - 1)
    have hafter := ConnectionPool.freeCount_assign state.pool.connPool con .inUse
      (state.pool.availableConnections - 1)
    have hcounted := h.counted
    rw [if_pos rfl] at hbefore
    rw [if_neg (by decide)] at hafter
    show state.pool.availableConnections - 1 =
      (ConnectionPool.freeCount
        ⟨state.pool.connPool.assign con .inUse, state.pool.availableConnections - 1⟩ : ℤ)
    omega
  held := by
    intro other
    show (state.pool.connPool.assign con .inUse).find other = _ ↔ _
    rw [OrderedMap.find_assign]
    by_cases hsame : other = con
    · subst hsame
      rw [if_pos rfl]
      exact ⟨fun _ => ⟨call, Function.update_self ..⟩, fun _ => rfl⟩
    · have hnext : Phase.holding con ≠ .holding other := by
        intro hholding
        cases hholding
        exact hsame rfl
      rw [if_neg hsame, h.held other, held_update (hcall other) hnext]
  one := by
    -- the connection was free, so nobody held it
    have hnobody : ∀ holder, state.phase holder ≠ .holding con := by
      intro holder hholder
      have hinUse := (h.held con).2 ⟨holder, hholder⟩
      rw [hfree] at hinUse
      cases hinUse
    intro first second other hfirst hsecond
    rcases holding_update.1 hfirst with ⟨rfl, hnew⟩ | ⟨_, hold⟩
    · rcases holding_update.1 hsecond with ⟨rfl, _⟩ | ⟨_, hold⟩
      · rfl
      · cases hnew
        exact absurd hold (hnobody second)
    · rcases holding_update.1 hsecond with ⟨rfl, hnew⟩ | ⟨_, hold'⟩
      · cases hnew
        exact absurd hold (hnobody first)
      · exact h.one first second other hold hold'
  notThrown := h.notThrown_update fun _ hthrew => by cases hthrew

/-- A call gives back the connection that it holds. -/
theorem free (h : Consistent state) {call : Call} {con : Con}
    (hcall : state.phase call = .holding con) :
    Consistent ⟨⟨state.pool.connPool.assign con .free, state.pool.availableConnections + 1⟩,
      Function.update state.phase call .done⟩ where
  counted := by
    have hinUse := (h.held con).2 ⟨call, hcall⟩
    have hbefore :=
      ConnectionPool.freeCount_of_find hinUse (state.pool.availableConnections + 1)
    have hafter := ConnectionPool.freeCount_assign state.pool.connPool con .free
      (state.pool.availableConnections + 1)
    have hcounted := h.counted
    rw [if_neg (by decide)] at hbefore
    rw [if_pos rfl] at hafter
    show state.pool.availableConnections + 1 =
      (ConnectionPool.freeCount
        ⟨state.pool.connPool.assign con .free, state.pool.availableConnections + 1⟩ : ℤ)
    omega
  held := by
    intro other
    show (state.pool.connPool.assign con .free).find other = _ ↔ _
    rw [OrderedMap.find_assign]
    by_cases hsame : other = con
    · subst hsame
      rw [if_pos rfl]
      constructor
      · intro hfree
        cases hfree
      · intro hholds
        -- the call was the only holder
        obtain ⟨holder, hholder⟩ := hholds
        rcases holding_update.1 hholder with ⟨_, hnew⟩ | ⟨hne, hold⟩
        · cases hnew
        · exact absurd (h.one holder call other hold hcall) hne
    · have hcallNot : state.phase call ≠ .holding other := by
        intro hholding
        rw [hcall] at hholding
        cases hholding
        exact hsame rfl
      rw [if_neg hsame, h.held other, held_update hcallNot fun hdone => by cases hdone]
  one := h.one_update fun _ hdone => by cases hdone
  notThrown := h.notThrown_update fun _ hthrew => by cases hthrew

/-- A call that holds nothing waits. -/
theorem wait (h : Consistent state) {call : Call}
    (hcall : ∀ con, state.phase call ≠ .holding con) :
    Consistent { state with phase := Function.update state.phase call .waiting } where
  counted := h.counted
  held := by
    intro con
    rw [h.held con, held_update (hcall con) fun hwaits => by cases hwaits]
  one := h.one_update fun _ hwaits => by cases hwaits
  notThrown := h.notThrown_update fun _ hthrew => by cases hthrew

omit [DecidableEq Call] in
/-- A passage under the mutex: the counter is zero, or there is a connection to take. -/
theorem getConnection_cases (h : Consistent state) (what : Str) :
    state.pool.getConnection what = .waits ∨
    ∃ con, state.pool.connPool.find con = some .free ∧
      state.pool.getConnection what = .takes con
        ⟨state.pool.connPool.assign con .inUse, state.pool.availableConnections - 1⟩ := by
  unfold ConnectionPool.getConnection
  by_cases hzero : state.pool.availableConnections = 0
  · rw [if_pos hzero]
    exact Or.inl rfl
  · rw [if_neg hzero]
    cases hfirst : state.pool.firstFree with
    | none =>
        have hnone := ConnectionPool.firstFree_eq_none hfirst
        have hcounted := h.counted
        rw [hnone] at hcounted
        exact absurd hcounted hzero
    | some con => exact Or.inr ⟨con, ConnectionPool.firstFree_eq_some hfirst, rfl⟩

theorem pass (h : Consistent state) (proxy : Proxy) {call : Call}
    (hcall : ∀ con, state.phase call ≠ .holding con) : Consistent (state.pass proxy call) := by
  obtain ⟨what, hproxy⟩ : ∃ what, proxy.getConnection state.pool =
      state.pool.getConnection what := by
    cases proxy with
    | mysql => exact ⟨_, rfl⟩
    | memcache => exact ⟨_, rfl⟩
  unfold State.pass
  rw [hproxy]
  rcases h.getConnection_cases what with hwaits | ⟨con, hfree, htakes⟩
  · rw [hwaits]
    exact h.wait hcall
  · rw [htakes]
    exact h.take hcall hfree

theorem step (h : Consistent state) {proxy : Proxy} {label : Label Call}
    {next : State Con Call} (hstep : step proxy state label = some next) : Consistent next := by
  cases label with
  | enter call =>
      simp only [Pool.step] at hstep
      split at hstep
      · next hidle =>
        obtain rfl := Option.some.inj hstep
        refine h.pass proxy fun con hholding => ?_
        rw [hidle] at hholding
        cases hholding
      · cases hstep
  | wake call =>
      simp only [Pool.step] at hstep
      split at hstep
      · next hwaiting =>
        obtain rfl := Option.some.inj hstep
        refine h.pass proxy fun con hholding => ?_
        rw [hwaiting] at hholding
        cases hholding
      · cases hstep
  | release call =>
      simp only [Pool.step] at hstep
      split at hstep
      · next con hholding =>
        obtain rfl := Option.some.inj hstep
        rw [ConnectionPool.freeConnection_eq ((h.held con).2 ⟨call, hholding⟩)]
        exact h.free hholding
      · cases hstep

end Consistent

/-- In every state of a pool that was built from different connections: the counter is the
number of entries marked free, every entry marked in use has exactly one holder, no two
calls hold one connection, and no call has thrown. -/
theorem connections_consistent (proxy : Proxy) {attempts : List (Option Con)}
    (hdistinct : attempts.reduceOption.Nodup) {labels : List (Label Call)}
    {state : State Con Call}
    (hrun : run (step proxy) (State.initial attempts) labels = some state) :
    state.pool.availableConnections = state.pool.freeCount ∧
      (∀ con, state.pool.connPool.find con = some .inUse →
        ∃! call, state.phase call = .holding con) ∧
      (∀ call other con, state.phase call = .holding con → state.phase other = .holding con →
        call = other) ∧
      ∀ call what, state.phase call ≠ .threw what := by
  have h : Consistent state :=
    invariant (fun _ _ _ h hstep => h.step hstep) (Consistent.initial hdistinct) hrun
  refine ⟨h.counted, fun con hinUse => ?_, h.one, h.notThrown⟩
  obtain ⟨call, hcall⟩ := (h.held con).1 hinUse
  exact ⟨call, hcall, fun other hother => h.one other call con hother hcall⟩

/-- Two connections, and an attempt that failed. -/
def twoConnections : List (Option ℕ) := [some 20, none, some 10]

/-- Three calls on two connections. -/
def threeCalls : List (Label ℕ) :=
  [.enter 1, .enter 2, .enter 3, .wake 3, .release 1, .wake 3]

theorem connections_consistent_threeCalls :
    ∃ state, run (step .mysql) (State.initial twoConnections) threeCalls = some state ∧
      state.phase 3 = .holding 10 ∧ state.pool.availableConnections = 0 ∧
      ∃! call, state.phase call = .holding 10 := by
  have hdistinct : twoConnections.reduceOption.Nodup := by decide
  refine ⟨_, rfl, rfl, rfl, ?_⟩
  exact (connections_consistent .mysql hdistinct (show run _ _ threeCalls = _ from rfl)).2.1
    10 rfl

end VaeDb.Pool
