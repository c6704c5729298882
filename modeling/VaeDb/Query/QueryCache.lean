import Mathlib.Data.Char
import Mathlib.Data.List.Lex
import Mathlib.Data.Nat.Basic
import Mathlib.Data.Prod.Lex
import VaeDb.Library.Transition
import VaeDb.Query.LruCache

/-!
# `Site::fetch_query`

The Queries that a Site has constructed, kept under a Context and the text of the query.  A
call takes up to three steps, and the cache is locked in the first and the last only: `fetch`,
and after a miss the constructor of `Query` and `insert`.  So several calls may miss the same
key and insert it one after another.

A `Query` does not change after its construction, and nothing but the loading of a Site
changes the document.  The constructor is a parameter, a function of the key.  Whatever the
calls do, each ends as the constructor does for its key (`fetchQuery_transparent`).
-/

namespace VaeDb

/-- `LRUKey`: the address of a Context, zero for `NULL`, and a query. -/
@[ext] structure LRUKey where
  p : ℕ
  s : Str

namespace LRUKey

/-- The Context first, then the query. -/
instance : LinearOrder LRUKey :=
  LinearOrder.lift' (fun key => toLex (key.p, key.s)) fun a b h => by
    have hpair : (a.p, a.s) = (b.p, b.s) := toLex.injective h
    exact LRUKey.ext (congrArg Prod.fst hpair) (congrArg Prod.snd hpair)

/-- The order is `operator<`. -/
theorem lt_iff {a b : LRUKey} : a < b ↔ a.p < b.p ∨ a.p = b.p ∧ a.s < b.s :=
  Prod.Lex.toLex_lt_toLex

end LRUKey

/-- What a `Query` has found. -/
structure Query (Node : Type) where
  nodes : List Node

namespace QueryCache

variable {Client Node : Type}

/-- A call that has missed its key, and one that has a new Query for it. -/
inductive Call (Node : Type)
  | missed (key : LRUKey)
  | constructed (key : LRUKey) (query : Query Node)

/-- The key that a call was made with. -/
def Call.key : Call Node → LRUKey
  | .missed key => key
  | .constructed key _ => key

/-- The cache, the calls on their way, and how the others have ended.  `failure` is a fault
inside the cache. -/
structure State (Client Node : Type) where
  cache : LRUCache LRUKey (Query Node)
  calls : Client → Option (Call Node)
  ended : List (LRUKey × Outcome (Query Node))
  failure : Option Fault

/-- A Site with a cache of some size, before the first call. -/
def State.initial (size : ℕ) : State Client Node :=
  ⟨LRUCache.new size, fun _ => none, [], none⟩

/-- The steps of a call, each with the thread that takes it. -/
inductive Label (Client : Type)
  | fetch (client : Client) (key : LRUKey)
  | construct (client : Client)
  | insert (client : Client)

/-- Who takes a step. -/
def Label.client : Label Client → Client
  | .fetch client _ => client
  | .construct client => client
  | .insert client => client

section

variable [DecidableEq Client]

/-- A call ends. -/
def State.finish (state : State Client Node) (client : Client) (key : LRUKey)
    (answer : Outcome (Query Node)) : State Client Node :=
  { state with
    calls := Function.update state.calls client none
    ended := (key, answer) :: state.ended }

/-- A call goes on. -/
def State.proceed (state : State Client Node) (client : Client) (call : Call Node) :
    State Client Node :=
  { state with calls := Function.update state.calls client (some call) }

/-- `query_cache.fetch(key, false)`. -/
def fetchStep (state : State Client Node) (client : Client) (key : LRUKey) :
    State Client Node :=
  match state.cache.fetch key false with
  | .ok (some query, cache) => { state with cache }.finish client key (.ok query)
  | .ok (none, cache) => { state with cache }.proceed client (.missed key)
  | .error fault => { state with failure := some fault }

/-- `new Query(this, key.p, key.s)`. -/
def constructStep (construct : LRUKey → Outcome (Query Node)) (state : State Client Node)
    (client : Client) (key : LRUKey) : State Client Node :=
  match construct key with
  | .ok query => state.proceed client (.constructed key query)
  | .error fault => state.finish client key (.error fault)

/-- `query_cache.insert(key, p_query)`. -/
def insertStep (state : State Client Node) (client : Client) (key : LRUKey)
    (query : Query Node) : State Client Node :=
  match state.cache.insert key query with
  | .ok cache => { state with cache }.finish client key (.ok query)
  | .error fault => { state with failure := some fault }

/-- A step of `Site::fetch_query`. -/
def step (construct : LRUKey → Outcome (Query Node)) (state : State Client Node) :
    Label Client → Option (State Client Node)
  | .fetch client key =>
      match state.calls client with
      | none => some (fetchStep state client key)
      | some _ => none
  | .construct client =>
      match state.calls client with
      | some (.missed key) => some (constructStep construct state client key)
      | _ => none
  | .insert client =>
      match state.calls client with
      | some (.constructed key query) => some (insertStep state client key query)
      | _ => none

/-! ## The invariant -/

/-- What a call holds is what the constructor gives. -/
def Call.Right (construct : LRUKey → Outcome (Query Node)) : Call Node → Prop
  | .missed _ => True
  | .constructed key query => construct key = .ok query

/-- The cache agrees with itself and with the constructor, and so do the calls. -/
structure Inv (construct : LRUKey → Outcome (Query Node)) (state : State Client Node) :
    Prop where
  coherent : state.cache.Coherent
  cached : ∀ node ∈ state.cache.list, construct node.key = .ok node.data
  calls : ∀ client call, state.calls client = some call → call.Right construct
  ended : ∀ key answer, (key, answer) ∈ state.ended → answer = construct key
  failure : state.failure = none

variable {construct : LRUKey → Outcome (Query Node)} {state : State Client Node}

omit [DecidableEq Client] in
theorem inv_initial (size : ℕ) :
    Inv construct (State.initial size : State Client Node) where
  coherent := LRUCache.coherent_new size
  cached := fun _ hnode => by cases hnode
  calls := fun _ _ hcall => by cases hcall
  ended := fun _ _ hended => by cases hended
  failure := rfl

namespace Inv

theorem finish (h : Inv construct state) (client : Client) {key : LRUKey}
    {answer : Outcome (Query Node)} (hanswer : answer = construct key) :
    Inv construct (state.finish client key answer) where
  coherent := h.coherent
  cached := h.cached
  calls := by
    intro other call hcall
    unfold State.finish at hcall
    by_cases hother : other = client
    · subst hother
      simp at hcall
    · simp only [Function.update_of_ne hother] at hcall
      exact h.calls other call hcall
  ended := by
    intro other answer' hended
    rcases List.mem_cons.1 hended with hnew | hold
    · cases hnew
      exact hanswer
    · exact h.ended other answer' hold
  failure := h.failure

theorem proceed (h : Inv construct state) (client : Client) {call : Call Node}
    (hright : call.Right construct) : Inv construct (state.proceed client call) where
  coherent := h.coherent
  cached := h.cached
  calls := by
    intro other call' hcall
    unfold State.proceed at hcall
    by_cases hother : other = client
    · subst hother
      simp only [Function.update_self, Option.some.injEq] at hcall
      exact hcall ▸ hright
    · simp only [Function.update_of_ne hother] at hcall
      exact h.calls other call' hcall
  ended := h.ended
  failure := h.failure

omit [DecidableEq Client] in
/-- Another cache with right entries. -/
theorem withCache (h : Inv construct state) {cache : LRUCache LRUKey (Query Node)}
    (hcoherent : cache.Coherent)
    (hcached : ∀ node ∈ cache.list, construct node.key = .ok node.data) :
    Inv construct { state with cache } where
  coherent := hcoherent
  cached := hcached
  calls := h.calls
  ended := h.ended
  failure := h.failure

/-- What `fetch` leads to: the end of the call, with the right Query, or a miss. -/
theorem fetchStep_cases (h : Inv construct state) (client : Client) (key : LRUKey) :
    ∃ cache, Inv construct { state with cache } ∧
      ((∃ query, construct key = .ok query ∧
          fetchStep state client key = { state with cache }.finish client key (.ok query)) ∨
        fetchStep state client key = { state with cache }.proceed client (.missed key)) := by
  obtain ⟨found, list, hperm, hfetch, hfound⟩ := h.coherent.fetch_spec key false
  refine ⟨{ state.cache with list }, h.withCache (h.coherent.of_perm hperm) fun node hnode =>
    h.cached node (hperm.mem_iff.1 hnode), ?_⟩
  unfold fetchStep
  rw [hfetch]
  cases found with
  | none => exact Or.inr rfl
  | some query =>
      obtain ⟨node, hnode, rfl, rfl⟩ := (hfound query).1 rfl
      exact Or.inl ⟨node.data, h.cached node hnode, rfl⟩

/-- What `insert` leads to: the end of the call. -/
theorem insertStep_eq (h : Inv construct state) (client : Client) {key : LRUKey}
    {query : Query Node} (hright : construct key = .ok query) :
    ∃ cache, Inv construct { state with cache } ∧
      insertStep state client key query = { state with cache }.finish client key (.ok query) := by
  obtain ⟨cache, hinsert, hcoherent, _, _, hmem⟩ := h.coherent.insert_spec key query
  refine ⟨cache, h.withCache hcoherent fun node hnode => ?_, ?_⟩
  · rcases hmem node hnode with hnew | hold
    · rw [hnew.1, hnew.2]
      exact hright
    · exact h.cached node hold.2
  · unfold insertStep
    rw [hinsert]

/-- The constructor's step, with either end. -/
theorem constructStep (h : Inv construct state) (client : Client) (key : LRUKey) :
    Inv construct (constructStep construct state client key) := by
  unfold QueryCache.constructStep
  cases hconstruct : construct key with
  | ok query => exact h.proceed client hconstruct
  | error fault => exact h.finish client hconstruct.symm

theorem step {next : State Client Node} {label : Label Client} (h : Inv construct state)
    (hstep : step construct state label = some next) : Inv construct next := by
  unfold QueryCache.step at hstep
  cases label with
  | fetch client key =>
      cases hcall : state.calls client with
      | some call => simp [hcall] at hstep
      | none =>
          simp only [hcall, Option.some.injEq] at hstep
          subst hstep
          obtain ⟨cache, hcache, hhit | hmiss⟩ := h.fetchStep_cases client key
          · obtain ⟨query, hright, heq⟩ := hhit
            rw [heq]
            exact hcache.finish client hright.symm
          · rw [hmiss]
            exact hcache.proceed client trivial
  | construct client =>
      cases hcall : state.calls client with
      | none => simp [hcall] at hstep
      | some call =>
          cases call with
          | constructed key query => simp [hcall] at hstep
          | missed key =>
              simp only [hcall, Option.some.injEq] at hstep
              subst hstep
              exact h.constructStep client key
  | insert client =>
      cases hcall : state.calls client with
      | none => simp [hcall] at hstep
      | some call =>
          cases call with
          | missed key => simp [hcall] at hstep
          | constructed key query =>
              simp only [hcall, Option.some.injEq] at hstep
              subst hstep
              have hright : construct key = .ok query := h.calls client _ hcall
              obtain ⟨cache, hcache, heq⟩ := h.insertStep_eq client hright
              rw [heq]
              exact hcache.finish client hright.symm

theorem run {final : State Client Node} {labels : List (Label Client)} (h : Inv construct state)
    (hrun : Transition.run (QueryCache.step construct) state labels = some final) :
    Inv construct final :=
  Transition.invariant (fun _ _ _ hinv hstep => hinv.step hstep) h hrun

end Inv

/-! ## How calls end -/

/-- A thread can end its call for a key by steps of its own, as the constructor does. -/
def Ends (construct : LRUKey → Outcome (Query Node)) (state : State Client Node)
    (client : Client) (key : LRUKey) : Prop :=
  ∃ labels final, (∀ label ∈ labels, label.client = client) ∧
    Transition.run (step construct) state labels = some final ∧
    final.calls client = none ∧ final.ended = (key, construct key) :: state.ended

/-- A thread has no call, or one for a key that has not ended. -/
def Asks (state : State Client Node) (client : Client) (key : LRUKey) : Prop :=
  ∀ call, state.calls client = some call → call.key = key

namespace Ends

/-- The last step of a call. -/
theorem of_finish (before : State Client Node) {label : Label Client} {client : Client}
    {key : LRUKey} (hclient : label.client = client) (hended : before.ended = state.ended)
    (hstep : step construct state label = some (before.finish client key (construct key))) :
    Ends construct state client key := by
  refine ⟨[label], before.finish client key (construct key), ?_, ?_, ?_, ?_⟩
  · intro other hother
    rw [List.mem_singleton.1 hother]
    exact hclient
  · exact Transition.run_cons_eq_some.2 ⟨_, hstep, rfl⟩
  · exact Function.update_self ..
  · show (key, construct key) :: before.ended = _
    rw [hended]

/-- One step more. -/
theorem cons {next : State Client Node} {label : Label Client} {client : Client} {key : LRUKey}
    (h : Ends construct next client key) (hclient : label.client = client)
    (hended : next.ended = state.ended) (hstep : step construct state label = some next) :
    Ends construct state client key := by
  obtain ⟨labels, final, hlabels, hrun, hidle, hfinal⟩ := h
  refine ⟨label :: labels, final, ?_, ?_, hidle, hended ▸ hfinal⟩
  · intro other hother
    rcases List.mem_cons.1 hother with rfl | hother
    · exact hclient
    · exact hlabels other hother
  · exact Transition.run_cons_eq_some.2 ⟨next, hstep, hrun⟩

end Ends

namespace Inv

theorem ends_of_constructed (h : Inv construct state) {client : Client} {key : LRUKey}
    {query : Query Node} (hcall : state.calls client = some (.constructed key query)) :
    Ends construct state client key := by
  have hright : construct key = .ok query := h.calls client _ hcall
  obtain ⟨cache, _, heq⟩ := h.insertStep_eq client hright
  have hstep : QueryCache.step construct state (.insert client) =
      some ({ state with cache }.finish client key (construct key)) := by
    simp only [QueryCache.step, hcall, heq, hright]
  exact Ends.of_finish { state with cache } rfl rfl hstep

theorem ends_of_missed (h : Inv construct state) {client : Client} {key : LRUKey}
    (hcall : state.calls client = some (.missed key)) : Ends construct state client key := by
  have hstep : QueryCache.step construct state (.construct client) =
      some (QueryCache.constructStep construct state client key) := by
    simp only [QueryCache.step, hcall]
  cases hconstruct : construct key with
  | error fault =>
      refine Ends.of_finish state rfl rfl (hstep.trans ?_)
      simp only [QueryCache.constructStep, hconstruct]
  | ok query =>
      have heq : QueryCache.constructStep construct state client key =
          state.proceed client (.constructed key query) := by
        simp only [QueryCache.constructStep, hconstruct]
      rw [heq] at hstep
      have hnext : Inv construct (state.proceed client (.constructed key query)) :=
        h.proceed client hconstruct
      exact (hnext.ends_of_constructed (Function.update_self ..)).cons rfl rfl hstep

theorem ends_of_idle (h : Inv construct state) {client : Client}
    (hidle : state.calls client = none) (key : LRUKey) : Ends construct state client key := by
  have hstep : QueryCache.step construct state (.fetch client key) =
      some (fetchStep state client key) := by
    simp only [QueryCache.step, hidle]
  obtain ⟨cache, hcache, hhit | hmiss⟩ := h.fetchStep_cases client key
  · obtain ⟨query, hright, heq⟩ := hhit
    rw [heq, ← hright] at hstep
    exact Ends.of_finish { state with cache } rfl rfl hstep
  · rw [hmiss] at hstep
    have hnext : Inv construct ({ state with cache }.proceed client (.missed key)) :=
      hcache.proceed client trivial
    exact (hnext.ends_of_missed (Function.update_self ..)).cons rfl rfl hstep

/-- No thread waits for another one. -/
theorem ends (h : Inv construct state) {client : Client} {key : LRUKey}
    (hasks : Asks state client key) : Ends construct state client key := by
  cases hcall : state.calls client with
  | none => exact h.ends_of_idle hcall key
  | some call =>
      have hkey := hasks call hcall
      cases call with
      | missed other =>
          obtain rfl : other = key := hkey
          exact h.ends_of_missed hcall
      | constructed other query =>
          obtain rfl : other = key := hkey
          exact h.ends_of_constructed hcall

end Inv

/-- After any run there was no fault in the cache, every call that has ended did so as the
constructor for its key does, and every call that a thread makes or has begun can end so. -/
theorem fetchQuery_transparent (construct : LRUKey → Outcome (Query Node)) (size : ℕ)
    {labels : List (Label Client)} {final : State Client Node}
    (hrun : Transition.run (step construct) (State.initial size) labels = some final) :
    final.failure = none ∧
      (∀ key answer, (key, answer) ∈ final.ended → answer = construct key) ∧
      ∀ client key, Asks final client key → Ends construct final client key := by
  have hinv : Inv construct final := (inv_initial size).run hrun
  exact ⟨hinv.failure, hinv.ended, fun _ _ hasks => hinv.ends hasks⟩

end

/-- A Site with a node of id one and a node of id two. -/
def twoNodes (key : LRUKey) : Outcome (Query ℕ) :=
  if key.s = ("1" : Str) then .ok ⟨[1]⟩
  else if key.s = ("2" : Str) then .ok ⟨[2]⟩
  else if key.s = ("a//b" : Str) then
    .error (.vaeDbQueryError "Double-slashes are not supported in Vae queries.")
  else .ok ⟨[]⟩

/-- Two threads miss a key and insert it twice.  Another key evicts it, it is missed again
and then found, and a query without an answer fails. -/
def race : List (Label ℕ) :=
  [.fetch 0 ⟨0, "1"⟩, .fetch 1 ⟨0, "1"⟩, .construct 1, .construct 0, .insert 0, .insert 1,
    .fetch 0 ⟨0, "2"⟩, .construct 0, .insert 0, .fetch 1 ⟨0, "1"⟩, .construct 1, .insert 1,
    .fetch 0 ⟨0, "1"⟩, .fetch 0 ⟨8, "a//b"⟩, .construct 0]

theorem fetchQuery_transparent_race :
    ∃ final : State ℕ ℕ, Transition.run (step twoNodes) (State.initial 1) race = some final ∧
      final.ended.map Prod.snd =
        [.error (.vaeDbQueryError "Double-slashes are not supported in Vae queries."),
          .ok ⟨[1]⟩, .ok ⟨[1]⟩, .ok ⟨[2]⟩, .ok ⟨[1]⟩, .ok ⟨[1]⟩] ∧
      final.failure = none ∧
      (∀ key answer, (key, answer) ∈ final.ended → answer = twoNodes key) ∧
      ∀ client key, Asks final client key → Ends twoNodes final client key :=
  ⟨_, rfl, rfl, fetchQuery_transparent twoNodes 1 (show Transition.run _ _ race = _ from rfl)⟩

end QueryCache

end VaeDb
