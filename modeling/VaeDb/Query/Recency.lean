import VaeDb.Library.Admissions
import VaeDb.Query.QueryCache

/-!
# Which Queries stay in the cache

`LRUCache` discards the least recently used entry, where an entry is used when it is inserted or
touched.  `Site::fetch_query` calls `fetch(key, false)`, which does not touch what it finds.
So one call after another, the cache keeps the Queries that were constructed last, however
often the others have been fetched since:

```text
capacity 2      a  constructed      in the cache: a
                b  constructed                    b a
                a  found                          b a
                c  constructed                    c b
                a  constructed again
```

* `Follows.fetchNext` : the cache holds the last `size` admissions (`Admissions`).
* `fetchQuery_again_iff` : a key is found again exactly if fewer than `size` Queries have been
  constructed since its own.
-/

namespace VaeDb

open Admissions

namespace LRUCache.Coherent

variable {Key Data : Type} [LinearOrder Key] {cache : LRUCache Key Data}

/-- The index has the keys of the list. -/
theorem find_eq_none_iff (h : Coherent cache) {key : Key} :
    cache.index.find key = none ↔ key ∉ cache.list.map LRUNode.key := by
  constructor
  · intro hnone hmem
    obtain ⟨node, hnode, hkey⟩ := List.mem_map.1 hmem
    rw [(h.index_iff key node.address).2 ⟨node, hnode, rfl, hkey⟩] at hnone
    cases hnone
  · intro hmem
    cases hfind : cache.index.find key with
    | none => rfl
    | some iter =>
        obtain ⟨node, hnode, -, hkey⟩ := (h.index_iff key iter).1 hfind
        exact absurd (List.mem_map.2 ⟨node, hnode, hkey⟩) hmem

/-- A miss. -/
theorem fetch_eq_none (h : Coherent cache) {key : Key} (hkey : key ∉ cache.list.map LRUNode.key)
    (touchData : Bool) : cache.fetch key touchData = .ok (none, cache) := by
  unfold fetch
  rw [h.find_eq_none_iff.2 hkey]
  rfl

/-- A hit that is not a touch leaves the cache as it is. -/
theorem fetch_eq_some (h : Coherent cache) {key : Key} (hkey : key ∈ cache.list.map LRUNode.key) :
    ∃ data, cache.fetch key false = .ok (some data, cache) := by
  obtain ⟨node, hnode, hkey⟩ := List.mem_map.1 hkey
  refine ⟨node.data, ?_⟩
  unfold fetch
  rw [(h.index_iff key node.address).2 ⟨node, hnode, rfl, hkey⟩]
  simp only [h.deref_eq hnode]
  rfl

/-- `insert` of a new key puts it in front and keeps what fits. -/
theorem insert_list (h : Coherent cache) {key : Key} (hkey : key ∉ cache.list.map LRUNode.key)
    (data : Data) :
    ∃ next, cache.insert key data = .ok next ∧ Coherent next ∧ next.maxSize = cache.maxSize ∧
      next.list.map LRUNode.key = (key :: cache.list.map LRUNode.key).take cache.maxSize := by
  have hfree := h.find_eq_none_iff.2 hkey
  obtain ⟨next, hevict, hnext, hmax, hlist⟩ := (h.pushFront hfree data).evict_list le_rfl
  refine ⟨next, ?_, hnext, hmax, ?_⟩
  · unfold insert touch
    rw [hfree]
    exact hevict
  · rw [hlist, List.map_take]
    rfl

end LRUCache.Coherent

namespace QueryCache

variable {Node : Type}

/-! ## One call after another -/

/-- `Site::fetch_query` without another call in between: the Query, whether it was constructed,
and the cache. -/
def fetchQuery (construct : LRUKey → Outcome (Query Node))
    (cache : LRUCache LRUKey (Query Node)) (key : LRUKey) :
    Outcome ((Query Node × Bool) × LRUCache LRUKey (Query Node)) := do
  let (found, cache) ← cache.fetch key false
  match found with
  | some query => return ((query, false), cache)
  | none => do
      let query ← construct key
      let cache ← cache.insert key query
      return ((query, true), cache)

/-- A call, with the keys of the Queries that were constructed, the last one first. -/
def fetchNext (construct : LRUKey → Outcome (Query Node))
    (past : List LRUKey × LRUCache LRUKey (Query Node)) (key : LRUKey) :
    Outcome (List LRUKey × LRUCache LRUKey (Query Node)) := do
  let ((_, constructed), cache) ← fetchQuery construct past.2 key
  return (if constructed then key :: past.1 else past.1, cache)

/-- The calls on a Site with a cache of some size. -/
def fetchAll (construct : LRUKey → Outcome (Query Node)) (size : ℕ) (keys : List LRUKey) :
    Outcome (List LRUKey × LRUCache LRUKey (Query Node)) :=
  keys.foldlM (fetchNext construct) ([], LRUCache.new size)

variable {construct : LRUKey → Outcome (Query Node)}

/-- The steps of a call. -/
def fetchLabels {Client : Type} (client : Client) (key : LRUKey) (constructed : Bool) :
    List (Label Client) :=
  if constructed then [.fetch client key, .construct client, .insert client]
  else [.fetch client key]

/-- A call as the steps of a thread that is alone. -/
theorem run_fetchQuery {Client : Type} [DecidableEq Client] (state : State Client Node)
    {client : Client} (hidle : state.calls client = none) {key : LRUKey} {query : Query Node}
    {constructed : Bool} {cache : LRUCache LRUKey (Query Node)}
    (h : fetchQuery construct state.cache key = .ok ((query, constructed), cache)) :
    Transition.run (step construct) state (fetchLabels client key constructed) =
      some { state with cache, ended := (key, .ok query) :: state.ended } := by
  have hcalls : Function.update state.calls client none = state.calls := by
    rw [← hidle, Function.update_eq_self]
  obtain ⟨⟨found, cache'⟩, hfetch, h⟩ := Outcome.bind_eq_ok.1 h
  cases found with
  | some query' =>
      obtain ⟨⟨rfl, rfl⟩, rfl⟩ : (query' = query ∧ false = constructed) ∧ cache' = cache := by
        simpa using h
      have hstep : step construct state (.fetch client key) =
          some ({ state with cache := cache' }.finish client key (.ok query')) := by
        simp only [step, hidle, fetchStep, hfetch]
      refine Transition.run_cons_eq_some.2 ⟨_, hstep, ?_⟩
      simp only [State.finish, hcalls]
      rfl
  | none =>
      obtain ⟨query', hconstruct, h⟩ := Outcome.bind_eq_ok.1 h
      obtain ⟨next, hinsert, h⟩ := Outcome.bind_eq_ok.1 h
      obtain ⟨⟨rfl, rfl⟩, rfl⟩ : (query' = query ∧ true = constructed) ∧ next = cache := by
        simpa using h
      let missed := { state with cache := cache' }.proceed client (.missed key)
      let constructed := missed.proceed client (.constructed key query')
      have hfetched : step construct state (.fetch client key) = some missed := by
        simp only [step, hidle, fetchStep, hfetch]
        rfl
      have hconstructed : step construct missed (.construct client) = some constructed := by
        have hcall : missed.calls client = some (.missed key) := Function.update_self ..
        simp only [step, hcall, constructStep, hconstruct]
        rfl
      have hinserted : step construct constructed (.insert client) =
          some ({ constructed with cache := next }.finish client key (.ok query')) := by
        have hcall : constructed.calls client = some (.constructed key query') :=
          Function.update_self ..
        have hcache : constructed.cache.insert key query' = .ok next := hinsert
        simp only [step, hcall, insertStep, hcache]
      refine Transition.run_cons_eq_some.2 ⟨missed, hfetched, ?_⟩
      refine Transition.run_cons_eq_some.2 ⟨constructed, hconstructed, ?_⟩
      refine Transition.run_cons_eq_some.2 ⟨_, hinserted, ?_⟩
      have hended : Function.update constructed.calls client none = state.calls := by
        show Function.update (Function.update (Function.update state.calls client _) client _)
          client none = state.calls
        rw [Function.update_idem, Function.update_idem, hcalls]
      simp only [State.finish, hended]
      rfl

/-- The calls as a run of that thread. -/
theorem run_foldlM {Client : Type} [DecidableEq Client] {client : Client} {keys : List LRUKey}
    {past final : List LRUKey × LRUCache LRUKey (Query Node)}
    (h : keys.foldlM (fetchNext construct) past = .ok final) {state : State Client Node}
    (hidle : state.calls client = none) (hcache : state.cache = past.2) :
    ∃ labels next, Transition.run (step construct) state labels = some next ∧
      next.calls client = none ∧ next.cache = final.2 := by
  induction keys generalizing past state with
  | nil =>
      obtain rfl := Outcome.pure_eq_ok.1 h
      exact ⟨[], state, rfl, hidle, hcache⟩
  | cons key keys ih =>
      rw [List.foldlM_cons] at h
      obtain ⟨middle, hfirst, hrest⟩ := Outcome.bind_eq_ok.1 h
      obtain ⟨⟨⟨query, constructed⟩, cache⟩, hfetch, hmiddle⟩ := Outcome.bind_eq_ok.1 hfirst
      obtain rfl := Outcome.pure_eq_ok.1 hmiddle
      have hcall := run_fetchQuery state hidle (hcache ▸ hfetch)
      let called := { state with cache, ended := (key, .ok query) :: state.ended }
      have hidle' : called.calls client = none := hidle
      obtain ⟨labels, next, hrun, hnext⟩ := ih hrest hidle' rfl
      refine ⟨fetchLabels client key constructed ++ labels, next, ?_, hnext⟩
      rw [Transition.run_append, hcall]
      exact hrun

/-! ## What the cache holds -/

/-- The cache holds the keys that were constructed last. -/
structure Follows (size : ℕ) (past : List LRUKey) (cache : LRUCache LRUKey (Query Node)) :
    Prop where
  coherent : cache.Coherent
  maxSize : cache.maxSize = size
  keys : cache.list.map LRUNode.key = past.take size

theorem follows_new (size : ℕ) : Follows size [] (LRUCache.new size : LRUCache LRUKey (Query Node))
    where
  coherent := LRUCache.coherent_new size
  maxSize := rfl
  keys := List.take_nil.symm

variable {size : ℕ} {past : List LRUKey} {cache : LRUCache LRUKey (Query Node)} {key : LRUKey}

theorem Follows.fetchQuery_hit (h : Follows size past cache) (hkey : key ∈ past.take size)
    (construct : LRUKey → Outcome (Query Node)) :
    ∃ query, fetchQuery construct cache key = .ok ((query, false), cache) := by
  obtain ⟨query, hfetch⟩ := h.coherent.fetch_eq_some (h.keys ▸ hkey)
  refine ⟨query, ?_⟩
  unfold fetchQuery
  rw [hfetch]
  rfl

theorem Follows.fetchQuery_miss (h : Follows size past cache) (hkey : key ∉ past.take size)
    {query : Query Node} (hconstruct : construct key = .ok query) :
    ∃ next, fetchQuery construct cache key = .ok ((query, true), next) ∧
      Follows size (key :: past) next := by
  have hlist : key ∉ cache.list.map LRUNode.key := h.keys ▸ hkey
  obtain ⟨next, hinsert, hcoherent, hmax, hkeys⟩ := h.coherent.insert_list hlist query
  refine ⟨next, ?_, hcoherent, hmax.trans h.maxSize, ?_⟩
  · unfold fetchQuery
    rw [h.coherent.fetch_eq_none hlist]
    simp only [bind, Except.bind, hconstruct, hinsert]
    rfl
  · rw [hkeys, h.keys, h.maxSize]
    cases size with
    | zero => rfl
    | succ size => rw [List.take_succ_cons, List.take_succ_cons, List.take_take,
        min_eq_left (Nat.le_succ size)]

/-- A call is a request of its key. -/
theorem Follows.fetchNext (h : Follows size past cache)
    (hconstruct : ∃ query, construct key = .ok query) :
    ∃ next, QueryCache.fetchNext construct (past, cache) key = .ok (request size past key, next) ∧
      Follows size (request size past key) next := by
  unfold QueryCache.fetchNext
  by_cases hkey : key ∈ past.take size
  · obtain ⟨query, hfetch⟩ := h.fetchQuery_hit hkey construct
    rw [request_of_mem hkey, hfetch]
    exact ⟨cache, rfl, h⟩
  · obtain ⟨query, hconstruct⟩ := hconstruct
    obtain ⟨next, hfetch, hnext⟩ := h.fetchQuery_miss hkey hconstruct
    rw [request_of_not_mem hkey, hfetch]
    exact ⟨next, rfl, hnext⟩

theorem Follows.foldlM (h : Follows size past cache)
    (construct : LRUKey → Outcome (Query Node)) {keys : List LRUKey}
    (hconstruct : ∀ key ∈ keys, ∃ query, construct key = .ok query) :
    ∃ next, keys.foldlM (QueryCache.fetchNext construct) (past, cache) =
        .ok (keys.foldl (request size) past, next) ∧
      Follows size (keys.foldl (request size) past) next := by
  induction keys generalizing past cache with
  | nil => exact ⟨cache, rfl, h⟩
  | cons key keys ih =>
      obtain ⟨middle, hfirst, hmiddle⟩ := h.fetchNext (hconstruct key (List.mem_cons_self ..))
      obtain ⟨next, hrest, hnext⟩ :=
        ih hmiddle fun other hother => hconstruct other (List.mem_cons_of_mem _ hother)
      refine ⟨next, ?_, hnext⟩
      rw [List.foldlM_cons, hfirst]
      exact hrest

/-- A key is found exactly if the cache holds it. -/
theorem Follows.fetchQuery_found_iff (h : Follows size past cache)
    (hconstruct : ∃ query, construct key = .ok query) :
    (∃ query, fetchQuery construct cache key = .ok ((query, false), cache)) ↔
      key ∈ past.take size := by
  constructor
  · intro hfound
    obtain ⟨query, hfound⟩ := hfound
    by_contra hmiss
    obtain ⟨query', hquery'⟩ := hconstruct
    obtain ⟨next, hfetch, -⟩ := h.fetchQuery_miss hmiss hquery'
    rw [hfound] at hfetch
    simp at hfetch
  · exact fun hheld => h.fetchQuery_hit hheld construct

/-! ## Fetching again -/

/-- After calls that do not throw, with fewer than `size` other keys since the last call for a
key: the key is found, and no Query constructed for it, exactly if that call constructed its
Query or fewer than `size` Queries have been constructed since then.  Which Queries are
constructed depends on the keys alone. -/
theorem fetchQuery_again_iff (construct : LRUKey → Outcome (Query Node)) (size : ℕ)
    (before between : List LRUKey) (key : LRUKey)
    (hconstruct : ∀ other ∈ before ++ key :: between, ∃ query, construct other = .ok query)
    (hfew : between.toFinset.card < size) :
    ∃ cache, fetchAll construct size (before ++ key :: between) =
        .ok (admitted size (before ++ key :: between), cache) ∧
      ((∃ query, fetchQuery construct cache key = .ok ((query, false), cache)) ↔
        key ∉ (admitted size before).take size ∨
          (admitted size (before ++ key :: between)).idxOf key < size) := by
  have hkey : key ∈ before ++ key :: between := by simp
  obtain ⟨cache, hrun, hfollows⟩ := (follows_new size).foldlM construct hconstruct
  have hfound := hfollows.fetchQuery_found_iff (hconstruct key hkey)
  refine ⟨cache, hrun, ?_⟩
  constructor
  · exact fun hquery => Or.inr ((mem_take_admitted hkey).1 (hfound.1 hquery))
  · intro hheld
    rcases hheld with hconstructed | hlast
    · exact hfound.2 (mem_take_of_admitted hconstructed hfew)
    · exact hfound.2 ((mem_take_admitted hkey).2 hlast)

/-- The titles of some Contexts. -/
def title (p : ℕ) : LRUKey := ⟨p, "title"⟩

/-- No query finds anything. -/
def nothing (_ : LRUKey) : Outcome (Query ℕ) := .ok ⟨[]⟩

theorem fetchQuery_again_iff_title :
    ∃ cache, fetchAll nothing 2 [title 1, title 2] =
        .ok (admitted 2 [title 1, title 2], cache) ∧
      ∃ query, fetchQuery nothing cache (title 1) = .ok ((query, false), cache) := by
  obtain ⟨cache, hrun, hagain⟩ := fetchQuery_again_iff nothing 2 [] [title 2] (title 1)
    (fun _ _ => ⟨_, rfl⟩) (by decide)
  exact ⟨cache, hrun, hagain.2 (Or.inl (show title 1 ∉ [] from List.not_mem_nil))⟩

theorem title_injective : Function.Injective title := fun _ _ h => congrArg LRUKey.p h

/-- The cache of a Site is full, the first key is fetched again, and then one more: now the first
key is gone. -/
theorem fetchQuery_forgets :
    ∃ before between past cache, title 0 ∉ between ∧ between.toFinset.card < 384 ∧
      fetchAll nothing 384 (before ++ title 0 :: between) = .ok (past, cache) ∧
      ¬ ∃ query, fetchQuery nothing cache (title 0) = .ok ((query, false), cache) := by
  let rest := (List.range 383).map fun p => title (p + 1)
  have hrange : title 0 :: rest = (List.range 384).map title := by
    rw [List.range_succ_eq_map, List.map_cons, List.map_map]
    rfl
  have hnodup : (title 0 :: rest).Nodup := hrange ▸ List.nodup_range.map title_injective
  have hlast : title 384 ∉ title 0 :: rest := by
    rw [hrange]
    intro hmem
    obtain ⟨p, hp, htitle⟩ := List.mem_map.1 hmem
    rw [title_injective htitle] at hp
    simp at hp
  have hlength : rest.length + 1 = 384 := by simp [rest]
  have hforgotten := not_mem_take_of_full hnodup hlast
  rw [hlength] at hforgotten
  have hconstruct : ∀ key ∈ title 0 :: rest ++ title 0 :: [title 384],
      ∃ query, nothing key = .ok query := fun _ _ => ⟨_, rfl⟩
  obtain ⟨cache, hrun, hfollows⟩ := (follows_new 384).foldlM nothing hconstruct
  refine ⟨title 0 :: rest, [title 384], _, cache, ?_, ?_, hrun, fun hfound => ?_⟩
  · exact fun hmem => hlast (List.mem_singleton.1 hmem ▸ List.mem_cons_self ..)
  · rw [List.toFinset_cons, List.toFinset_nil, insert_empty_eq, Finset.card_singleton]
    decide
  · exact hforgotten ((hfollows.fetchQuery_found_iff ⟨_, rfl⟩).1 hfound)

end QueryCache

end VaeDb
