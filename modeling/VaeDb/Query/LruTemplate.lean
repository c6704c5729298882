import VaeDb.Library.RecencyLists
import VaeDb.Query.LruCache

/-!
# The template `LRUCache`

All operations of `lru_cache.h`, for any `Sizefn`.  Sizes and the counter of the current size are
`unsigned long`, so the counter wraps around.

The template is a list of entries with different keys, the last used first
(`Library/RecencyLists.lean`):

* `performAll_refines` : every sequence of operations runs through, without undefined behaviour,
  and returns what the list of entries says; the counter is the sum of the sizes modulo `2 ^ 64`,
  and where a size and the maximum together do not wrap around, the sum itself and not more than
  the maximum.
* `fetch_again` : an entry is found as long as it and the entries used since fit together.
* `insertSized_one` : where all entries count one, `insert` is the one of `Query/LruCache.lean`.

`fetch_ptr` moves the entry to the front whatever its second argument is.
-/

namespace VaeDb

/-- An element of the list as an entry. -/
def LRUNode.entry {Key Data : Type} (node : LRUNode Key Data) : Key × Data := (node.key, node.data)

namespace LRUCache

open RecencyLists

variable {Key Data : Type} [LinearOrder Key]

/-! ## The operations -/

section

variable (sizefn : Data → UInt64) (cache : LRUCache Key Data)

/-- `clear`. -/
def clear : LRUCache Key Data :=
  { cache with list := [], index := OrderedMap.empty, currSize := 0 }

/-- The cache without an entry of the index and its element. -/
def dropNode (key : Key) (node : LRUNode Key Data) : LRUCache Key Data :=
  { cache with
    currSize := (cache.currSize + 2 ^ 64 - (sizefn node.data).toNat) % 2 ^ 64
    list := without cache.list node.address
    index := cache.index.erase key }

/-- `_remove` of an entry of the index. -/
def removeSized (key : Key) (iter : ℕ) : Outcome (LRUCache Key Data) := do
  let node ← cache.deref iter
  return cache.dropNode sizefn key node

/-- `_remove` of a key. -/
def removeKeySized (key : Key) : Outcome (LRUCache Key Data) :=
  match cache.index.find key with
  | some iter => cache.removeSized sizefn key iter
  | none => throw (.undefined .nullPointer)

/-- `remove`. -/
def remove (key : Key) : Outcome (LRUCache Key Data) :=
  match cache.index.find key with
  | some iter => cache.removeSized sizefn key iter
  | none => pure cache

/-- `fetch_ptr`, and what the pointer points to. -/
def fetchPtr (key : Key) : Outcome (Option Data × LRUCache Key Data) :=
  match cache.index.find key with
  | none => pure (none, cache)
  | some iter => do
      let touched ← cache.touch key
      let node ← touched.2.deref iter
      return (some node.data, touched.2)

/-- `fetch` into a given variable: the touch comes first. -/
def fetchInto (key : Key) (touchData : Bool) : Outcome (Option Data × LRUCache Key Data) :=
  match cache.index.find key with
  | none => pure (none, cache)
  | some iter => do
      let node ← cache.deref iter
      let moved :=
        if touchData then { cache with list := node :: without cache.list iter } else cache
      let found ← moved.deref iter
      return (some found.data, moved)

/-- `insert` from the `push_front` to the new size. -/
def pushSized (key : Key) (data : Data) : LRUCache Key Data :=
  { cache with
    list := ⟨cache.nextAddress, key, data⟩ :: cache.list
    index := cache.index.insert key cache.nextAddress
    currSize := (cache.currSize + (sizefn data).toNat) % 2 ^ 64
    nextAddress := cache.nextAddress + 1 }

end

/-- The loop of `insert`, for so many rounds: the last element of the list goes. -/
def evictSized (sizefn : Data → UInt64) : ℕ → LRUCache Key Data → Outcome (LRUCache Key Data)
  | 0, cache => if cache.currSize > cache.maxSize then throw .unfinished else pure cache
  | rounds + 1, cache =>
      if cache.currSize > cache.maxSize then
        match cache.list.getLast? with
        | some node => do
            let removed ← cache.removeKeySized sizefn node.key
            evictSized sizefn rounds removed
        | none => throw (.undefined .outOfBounds)
      else pure cache

/-- `insert`. -/
def insertSized (sizefn : Data → UInt64) (cache : LRUCache Key Data) (key : Key) (data : Data) :
    Outcome (LRUCache Key Data) := do
  let touched ← cache.touch key
  let freed ← match touched.1 with
    | some iter => touched.2.removeSized sizefn key iter
    | none => pure touched.2
  let added := freed.pushSized sizefn key data
  evictSized sizefn added.list.length added

/-! ### `Countfn`

Where all entries count one, and the counter does not wrap around, the operations with sizes are
those of the cache for queries. -/

section

variable {cache : LRUCache Key Data} {key : Key}

theorem dropNode_one (hpos : 0 < cache.currSize) (hroom : cache.currSize < 2 ^ 64)
    (node : LRUNode Key Data) :
    cache.dropNode (fun _ => 1) key node = cache.removed key node.address := by
  have hsize : (cache.currSize + 2 ^ 64 - (1 : UInt64).toNat) % 2 ^ 64 = cache.currSize - 1 := by
    show (cache.currSize + 2 ^ 64 - 1) % 2 ^ 64 = cache.currSize - 1
    omega
  unfold dropNode removed
  rw [hsize]

theorem removeSized_one (h : Coherent cache) (hroom : cache.currSize < 2 ^ 64) {iter : ℕ}
    (hfind : cache.index.find key = some iter) :
    cache.removeSized (fun _ => 1) key iter = cache.removeEntry key iter := by
  obtain ⟨node, hnode, rfl, -⟩ := (h.index_iff key iter).1 hfind
  have hpos : 0 < cache.currSize := h.counted ▸ List.length_pos_of_mem hnode
  unfold removeSized removeEntry
  rw [h.deref_eq hnode]
  exact congrArg Except.ok (dropNode_one hpos hroom node)

theorem removeKeySized_one (h : Coherent cache) (hroom : cache.currSize < 2 ^ 64) (key : Key) :
    cache.removeKeySized (fun _ => 1) key = cache.removeKey key := by
  unfold removeKeySized removeKey
  cases hfind : cache.index.find key with
  | none => rfl
  | some iter => exact removeSized_one h hroom hfind

theorem evictSized_one (h : Coherent cache) (hroom : cache.currSize < 2 ^ 64) (rounds : ℕ) :
    evictSized (fun _ => 1) rounds cache = evict rounds cache := by
  -- each round takes one entry from a cache that is in order again afterwards
  induction rounds generalizing cache with
  | zero => rfl
  | succ rounds ih =>
      rw [evictSized, evict]
      split
      · cases hlast : cache.list.getLast? with
        | none => rfl
        | some node =>
            have hnode : node ∈ cache.list := List.mem_of_getLast? hlast
            have hfind := (h.index_iff node.key node.address).2 ⟨node, hnode, rfl, rfl⟩
            have hremove : cache.removeKey node.key =
                .ok (cache.removed node.key node.address) := by
              unfold removeKey
              rw [hfind]
              exact h.removeEntry_eq hnode
            simp only [removeKeySized_one h hroom, hremove]
            exact ih (h.removed hnode) ((Nat.sub_le _ _).trans_lt hroom)
      · rfl

/-- `insert` from the `push_front` on. -/
theorem evictSized_pushSized_one (h : Coherent cache) (hfree : cache.index.find key = none)
    (hroom : cache.currSize + 1 < 2 ^ 64) (data : Data) :
    evictSized (fun _ => 1) (cache.pushSized (fun _ => 1) key data).list.length
        (cache.pushSized (fun _ => 1) key data) =
      evict (cache.pushFront key data).currSize (cache.pushFront key data) := by
  have hcoherent := h.pushFront hfree data
  have hpush : cache.pushSized (fun _ => 1) key data = cache.pushFront key data := by
    have hsize : (cache.currSize + (1 : UInt64).toNat) % 2 ^ 64 = cache.currSize + 1 := by
      show (cache.currSize + 1) % 2 ^ 64 = cache.currSize + 1
      omega
    unfold pushSized pushFront
    rw [hsize]
  rw [hpush, ← hcoherent.counted]
  exact evictSized_one hcoherent hroom _

/-- `insert` of an entry that counts one. -/
theorem insertSized_one (h : Coherent cache) (hroom : cache.currSize + 1 < 2 ^ 64) (key : Key)
    (data : Data) : cache.insertSized (fun _ => 1) key data = cache.insert key data := by
  obtain ⟨list, hperm, htouch⟩ := h.touch_spec key
  have hlisted : Coherent { cache with list } := h.of_perm hperm
  obtain ⟨freed, hremove, hfreed, -, hfree, hothers⟩ := hlisted.removeFound_spec key
  -- to free the key never adds an entry, so there is room for one more in the counter
  have hsmaller : freed.currSize ≤ cache.currSize := by
    have hsublist : (freed.list.map LRUNode.address).Subperm (list.map LRUNode.address) :=
      List.subperm_of_subset hfreed.nodup fun address haddress => by
        obtain ⟨node, hnode, rfl⟩ := List.mem_map.1 haddress
        exact List.mem_map_of_mem (hothers node hnode).2
    have hlength := hsublist.length_le
    rwa [List.length_map, List.length_map, ← hfreed.counted, ← hlisted.counted] at hlength
  have hpush := evictSized_pushSized_one hfreed hfree (by omega) data
  have hfound : ({ cache with list } : LRUCache Key Data).index.find key =
      cache.index.find key := rfl
  unfold insertSized insert
  simp only [htouch, bind, Except.bind]
  rw [← hfound, hremove]
  cases hfind : ({ cache with list } : LRUCache Key Data).index.find key with
  | none =>
      rw [hfind] at hremove
      obtain rfl := Except.ok.inj hremove
      exact hpush
  | some iter =>
      have hentry : LRUCache.removeSized (fun _ => 1) { cache with list } key iter = .ok freed :=
        (removeSized_one hlisted (Nat.lt_of_succ_lt hroom) hfind).trans (by rwa [hfind] at hremove)
      simp only [hentry]
      exact hpush

end

/-- A call of the cache. -/
inductive Operation (Key Data : Type)
  | clear
  | exists_ (key : Key)
  | remove (key : Key)
  | touch (key : Key)
  | fetchPtr (key : Key) (touch : Bool)
  | fetch (key : Key) (touchData : Bool)
  | fetchInto (key : Key) (touchData : Bool)
  | insert (key : Key) (data : Data)
  | getAllKeys

/-- What a call returns. -/
inductive Result (Key Data : Type)
  | nothing
  | flag (found : Bool)
  | copy (data : Data)
  | data (found : Option Data)
  | keys (keys : List Key)

/-- A call. -/
def perform [Inhabited Data] (sizefn : Data → UInt64) (cache : LRUCache Key Data) :
    Operation Key Data → Outcome (Result Key Data × LRUCache Key Data)
  | .clear => pure (.nothing, cache.clear)
  | .exists_ key => pure (.flag (cache.index.find key).isSome, cache)
  | .remove key => do
      let cache ← cache.remove sizefn key
      return (.nothing, cache)
  | .touch key => do
      let touched ← cache.touch key
      return (.nothing, touched.2)
  | .fetchPtr key _ => do
      let fetched ← cache.fetchPtr key
      return (.data fetched.1, fetched.2)
  | .fetch key touchData => do
      let fetched ← cache.fetch key touchData
      return (.copy (fetched.1.getD default), fetched.2)
  | .fetchInto key touchData => do
      let fetched ← cache.fetchInto key touchData
      return (.data fetched.1, fetched.2)
  | .insert key data => do
      let cache ← cache.insertSized sizefn key data
      return (.nothing, cache)
  | .getAllKeys => pure (.keys (cache.list.map LRUNode.key), cache)

/-- Some calls, one after another, and what they return. -/
def performAll [Inhabited Data] (sizefn : Data → UInt64) :
    LRUCache Key Data → List (Operation Key Data) →
      Outcome (List (Result Key Data) × LRUCache Key Data)
  | cache, [] => pure ([], cache)
  | cache, operation :: rest => do
      let first ← cache.perform sizefn operation
      let others ← performAll sizefn first.2 rest
      return (first.1 :: others.1, others.2)

/-! ## The list of entries -/

/-- The entries of a cache. -/
def entries (cache : LRUCache Key Data) : List (Key × Data) := cache.list.map LRUNode.entry

/-- The sum of the sizes. -/
def total (sizefn : Data → UInt64) (entries : List (Key × Data)) : ℕ :=
  weight (fun data => (sizefn data).toNat) entries

/-- The counter is not above the maximum. -/
def fits (sizefn : Data → UInt64) (maxSize : ℕ) (entries : List (Key × Data)) : Bool :=
  total sizefn entries % 2 ^ 64 ≤ maxSize

namespace Operation

/-- What a call changes. -/
def change : Operation Key Data → Option (Change Key Data)
  | .clear => some .clear
  | .remove key => some (.remove key)
  | .touch key => some (.use key)
  | .fetchPtr key _ => some (.use key)
  | .fetch key touchData => if touchData then some (.use key) else none
  | .fetchInto key touchData => if touchData then some (.use key) else none
  | .insert key data => some (.put key data)
  | .exists_ _ => none
  | .getAllKeys => none

/-- What a call returns for a list of entries. -/
def answer [Inhabited Data] (entries : List (Key × Data)) : Operation Key Data → Result Key Data
  | .exists_ key => .flag (value? entries key).isSome
  | .fetchPtr key _ => .data (value? entries key)
  | .fetch key _ => .copy ((value? entries key).getD default)
  | .fetchInto key _ => .data (value? entries key)
  | .getAllKeys => .keys (entries.map Prod.fst)
  | _ => .nothing

/-- The entries after a call. -/
def after (fits : List (Key × Data) → Bool) (entries : List (Key × Data))
    (operation : Operation Key Data) : List (Key × Data) :=
  match operation.change with
  | some change => apply fits entries change
  | none => entries

end Operation

/-- What calls return for a list of entries, one after another. -/
def answers [Inhabited Data] (fits : List (Key × Data) → Bool) :
    List (Key × Data) → List (Operation Key Data) → List (Result Key Data)
  | _, [] => []
  | entries, operation :: rest =>
      operation.answer entries :: answers fits (operation.after fits entries) rest

/-! ## The cache and its entries -/

/-- Index and list agree, the counter counts the sizes, and the entries are these. -/
structure Tracks (sizefn : Data → UInt64) (maxSize : ℕ) (list : List (Key × Data))
    (cache : LRUCache Key Data) : Prop where
  coherent : Coherent { cache with currSize := cache.list.length }
  counted : cache.currSize = total sizefn list % 2 ^ 64
  entries_eq : cache.entries = list
  maxSize_eq : cache.maxSize = maxSize

section

variable {sizefn : Data → UInt64} {maxSize : ℕ} {list : List (Key × Data)}
  {cache : LRUCache Key Data} {key : Key} {node : LRUNode Key Data}

/-- Where all entries count one, the counter is the length of the list. -/
theorem Coherent.recount (h : Coherent cache) :
    Coherent { cache with currSize := cache.list.length } :=
  ⟨h.nodup, h.address_lt, h.index_iff, rfl⟩

theorem tracks_new (maxSize : ℕ) : Tracks sizefn maxSize [] (new maxSize : LRUCache Key Data) :=
  ⟨coherent_new maxSize, rfl, rfl, rfl⟩

namespace Tracks

theorem distinct (h : Tracks sizefn maxSize list cache) : Distinct list := by
  have hkeys : (cache.list.map LRUNode.key).Nodup :=
    (List.nodup_map_iff_inj_on h.coherent.nodup.of_map).2 fun node hnode other hother hkey =>
      h.coherent.eq_of_key hnode hother hkey
  have hmap : list.map Prod.fst = cache.list.map LRUNode.key := by
    rw [← h.entries_eq, entries, List.map_map]
    rfl
  unfold Distinct
  rwa [hmap]

/-- What the index says of a key: its element, or that there is none. -/
theorem find_cases (h : Tracks sizefn maxSize list cache) (key : Key) :
    (∃ node ∈ cache.list, node.key = key ∧ cache.index.find key = some node.address ∧
        value? list key = some node.data) ∨
      (cache.index.find key = none ∧ (∀ node ∈ cache.list, node.key ≠ key) ∧
        value? list key = none) := by
  have hvalue : ∀ data, value? list key = some data ↔
      ∃ node ∈ cache.list, node.entry = (key, data) := by
    intro data
    rw [value?_eq_some h.distinct, ← h.entries_eq, entries, List.mem_map]
  cases hfind : cache.index.find key with
  | some iter =>
      obtain ⟨node, hnode, rfl, hkey⟩ := (h.coherent.index_iff key iter).1 hfind
      refine Or.inl ⟨node, hnode, hkey, rfl, (hvalue node.data).2 ⟨node, hnode, ?_⟩⟩
      exact Prod.ext hkey rfl
  | none =>
      have hnone : ∀ node ∈ cache.list, node.key ≠ key := by
        intro node hnode hkey
        have hsome := (h.coherent.index_iff key node.address).2 ⟨node, hnode, rfl, hkey⟩
        change cache.index.find key = _ at hsome
        rw [hfind] at hsome
        cases hsome
      refine Or.inr ⟨rfl, hnone, Option.eq_none_iff_forall_ne_some.2 fun data hdata => ?_⟩
      obtain ⟨node, hnode, hentry⟩ := (hvalue data).1 hdata
      exact hnone node hnode (congrArg Prod.fst hentry)

theorem deref_eq (h : Tracks sizefn maxSize list cache) (hnode : node ∈ cache.list) :
    cache.deref node.address = .ok node :=
  h.coherent.deref_eq hnode

/-- Without the element of a key, the entries are those with other keys. -/
theorem entries_without (h : Tracks sizefn maxSize list cache) (hnode : node ∈ cache.list) :
    (without cache.list node.address).map LRUNode.entry = others node.key list := by
  rw [← h.entries_eq, entries, others, List.filter_map, without]
  congr 1
  refine List.filter_congr fun other hother => ?_
  have hsame : other.address = node.address ↔ other.key = node.key := by
    constructor
    · intro haddress
      rw [List.inj_on_of_nodup_map h.coherent.nodup hother hnode haddress]
    · intro hkey
      rw [h.coherent.eq_of_key hother hnode hkey]
  exact decide_eq_decide.2 (not_congr hsame)

/-- Without an element for a key, there is nothing to move or to drop. -/
theorem others_of_none (h : Tracks sizefn maxSize list cache)
    (hnone : ∀ node ∈ cache.list, node.key ≠ key) : others key list = list := by
  rw [← h.entries_eq]
  refine List.filter_eq_self.2 fun entry hentry => ?_
  obtain ⟨node, hnode, rfl⟩ := List.mem_map.1 hentry
  exact decide_eq_true (hnone node hnode)

theorem own_of_none (h : Tracks sizefn maxSize list cache)
    (hnone : ∀ node ∈ cache.list, node.key ≠ key) : own key list = [] := by
  rw [← h.entries_eq]
  refine List.filter_eq_nil_iff.2 fun entry hentry hkey => ?_
  obtain ⟨node, hnode, rfl⟩ := List.mem_map.1 hentry
  exact hnone node hnode (of_decide_eq_true hkey)

theorem apply_use_of_none (h : Tracks sizefn maxSize list cache)
    (hnone : ∀ node ∈ cache.list, node.key ≠ key) :
    apply (fits sizefn maxSize) list (.use key) = list := by
  show own key list ++ others key list = list
  rw [h.own_of_none hnone, h.others_of_none hnone]
  rfl

/-- The entry of a key goes to the front. -/
theorem touched (h : Tracks sizefn maxSize list cache) (hnode : node ∈ cache.list) :
    Tracks sizefn maxSize (apply (fits sizefn maxSize) list (.use node.key))
      { cache with list := node :: without cache.list node.address } := by
  have hperm := (h.coherent.perm_without hnode).symm
  have hown : own node.key list = [node.entry] := by
    obtain ⟨front, back, hsplit⟩ := List.append_of_mem
      (h.entries_eq ▸ List.mem_map_of_mem hnode : node.entry ∈ list)
    have hdistinct := h.distinct
    rw [hsplit] at hdistinct ⊢
    exact hdistinct.own_eq
  have hentries : (node :: without cache.list node.address).map LRUNode.entry =
      apply (fits sizefn maxSize) list (.use node.key) := by
    show node.entry :: (without cache.list node.address).map LRUNode.entry =
      own node.key list ++ others node.key list
    rw [h.entries_without hnode, hown]
    rfl
  refine ⟨?_, ?_, hentries, h.maxSize_eq⟩
  · exact (h.coherent.of_perm hperm).recount
  · show cache.currSize = _
    rw [h.counted, ← hentries, total, total, weight, weight, ← h.entries_eq, entries, List.map_map,
      List.map_map]
    congr 1
    exact ((hperm.map _).sum_eq).symm

/-- The entry of a key goes. -/
theorem dropped (h : Tracks sizefn maxSize list cache) (hnode : node ∈ cache.list) :
    Tracks sizefn maxSize (others node.key list) (cache.dropNode sizefn node.key node) := by
  have hcoherent := h.coherent.removed hnode
  have hperm := h.coherent.perm_without hnode
  have hentries := h.entries_without hnode
  refine ⟨?_, ?_, hentries, h.maxSize_eq⟩
  · exact hcoherent.recount
  · have hsum : total sizefn list =
        (sizefn node.data).toNat + total sizefn (others node.key list) := by
      rw [← hentries, ← h.entries_eq, entries, total, total, weight, weight, List.map_map,
        List.map_map]
      have hperm := (hperm.map fun node => (sizefn node.data).toNat).sum_eq
      rwa [List.map_cons, List.sum_cons] at hperm
    have hsize : (sizefn node.data).toNat < 2 ^ 64 := (sizefn node.data).toNat_lt
    show (cache.currSize + 2 ^ 64 - (sizefn node.data).toNat) % 2 ^ 64 = _
    rw [h.counted, hsum]
    omega

theorem removeSized_eq (h : Tracks sizefn maxSize list cache) (hnode : node ∈ cache.list) :
    cache.removeSized sizefn node.key node.address =
      .ok (cache.dropNode sizefn node.key node) := by
  unfold removeSized
  rw [h.deref_eq hnode]
  rfl

/-- A new entry in front. -/
theorem pushed (h : Tracks sizefn maxSize list cache) (hfree : cache.index.find key = none)
    (data : Data) :
    Tracks sizefn maxSize ((key, data) :: list) (cache.pushSized sizefn key data) := by
  refine ⟨h.coherent.pushFront hfree data, ?_, ?_, h.maxSize_eq⟩
  · have hsum : total sizefn ((key, data) :: list) = (sizefn data).toNat + total sizefn list := rfl
    show (cache.currSize + (sizefn data).toNat) % 2 ^ 64 = _
    rw [h.counted, hsum]
    omega
  · rw [← h.entries_eq]
    rfl

theorem fits_eq (h : Tracks sizefn maxSize list cache) :
    fits sizefn maxSize list = decide ¬ cache.currSize > cache.maxSize := by
  unfold fits
  rw [h.counted, h.maxSize_eq]
  exact decide_eq_decide.2 not_lt.symm

/-- The loop of `insert` ends, and leaves the longest first entries that fit. -/
theorem evicted (h : Tracks sizefn maxSize list cache) {rounds : ℕ}
    (hrounds : list.length ≤ rounds) :
    ∃ next, evictSized sizefn rounds cache = .ok next ∧
      Tracks sizefn maxSize (trim (fits sizefn maxSize) list) next := by
  have hfits := h.fits_eq
  induction rounds generalizing list cache with
  | zero =>
      obtain rfl := List.length_eq_zero_iff.1 (Nat.le_zero.1 hrounds)
      have hempty : cache.currSize = 0 := h.counted
      exact ⟨cache, by rw [evictSized, if_neg (by omega)]; rfl, h⟩
  | succ rounds ih =>
      by_cases hfull : cache.currSize > cache.maxSize
      · obtain ⟨node, hlast⟩ : ∃ node, cache.list.getLast? = some node := by
          refine Option.isSome_iff_exists.1 (List.getLast?_isSome.2 fun hnil => ?_)
          have hcounted := h.counted
          rw [← h.entries_eq, entries, hnil] at hcounted
          have hempty : cache.currSize = 0 := hcounted
          omega
        obtain ⟨front, hfront⟩ := List.getLast?_eq_some_iff.1 hlast
        have hnode : node ∈ cache.list := List.mem_of_getLast? hlast
        have hlist : list = front.map LRUNode.entry ++ [node.entry] := by
          rw [← h.entries_eq, entries, hfront, List.map_append, List.map_singleton]
        have hothers : others node.key list = front.map LRUNode.entry := by
          have hdrop : without cache.list node.address = cache.list.dropLast :=
            h.coherent.without_getLast hlast
          rw [← h.entries_without hnode, hdrop, hfront, List.dropLast_concat]
        have hdropped := h.dropped hnode
        rw [hothers] at hdropped
        have hremove : cache.removeKeySized sizefn node.key =
            .ok (cache.dropNode sizefn node.key node) := by
          have hfind : cache.index.find node.key = some node.address :=
            (h.coherent.index_iff node.key node.address).2 ⟨node, hnode, rfl, rfl⟩
          unfold removeKeySized
          rw [hfind]
          exact h.removeSized_eq hnode
        have hshorter : (front.map LRUNode.entry).length ≤ rounds := by
          rw [hlist, List.length_append] at hrounds
          exact Nat.le_of_succ_le_succ hrounds
        obtain ⟨next, hevict, hnext⟩ := ih hdropped hshorter hdropped.fits_eq
        refine ⟨next, ?_, ?_⟩
        · rw [evictSized, if_pos hfull]
          simp only [hlast, hremove]
          exact hevict
        · rw [hlist, trim_concat, ← hlist, if_neg]
          · exact hnext
          · rw [hfits, decide_eq_true_eq, not_not]
            exact hfull
      · refine ⟨cache, by rw [evictSized, if_neg hfull]; rfl, ?_⟩
        rw [trim_of_fits (by rw [hfits]; exact decide_eq_true hfull)]
        exact h

/-! ### Calls -/

theorem touch_eq (h : Tracks sizefn maxSize list cache) (key : Key) :
    ∃ next, cache.touch key = .ok (cache.index.find key, next) ∧ next.index = cache.index ∧
      Tracks sizefn maxSize (apply (fits sizefn maxSize) list (.use key)) next := by
  unfold touch
  rcases h.find_cases key with hfound | hmissing
  · obtain ⟨node, hnode, rfl, hfind, -⟩ := hfound
    refine ⟨{ cache with list := node :: without cache.list node.address }, ?_, rfl,
      h.touched hnode⟩
    simp only [hfind, h.deref_eq hnode]
    rfl
  · obtain ⟨hfind, hnone, -⟩ := hmissing
    refine ⟨cache, by rw [hfind]; rfl, rfl, ?_⟩
    rw [h.apply_use_of_none hnone]
    exact h

theorem remove_eq (h : Tracks sizefn maxSize list cache) (key : Key) :
    ∃ next, cache.remove sizefn key = .ok next ∧ next.index.find key = none ∧
      Tracks sizefn maxSize (others key list) next := by
  unfold remove
  rcases h.find_cases key with hfound | hmissing
  · obtain ⟨node, hnode, rfl, hfind, -⟩ := hfound
    refine ⟨cache.dropNode sizefn node.key node, ?_, ?_, h.dropped hnode⟩
    · simp only [hfind]
      exact h.removeSized_eq hnode
    · show (cache.index.erase node.key).find node.key = none
      rw [OrderedMap.find_erase, if_pos rfl]
  · obtain ⟨hfind, hnone, -⟩ := hmissing
    refine ⟨cache, by rw [hfind]; rfl, hfind, ?_⟩
    rw [h.others_of_none hnone]
    exact h

/-- `insert` removes the entry that it has found, as `remove` does. -/
theorem insertSized_eq (h : Tracks sizefn maxSize list cache) (key : Key) (data : Data) :
    ∃ next, cache.insertSized sizefn key data = .ok next ∧
      Tracks sizefn maxSize (apply (fits sizefn maxSize) list (.put key data)) next := by
  obtain ⟨touched, htouch, hindex, htouched⟩ := h.touch_eq key
  obtain ⟨freed, hremove, hfree, hfreed⟩ := htouched.remove_eq key
  have hothers : others key (apply (fits sizefn maxSize) list (.use key)) = others key list := by
    show others key (own key list ++ others key list) = others key list
    have hnone : others key (own key list) = [] :=
      List.filter_eq_nil_iff.2 fun entry hentry hother =>
        of_decide_eq_true hother (mem_own.1 hentry).2
    rw [others_append, hnone, List.nil_append]
    exact List.filter_eq_self.2 fun entry hentry => decide_eq_true (mem_others.1 hentry).2
  rw [hothers] at hfreed
  have hpushed := hfreed.pushed hfree data
  have hlength : ((key, data) :: others key list).length ≤
      (freed.pushSized sizefn key data).list.length := by
    have hsame := congrArg List.length hpushed.entries_eq
    rw [entries, List.length_map] at hsame
    exact hsame.ge
  obtain ⟨next, hevict, hnext⟩ := hpushed.evicted hlength
  refine ⟨next, ?_, hnext⟩
  unfold remove at hremove
  rw [hindex] at hremove
  unfold insertSized
  simp only [htouch, bind, Except.bind]
  cases hfind : cache.index.find key with
  | none =>
      rw [hfind] at hremove
      cases hremove
      exact hevict
  | some iter =>
      rw [hfind] at hremove
      simp only at hremove ⊢
      rw [hremove]
      exact hevict

theorem fetch_eq (h : Tracks sizefn maxSize list cache) (key : Key) (touchData : Bool) :
    ∃ next, cache.fetch key touchData = .ok (value? list key, next) ∧
      Tracks sizefn maxSize
        ((Operation.fetch key touchData).after (fits sizefn maxSize) list) next := by
  unfold fetch
  rcases h.find_cases key with hfound | hmissing
  · obtain ⟨node, hnode, rfl, hfind, hvalue⟩ := hfound
    rw [hvalue]
    simp only [hfind, h.deref_eq hnode]
    cases touchData with
    | true =>
        obtain ⟨next, htouch, -, hnext⟩ := h.touch_eq node.key
        refine ⟨next, ?_, hnext⟩
        simp only [htouch, bind, Except.bind]
        rfl
    | false => exact ⟨cache, rfl, h⟩
  · obtain ⟨hfind, hnone, hvalue⟩ := hmissing
    refine ⟨cache, by rw [hfind, hvalue]; rfl, ?_⟩
    cases touchData with
    | true =>
        have hsame : (Operation.fetch key true).after (fits sizefn maxSize) list = list :=
          h.apply_use_of_none hnone
        rwa [hsame]
    | false => exact h

theorem fetchInto_eq (h : Tracks sizefn maxSize list cache) (key : Key) (touchData : Bool) :
    ∃ next, cache.fetchInto key touchData = .ok (value? list key, next) ∧
      Tracks sizefn maxSize
        ((Operation.fetchInto key touchData).after (fits sizefn maxSize) list) next := by
  unfold fetchInto
  rcases h.find_cases key with hfound | hmissing
  · obtain ⟨node, hnode, rfl, hfind, hvalue⟩ := hfound
    rw [hvalue]
    simp only [hfind, h.deref_eq hnode, bind, Except.bind]
    cases touchData with
    | true =>
        have htouched := h.touched hnode
        refine ⟨_, ?_, htouched⟩
        rw [if_pos rfl, htouched.deref_eq (List.mem_cons_self ..)]
        rfl
    | false =>
        refine ⟨cache, ?_, h⟩
        rw [if_neg Bool.false_ne_true, h.deref_eq hnode]
        rfl
  · obtain ⟨hfind, hnone, hvalue⟩ := hmissing
    refine ⟨cache, by rw [hfind, hvalue]; rfl, ?_⟩
    cases touchData with
    | true =>
        have hsame : (Operation.fetchInto key true).after (fits sizefn maxSize) list = list :=
          h.apply_use_of_none hnone
        rwa [hsame]
    | false => exact h

theorem fetchPtr_eq (h : Tracks sizefn maxSize list cache) (key : Key) :
    ∃ next, cache.fetchPtr key = .ok (value? list key, next) ∧
      Tracks sizefn maxSize (apply (fits sizefn maxSize) list (.use key)) next := by
  obtain ⟨next, htouch, hindex, hnext⟩ := h.touch_eq key
  unfold fetchPtr
  rcases h.find_cases key with hfound | hmissing
  · obtain ⟨node, hnode, rfl, hfind, hvalue⟩ := hfound
    refine ⟨next, ?_, hnext⟩
    rw [hvalue]
    simp only [hfind, htouch, bind, Except.bind]
    unfold touch at htouch
    simp only [hfind, h.deref_eq hnode] at htouch
    obtain rfl := congrArg Prod.snd (Except.ok.inj htouch)
    rw [hnext.deref_eq (List.mem_cons_self ..)]
    rfl
  · obtain ⟨hfind, hnone, hvalue⟩ := hmissing
    refine ⟨cache, by rw [hfind, hvalue]; rfl, ?_⟩
    exact (h.apply_use_of_none hnone).symm ▸ h

theorem cleared (h : Tracks sizefn maxSize list cache) :
    Tracks sizefn maxSize [] cache.clear := by
  refine ⟨⟨List.nodup_nil, fun _ hnode => (by cases hnode), fun key iter => ?_, rfl⟩, rfl, rfl,
    h.maxSize_eq⟩
  simp [clear]

/-- One call. -/
theorem perform_eq [Inhabited Data] (h : Tracks sizefn maxSize list cache)
    (operation : Operation Key Data) :
    ∃ next, cache.perform sizefn operation = .ok (operation.answer list, next) ∧
      Tracks sizefn maxSize (operation.after (fits sizefn maxSize) list) next := by
  cases operation with
  | clear => exact ⟨cache.clear, rfl, h.cleared⟩
  | exists_ key =>
      refine ⟨cache, ?_, h⟩
      have hsome : (cache.index.find key).isSome = (value? list key).isSome := by
        rcases h.find_cases key with hfound | hmissing
        · obtain ⟨node, -, -, hfind, hvalue⟩ := hfound
          rw [hfind, hvalue]
          rfl
        · rw [hmissing.1, hmissing.2.2]
          rfl
      simp only [perform, hsome]
      rfl
  | remove key =>
      obtain ⟨next, hremove, -, hnext⟩ := h.remove_eq key
      exact ⟨next, by simp only [perform, hremove]; rfl, hnext⟩
  | touch key =>
      obtain ⟨next, htouch, -, hnext⟩ := h.touch_eq key
      exact ⟨next, by simp only [perform, htouch]; rfl, hnext⟩
  | fetchPtr key touch =>
      obtain ⟨next, hfetch, hnext⟩ := h.fetchPtr_eq key
      exact ⟨next, by simp only [perform, hfetch]; rfl, hnext⟩
  | fetch key touchData =>
      obtain ⟨next, hfetch, hnext⟩ := h.fetch_eq key touchData
      exact ⟨next, by simp only [perform, hfetch]; rfl, hnext⟩
  | fetchInto key touchData =>
      obtain ⟨next, hfetch, hnext⟩ := h.fetchInto_eq key touchData
      exact ⟨next, by simp only [perform, hfetch]; rfl, hnext⟩
  | insert key data =>
      obtain ⟨next, hinsert, hnext⟩ := h.insertSized_eq key data
      exact ⟨next, by simp only [perform, hinsert]; rfl, hnext⟩
  | getAllKeys =>
      refine ⟨cache, ?_, h⟩
      show Except.ok (Result.keys (cache.list.map LRUNode.key), cache) =
        Except.ok (Result.keys (list.map Prod.fst), cache)
      rw [← h.entries_eq, entries, List.map_map]
      rfl

end Tracks

/-! ## Any sequence of calls -/

/-- The entries after some calls on a new cache. -/
def entriesAfter (sizefn : Data → UInt64) (maxSize : ℕ) (operations : List (Operation Key Data)) :
    List (Key × Data) :=
  operations.foldl (Operation.after (fits sizefn maxSize)) []

theorem Tracks.performAll [Inhabited Data] (h : Tracks sizefn maxSize list cache)
    (operations : List (Operation Key Data)) :
    ∃ next, LRUCache.performAll sizefn cache operations =
        .ok (answers (fits sizefn maxSize) list operations, next) ∧
      Tracks sizefn maxSize (operations.foldl (Operation.after (fits sizefn maxSize)) list)
        next := by
  induction operations generalizing list cache with
  | nil => exact ⟨cache, rfl, h⟩
  | cons operation rest ih =>
      obtain ⟨middle, hfirst, hmiddle⟩ := h.perform_eq operation
      obtain ⟨next, hrest, hnext⟩ := ih hmiddle
      refine ⟨next, ?_, hnext⟩
      simp only [LRUCache.performAll, hfirst, bind, Except.bind, hrest]
      rfl

omit [LinearOrder Key] in
theorem total_le_of_sublist {list list' : List (Key × Data)} (h : list.Sublist list') :
    total sizefn list ≤ total sizefn list' :=
  (h.map _).sum_le_sum fun _ _ => Nat.zero_le _

/-- While no sum of sizes wraps around, what is kept is not more than the maximum. -/
theorem total_after (h : total sizefn list ≤ maxSize) {operation : Operation Key Data}
    (hsize : ∀ key data, operation = .insert key data →
      (sizefn data).toNat + maxSize < 2 ^ 64) :
    total sizefn (operation.after (fits sizefn maxSize) list) ≤ maxSize := by
  have hothers : ∀ key, total sizefn (others key list) ≤ maxSize := fun key =>
    (total_le_of_sublist List.filter_sublist).trans h
  have huse : ∀ key, total sizefn (own key list ++ others key list) ≤ maxSize := by
    intro key
    have hperm : (own key list ++ others key list).Perm list := by
      simpa [own, others] using List.filter_append_perm (fun entry => decide (entry.1 = key)) list
    exact ((hperm.map _).sum_eq).trans_le h
  cases operation with
  | clear => exact Nat.zero_le _
  | exists_ key => exact h
  | remove key => exact hothers key
  | touch key => exact huse key
  | fetchPtr key touch => exact huse key
  | fetch key touchData =>
      cases touchData with
      | true => exact huse key
      | false => exact h
  | fetchInto key touchData =>
      cases touchData with
      | true => exact huse key
      | false => exact h
  | insert key data =>
      have hkept : total sizefn ((key, data) :: others key list) < 2 ^ 64 := by
        have hnew := hsize key data rfl
        have hold := hothers key
        show (sizefn data).toNat + total sizefn (others key list) < 2 ^ 64
        omega
      let kept := trim (fits sizefn maxSize) ((key, data) :: others key list)
      have htrim : total sizefn kept ≤ total sizefn ((key, data) :: others key list) :=
        total_le_of_sublist trim_begins.sublist
      have hfits : fits sizefn maxSize kept := fits_trim (decide_eq_true (Nat.zero_le _))
      have hmod : total sizefn kept % 2 ^ 64 ≤ maxSize := of_decide_eq_true hfits
      rwa [Nat.mod_eq_of_lt (htrim.trans_lt hkept)] at hmod
  | getAllKeys => exact h

theorem total_entriesAfter {operations : List (Operation Key Data)}
    (h : total sizefn list ≤ maxSize)
    (hsize : ∀ key data, .insert key data ∈ operations →
      (sizefn data).toNat + maxSize < 2 ^ 64) :
    total sizefn (operations.foldl (Operation.after (fits sizefn maxSize)) list) ≤ maxSize := by
  induction operations generalizing list with
  | nil => exact h
  | cons operation rest ih =>
      refine ih (total_after h fun key data hsame => ?_) fun key data hmem => ?_
      · exact hsize key data (hsame ▸ List.mem_cons_self ..)
      · exact hsize key data (List.mem_cons_of_mem _ hmem)

/-- Any sequence of calls on a new cache runs through and returns what the list of entries says.
The counter is the sum of the sizes modulo `2 ^ 64`; where a size and the maximum together do
not wrap around, it is the sum itself and not more than the maximum. -/
theorem performAll_refines [Inhabited Data] (sizefn : Data → UInt64) (maxSize : UInt64)
    (operations : List (Operation Key Data)) :
    ∃ cache, performAll sizefn (new maxSize.toNat) operations =
        .ok (answers (fits sizefn maxSize.toNat) [] operations, cache) ∧
      cache.entries = entriesAfter sizefn maxSize.toNat operations ∧
      cache.currSize = total sizefn cache.entries % 2 ^ 64 ∧
      ((∀ key data, .insert key data ∈ operations →
          (sizefn data).toNat + maxSize.toNat < 2 ^ 64) →
        cache.currSize = total sizefn cache.entries ∧
          total sizefn cache.entries ≤ maxSize.toNat) := by
  obtain ⟨cache, hperform, htracks⟩ := (tracks_new maxSize.toNat).performAll operations
  have hentries : cache.entries = entriesAfter sizefn maxSize.toNat operations :=
    htracks.entries_eq
  have hcounted : cache.currSize = total sizefn cache.entries % 2 ^ 64 :=
    hentries ▸ htracks.counted
  refine ⟨cache, hperform, hentries, hcounted, fun hsize => ?_⟩
  have hkept : total sizefn cache.entries ≤ maxSize.toNat :=
    hentries ▸ total_entriesAfter (Nat.zero_le _) hsize
  have hsmall : maxSize.toNat < 2 ^ 64 := maxSize.toNat_lt
  exact ⟨by rw [hcounted, Nat.mod_eq_of_lt (hkept.trans_lt hsmall)], hkept⟩

/-! ## Finding an entry again -/

/-- The key that a call puts or uses. -/
def Operation.used (operation : Operation Key Data) : List Key :=
  (operation.change.map Change.used).getD []

/-- A call that does not take an entry away, nor its data. -/
def Operation.Leaves (key : Key) (operation : Operation Key Data) : Prop :=
  ∀ change, operation.change = some change → change.Leaves key

/-- The changes of some calls. -/
def changes (operations : List (Operation Key Data)) : List (Change Key Data) :=
  operations.filterMap Operation.change

theorem foldl_after (operations : List (Operation Key Data)) (list : List (Key × Data)) :
    operations.foldl (Operation.after (fits sizefn maxSize)) list =
      (changes operations).foldl (apply (fits sizefn maxSize)) list := by
  induction operations generalizing list with
  | nil => rfl
  | cons operation rest ih =>
      rw [List.foldl_cons, ih, changes, changes]
      cases hchange : operation.change with
      | none =>
          rw [List.filterMap_cons_none hchange]
          simp only [Operation.after, hchange]
      | some change =>
          rw [List.filterMap_cons_some hchange, List.foldl_cons]
          simp only [Operation.after, hchange]

omit [LinearOrder Key] in
theorem used_changes (operations : List (Operation Key Data)) :
    (changes operations).flatMap Change.used = operations.flatMap Operation.used := by
  induction operations with
  | nil => rfl
  | cons operation rest ih =>
      rw [changes, List.flatMap_cons, ← ih, Operation.used]
      cases hchange : operation.change with
      | none =>
          rw [List.filterMap_cons_none hchange]
          rfl
      | some change =>
          rw [List.filterMap_cons_some hchange]
          rfl

omit [LinearOrder Key] in
theorem put_mem_changes {operations : List (Operation Key Data)} {data : Data}
    (h : .put key data ∈ changes operations) : .insert key data ∈ operations := by
  obtain ⟨operation, hmem, hchange⟩ := List.mem_filterMap.1 h
  cases operation with
  | insert other data' =>
      simp only [Operation.change, Option.some.injEq, Change.put.injEq] at hchange
      obtain ⟨rfl, rfl⟩ := hchange
      exact hmem
  | fetch other touchData => cases touchData <;> simp [Operation.change] at hchange
  | fetchInto other touchData => cases touchData <;> simp [Operation.change] at hchange
  | _ => simp [Operation.change] at hchange

theorem bounded_foldl {bound : Key → ℕ} {changes : List (Change Key Data)}
    {fits : List (Key × Data) → Bool}
    (h : Bounded (fun data => (sizefn data).toNat) bound list)
    (hput : ∀ key data, .put key data ∈ changes → (sizefn data).toNat ≤ bound key) :
    Bounded (fun data => (sizefn data).toNat) bound (changes.foldl (apply fits) list) := by
  induction changes generalizing list with
  | nil => exact h
  | cons change rest ih =>
      refine ih (bounded_apply h fun key data hsame => ?_) fun key data hmem => ?_
      · exact hput key data (hsame ▸ List.mem_cons_self ..)
      · exact hput key data (List.mem_cons_of_mem _ hmem)

/-- After some calls an entry is the last that was used.  Then come calls that do not take it
away.  If the sizes of all entries that they put or use, the largest for each key, leave room for
it, it is found, with its data. -/
theorem fetch_again [Inhabited Data] (sizefn : Data → UInt64) (maxSize : UInt64)
    (before later : List (Operation Key Data)) (key : Key) (data : Data) (touchData : Bool)
    (bound : Key → ℕ)
    (hlast : (entriesAfter sizefn maxSize.toNat before).head? = some (key, data))
    (hleaves : ∀ operation ∈ later, operation.Leaves key)
    (hbound : ∀ other new, .insert other new ∈ before ++ later → (sizefn new).toNat ≤ bound other)
    (hroom : ∑ other ∈ (key :: later.flatMap Operation.used).toFinset, bound other ≤
      maxSize.toNat) :
    ∃ results cache cache', performAll sizefn (new maxSize.toNat) (before ++ later) =
        .ok (results, cache) ∧
      cache.fetchInto key touchData = .ok (some data, cache') := by
  obtain ⟨cache, hperform, htracks⟩ := (tracks_new maxSize.toNat).performAll (before ++ later)
  obtain ⟨cache', hfetch, -⟩ := htracks.fetchInto_eq key touchData
  refine ⟨_, cache, cache', hperform, hfetch.trans ?_⟩
  obtain ⟨_, -, hbefore⟩ :=
    (tracks_new maxSize.toNat : Tracks sizefn _ [] (new maxSize.toNat)).performAll before
  have hbehind : Behind (fun data => (sizefn data).toNat) bound key data []
      (entriesAfter sizefn maxSize.toNat before) := by
    refine ⟨hbefore.distinct, ?_, [], (entriesAfter sizefn maxSize.toNat before).tail,
      (List.cons_head?_tail hlast).symm, fun entry hentry => (by cases hentry)⟩
    rw [entriesAfter, foldl_after]
    refine bounded_foldl (fun entry hentry => by cases hentry) fun other new hput => ?_
    exact hbound other new (List.mem_append_left _ (put_mem_changes hput))
  have hfound : value? ((changes later).foldl (apply (fits sizefn maxSize.toNat))
      (entriesAfter sizefn maxSize.toNat before)) key = some data := by
    refine value?_foldl_apply hbehind (fun change hchange => ?_) (fun other new hput => ?_)
      (fun entries hweight => decide_eq_true ((Nat.mod_le _ _).trans hweight)) ?_
    · obtain ⟨operation, hoperation, hsame⟩ := List.mem_filterMap.1 hchange
      exact hleaves operation hoperation change hsame
    · exact hbound other new (List.mem_append_right _ (put_mem_changes hput))
    · rw [List.nil_append, used_changes]
      exact hroom
  rw [List.foldl_append, foldl_after later]
  exact congrArg (fun found => Except.ok (found, cache')) hfound

/-- Two of three entries that count one, in a cache for two: the last but one is still there. -/
theorem fetch_again_two :
    ∃ results cache cache', performAll (fun _ => 1) (new 2)
        [.insert 1 'a', .insert 2 'b', .touch 1, .insert 3 'c'] = .ok (results, cache) ∧
      cache.fetchInto 1 true = .ok (some 'a', cache') :=
  fetch_again (fun _ => 1) 2 [.insert (1 : ℕ) 'a', .insert 2 'b', .touch 1] [.insert 3 'c'] 1 'a'
    true (fun _ => 1) (by decide) (by simp [Operation.Leaves, Operation.change, Change.Leaves])
    (fun _ _ _ => Nat.le_refl _) (by decide)

end

end LRUCache

end VaeDb
