import VaeDb.Basic
import VaeDb.Library.OrderedMap

/-!
# `LRUCache`

The template of `lru_cache.h`.  A list holds the entries, the most recent one first; a map,
the index, holds an iterator into the list for every key; a counter holds the size.  All
entries count one, as `Countfn` has it.

An iterator is the address of a list element, which `splice` does not change.  To follow an
iterator to an element that is gone, or the end of the index, is undefined.

`Coherent` says that index, list and counter agree.  Every operation keeps it, so none runs
into undefined behaviour, and what an operation leaves in the cache are the entries that were
there, the new one, or fewer (`fetch_spec`, `insert_spec`).
-/

namespace VaeDb

/-- An element of `_list`. -/
structure LRUNode (Key Data : Type) where
  address : ℕ
  key : Key
  data : Data

/-- `LRUCache`, with the address of the next list element. -/
structure LRUCache (Key Data : Type) [LinearOrder Key] where
  list : List (LRUNode Key Data)
  index : OrderedMap Key ℕ
  maxSize : ℕ
  currSize : ℕ
  nextAddress : ℕ

namespace LRUCache

variable {Key Data : Type} [LinearOrder Key]

/-! ## The operations -/

/-- The constructor. -/
def new (size : ℕ) : LRUCache Key Data := ⟨[], OrderedMap.empty, size, 0, 0⟩

/-- `*iter`. -/
def deref (cache : LRUCache Key Data) (iter : ℕ) : Outcome (LRUNode Key Data) :=
  match cache.list.find? fun node => node.address = iter with
  | some node => pure node
  | none => throw (.undefined .useAfterFree)

/-- The elements that an iterator does not point to. -/
def without (list : List (LRUNode Key Data)) (iter : ℕ) : List (LRUNode Key Data) :=
  list.filter fun node => node.address ≠ iter

/-- `_touch`: the iterator of a key, whose element moves to the front. -/
def touch (cache : LRUCache Key Data) (key : Key) : Outcome (Option ℕ × LRUCache Key Data) :=
  match cache.index.find key with
  | none => pure (none, cache)
  | some iter => do
      let node ← cache.deref iter
      return (some iter, { cache with list := node :: without cache.list iter })

/-- The cache without an entry of the index and its element. -/
def removed (cache : LRUCache Key Data) (key : Key) (iter : ℕ) : LRUCache Key Data :=
  { cache with
    currSize := cache.currSize - 1
    list := without cache.list iter
    index := cache.index.erase key }

/-- `_remove` of an entry of the index. -/
def removeEntry (cache : LRUCache Key Data) (key : Key) (iter : ℕ) :
    Outcome (LRUCache Key Data) := do
  let _ ← cache.deref iter
  return cache.removed key iter

/-- `_remove` of a key. -/
def removeKey (cache : LRUCache Key Data) (key : Key) : Outcome (LRUCache Key Data) :=
  match cache.index.find key with
  | some iter => cache.removeEntry key iter
  | none => throw (.undefined .nullPointer)

/-- `fetch`. -/
def fetch (cache : LRUCache Key Data) (key : Key) (touchData : Bool) :
    Outcome (Option Data × LRUCache Key Data) :=
  match cache.index.find key with
  | none => pure (none, cache)
  | some iter => do
      let node ← cache.deref iter
      if touchData then do
        let touched ← cache.touch key
        return (some node.data, touched.2)
      else return (some node.data, cache)

/-- `insert` from the `push_front` to the new size. -/
def pushFront (cache : LRUCache Key Data) (key : Key) (data : Data) : LRUCache Key Data :=
  { cache with
    list := ⟨cache.nextAddress, key, data⟩ :: cache.list
    index := cache.index.insert key cache.nextAddress
    currSize := cache.currSize + 1
    nextAddress := cache.nextAddress + 1 }

/-- The loop of `insert`, for so many rounds: the last element of the list goes. -/
def evict : ℕ → LRUCache Key Data → Outcome (LRUCache Key Data)
  | 0, cache => if cache.currSize > cache.maxSize then throw .unfinished else pure cache
  | rounds + 1, cache =>
      if cache.currSize > cache.maxSize then
        match cache.list.getLast? with
        | some node => do
            let removed ← cache.removeKey node.key
            evict rounds removed
        | none => throw (.undefined .outOfBounds)
      else pure cache

/-- What `insert` does with the entry that `_touch` has found. -/
def removeFound (cache : LRUCache Key Data) (key : Key) : Option ℕ → Outcome (LRUCache Key Data)
  | some iter => cache.removeEntry key iter
  | none => pure cache

/-- `insert`. -/
def insert (cache : LRUCache Key Data) (key : Key) (data : Data) :
    Outcome (LRUCache Key Data) := do
  let touched ← cache.touch key
  let freed ← touched.2.removeFound key touched.1
  let added := freed.pushFront key data
  evict added.currSize added

/-! ## Index, list and counter -/

/-- Iterators point to different elements, the index has the iterator of every element under
its key and no others, and the size is the length of the list. -/
structure Coherent (cache : LRUCache Key Data) : Prop where
  nodup : (cache.list.map LRUNode.address).Nodup
  address_lt : ∀ node ∈ cache.list, node.address < cache.nextAddress
  index_iff : ∀ key iter, cache.index.find key = some iter ↔
    ∃ node ∈ cache.list, node.address = iter ∧ node.key = key
  counted : cache.currSize = cache.list.length

theorem coherent_new (size : ℕ) : Coherent (new size : LRUCache Key Data) where
  nodup := List.nodup_nil
  address_lt := fun _ hnode => by cases hnode
  index_iff := fun key iter => by simp [new]
  counted := rfl

namespace Coherent

variable {cache : LRUCache Key Data}

/-- An iterator to an element of the list leads to that element. -/
theorem deref_eq (h : Coherent cache) {node : LRUNode Key Data} (hnode : node ∈ cache.list) :
    cache.deref node.address = .ok node := by
  unfold deref
  rw [(KeyedList.find?_eq_some h.nodup).2 ⟨hnode, rfl⟩]
  rfl

/-- No two elements have one key. -/
theorem eq_of_key (h : Coherent cache) {node other : LRUNode Key Data}
    (hnode : node ∈ cache.list) (hother : other ∈ cache.list) (hkey : node.key = other.key) :
    node = other := by
  have hfind := (h.index_iff node.key node.address).2 ⟨node, hnode, rfl, rfl⟩
  have hfind' := (h.index_iff node.key other.address).2 ⟨other, hother, rfl, hkey.symm⟩
  rw [hfind] at hfind'
  exact List.inj_on_of_nodup_map h.nodup hnode hother (Option.some.inj hfind')

/-- An element and the rest of the list. -/
theorem perm_without (h : Coherent cache) {node : LRUNode Key Data} (hnode : node ∈ cache.list) :
    cache.list.Perm (node :: without cache.list node.address) :=
  KeyedList.perm_cons_filter h.nodup hnode

/-- The order of the list is of no importance. -/
theorem of_perm (h : Coherent cache) {list : List (LRUNode Key Data)}
    (hperm : list.Perm cache.list) : Coherent { cache with list } where
  nodup := (hperm.map LRUNode.address).nodup_iff.2 h.nodup
  address_lt := fun node hnode => h.address_lt node (hperm.mem_iff.1 hnode)
  index_iff := by
    intro key iter
    rw [h.index_iff]
    simp only [hperm.mem_iff]
  counted := h.counted.trans hperm.length_eq.symm

/-- `_touch` returns the iterator of the key and reorders the list. -/
theorem touch_spec (h : Coherent cache) (key : Key) :
    ∃ list, list.Perm cache.list ∧
      cache.touch key = .ok (cache.index.find key, { cache with list }) := by
  unfold touch
  cases hfind : cache.index.find key with
  | none => exact ⟨cache.list, List.Perm.refl _, rfl⟩
  | some iter =>
      obtain ⟨node, hnode, rfl, _⟩ := (h.index_iff key iter).1 hfind
      refine ⟨node :: without cache.list node.address, (h.perm_without hnode).symm, ?_⟩
      simp only [h.deref_eq hnode]
      rfl

/-- Without an element and its entry, the rest agrees. -/
theorem removed (h : Coherent cache) {node : LRUNode Key Data} (hnode : node ∈ cache.list) :
    Coherent (cache.removed node.key node.address) := by
  have hmem : ∀ other, other ∈ without cache.list node.address ↔
      other ∈ cache.list ∧ other.address ≠ node.address := by
    intro other
    simp [without]
  constructor
  · exact h.nodup.sublist (List.filter_sublist.map _)
  · intro other hother
    exact h.address_lt other ((hmem other).1 hother).1
  · intro key iter
    show (cache.index.erase node.key).find key = some iter ↔
      ∃ other ∈ without cache.list node.address, other.address = iter ∧ other.key = key
    rw [OrderedMap.find_erase]
    constructor
    · intro hfind
      split at hfind
      · cases hfind
      · next hkey =>
        obtain ⟨other, hother, hiter, hkey'⟩ := (h.index_iff key iter).1 hfind
        refine ⟨other, (hmem other).2 ⟨hother, fun haddress => hkey ?_⟩, hiter, hkey'⟩
        rw [← hkey', List.inj_on_of_nodup_map h.nodup hother hnode haddress]
    · intro hfound
      obtain ⟨other, hother, hiter, hkey⟩ := hfound
      obtain ⟨hother, haddress⟩ := (hmem other).1 hother
      have hne : key ≠ node.key := by
        intro hsame
        rw [h.eq_of_key hother hnode (hkey.trans hsame)] at haddress
        exact haddress rfl
      rw [if_neg hne]
      exact (h.index_iff key iter).2 ⟨other, hother, hiter, hkey⟩
  · have hlength := (h.perm_without hnode).length_eq
    have hcounted := h.counted
    rw [List.length_cons] at hlength
    show cache.currSize - 1 = (without cache.list node.address).length
    omega

theorem removeEntry_eq (h : Coherent cache) {node : LRUNode Key Data}
    (hnode : node ∈ cache.list) :
    cache.removeEntry node.key node.address = .ok (cache.removed node.key node.address) := by
  unfold removeEntry
  rw [h.deref_eq hnode]
  rfl

/-- A new element at the front, under a key that is free. -/
theorem pushFront (h : Coherent cache) {key : Key} (hfree : cache.index.find key = none)
    (data : Data) : Coherent (cache.pushFront key data) := by
  have hunused : ∀ node ∈ cache.list, node.key ≠ key := by
    intro node hnode hkey
    have hfind := (h.index_iff key node.address).2 ⟨node, hnode, rfl, hkey⟩
    rw [hfree] at hfind
    cases hfind
  constructor
  · show ((⟨cache.nextAddress, key, data⟩ :: cache.list).map LRUNode.address).Nodup
    rw [List.map_cons, List.nodup_cons]
    refine ⟨fun hmem => ?_, h.nodup⟩
    obtain ⟨node, hnode, haddress⟩ := List.mem_map.1 hmem
    have hlt := h.address_lt node hnode
    have hsame : node.address = cache.nextAddress := haddress
    omega
  · intro node hnode
    show node.address < cache.nextAddress + 1
    rcases List.mem_cons.1 hnode with rfl | hnode
    · exact Nat.lt_succ_self _
    · have hlt := h.address_lt node hnode
      omega
  · intro k iter
    show (cache.index.insert key cache.nextAddress).find k = some iter ↔
      ∃ node ∈ (⟨cache.nextAddress, key, data⟩ :: cache.list : List (LRUNode Key Data)),
        node.address = iter ∧ node.key = k
    rw [OrderedMap.find_insert, hfree]
    by_cases hkey : k = key
    · subst hkey
      rw [if_pos rfl]
      constructor
      · intro hiter
        exact ⟨_, List.mem_cons_self .., Option.some.inj hiter, rfl⟩
      · intro hfound
        obtain ⟨node, hnode, rfl, hk⟩ := hfound
        rcases List.mem_cons.1 hnode with rfl | hnode
        · rfl
        · exact absurd hk (hunused node hnode)
    · rw [if_neg hkey, h.index_iff]
      constructor
      · intro hfound
        obtain ⟨node, hnode, hfound⟩ := hfound
        exact ⟨node, List.mem_cons_of_mem _ hnode, hfound⟩
      · intro hfound
        obtain ⟨node, hnode, haddress, hk⟩ := hfound
        rcases List.mem_cons.1 hnode with rfl | hnode
        · exact absurd hk.symm hkey
        · exact ⟨node, hnode, haddress, hk⟩
  · show cache.currSize + 1 = (⟨cache.nextAddress, key, data⟩ :: cache.list).length
    rw [List.length_cons, h.counted]

/-- Without its last element, a list is shorter at the end. -/
theorem without_getLast (h : Coherent cache) {node : LRUNode Key Data}
    (hlast : cache.list.getLast? = some node) :
    without cache.list node.address = cache.list.dropLast := by
  obtain ⟨front, hfront⟩ := List.getLast?_eq_some_iff.1 hlast
  have hnodup := h.nodup
  rw [hfront, List.map_append, List.map_singleton] at hnodup
  have hdisjoint := List.disjoint_of_nodup_append hnodup
  rw [hfront, List.dropLast_concat, without, List.filter_append]
  have hkept : front.filter (fun other => other.address ≠ node.address) = front := by
    rw [List.filter_eq_self]
    intro other hother
    refine decide_eq_true fun hsame => ?_
    exact hdisjoint (List.mem_map_of_mem hother) (hsame ▸ List.mem_singleton_self _)
  rw [hkept]
  simp

/-- With a round for every element, the loop ends and leaves the front of the list. -/
theorem evict_list (h : Coherent cache) {rounds : ℕ} (hrounds : cache.currSize ≤ rounds) :
    ∃ next, evict rounds cache = .ok next ∧ Coherent next ∧ next.maxSize = cache.maxSize ∧
      next.list = cache.list.take cache.maxSize := by
  have hcounted := h.counted
  induction rounds generalizing cache with
  | zero =>
      have hfits : ¬ cache.currSize > cache.maxSize := by omega
      refine ⟨cache, by rw [evict, if_neg hfits]; rfl, h, rfl, ?_⟩
      rw [List.take_of_length_le (by omega)]
  | succ rounds ih =>
      by_cases hfull : cache.currSize > cache.maxSize
      · obtain ⟨node, hlast⟩ : ∃ node, cache.list.getLast? = some node := by
          refine Option.isSome_iff_exists.1 (List.getLast?_isSome.2 fun hnil => ?_)
          rw [hnil] at hcounted
          simp at hcounted
          omega
        have hnode : node ∈ cache.list := List.mem_of_getLast? hlast
        have hfind := (h.index_iff node.key node.address).2 ⟨node, hnode, rfl, rfl⟩
        have hremove : cache.removeKey node.key =
            .ok (cache.removed node.key node.address) := by
          unfold removeKey
          rw [hfind]
          exact h.removeEntry_eq hnode
        have hsmaller : (cache.removed node.key node.address).currSize ≤ rounds := by
          show cache.currSize - 1 ≤ rounds
          omega
        obtain ⟨next, hevict, hcoherent, hmax, hlist⟩ :=
          ih (h.removed hnode) hsmaller (h.removed hnode).counted
        refine ⟨next, ?_, hcoherent, hmax, hlist.trans ?_⟩
        · rw [evict, if_pos hfull]
          simp only [hlast, hremove]
          exact hevict
        · show (without cache.list node.address).take cache.maxSize = _
          rw [h.without_getLast hlast, List.dropLast_eq_take, List.take_take,
            min_eq_left (by omega)]
      · refine ⟨cache, by rw [evict, if_neg hfull]; rfl, h, rfl, ?_⟩
        rw [List.take_of_length_le (by omega)]

/-- The loop ends with a cache that fits. -/
theorem evict_spec (h : Coherent cache) {rounds : ℕ} (hrounds : cache.currSize ≤ rounds) :
    ∃ next, evict rounds cache = .ok next ∧ Coherent next ∧ next.currSize ≤ next.maxSize ∧
      next.maxSize = cache.maxSize ∧ ∀ node ∈ next.list, node ∈ cache.list := by
  obtain ⟨next, hevict, hcoherent, hmax, hlist⟩ := h.evict_list hrounds
  refine ⟨next, hevict, hcoherent, ?_, hmax, fun node hnode => ?_⟩
  · calc next.currSize
        = (cache.list.take cache.maxSize).length := by rw [hcoherent.counted, hlist]
      _ ≤ cache.maxSize := List.length_take_le ..
      _ = next.maxSize := hmax.symm
  · rw [hlist] at hnode
    exact List.mem_of_mem_take hnode

/-- `fetch` returns the data under the key, if there is an element with the key. -/
theorem fetch_spec (h : Coherent cache) (key : Key) (touchData : Bool) :
    ∃ found list, list.Perm cache.list ∧
      cache.fetch key touchData = .ok (found, { cache with list }) ∧
      ∀ data, found = some data ↔ ∃ node ∈ cache.list, node.key = key ∧ node.data = data := by
  unfold fetch
  cases hfind : cache.index.find key with
  | none =>
      refine ⟨none, cache.list, List.Perm.refl _, rfl,
        fun data => ⟨fun hnone => (by cases hnone), ?_⟩⟩
      intro hfound
      obtain ⟨node, hnode, hkey, _⟩ := hfound
      rw [(h.index_iff key node.address).2 ⟨node, hnode, rfl, hkey⟩] at hfind
      cases hfind
  | some iter =>
      obtain ⟨node, hnode, rfl, hkey⟩ := (h.index_iff key iter).1 hfind
      have hdata : ∀ data, some node.data = some data ↔
          ∃ other ∈ cache.list, other.key = key ∧ other.data = data := by
        intro data
        constructor
        · intro hsame
          exact ⟨node, hnode, hkey, Option.some.inj hsame⟩
        · intro hfound
          obtain ⟨other, hother, hkey', rfl⟩ := hfound
          rw [h.eq_of_key hother hnode (hkey'.trans hkey.symm)]
      obtain ⟨list, hperm, htouch⟩ := h.touch_spec key
      cases touchData with
      | false =>
          refine ⟨some node.data, cache.list, List.Perm.refl _, ?_, hdata⟩
          simp only [h.deref_eq hnode]
          rfl
      | true =>
          refine ⟨some node.data, list, hperm, ?_, hdata⟩
          simp only [h.deref_eq hnode, htouch]
          rfl

/-- What `insert` does with the found entry frees the key. -/
theorem removeFound_spec (h : Coherent cache) (key : Key) :
    ∃ next, cache.removeFound key (cache.index.find key) = .ok next ∧ Coherent next ∧
      next.maxSize = cache.maxSize ∧ next.index.find key = none ∧
      ∀ node ∈ next.list, node.key ≠ key ∧ node ∈ cache.list := by
  cases hfind : cache.index.find key with
  | none =>
      refine ⟨cache, rfl, h, rfl, hfind, fun node hnode => ⟨fun hkey => ?_, hnode⟩⟩
      rw [(h.index_iff key node.address).2 ⟨node, hnode, rfl, hkey⟩] at hfind
      cases hfind
  | some iter =>
      obtain ⟨node, hnode, rfl, rfl⟩ := (h.index_iff key iter).1 hfind
      refine ⟨cache.removed node.key node.address, h.removeEntry_eq hnode, h.removed hnode, rfl,
        ?_, fun other hother => ?_⟩
      · show (cache.index.erase node.key).find node.key = none
        rw [OrderedMap.find_erase, if_pos rfl]
      · obtain ⟨hother, haddress⟩ := List.mem_filter.1 hother
        refine ⟨fun hkey => ?_, hother⟩
        rw [h.eq_of_key hother hnode hkey] at haddress
        simp at haddress

/-- `insert` leaves the new element and some of those with other keys. -/
theorem insert_spec (h : Coherent cache) (key : Key) (data : Data) :
    ∃ next, cache.insert key data = .ok next ∧ Coherent next ∧ next.currSize ≤ next.maxSize ∧
      next.maxSize = cache.maxSize ∧ ∀ node ∈ next.list,
        (node.key = key ∧ node.data = data) ∨ (node.key ≠ key ∧ node ∈ cache.list) := by
  obtain ⟨list, hperm, htouch⟩ := h.touch_spec key
  obtain ⟨freed, hremove, hfreed, hmax, hfree, hothers⟩ := (h.of_perm hperm).removeFound_spec key
  obtain ⟨next, hevict, hnext, hfits, hmax', hmem⟩ :=
    (hfreed.pushFront hfree data).evict_spec (Nat.le_refl _)
  refine ⟨next, ?_, hnext, hfits, hmax'.trans hmax, fun node hnode => ?_⟩
  · unfold insert
    rw [htouch]
    show (LRUCache.removeFound { cache with list } key (cache.index.find key) >>= fun freed =>
      evict (freed.pushFront key data).currSize (freed.pushFront key data)) = .ok next
    rw [hremove]
    exact hevict
  · rcases List.mem_cons.1 (hmem node hnode) with rfl | hold
    · exact Or.inl ⟨rfl, rfl⟩
    · obtain ⟨hkey, hold⟩ := hothers node hold
      exact Or.inr ⟨hkey, hperm.mem_iff.1 hold⟩

end Coherent

end LRUCache

end VaeDb
