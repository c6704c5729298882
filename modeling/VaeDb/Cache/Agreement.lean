import VaeDb.Cache.Stores
import VaeDb.Library.Transition

/-!
# Agreement of the two stores

What the long-term cache is for is a partial map that forgets nothing but what is deleted
(`Contents`).  A Get answers from memcached if it finds something there and from MySQL
otherwise, so both stores have to follow that map.

`Server::longTermCacheEmpty` empties MySQL alone.  What memcached holds for the
subdomain stays, and a Get with `useShortTermCache` still answers with it
(`longTermCacheEmpty_disagrees`).  Apart from that, and from names that a store does not
tell apart, the two agree in every reachable state (`longTermCacheGet_agrees`).
-/

namespace VaeDb.Cache

open Transition

variable {collation : Collation}

/-- A request to the long-term cache, with the subdomain of the session's Site. -/
inductive Request
  | get (subdomain key : Str) (renewExpiry useShortTermCache : ℤ)
  | set (subdomain key value : Str) (expireInterval isFilename : ℤ)
  | delete (subdomain key : Str)
  | empty (subdomain : Str)

/-- The handler that a request is dispatched to. -/
def Stores.serve (stores : Stores collation) (now : ℤ) : Request → Reply × Stores collation
  | .get subdomain key renewExpiry useShortTermCache =>
      stores.longTermCacheGet now subdomain key renewExpiry useShortTermCache
  | .set subdomain key value expireInterval isFilename =>
      stores.longTermCacheSet now subdomain key value expireInterval isFilename
  | .delete subdomain key => stores.longTermCacheDelete subdomain key
  | .empty subdomain => stores.longTermCacheEmpty subdomain

/-! ## What the cache is for -/

/-- The value under every subdomain and key, empty where nothing is stored. -/
abbrev Contents := Str → Str → Str

/-- A Set counts until a Delete of its key or an Empty of its subdomain. -/
def Contents.serve (contents : Contents) : Request → Contents
  | .get _ _ _ _ => contents
  | .set subdomain key value _ _ =>
      fun s k => if s = subdomain ∧ k = key then value else contents s k
  | .delete subdomain key => fun s k => if s = subdomain ∧ k = key then [] else contents s k
  | .empty subdomain => fun s k => if s = subdomain then [] else contents s k

/-- Serve a request on a day, and note what the cache should hold from then on. -/
def serveStep (state : Stores collation × Contents) (label : ℤ × Request) :
    Option (Stores collation × Contents) :=
  some ((state.1.serve label.1 label.2).2, state.2.serve label.2)

/-- Before the first request. -/
def serveInitial (collation : Collation) : Stores collation × Contents :=
  ⟨Stores.initial collation, fun _ _ => []⟩

/-! ## Agreement on one key -/

/-- The request neither empties the subdomain under a value in memcached, nor is it about
other names that one of the stores takes for these. -/
def Undisturbed (subdomain key : Str) (stores : Stores collation) : Request → Prop
  | .get s k _ _ =>
      longTermKey s k = longTermKey subdomain key → s = subdomain ∧ k = key
  | .set s k _ _ _ =>
      (longTermKey s k = longTermKey subdomain key → s = subdomain ∧ k = key) ∧
        (primaryKey collation s k = primaryKey collation subdomain key →
          s = subdomain ∧ k = key)
  | .delete s k =>
      primaryKey collation s k = primaryKey collation subdomain key → s = subdomain ∧ k = key
  | .empty s =>
      (s = subdomain →
        MemcacheProxy.get stores.memcached (longTermKey subdomain key) = []) ∧
        (collation s = collation subdomain → s = subdomain)

/-- MySQL holds what the cache should hold, and so does memcached if it holds anything. -/
structure Agrees (subdomain key : Str) (stores : Stores collation) (contents : Contents) :
    Prop where
  kvstore : stores.kvstore.value subdomain key = contents subdomain key
  memcached : MemcacheProxy.get stores.memcached (longTermKey subdomain key) = [] ∨
    MemcacheProxy.get stores.memcached (longTermKey subdomain key) = contents subdomain key

namespace Agrees

variable {stores : Stores collation} {contents : Contents} {subdomain key : Str}

theorem initial (subdomain key : Str) :
    Agrees subdomain key (Stores.initial collation) fun _ _ => [] :=
  ⟨rfl, Or.inl rfl⟩

/-- With both stores in agreement a Get answers with what the cache should hold. -/
theorem longTermCacheGet_eq (h : Agrees subdomain key stores contents) (now : ℤ)
    (renewExpiry useShortTermCache : ℤ) :
    (stores.longTermCacheGet now subdomain key renewExpiry useShortTermCache).1 =
      .value key (contents subdomain key) := by
  rcases stores.hit_or_miss subdomain key useShortTermCache with ⟨huse, hhit⟩ | hmiss
  · rw [stores.longTermCacheGet_of_hit now subdomain key renewExpiry _ huse hhit]
    rcases h.memcached with hnone | hsome
    · exact absurd hnone hhit
    · rw [hsome]
  · obtain ⟨kvstore, _, hget⟩ :=
      stores.longTermCacheGet_of_miss now subdomain key renewExpiry _ hmiss
    rw [hget, h.kvstore]

theorem get (h : Agrees subdomain key stores contents) {now renewExpiry useShortTermCache : ℤ}
    {s k : Str} (hok : longTermKey s k = longTermKey subdomain key → s = subdomain ∧ k = key) :
    Agrees subdomain key
      (stores.longTermCacheGet now s k renewExpiry useShortTermCache).2 contents := by
  rcases stores.hit_or_miss s k useShortTermCache with ⟨huse, hhit⟩ | hmiss
  · rw [stores.longTermCacheGet_of_hit now s k renewExpiry _ huse hhit]
    exact h
  · obtain ⟨kvstore, hvalues, hget⟩ :=
      stores.longTermCacheGet_of_miss now s k renewExpiry _ hmiss
    rw [hget]
    refine ⟨(hvalues subdomain key).trans h.kvstore, ?_⟩
    -- the answer of MySQL is copied to memcached
    rw [MemcacheProxy.get_set]
    split
    · next hsame =>
      obtain ⟨rfl, rfl⟩ := hok hsame
      exact Or.inr h.kvstore
    · exact h.memcached

theorem set (h : Agrees subdomain key stores contents) {now expireInterval isFilename : ℤ}
    {s k value : Str}
    (hok : longTermKey s k = longTermKey subdomain key → s = subdomain ∧ k = key)
    (hprimary : primaryKey collation s k = primaryKey collation subdomain key →
      s = subdomain ∧ k = key) :
    Agrees subdomain key (stores.longTermCacheSet now s k value expireInterval isFilename).2
      (contents.serve (.set s k value expireInterval isFilename)) := by
  simp only [Stores.longTermCacheSet, Contents.serve]
  by_cases hsame : subdomain = s ∧ key = k
  · obtain ⟨rfl, rfl⟩ := hsame
    refine ⟨?_, Or.inr ?_⟩
    · rw [MysqlProxy.value_longTermCacheSet, if_pos rfl, if_pos ⟨rfl, rfl⟩]
    · rw [MemcacheProxy.get_set, if_pos rfl, if_pos ⟨rfl, rfl⟩]
  · have hother : ¬ (s = subdomain ∧ k = key) := by
      rintro ⟨rfl, rfl⟩
      exact hsame ⟨rfl, rfl⟩
    refine ⟨?_, ?_⟩
    · rw [MysqlProxy.value_longTermCacheSet, if_neg fun hkey => hother (hprimary hkey.symm),
        if_neg hsame]
      exact h.kvstore
    · rw [MemcacheProxy.get_set, if_neg fun hkey => hother (hok hkey), if_neg hsame]
      exact h.memcached

theorem delete (h : Agrees subdomain key stores contents) {s k : Str}
    (hprimary : primaryKey collation s k = primaryKey collation subdomain key →
      s = subdomain ∧ k = key) :
    Agrees subdomain key (stores.longTermCacheDelete s k).2 (contents.serve (.delete s k)) := by
  simp only [Stores.longTermCacheDelete, Contents.serve, MysqlProxy.longTermCacheDelete]
  by_cases hsame : subdomain = s ∧ key = k
  · obtain ⟨rfl, rfl⟩ := hsame
    refine ⟨?_, Or.inl ?_⟩
    · rw [KvStore.value_deleteKey, if_pos rfl, if_pos ⟨rfl, rfl⟩]
    · rw [MemcacheProxy.get_remove, if_pos rfl]
  · have hother : ¬ (s = subdomain ∧ k = key) := by
      rintro ⟨rfl, rfl⟩
      exact hsame ⟨rfl, rfl⟩
    refine ⟨?_, ?_⟩
    · rw [KvStore.value_deleteKey, if_neg fun hkey => hother (hprimary hkey.symm), if_neg hsame]
      exact h.kvstore
    · -- an entry removed for other names only sends the next Get to MySQL
      rw [MemcacheProxy.get_remove, if_neg hsame]
      split
      · exact Or.inl rfl
      · exact h.memcached

theorem empty (h : Agrees subdomain key stores contents) {s : Str}
    (hok : s = subdomain → MemcacheProxy.get stores.memcached (longTermKey subdomain key) = [])
    (hcollation : collation s = collation subdomain → s = subdomain) :
    Agrees subdomain key (stores.longTermCacheEmpty s).2 (contents.serve (.empty s)) := by
  simp only [Stores.longTermCacheEmpty, Contents.serve, MysqlProxy.longTermCacheEmpty]
  by_cases hsame : subdomain = s
  · subst hsame
    refine ⟨?_, Or.inl (hok rfl)⟩
    rw [KvStore.value_deleteSubdomain, if_pos rfl, if_pos rfl]
  · refine ⟨?_, ?_⟩
    · rw [KvStore.value_deleteSubdomain, if_neg fun hkey => hsame (hcollation hkey.symm).symm,
        if_neg hsame]
      exact h.kvstore
    · rw [if_neg hsame]
      exact h.memcached

/-- Every request that does not disturb the key keeps the stores in agreement on it. -/
theorem serve (h : Agrees subdomain key stores contents) {now : ℤ} {request : Request}
    (hok : Undisturbed subdomain key stores request) :
    Agrees subdomain key (stores.serve now request).2 (contents.serve request) := by
  cases request with
  | get s k renewExpiry useShortTermCache => exact h.get hok
  | set s k value expireInterval isFilename => exact h.set hok.1 hok.2
  | delete s k => exact h.delete hok
  | empty s => exact h.empty hok.1 hok.2

end Agrees

/-- In every run whose requests do not disturb a key, a Get of that key answers with the
last value set and not deleted or emptied, with and without `useShortTermCache`. -/
theorem longTermCacheGet_agrees (collation : Collation) (subdomain key : Str)
    {labels : List (ℤ × Request)} {stores : Stores collation} {contents : Contents}
    (hrun : run serveStep (serveInitial collation) labels = some (stores, contents))
    (hok : Meets serveStep (fun state label => Undisturbed subdomain key state.1 label.2)
      (serveInitial collation) labels)
    (now renewExpiry useShortTermCache : ℤ) :
    (stores.longTermCacheGet now subdomain key renewExpiry useShortTermCache).1 =
      .value key (contents subdomain key) := by
  have hstep : ∀ (state : Stores collation × Contents) label next,
      Agrees subdomain key state.1 state.2 → Undisturbed subdomain key state.1 label.2 →
      serveStep state label = some next → Agrees subdomain key next.1 next.2 := by
    intro state label next hagrees hundisturbed hnext
    obtain rfl := Option.some.inj hnext
    exact hagrees.serve hundisturbed
  have hagrees : Agrees subdomain key stores contents :=
    invariant_of_meets hstep (Agrees.initial subdomain key) hok hrun
  exact hagrees.longTermCacheGet_eq now renewExpiry useShortTermCache

/-- A value that is set, read, and then set for another key. -/
def setAndRead : List (ℤ × Request) :=
  [(0, .set "shop" "a" "1" 30 0), (1, .get "shop" "a" 30 1), (2, .set "shop" "b" "2" 30 0),
    (3, .delete "shop" "b"), (4, .empty "blog")]

theorem longTermCacheGet_agrees_setAndRead :
    ∃ stores contents,
      run serveStep (serveInitial .caseInsensitive) setAndRead = some (stores, contents) ∧
        (stores.longTermCacheGet 5 "shop" "a" 30 1).1 = .value "a" "1" := by
  have hok : Meets serveStep (fun state label => Undisturbed "shop" "a" state.1 label.2)
      (serveInitial .caseInsensitive) setAndRead := by
    refine meets_of_forall_mem fun label hlabel state => ?_
    simp only [setAndRead, List.mem_cons, List.not_mem_nil, or_false] at hlabel
    rcases hlabel with rfl | rfl | rfl | rfl | rfl
    · exact ⟨fun _ => ⟨rfl, rfl⟩, fun _ => ⟨rfl, rfl⟩⟩
    · exact fun _ => ⟨rfl, rfl⟩
    · exact ⟨fun h => absurd h (by decide), fun h => absurd h (by decide)⟩
    · exact fun h => absurd h (by decide)
    · exact ⟨fun h => absurd h (by decide), fun h => absurd h (by decide)⟩
  exact ⟨_, _, rfl, longTermCacheGet_agrees .caseInsensitive "shop" "a" rfl hok 5 30 1⟩

/-- An Empty over a value in memcached leaves the two stores apart. -/
theorem longTermCacheEmpty_disagrees (stores : Stores collation) (subdomain key : Str)
    (hvalue : MemcacheProxy.get stores.memcached (longTermKey subdomain key) ≠ [])
    (now renewExpiry : ℤ) :
    ((stores.longTermCacheEmpty subdomain).2.longTermCacheGet now subdomain key renewExpiry
        1).1 ≠
      ((stores.longTermCacheEmpty subdomain).2.longTermCacheGet now subdomain key renewExpiry
        0).1 := by
  have hfast := (stores.longTermCacheEmpty subdomain).2.longTermCacheGet_of_hit now subdomain
    key renewExpiry 1 (by decide) hvalue
  obtain ⟨kvstore, _, hslow⟩ := (stores.longTermCacheEmpty subdomain).2.longTermCacheGet_of_miss
    now subdomain key renewExpiry 0 (Or.inl rfl)
  have hempty : (stores.longTermCacheEmpty subdomain).2.kvstore.value subdomain key = [] := by
    simp [Stores.longTermCacheEmpty, MysqlProxy.longTermCacheEmpty,
      KvStore.value_deleteSubdomain]
  rw [hfast, hslow, hempty]
  intro hsame
  exact hvalue (Reply.value.inj hsame).2

/-- A value that is set, and then the subdomain is emptied. -/
def setAndEmpty : List (ℤ × Request) :=
  [(0, .set "shop" "a" "1" 30 0), (1, .empty "shop")]

theorem longTermCacheGet_after_empty :
    ∃ stores contents,
      run serveStep (serveInitial .caseInsensitive) setAndEmpty = some (stores, contents) ∧
        (stores.longTermCacheGet 2 "shop" "a" 0 1).1 = .value "a" "1" ∧
        (stores.longTermCacheGet 2 "shop" "a" 0 0).1 = .value "a" "" ∧
        contents "shop" "a" = "" :=
  ⟨_, _, rfl, by decide, by decide, by decide⟩

end VaeDb.Cache
