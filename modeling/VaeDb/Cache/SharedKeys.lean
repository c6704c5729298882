import Mathlib.Data.Set.Function
import VaeDb.Cache.Agreement
import VaeDb.Locks.SitewideLock

/-!
# Names in the shared stores

All sites share one memcached and one table of locks.  What belongs to a site is told
apart by names that `Server` puts together: `shortTermKey` and `fullKey` put a `:` after
the subdomain, `longTermKey` puts `LongTerm2:` there.

A subdomain has no `:` in it, so two short-term keys, two long-term keys or two lock names
are equal only for the same subdomain and the same key.  But the long-term keys of a
subdomain are the short-term keys of that subdomain with `LongTerm2` at its end
(`longTermKey_eq_shortTermKey_iff`).  The keys of a set of sites are kept apart exactly if
it has no two subdomains of that kind (`namespaced_iff`); then a request for one entry
changes no other (`Namespaced.get_serveCache`).
-/

namespace VaeDb.Cache

open Locks

/-! ## Separators -/

/-- What is before the first separator, and what is after it. -/
theorem append_separator_inj {α : Type*} [DecidableEq α] {separator : α} {a b k l : List α}
    (ha : separator ∉ a) (hb : separator ∉ b) :
    a ++ separator :: k = b ++ separator :: l ↔ a = b ∧ k = l := by
  constructor
  · intro h
    have hbefore : ∀ {c m : List α}, separator ∉ c →
        (c ++ separator :: m).takeWhile (· ≠ separator) = c := by
      intro c m hc
      have hall : ∀ x ∈ c, decide (x ≠ separator) = true := by
        intro x hx
        rw [decide_eq_true_eq]
        exact fun hsame => hc (hsame ▸ hx)
      rw [List.takeWhile_append_of_pos hall]
      simp
    have hab : a = b := by
      calc a = (a ++ separator :: k).takeWhile (· ≠ separator) := (hbefore ha).symm
        _ = (b ++ separator :: l).takeWhile (· ≠ separator) := by rw [h]
        _ = b := hbefore hb
    subst hab
    exact ⟨rfl, List.cons_inj_right separator |>.1 (List.append_cancel_left h)⟩
  · rintro ⟨rfl, rfl⟩
    rfl

/-! ## The names -/

/-- `Server::shortTermKey`. -/
def shortTermKey (subdomain key : Str) : Str :=
  ("VaedbProxy:" : Str) ++ subdomain ++ (":" : Str) ++ key

/-- The word that tells the long-term keys from the short-term ones. -/
def longTerm : Str := "LongTerm2"

theorem shortTermKey_eq (subdomain key : Str) :
    shortTermKey subdomain key = ("VaedbProxy:" : Str) ++ (subdomain ++ ':' :: key) := by
  unfold shortTermKey
  rw [List.append_assoc, List.append_assoc]
  rfl

theorem longTermKey_eq (subdomain key : Str) :
    longTermKey subdomain key =
      ("VaedbProxy:" : Str) ++ (subdomain ++ longTerm ++ ':' :: key) := by
  unfold longTermKey
  rw [List.append_assoc, List.append_assoc, List.append_assoc subdomain]
  rfl

theorem fullKey_eq (subdomain iden : Str) :
    fullKey subdomain iden = subdomain ++ ':' :: iden := by
  unfold fullKey
  rw [List.append_assoc]
  rfl

theorem not_mem_longTerm : ':' ∉ longTerm := by decide

section

variable {subdomain other key key' : Str} (hsubdomain : ':' ∉ subdomain) (hother : ':' ∉ other)

include hsubdomain hother

theorem shortTermKey_eq_shortTermKey_iff :
    shortTermKey subdomain key = shortTermKey other key' ↔ subdomain = other ∧ key = key' := by
  rw [shortTermKey_eq, shortTermKey_eq, List.append_right_inj,
    append_separator_inj hsubdomain hother]

theorem longTermKey_eq_longTermKey_iff :
    longTermKey subdomain key = longTermKey other key' ↔ subdomain = other ∧ key = key' := by
  have hlong : ':' ∉ subdomain ++ longTerm := by simp [hsubdomain, not_mem_longTerm]
  have hlong' : ':' ∉ other ++ longTerm := by simp [hother, not_mem_longTerm]
  rw [longTermKey_eq, longTermKey_eq, List.append_right_inj,
    append_separator_inj hlong hlong', List.append_left_inj]

/-- The one way in which the two caches can meet. -/
theorem longTermKey_eq_shortTermKey_iff :
    longTermKey subdomain key = shortTermKey other key' ↔
      subdomain ++ longTerm = other ∧ key = key' := by
  have hlong : ':' ∉ subdomain ++ longTerm := by simp [hsubdomain, not_mem_longTerm]
  rw [longTermKey_eq, shortTermKey_eq, List.append_right_inj,
    append_separator_inj hlong hother]

theorem fullKey_eq_fullKey_iff :
    fullKey subdomain key = fullKey other key' ↔ subdomain = other ∧ key = key' := by
  rw [fullKey_eq, fullKey_eq, append_separator_inj hsubdomain hother]

end

/-! ## The names of a set of sites -/

/-- What a site keeps in memcached. -/
inductive Entry
  | longTerm (subdomain key : Str)
  | shortTerm (subdomain key : Str)
  deriving DecidableEq

/-- The site an entry belongs to. -/
def Entry.subdomain : Entry → Str
  | .longTerm subdomain _ => subdomain
  | .shortTerm subdomain _ => subdomain

/-- Where memcached holds an entry. -/
def Entry.memcachedKey : Entry → Str
  | .longTerm subdomain key => longTermKey subdomain key
  | .shortTerm subdomain key => shortTermKey subdomain key

/-- The names of different entries, and those of different locks, are different. -/
structure Namespaced (sites : Set Str) : Prop where
  memcachedKey : Set.InjOn Entry.memcachedKey {entry | entry.subdomain ∈ sites}
  fullKey : Set.InjOn (fun lock : Str × Str => Locks.fullKey lock.1 lock.2)
    {lock | lock.1 ∈ sites}

/-- A set of sites is kept apart exactly if none of its subdomains is another one with
`LongTerm2` at the end. -/
theorem namespaced_iff {sites : Set Str} (hsites : ∀ subdomain ∈ sites, ':' ∉ subdomain) :
    Namespaced sites ↔ ∀ subdomain ∈ sites, subdomain ++ longTerm ∉ sites := by
  constructor
  · intro h subdomain hmem hlong
    -- the same key of the two sites, in one cache each
    have hkeys : Entry.memcachedKey (.longTerm subdomain []) =
        Entry.memcachedKey (.shortTerm (subdomain ++ longTerm) []) :=
      (longTermKey_eq_shortTermKey_iff (hsites _ hmem) (hsites _ hlong)).2 ⟨rfl, rfl⟩
    cases h.memcachedKey hmem hlong hkeys
  · intro h
    constructor
    · intro first hfirst second hsecond hkeys
      cases first with
      | longTerm subdomain key =>
          cases second with
          | longTerm other key' =>
              obtain ⟨rfl, rfl⟩ :=
                (longTermKey_eq_longTermKey_iff (hsites _ hfirst) (hsites _ hsecond)).1 hkeys
              rfl
          | shortTerm other key' =>
              obtain ⟨rfl, rfl⟩ :=
                (longTermKey_eq_shortTermKey_iff (hsites _ hfirst) (hsites _ hsecond)).1 hkeys
              exact absurd hsecond (h subdomain hfirst)
      | shortTerm subdomain key =>
          cases second with
          | longTerm other key' =>
              obtain ⟨rfl, rfl⟩ :=
                (longTermKey_eq_shortTermKey_iff (hsites _ hsecond) (hsites _ hfirst)).1
                  hkeys.symm
              exact absurd hfirst (h other hsecond)
          | shortTerm other key' =>
              obtain ⟨rfl, rfl⟩ :=
                (shortTermKey_eq_shortTermKey_iff (hsites _ hfirst) (hsites _ hsecond)).1 hkeys
              rfl
    · intro first hfirst second hsecond hkeys
      exact Prod.ext_iff.2
        ((fullKey_eq_fullKey_iff (hsites _ hfirst) (hsites _ hsecond)).1 hkeys)

/-- Two sites with unrelated names. -/
def twoSites : Set Str := fun subdomain => subdomain = "shop" ∨ subdomain = "blog"

theorem namespaced_twoSites : Namespaced twoSites := by
  have hsites : ∀ subdomain ∈ twoSites, ':' ∉ subdomain := by
    rintro subdomain (rfl | rfl)
    · decide
    · decide
  refine (namespaced_iff hsites).2 ?_
  rintro subdomain (rfl | rfl) (hlong | hlong)
  all_goals exact absurd hlong (by decide)

/-- A site, and one whose name is that of the first with `LongTerm2` at its end. -/
theorem memcachedKey_collision :
    ∃ entry entry' : Entry, ':' ∉ entry.subdomain ∧ ':' ∉ entry'.subdomain ∧
      entry.subdomain ≠ entry'.subdomain ∧ entry.memcachedKey = entry'.memcachedKey :=
  ⟨.longTerm "shop" "feed", .shortTerm "shopLongTerm2" "feed", by decide, by decide, by decide,
    by decide⟩

/-! ## Requests and the entries of others -/

variable {collation : Collation}

namespace Stores

/-- `Server::shortTermCacheGet`. -/
def shortTermCacheGet (stores : Stores collation) (subdomain key : Str) :
    Reply × Stores collation :=
  (.value key (MemcacheProxy.get stores.memcached (shortTermKey subdomain key)), stores)

/-- `Server::shortTermCacheSet`. -/
def shortTermCacheSet (stores : Stores collation) (subdomain key value : Str) :
    Reply × Stores collation :=
  (.value key value,
    { stores with
      memcached := MemcacheProxy.set stores.memcached (shortTermKey subdomain key) value })

/-- `Server::shortTermCacheDelete`. -/
def shortTermCacheDelete (stores : Stores collation) (subdomain key : Str) :
    Reply × Stores collation :=
  (.key key,
    { stores with
      memcached := MemcacheProxy.remove stores.memcached (shortTermKey subdomain key) })

end Stores

/-- A request to one of the two caches, with the subdomain of the session's Site. -/
inductive CacheRequest
  | longTerm (request : Request)
  | shortTermGet (subdomain key : Str)
  | shortTermSet (subdomain key value : Str)
  | shortTermDelete (subdomain key : Str)

/-- The handler that a request is dispatched to. -/
def Stores.serveCache (stores : Stores collation) (now : ℤ) :
    CacheRequest → Reply × Stores collation
  | .longTerm request => stores.serve now request
  | .shortTermGet subdomain key => stores.shortTermCacheGet subdomain key
  | .shortTermSet subdomain key value => stores.shortTermCacheSet subdomain key value
  | .shortTermDelete subdomain key => stores.shortTermCacheDelete subdomain key

/-- The entry of memcached that a request is about. -/
def CacheRequest.entry : CacheRequest → Option Entry
  | .longTerm (.get subdomain key _ _) => some (.longTerm subdomain key)
  | .longTerm (.set subdomain key _ _ _) => some (.longTerm subdomain key)
  | .longTerm (.delete subdomain key) => some (.longTerm subdomain key)
  | .longTerm (.empty _) => none
  | .shortTermGet subdomain key => some (.shortTerm subdomain key)
  | .shortTermSet subdomain key _ => some (.shortTerm subdomain key)
  | .shortTermDelete subdomain key => some (.shortTerm subdomain key)

/-- A request changes no entry of memcached but the one under the name it is about. -/
theorem get_serveCache_of_ne (stores : Stores collation) (now : ℤ) (request : CacheRequest)
    {name : Str} (hname : ∀ entry, request.entry = some entry → entry.memcachedKey ≠ name) :
    MemcacheProxy.get (stores.serveCache now request).2.memcached name =
      MemcacheProxy.get stores.memcached name := by
  cases request with
  | longTerm request =>
      cases request with
      | get subdomain key renewExpiry useShortTermCache =>
          have hne : longTermKey subdomain key ≠ name := hname _ rfl
          show MemcacheProxy.get (stores.longTermCacheGet now subdomain key renewExpiry
            useShortTermCache).2.memcached name = _
          rcases stores.hit_or_miss subdomain key useShortTermCache with ⟨huse, hhit⟩ | hmiss
          · rw [stores.longTermCacheGet_of_hit now subdomain key renewExpiry _ huse hhit]
          · obtain ⟨kvstore, _, hget⟩ :=
              stores.longTermCacheGet_of_miss now subdomain key renewExpiry _ hmiss
            rw [hget, MemcacheProxy.get_set, if_neg hne]
      | set subdomain key value expireInterval isFilename =>
          have hne : longTermKey subdomain key ≠ name := hname _ rfl
          show MemcacheProxy.get (MemcacheProxy.set _ _ _) name = _
          rw [MemcacheProxy.get_set, if_neg hne]
      | delete subdomain key =>
          have hne : longTermKey subdomain key ≠ name := hname _ rfl
          show MemcacheProxy.get (MemcacheProxy.remove _ _) name = _
          rw [MemcacheProxy.get_remove, if_neg hne]
      | empty subdomain => rfl
  | shortTermGet subdomain key => rfl
  | shortTermSet subdomain key value =>
      have hne : shortTermKey subdomain key ≠ name := hname _ rfl
      show MemcacheProxy.get (MemcacheProxy.set _ _ _) name = _
      rw [MemcacheProxy.get_set, if_neg hne]
  | shortTermDelete subdomain key =>
      have hne : shortTermKey subdomain key ≠ name := hname _ rfl
      show MemcacheProxy.get (MemcacheProxy.remove _ _) name = _
      rw [MemcacheProxy.get_remove, if_neg hne]

/-- Among sites that are kept apart, a request changes no entry but the one it is about. -/
theorem Namespaced.get_serveCache {sites : Set Str} (h : Namespaced sites)
    (stores : Stores collation) (now : ℤ) {request : CacheRequest} {entry : Entry}
    (hrequest : ∀ own, request.entry = some own → own.subdomain ∈ sites ∧ own ≠ entry)
    (hentry : entry.subdomain ∈ sites) :
    MemcacheProxy.get (stores.serveCache now request).2.memcached entry.memcachedKey =
      MemcacheProxy.get stores.memcached entry.memcachedKey := by
  refine get_serveCache_of_ne stores now request fun own hown hsame => ?_
  obtain ⟨hmem, hne⟩ := hrequest own hown
  exact hne (h.memcachedKey hmem hentry hsame)

end VaeDb.Cache
