import VaeDb.Cache.Storage

/-!
# Sites do not notice each other's requests

All sites share the tables and memcached.  A site sees the time, its rows of `kvstore` and its
two kinds of keys in memcached (`view`), and the requests to its short-term and long-term cache
depend on that alone (`serve_confined`).  No other request changes anything in view
(`code_silent`), whatever it asks for: the names of the sites must only not be taken for each
other.  So a site gets the answers that it would get if it were the only one, in whatever order
the statements and commands of concurrent requests come (`cache_isolated`).

This is not so for the other two services.  A row of `session_data` keeps all other sites from
using its key, and a failed attempt to lock deletes old locks of all sites.
-/

namespace VaeDb.Storage

open Cache (Collation primaryKey longTermKey shortTermKey longTerm)
open Threads

variable {collation : Collation} (site : Str)

/-! ## What a site sees -/

/-- The row belongs to the site, as MySQL compares names. -/
def KvRow.isOf (collation : Collation) (row : KvRow) : Bool :=
  collation row.subdomain = collation site

/-- A row under a name of the site. -/
theorem KvRow.isOf_of_key {row : KvRow} {key : Str}
    (h : row.key collation = primaryKey collation site key) : row.isOf site collation = true := by
  have hsite : collation row.subdomain = collation site := (Prod.ext_iff.1 h).1
  simpa [isOf] using hsite

/-- The rows of the site. -/
def KvStore.ownRows (store : KvStore collation) : List KvRow :=
  store.rows.filter (KvRow.isOf site collation)

/-- What a site sees. -/
structure View where
  now : ℤ
  rows : List KvRow
  longTerm : Str → Option Item
  shortTerm : Str → Option Item

/-- What the site sees of the memory. -/
def view (memory : Memory collation) : View where
  now := memory.now
  rows := memory.kvstore.ownRows site
  longTerm := fun key => memory.memcached (longTermKey site key)
  shortTerm := fun key => memory.memcached (shortTermKey site key)

/-! ## The statements on the rows of the site -/

namespace KvStore

variable (store : KvStore collation)

theorem ownRows_delete (drop : KvRow → Bool) :
    ownRows site (store.delete drop : KvStore collation) =
      (store.ownRows site).filter fun row => !drop row := by
  unfold ownRows Table.delete
  exact List.filter_comm _ _ _

theorem ownRows_renew (now : ℤ) (subdomain key : Str) (renewExpiry : ℤ) :
    (store.renew now subdomain key renewExpiry).ownRows site =
      (store.ownRows site).map fun row =>
        if row.key collation = primaryKey collation subdomain key then
          row.expiringAt (dateAdd now renewExpiry)
        else row := by
  unfold ownRows renew Table.update
  rw [List.filter_map]
  have hsame : KvRow.isOf site collation ∘ (fun row : KvRow =>
      if decide (row.key collation = primaryKey collation subdomain key) = true then
        row.expiringAt (dateAdd now renewExpiry)
      else row) = KvRow.isOf site collation := by
    funext row
    simp only [Function.comp_apply]
    split <;> rfl
  rw [hsame]
  simp only [decide_eq_true_eq]

theorem selectRows_eq (key : Str) :
    store.selectRows site key = (store.ownRows site).filter fun row =>
      row.key collation = primaryKey collation site key := by
  unfold selectRows Table.select ownRows
  rw [List.filter_filter]
  refine List.filter_congr fun row _ => ?_
  by_cases hkey : row.key collation = primaryKey collation site key
  · simp [hkey, KvRow.isOf_of_key site hkey]
  · simp [hkey]

theorem filenameRows_eq :
    store.filenameRows site = (store.ownRows site).filter fun row => row.isFilename = 1 := by
  unfold filenameRows ownRows
  rw [List.filter_filter]
  refine List.filter_congr fun row _ => ?_
  simp [KvRow.isOf]

/-- An `INSERT` for the site depends on its own rows. -/
theorem ownRows_insertRow (now : ℤ) (key value : Str) (expireInterval isFilename : ℤ) :
    ownRows site ((store.insertRow now site key value expireInterval isFilename).getD store) =
      if primaryKey collation site key ∈ (store.ownRows site).map (KvRow.key collation) then
        store.ownRows site
      else
        store.ownRows site ++
          [⟨site, key, value, dateAdd now expireInterval, isFilename⟩] := by
  have htaken : primaryKey collation site key ∈ (store.ownRows site).map (KvRow.key collation) ↔
      primaryKey collation site key ∈ store.rows.map (KvRow.key collation) := by
    simp only [List.mem_map, ownRows, List.mem_filter]
    exact exists_congr fun row =>
      ⟨fun h => ⟨h.1.1, h.2⟩, fun h => ⟨⟨h.1, KvRow.isOf_of_key site h.2⟩, h.2⟩⟩
  by_cases hkey : primaryKey collation site key ∈ store.rows.map (KvRow.key collation)
  · have hnone : store.insertRow now site key value expireInterval isFilename = none :=
      dif_neg (not_not.2 hkey)
    rw [if_pos (htaken.2 hkey), hnone, Option.getD_none]
  · have hsome : store.insertRow now site key value expireInterval isFilename = some _ :=
      dif_pos hkey
    rw [if_neg (fun h => hkey (htaken.1 h)), hsome, Option.getD_some]
    unfold ownRows
    rw [List.filter_append]
    simp [KvRow.isOf]

/-! ## The statements for others -/

theorem ownRows_delete_of_others {drop : KvRow → Bool}
    (h : ∀ row, row.isOf site collation = true → drop row = false) :
    ownRows site (store.delete drop : KvStore collation) = store.ownRows site := by
  rw [ownRows_delete]
  refine List.filter_eq_self.2 fun row hrow => ?_
  rw [h row (List.mem_filter.1 hrow).2]
  rfl

variable {site} {other : Str} (hother : collation other ≠ collation site)

include hother

theorem ownRows_renew_of_others (now : ℤ) (key : Str) (renewExpiry : ℤ) :
    (store.renew now other key renewExpiry).ownRows site = store.ownRows site := by
  rw [ownRows_renew]
  refine (List.map_congr_left fun row hrow => if_neg fun hkey => hother ?_).trans (List.map_id _)
  have hrow : collation row.subdomain = collation site := by
    simpa [KvRow.isOf] using (List.mem_filter.1 hrow).2
  exact (Prod.ext_iff.1 hkey).1.symm.trans hrow

theorem ownRows_insertRow_of_others (now : ℤ) (key value : Str)
    (expireInterval isFilename : ℤ) :
    ownRows site ((store.insertRow now other key value expireInterval isFilename).getD store) =
      store.ownRows site := by
  by_cases hkey : primaryKey collation other key ∈ store.rows.map (KvRow.key collation)
  · have hnone : store.insertRow now other key value expireInterval isFilename = none :=
      dif_neg (not_not.2 hkey)
    rw [hnone, Option.getD_none]
  · have hsome : store.insertRow now other key value expireInterval isFilename = some _ :=
      dif_pos hkey
    rw [hsome, Option.getD_some]
    unfold ownRows
    rw [List.filter_append]
    simp [KvRow.isOf, hother]

end KvStore

/-! ## Programs of the site -/

/-- What a statement does in view depends on what is in view: it is about rows of the site, or
not about `kvstore`. -/
def Statement.IsOf : Statement → Prop
  | .renew subdomain _ _ => subdomain = site
  | .deleteKey subdomain _ => subdomain = site
  | .deleteSubdomain subdomain => subdomain = site
  | .insertRow subdomain _ _ _ _ => subdomain = site
  | .deleteExpired subdomain => subdomain = site
  | _ => True

section

variable {site} {memory memory' : Memory collation} (hview : view site memory = view site memory')

include hview

theorem view_kvstore_congr {kvstore kvstore' : KvStore collation}
    (h : kvstore.ownRows site = kvstore'.ownRows site) :
    view site { memory with kvstore } = view site { memory' with kvstore := kvstore' } := by
  show View.mk memory.now _ _ _ = View.mk memory'.now _ _ _
  rw [View.mk.injEq]
  exact ⟨congrArg View.now hview, h, congrArg View.longTerm hview, congrArg View.shortTerm hview⟩

theorem view_memcached_congr (name : Str) {item item' : Option Item} (h : item = item') :
    view site { memory with memcached := Function.update memory.memcached name item } =
      view site { memory' with memcached := Function.update memory'.memcached name item' } := by
  have hitem : ∀ key, memory.memcached key = memory'.memcached key →
      Function.update memory.memcached name item key =
        Function.update memory'.memcached name item' key := by
    intro key hkey
    by_cases hname : key = name
    · rw [hname, Function.update_self, Function.update_self, h]
    · rw [Function.update_of_ne hname, Function.update_of_ne hname, hkey]
  have hlong : ∀ key, memory.memcached (longTermKey site key) =
      memory'.memcached (longTermKey site key) := congrFun (congrArg View.longTerm hview)
  have hshort : ∀ key, memory.memcached (shortTermKey site key) =
      memory'.memcached (shortTermKey site key) := congrFun (congrArg View.shortTerm hview)
  show View.mk memory.now _ _ _ = View.mk memory'.now _ _ _
  rw [View.mk.injEq]
  exact ⟨congrArg View.now hview, congrArg View.rows hview, funext fun key => hitem _ (hlong key),
    funext fun key => hitem _ (hshort key)⟩

theorem Statement.view_congr {statement : Statement} (h : statement.IsOf site) :
    view site (statement.apply memory) = view site (statement.apply memory') := by
  have hnow : memory.now = memory'.now := congrArg View.now hview
  have hrows : memory.kvstore.ownRows site = memory'.kvstore.ownRows site :=
    congrArg View.rows hview
  cases statement with
  | renew subdomain key renewExpiry =>
      obtain rfl : subdomain = site := h
      exact view_kvstore_congr hview (by
        rw [KvStore.ownRows_renew, KvStore.ownRows_renew, hnow, hrows])
  | deleteKey subdomain key =>
      obtain rfl : subdomain = site := h
      exact view_kvstore_congr hview (by
        rw [KvStore.deleteKey, KvStore.deleteKey, KvStore.ownRows_delete, KvStore.ownRows_delete,
          hrows])
  | deleteSubdomain subdomain =>
      obtain rfl : subdomain = site := h
      exact view_kvstore_congr hview (by
        rw [KvStore.deleteSubdomain, KvStore.deleteSubdomain, KvStore.ownRows_delete,
          KvStore.ownRows_delete, hrows])
  | insertRow subdomain key value expireInterval isFilename =>
      obtain rfl : subdomain = site := h
      exact view_kvstore_congr hview (by
        rw [KvStore.ownRows_insertRow, KvStore.ownRows_insertRow, hnow, hrows])
  | deleteExpired subdomain =>
      obtain rfl : subdomain = site := h
      exact view_kvstore_congr hview (by
        rw [KvStore.deleteExpired, KvStore.deleteExpired, KvStore.ownRows_delete,
          KvStore.ownRows_delete, hnow, hrows])
  | set key value expireInterval =>
      exact view_memcached_congr hview key (by rw [hnow])
  | remove key => exact view_memcached_congr hview key rfl
  | pass seconds =>
      show View.mk (memory.now + seconds) _ _ _ = View.mk (memory'.now + seconds) _ _ _
      rw [View.mk.injEq]
      exact ⟨congrArg (· + (seconds : ℤ)) hnow, hrows, congrArg View.longTerm hview,
        congrArg View.shortTerm hview⟩
  | _ => exact hview

end

section

variable {site}

theorem confined_execute {statement : Statement} (h : statement.IsOf site) :
    Confined (view site : Memory collation → View) (execute statement) :=
  Confined.write fun _ _ hview => Statement.view_congr hview h

theorem MemcacheProxy.get_confined {name : Str}
    (hname : ∀ memory memory' : Memory collation, view site memory = view site memory' →
      memory.memcached name = memory'.memcached name) :
    Confined (view site) (get name : Code collation Str) := by
  refine Confined.read fun memory memory' hview => ?_
  rw [hname memory memory' hview, show memory.now = memory'.now from congrArg View.now hview]

theorem MysqlProxy.longTermCacheGet_confined (key : Str) (renewExpiry : ℤ) :
    Confined (view site) (longTermCacheGet site key renewExpiry : Code collation Str) := by
  refine (Confined.read fun memory memory' hview => ?_).bind fun rows =>
    Confined.foldlM (fun _ row => ?_) rows []
  · have hnow : memory.now = memory'.now := congrArg View.now hview
    have hrows : memory.kvstore.ownRows site = memory'.kvstore.ownRows site :=
      congrArg View.rows hview
    rw [KvStore.selectRows_eq, KvStore.selectRows_eq, hrows, hnow]
  · unfold visitRow
    split
    · exact (confined_execute (by exact rfl)).bind fun _ => Confined.pure _
    · exact Confined.pure _

theorem MysqlProxy.longTermCacheSweeperInfo_confined :
    Confined (view site) (longTermCacheSweeperInfo site : Code collation _) := by
  refine (confined_execute (by exact rfl)).bind fun _ =>
    (Confined.read fun memory memory' hview => ?_).bind fun _ => Confined.pure _
  have hrows : memory.kvstore.ownRows site = memory'.kvstore.ownRows site :=
    congrArg View.rows hview
  rw [KvStore.filenameRows_eq, KvStore.filenameRows_eq, hrows]

end

/-- A request to the short-term or the long-term cache. -/
def Request.isCache : Request → Bool
  | .sessionCacheGet _ => false
  | .sessionCacheSet _ _ => false
  | .sessionCacheDelete _ => false
  | .sitewideLock _ => false
  | .sitewideUnlock _ => false
  | _ => true

/-- The answers of the two caches depend on what the site sees. -/
theorem serve_confined {request : Request} (hcache : request.isCache = true) :
    Confined (view site) (serve site request : Code collation Reply) := by
  cases request with
  | shortTermCacheGet key =>
      exact (MemcacheProxy.get_confined fun _ _ hview =>
        congrFun (congrArg View.shortTerm hview) key).bind fun _ => Confined.pure _
  | shortTermCacheSet key value expireInterval =>
      exact (confined_execute (by trivial)).bind fun _ => Confined.pure _
  | shortTermCacheDelete key => exact (confined_execute (by trivial)).bind fun _ => Confined.pure _
  | longTermCacheGet key renewExpiry useShortTermCache =>
      -- MySQL is asked where memcached is not, or has nothing
      have hfill : Confined (view site) (do
          let value ← MysqlProxy.longTermCacheGet site key renewExpiry
          MemcacheProxy.set (longTermKey site key) value 86400
          return .value key value : Code collation Reply) :=
        (MysqlProxy.longTermCacheGet_confined key renewExpiry).bind fun value =>
          (confined_execute (by trivial)).bind fun _ => Confined.pure _
      show Confined (view site) (longTermCacheGet site key renewExpiry useShortTermCache)
      unfold longTermCacheGet
      split
      · refine (MemcacheProxy.get_confined fun _ _ hview =>
          congrFun (congrArg View.longTerm hview) key).bind fun answer => ?_
        split
        · exact Confined.pure _
        · exact hfill
      · exact hfill
  | longTermCacheSet key value expireInterval isFilename =>
      exact ((confined_execute (by exact rfl)).bind fun _ =>
        confined_execute (by exact rfl)).bind fun _ =>
          (confined_execute (by trivial)).bind fun _ => Confined.pure _
  | longTermCacheDelete key =>
      exact (confined_execute (by exact rfl)).bind fun _ =>
        (confined_execute (by trivial)).bind fun _ => Confined.pure _
  | longTermCacheEmpty => exact (confined_execute (by exact rfl)).bind fun _ => Confined.pure _
  | longTermCacheSweeperInfo =>
      exact MysqlProxy.longTermCacheSweeperInfo_confined.bind fun _ => Confined.pure _
  | sessionCacheGet key => cases hcache
  | sessionCacheSet key value => cases hcache
  | sessionCacheDelete key => cases hcache
  | sitewideLock iden => cases hcache
  | sitewideUnlock iden => cases hcache

/-! ## Programs of others -/

/-- Nobody takes the names of one site for those of the other. -/
structure Apart (collation : Collation) (site other : Str) : Prop where
  collation_ne : collation other ≠ collation site
  separator : ':' ∉ other
  longTerm_ne : site ++ longTerm ≠ other
  ne_longTerm : other ++ longTerm ≠ site

/-- The site has no item under the name. -/
def IsForeign (name : Str) : Prop :=
  ∀ key, longTermKey site key ≠ name ∧ shortTermKey site key ≠ name

section

variable {site} {other : Str} (hsite : ':' ∉ site) (h : Apart collation site other)

include hsite h

theorem Apart.isForeign_longTermKey (key : Str) : IsForeign site (longTermKey other key) := by
  have hne : site ≠ other := fun hsame => h.collation_ne (hsame ▸ rfl)
  refine fun own => ⟨fun hname => ?_, fun hname => ?_⟩
  · exact hne ((Cache.longTermKey_eq_longTermKey_iff hsite h.separator).1 hname).1
  · exact h.ne_longTerm ((Cache.longTermKey_eq_shortTermKey_iff h.separator hsite).1 hname.symm).1

theorem Apart.isForeign_shortTermKey (key : Str) : IsForeign site (shortTermKey other key) := by
  have hne : site ≠ other := fun hsame => h.collation_ne (hsame ▸ rfl)
  refine fun own => ⟨fun hname => ?_, fun hname => ?_⟩
  · exact h.longTerm_ne ((Cache.longTermKey_eq_shortTermKey_iff hsite h.separator).1 hname).1
  · exact hne ((Cache.shortTermKey_eq_shortTermKey_iff hsite h.separator).1 hname).1

end

/-- A statement changes nothing that the site sees. -/
def Statement.IsForeign (collation : Collation) (site : Str) : Statement → Prop
  | .renew subdomain _ _ => collation subdomain ≠ collation site
  | .deleteKey subdomain _ => collation subdomain ≠ collation site
  | .deleteSubdomain subdomain => collation subdomain ≠ collation site
  | .insertRow subdomain _ _ _ _ => collation subdomain ≠ collation site
  | .deleteExpired subdomain => collation subdomain ≠ collation site
  | .set key _ _ => Storage.IsForeign site key
  | .remove key => Storage.IsForeign site key
  | .pass _ => False
  | _ => True

variable {site}

theorem view_kvstore {memory : Memory collation} {kvstore : KvStore collation}
    (h : kvstore.ownRows site = memory.kvstore.ownRows site) :
    view site { memory with kvstore } = view site memory :=
  view_kvstore_congr rfl h

theorem view_memcached {memory : Memory collation} {name : Str} (hname : IsForeign site name)
    (item : Option Item) :
    view site { memory with memcached := Function.update memory.memcached name item } =
      view site memory := by
  show View.mk _ _ _ _ = View.mk _ _ _ _
  rw [View.mk.injEq]
  exact ⟨rfl, rfl, funext fun key => Function.update_of_ne (hname key).1 _ _,
    funext fun key => Function.update_of_ne (hname key).2 _ _⟩

/-- Deleting rows of another site. -/
theorem KvStore.ownRows_delete_foreign (store : KvStore collation) {other : Str}
    {drop : KvRow → Bool} (hother : collation other ≠ collation site)
    (h : ∀ row, drop row = true → row.isOf other collation = true) :
    ownRows site (store.delete drop : KvStore collation) = store.ownRows site := by
  refine ownRows_delete_of_others site store fun row hrow => ?_
  refine Bool.eq_false_iff.2 fun hdrop => hother ?_
  have hrow' := h row hdrop
  simp only [KvRow.isOf, decide_eq_true_eq] at hrow hrow'
  exact hrow'.symm.trans hrow

theorem Statement.view_apply {statement : Statement} (h : statement.IsForeign collation site)
    (memory : Memory collation) : view site (statement.apply memory) = view site memory := by
  cases statement with
  | renew subdomain key renewExpiry =>
      exact view_kvstore (KvStore.ownRows_renew_of_others memory.kvstore h _ key renewExpiry)
  | deleteKey subdomain key =>
      exact view_kvstore (memory.kvstore.ownRows_delete_foreign h fun _ hdrop =>
        KvRow.isOf_of_key subdomain (of_decide_eq_true hdrop))
  | deleteSubdomain subdomain =>
      exact view_kvstore (memory.kvstore.ownRows_delete_foreign h fun _ hdrop => hdrop)
  | insertRow subdomain key value expireInterval isFilename =>
      exact view_kvstore (KvStore.ownRows_insertRow_of_others memory.kvstore h _ key value
        expireInterval isFilename)
  | deleteExpired subdomain =>
      exact view_kvstore (memory.kvstore.ownRows_delete_foreign h fun _ hdrop =>
        decide_eq_true (of_decide_eq_true hdrop).2)
  | set key value expireInterval => exact view_memcached h _
  | remove key => exact view_memcached h _
  | pass seconds => exact h.elim
  | _ => rfl

/-- What another site's requests execute is foreign, and so is what the session cache and the
locks need. -/
theorem isForeign_of_issues (hsite : ':' ∉ site) {subdomain : Str} {request : Request}
    (h : request.isCache = false ∨ Apart collation site subdomain) {statement : Statement}
    (hissues : (Event.serve subdomain request).Issues statement) :
    statement.IsForeign collation site := by
  have hcache : request.isCache = true → Apart collation site subdomain := fun hcache =>
    h.resolve_left fun hnot => Bool.false_ne_true (hnot.symm.trans hcache)
  cases request with
  | shortTermCacheGet key => exact hissues.elim
  | shortTermCacheSet key value expireInterval =>
      obtain rfl := hissues
      exact (hcache rfl).isForeign_shortTermKey hsite key
  | shortTermCacheDelete key =>
      obtain rfl := hissues
      exact (hcache rfl).isForeign_shortTermKey hsite key
  | sessionCacheGet key => exact hissues.elim
  | sessionCacheSet key value => rcases hissues with rfl | rfl <;> trivial
  | sessionCacheDelete key =>
      obtain rfl := hissues
      trivial
  | longTermCacheGet key renewExpiry useShortTermCache =>
      rcases hissues with rfl | ⟨value, rfl⟩
      · exact (hcache rfl).collation_ne
      · exact (hcache rfl).isForeign_longTermKey hsite key
  | longTermCacheSet key value expireInterval isFilename =>
      rcases hissues with rfl | rfl | rfl
      · exact (hcache rfl).collation_ne
      · exact (hcache rfl).collation_ne
      · exact (hcache rfl).isForeign_longTermKey hsite key
  | longTermCacheDelete key =>
      rcases hissues with rfl | rfl
      · exact (hcache rfl).collation_ne
      · exact (hcache rfl).isForeign_longTermKey hsite key
  | longTermCacheEmpty =>
      obtain rfl := hissues
      exact (hcache rfl).collation_ne
  | longTermCacheSweeperInfo =>
      obtain rfl := hissues
      exact (hcache rfl).collation_ne
  | sitewideLock iden => rcases hissues with rfl | rfl <;> trivial
  | sitewideUnlock iden =>
      obtain rfl := hissues
      trivial

/-! ## All interleavings -/

/-- What a site's answers may depend on: its requests to the two caches, the time, and what
memcached drops. -/
def Event.concerns (site : Str) : Event → Bool
  | .serve subdomain request => subdomain = site ∧ request.isCache
  | .garbageCollect => false
  | .pass _ => true
  | .drop _ => true

theorem code_confined {event : Event} (hevent : event.concerns site = true) :
    Confined (view site) (event.code : Code collation _) := by
  cases event with
  | serve subdomain request =>
      obtain ⟨rfl, hcache⟩ := of_decide_eq_true hevent
      exact (serve_confined subdomain hcache).bind fun _ => Confined.pure _
  | garbageCollect => cases hevent
  | pass seconds => exact (confined_execute (by trivial)).bind fun _ => Confined.pure _
  | drop key => exact (confined_execute (by trivial)).bind fun _ => Confined.pure _

theorem code_silent {event : Event} (hsite : ':' ∉ site) (hevent : event.concerns site = false)
    (hapart : ∀ other request, event = .serve other request → other ≠ site →
      Apart collation site other) :
    Silent (view site) (event.code : Code collation _) := by
  refine fun seen => Event.keeps_code fun statement hissues memory hmemory => ?_
  refine (Statement.view_apply ?_ memory).trans hmemory
  cases event with
  | serve subdomain request =>
      refine isForeign_of_issues hsite ?_ hissues
      by_cases hsame : subdomain = site
      · refine .inl (Bool.eq_false_iff.2 fun hcache => ?_)
        exact of_decide_eq_false hevent ⟨hsame, hcache⟩
      · exact .inr (hapart subdomain request rfl hsame)
  | garbageCollect =>
      obtain rfl := hissues
      trivial
  | pass seconds => cases hevent
  | drop key => cases hevent

/-- A site gets the answers to its requests to the short-term and the long-term cache that it
would get without all other requests, however the statements and commands interleave. -/
theorem cache_isolated (collation : Collation) {site : Str} (hsite : ':' ∉ site)
    {Client : Type} [DecidableEq Client] (mine : Client → Bool) (memory : Memory collation)
    {labels : List (Label Client Event)} {final : State Client (Memory collation) Event _}
    (hrun : Transition.run (step fun _ => Event.code) (State.initial memory) labels = some final)
    (hmine : ∀ client event, .start client event ∈ labels →
      event.concerns site = mine client)
    (hapart : ∀ client other request, .start client (.serve other request) ∈ labels →
      other ≠ site → Apart collation site other) :
    ∃ alone, Transition.run (step fun _ => Event.code) (State.initial memory)
        (labels.filter fun label => mine label.client) = some alone ∧
      alone.ended = final.ended.filter fun ended => ended.1.concerns site := by
  have hproper : ∀ client event, .start client event ∈ labels →
      Proper (view site) mine (Event.concerns site) client event
        (event.code : Code collation _) := by
    intro client event hstart
    have hevent := hmine client event hstart
    refine ⟨hevent, fun hown => code_confined (hevent.trans hown), fun hothers => ?_⟩
    refine code_silent hsite (hevent.trans hothers) fun other request hserve hne => ?_
    exact hapart client other request (hserve ▸ hstart) hne
  exact State.run_purge hproper hrun

/-- Two sites use the same key at the same time. -/
def twoSites : List (Label Bool Event) :=
  [.start true (.serve "shop" (.longTermCacheSet "page" "red" 5 0)),
    .start false (.serve "blog" (.longTermCacheSet "page" "blue" 5 0)),
    .act true, .act false, .act false, .act false, .act true, .act true, .act false, .act true,
    .start true (.serve "shop" (.longTermCacheGet "page" 0 1)), .act true, .act true]

theorem cache_isolated_twoSites :
    ∃ alone : State Bool (Memory .binary) Event (Option Reply),
      Transition.run (step fun _ => Event.code)
        (State.initial ⟨0, Table.empty, Table.empty, Table.empty, fun _ => none⟩)
        (twoSites.filter fun label => label.client) = some alone ∧
      (Event.serve "shop" (.longTermCacheGet "page" 0 1), some (.value "page" "red")) ∈
        alone.ended := by
  let memory : Memory .binary := ⟨0, Table.empty, Table.empty, Table.empty, fun _ => none⟩
  obtain ⟨final, hrun, hget⟩ : ∃ final : State Bool (Memory .binary) Event (Option Reply),
      Transition.run (step fun _ => Event.code) (State.initial memory) twoSites = some final ∧
        (Event.serve "shop" (.longTermCacheGet "page" 0 1), some (.value "page" "red")) ∈
          final.ended := ⟨_, rfl, List.mem_cons_self ..⟩
  have hmine : ∀ client event, .start client event ∈ twoSites →
      event.concerns "shop" = client := by
    intro client event h
    simp only [twoSites, List.mem_cons, Label.start.injEq, reduceCtorEq, List.not_mem_nil,
      or_false, false_or] at h
    rcases h with ⟨rfl, rfl⟩ | ⟨rfl, rfl⟩ | ⟨rfl, rfl⟩ <;> rfl
  have hapart : ∀ client (other : Str) request,
      .start client (.serve other request) ∈ twoSites → other ≠ "shop" →
        Apart .binary "shop" other := by
    intro client other request h hother
    simp only [twoSites, List.mem_cons, Label.start.injEq, Event.serve.injEq, reduceCtorEq,
      List.not_mem_nil, or_false, false_or] at h
    rcases h with ⟨-, rfl, -⟩ | ⟨-, rfl, -⟩ | ⟨-, rfl, -⟩
    · exact absurd rfl hother
    · exact ⟨by decide, by decide, by decide, by decide⟩
    · exact absurd rfl hother
  obtain ⟨alone, halone, hended⟩ :=
    cache_isolated .binary (by decide) (fun client => client) memory hrun hmine hapart
  exact ⟨alone, halone, hended ▸ List.mem_filter.2 ⟨hget, rfl⟩⟩

end VaeDb.Storage
