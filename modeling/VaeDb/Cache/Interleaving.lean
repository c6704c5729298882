import VaeDb.Cache.Stores
import VaeDb.Library.Transition

/-!
# Interleaved Gets and Sets of the long-term cache

Any number of `longTermCacheGet` and `longTermCacheSet` requests for the Site of one
subdomain, one statement or command at a time.  A Get without an answer from memcached
selects from MySQL, visits the rows it has got, renewing some, and copies what it found
to memcached.  A Set deletes and inserts its row and then writes memcached.  Nothing
holds the two stores together in between.

Calls note when they started, Sets also when they finished; no step depends on it.
-/

namespace VaeDb.Cache

variable {collation : Collation}

/-- How far a Get has got. -/
inductive GetProgress
  | asking
  | missed
  | reading (selected : ℤ) (rows : List KvRow) (value : Str)
  | returned (value : Str)

/-- A `longTermCacheGet` request. -/
structure GetCall where
  key : Str
  renewExpiry : ℤ
  useShortTermCache : ℤ
  startedAt : ℕ
  progress : GetProgress

/-- How far a Set has got. -/
inductive SetProgress
  | started
  | deleted
  | inserted
  | finished (time : ℕ)

/-- A `longTermCacheSet` request. -/
structure SetCall where
  key : Str
  value : Str
  expireInterval : ℤ
  isFilename : ℤ
  startedAt : ℕ
  progress : SetProgress

/-- The steps of a Get. -/
inductive GetLabel
  | memcachedGet
  | select (now : ℤ)
  | visitRow (now : ℤ)
  | memcachedSet

/-- The steps of a Set. -/
inductive SetLabel
  | delete
  | insert (now : ℤ)
  | memcachedSet

/-- One step of a Get, on the stores. -/
def getStep (subdomain : Str) (stores : Stores collation) (get : GetCall) :
    GetLabel → Option (Stores collation × GetProgress)
  | .memcachedGet =>
      match get.progress with
      | .asking =>
          let answer := MemcacheProxy.get stores.memcached (longTermKey subdomain get.key)
          some (stores, if answer.length > 0 then .returned answer else .missed)
      | _ => none
  | .select now =>
      match get.progress with
      | .missed =>
          some (stores, .reading now (stores.kvstore.selectRows subdomain get.key) [])
      | _ => none
  | .visitRow now =>
      match get.progress with
      | .reading selected (row :: rows) value =>
          let found := MysqlProxy.visitRow selected now subdomain get.key get.renewExpiry
            (value, stores.kvstore) row
          some ({ stores with kvstore := found.2 }, .reading selected rows found.1)
      | _ => none
  | .memcachedSet =>
      match get.progress with
      | .reading _ [] value =>
          some ({ stores with
            memcached :=
              MemcacheProxy.set stores.memcached (longTermKey subdomain get.key) value },
            .returned value)
      | _ => none

/-- One step of a Set, on the stores.  A failing `INSERT` is no step. -/
def setStep (subdomain : Str) (stores : Stores collation) (set : SetCall) (time : ℕ) :
    SetLabel → Option (Stores collation × SetProgress)
  | .delete =>
      match set.progress with
      | .started =>
          some ({ stores with kvstore := stores.kvstore.deleteKey subdomain set.key }, .deleted)
      | _ => none
  | .insert now =>
      match set.progress with
      | .deleted =>
          (stores.kvstore.insertRow now subdomain set.key set.value set.expireInterval
            set.isFilename).map fun kvstore => ({ stores with kvstore }, .inserted)
      | _ => none
  | .memcachedSet =>
      match set.progress with
      | .inserted =>
          some ({ stores with
            memcached :=
              MemcacheProxy.set stores.memcached (longTermKey subdomain set.key) set.value },
            .finished time)
      | _ => none

/-- The stores and all requests. -/
structure State (collation : Collation) where
  time : ℕ
  stores : Stores collation
  gets : ℕ → Option GetCall
  sets : ℕ → Option SetCall

/-- Some contents of the stores, and no requests. -/
def State.initial (stores : Stores collation) : State collation where
  time := 0
  stores := stores
  gets := fun _ => none
  sets := fun _ => none

/-- Which request moves. -/
inductive Label
  | getBegin (g : ℕ) (key : Str) (renewExpiry useShortTermCache : ℤ)
  | get (g : ℕ) (label : GetLabel)
  | setBegin (i : ℕ) (key value : Str) (expireInterval isFilename : ℤ)
  | set (i : ℕ) (label : SetLabel)

namespace State

/-- Note a Get. -/
def setGet (s : State collation) (g : ℕ) (get : GetCall) : State collation :=
  { s with gets := Function.update s.gets g (some get) }

/-- Note a Set. -/
def setSet (s : State collation) (i : ℕ) (set : SetCall) : State collation :=
  { s with sets := Function.update s.sets i (some set) }

/-- One more step has been taken. -/
def tick (s : State collation) : State collation := { s with time := s.time + 1 }

end State

/-- One step, before the clock moves on. -/
def act (subdomain : Str) (s : State collation) : Label → Option (State collation)
  | .getBegin g key renewExpiry useShortTermCache =>
      match s.gets g with
      | none =>
          some (s.setGet g ⟨key, renewExpiry, useShortTermCache, s.time,
            if useShortTermCache ≠ 0 then .asking else .missed⟩)
      | some _ => none
  | .get g label =>
      match s.gets g with
      | some get =>
          (getStep subdomain s.stores get label).map fun found =>
            { s with stores := found.1 }.setGet g { get with progress := found.2 }
      | none => none
  | .setBegin i key value expireInterval isFilename =>
      match s.sets i with
      | none => some (s.setSet i ⟨key, value, expireInterval, isFilename, s.time, .started⟩)
      | some _ => none
  | .set i label =>
      match s.sets i with
      | some set =>
          (setStep subdomain s.stores set s.time label).map fun found =>
            { s with stores := found.1 }.setSet i { set with progress := found.2 }
      | none => none

/-- One step of the requests. -/
def step (subdomain : Str) (s : State collation) (label : Label) : Option (State collation) :=
  (act subdomain s label).map State.tick

/-! ## What a step can do -/

/-- The value that a Get will return, once it is settled. -/
def GetProgress.value? : GetProgress → Option Str
  | .reading _ rows value => some (rows.foldl (fun _ row => row.v) value)
  | .returned value => some value
  | _ => none

theorem KvStore.foldl_selectRows (store : KvStore collation) (subdomain key : Str) :
    (store.selectRows subdomain key).foldl (fun _ row => row.v) [] =
      store.value subdomain key := by
  unfold selectRows value
  rw [Table.select_eq]
  cases store.find (primaryKey collation subdomain key) <;> rfl

/-- A step of a Get changes no value in MySQL, changes memcached only to copy the value it
returns, and takes its value from one of the stores. -/
theorem getStep_eq_some {subdomain : Str} {stores next : Stores collation} {get : GetCall}
    {label : GetLabel} {progress : GetProgress}
    (h : getStep subdomain stores get label = some (next, progress)) :
    (∀ s k, next.kvstore.value s k = stores.kvstore.value s k) ∧
      (next.memcached = stores.memcached ∨
        ∃ selected value, get.progress = .reading selected [] value ∧ label = .memcachedSet ∧
          next.memcached =
            MemcacheProxy.set stores.memcached (longTermKey subdomain get.key) value) ∧
      ∀ value, progress.value? = some value →
        get.progress.value? = some value ∨ value = stores.kvstore.value subdomain get.key ∨
          value ≠ [] ∧
            value = MemcacheProxy.get stores.memcached (longTermKey subdomain get.key) := by
  cases label with
  | memcachedGet =>
      simp only [getStep] at h
      split at h
      · obtain ⟨rfl, rfl⟩ := Prod.ext_iff.1 (Option.some.inj h)
        refine ⟨fun _ _ => rfl, Or.inl rfl, fun value hvalue => ?_⟩
        simp only at hvalue
        split at hvalue
        · next hanswer =>
          obtain rfl := Option.some.inj hvalue
          exact Or.inr (Or.inr ⟨List.length_pos_iff.1 hanswer, rfl⟩)
        · cases hvalue
      · cases h
  | select now =>
      simp only [getStep] at h
      split at h
      · obtain ⟨rfl, rfl⟩ := Prod.ext_iff.1 (Option.some.inj h)
        refine ⟨fun _ _ => rfl, Or.inl rfl, fun value hvalue => Or.inr (Or.inl ?_)⟩
        rw [← Option.some.inj hvalue]
        exact KvStore.foldl_selectRows stores.kvstore subdomain get.key
      · cases h
  | visitRow now =>
      simp only [getStep] at h
      split at h
      · next selected row rows value hprogress =>
        obtain ⟨rfl, rfl⟩ := Prod.ext_iff.1 (Option.some.inj h)
        obtain ⟨hrow, hvalues⟩ := MysqlProxy.visitRow_eq selected now subdomain get.key
          get.renewExpiry (value, stores.kvstore) row
        refine ⟨hvalues, Or.inl rfl, fun found hfound => Or.inl ?_⟩
        simp only [GetProgress.value?, hrow] at hfound
        rw [hprogress]
        exact hfound
      · cases h
  | memcachedSet =>
      simp only [getStep] at h
      split at h
      · next selected value hprogress =>
        obtain ⟨rfl, rfl⟩ := Prod.ext_iff.1 (Option.some.inj h)
        refine ⟨fun _ _ => rfl, Or.inr ⟨selected, value, hprogress, rfl, rfl⟩,
          fun found hfound => Or.inl ?_⟩
        rw [hprogress]
        exact hfound
      · cases h

/-- A Set deletes, inserts and writes memcached, in this order. -/
theorem setStep_eq_some {subdomain : Str} {stores next : Stores collation} {set : SetCall}
    {time : ℕ} {label : SetLabel} {progress : SetProgress}
    (h : setStep subdomain stores set time label = some (next, progress)) :
    (set.progress = .started ∧ progress = .deleted ∧
      next = { stores with kvstore := stores.kvstore.deleteKey subdomain set.key }) ∨
    (set.progress = .deleted ∧ progress = .inserted ∧
      ∃ now kvstore, stores.kvstore.insertRow now subdomain set.key set.value
        set.expireInterval set.isFilename = some kvstore ∧ next = { stores with kvstore }) ∨
    (set.progress = .inserted ∧ progress = .finished time ∧
      next = { stores with
        memcached :=
          MemcacheProxy.set stores.memcached (longTermKey subdomain set.key) set.value }) := by
  cases label with
  | delete =>
      simp only [setStep] at h
      split at h
      · next hprogress =>
        obtain ⟨rfl, rfl⟩ := Prod.ext_iff.1 (Option.some.inj h)
        exact Or.inl ⟨hprogress, rfl, rfl⟩
      · cases h
  | insert now =>
      simp only [setStep] at h
      split at h
      · next hprogress =>
        obtain ⟨kvstore, hinsert, hnext⟩ := Option.map_eq_some_iff.1 h
        obtain ⟨rfl, rfl⟩ := Prod.ext_iff.1 hnext
        exact Or.inr (Or.inl ⟨hprogress, rfl, now, kvstore, hinsert, rfl⟩)
      · cases h
  | memcachedSet =>
      simp only [setStep] at h
      split at h
      · next hprogress =>
        obtain ⟨rfl, rfl⟩ := Prod.ext_iff.1 (Option.some.inj h)
        exact Or.inr (Or.inr ⟨hprogress, rfl, rfl⟩)
      · cases h

/-- What a step with a label can lead to. -/
inductive Moves (subdomain : Str) (s : State collation) : Label → State collation → Prop
  | getBegin {g : ℕ} {key : Str} {renewExpiry useShortTermCache : ℤ}
      (hfree : s.gets g = none) :
      Moves subdomain s (.getBegin g key renewExpiry useShortTermCache)
        (s.setGet g ⟨key, renewExpiry, useShortTermCache, s.time,
          if useShortTermCache ≠ 0 then .asking else .missed⟩)
  | get {g : ℕ} {label : GetLabel} {get : GetCall} {stores : Stores collation}
      {progress : GetProgress} (hget : s.gets g = some get)
      (hstep : getStep subdomain s.stores get label = some (stores, progress)) :
      Moves subdomain s (.get g label) ({ s with stores }.setGet g { get with progress })
  | setBegin {i : ℕ} {key value : Str} {expireInterval isFilename : ℤ}
      (hfree : s.sets i = none) :
      Moves subdomain s (.setBegin i key value expireInterval isFilename)
        (s.setSet i ⟨key, value, expireInterval, isFilename, s.time, .started⟩)
  | set {i : ℕ} {label : SetLabel} {set : SetCall} {stores : Stores collation}
      {progress : SetProgress} (hset : s.sets i = some set)
      (hstep : setStep subdomain s.stores set s.time label = some (stores, progress)) :
      Moves subdomain s (.set i label) ({ s with stores }.setSet i { set with progress })

/-- A step is one of the moves, and the clock moves on. -/
theorem moves_of_step {subdomain : Str} {s next : State collation} {label : Label}
    (h : step subdomain s label = some next) :
    ∃ moved, Moves subdomain s label moved ∧ next = moved.tick := by
  obtain ⟨moved, hact, htick⟩ := Option.map_eq_some_iff.1 h
  refine ⟨moved, ?_, htick.symm⟩
  cases label with
  | getBegin g key renewExpiry useShortTermCache =>
      simp only [act] at hact
      split at hact
      · next hfree => exact Option.some.inj hact ▸ .getBegin hfree
      · cases hact
  | get g label =>
      simp only [act] at hact
      split at hact
      · next hget =>
        obtain ⟨⟨stores, progress⟩, hstep, hmoved⟩ := Option.map_eq_some_iff.1 hact
        exact hmoved ▸ .get hget hstep
      · cases hact
  | setBegin i key value expireInterval isFilename =>
      simp only [act] at hact
      split at hact
      · next hfree => exact Option.some.inj hact ▸ .setBegin hfree
      · cases hact
  | set i label =>
      simp only [act] at hact
      split at hact
      · next hset =>
        obtain ⟨⟨stores, progress⟩, hstep, hmoved⟩ := Option.map_eq_some_iff.1 hact
        exact hmoved ▸ .set hset hstep
      · cases hact

namespace State

variable (s : State collation)

/-- Where a Get comes from after one Get has been noted. -/
theorem setGet_eq_some {g d : ℕ} {get found : GetCall}
    (h : (s.setGet g get).gets d = some found) :
    (d = g ∧ found = get) ∨ (d ≠ g ∧ s.gets d = some found) := by
  simp only [setGet, Function.update_apply] at h
  split at h
  · next hd => exact Or.inl ⟨hd, (Option.some.inj h).symm⟩
  · next hd => exact Or.inr ⟨hd, h⟩

/-- Where a Set comes from after one Set has been noted. -/
theorem setSet_eq_some {i j : ℕ} {set found : SetCall}
    (h : (s.setSet i set).sets j = some found) :
    (j = i ∧ found = set) ∨ (j ≠ i ∧ s.sets j = some found) := by
  simp only [setSet, Function.update_apply] at h
  split at h
  · next hj => exact Or.inl ⟨hj, (Option.some.inj h).symm⟩
  · next hj => exact Or.inr ⟨hj, h⟩

end State

end VaeDb.Cache
