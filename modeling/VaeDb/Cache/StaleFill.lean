import VaeDb.Cache.Interleaving

/-!
# Stale copies in memcached

A Get that selected a value before a Set may copy it to memcached after the Set has
finished.  From then on memcached holds the old value, and Gets with
`useShortTermCache` answer with it for a day.

That copy is the only way to get a wrong answer.  In a run without one
(`FreshFill`), once a Set that no other Set of its key overlaps or follows has
finished, MySQL holds its value, memcached holds it or nothing, and every Get that
starts from then on returns it.
-/

namespace VaeDb.Cache

open Transition

variable {collation : Collation} {subdomain key : Str} {s next : State collation}
  {label : Label}

/-- Every other Set of the same key had finished when this one started. -/
def Alone (sets : ℕ → Option SetCall) (i : ℕ) (set : SetCall) : Prop :=
  ∀ j other, j ≠ i → sets j = some other → other.key = set.key →
    ∃ time, other.progress = .finished time ∧ time < set.startedAt

/-- Gets that started after a Set of the key has finished return its value, if no other Set
of the key overlaps it or starts later. -/
def NoStaleAnswer (key : Str) (s : State collation) : Prop :=
  ∀ i set finishedAt, s.sets i = some set → set.key = key → Alone s.sets i set →
    set.progress = .finished finishedAt →
    ∀ g get value, s.gets g = some get → get.key = key → finishedAt < get.startedAt →
      get.progress = .returned value → value = set.value

/-- A Get copies to memcached nothing, or what MySQL holds now, or its copy is about to be
overwritten by a Set of the key; and no Set is for another key that MySQL takes for this
one. -/
def FreshFill (subdomain key : Str) (s : State collation) : Label → Prop
  | .get g .memcachedSet => ∀ get selected value, s.gets g = some get → get.key = key →
      get.progress = .reading selected [] value →
      value = [] ∨ value = s.stores.kvstore.value subdomain key ∨
        ∃ i set, s.sets i = some set ∧ set.key = key ∧ ∀ time, set.progress ≠ .finished time
  | .setBegin _ k _ _ _ => collation k = collation key → k = key
  | _ => True

/-! ## Sets that are alone -/

/-- A Set that is alone is not for the key of a Set that is still running or that finishes
after it started. -/
theorem Alone.key_ne {sets : ℕ → Option SetCall} {i j : ℕ} {set other : SetCall}
    (halone : Alone sets j other) (hset : sets i = some set) (hne : i ≠ j)
    (hlate : ∀ time, set.progress = .finished time → other.startedAt ≤ time) :
    set.key ≠ other.key := by
  intro hkey
  obtain ⟨time, hfinished, hbefore⟩ := halone i set hne hset hkey
  have := hlate time hfinished
  omega

/-- A Set that is alone was alone before a Set of another key moved. -/
theorem Alone.of_update {sets : ℕ → Option SetCall} {i j : ℕ} {set other : SetCall}
    (halone : Alone (Function.update sets i (some set)) j other)
    (hold : ∀ old, sets i = some old → old.key ≠ other.key) : Alone sets j other := by
  intro k found hne hfound hkey
  by_cases hk : k = i
  · subst hk
    exact absurd hkey (hold found hfound)
  · exact halone k found hne (by rw [Function.update_of_ne hk]; exact hfound) hkey

/-- Whether a Set is alone does not depend on how far it has got. -/
theorem Alone.of_update_self {sets : ℕ → Option SetCall} {i : ℕ} {set : SetCall}
    {progress : SetProgress}
    (halone : Alone (Function.update sets i (some { set with progress })) i
      { set with progress }) : Alone sets i set := by
  intro j other hne hother hkey
  exact halone j other hne (by rw [Function.update_of_ne hne]; exact hother) hkey

/-! ## The invariant -/

/-- Both stores, and the Gets that started after a time, have a value of the key or none. -/
structure Settled (subdomain key : Str) (s : State collation) (value : Str)
    (finishedAt : ℕ) : Prop where
  kvstore : s.stores.kvstore.value subdomain key = value
  memcached : MemcacheProxy.get s.stores.memcached (longTermKey subdomain key) = [] ∨
    MemcacheProxy.get s.stores.memcached (longTermKey subdomain key) = value
  carried : ∀ g get found, s.gets g = some get → get.key = key → finishedAt < get.startedAt →
    get.progress.value? = some found → found = value

/-- A Set of the key that is alone has settled what it has written so far. -/
structure FillInvariant (subdomain key : Str) (s : State collation) : Prop where
  getStarted : ∀ g get, s.gets g = some get → get.startedAt < s.time
  setStarted : ∀ i set, s.sets i = some set → set.startedAt < s.time
  named : ∀ i set, s.sets i = some set → collation set.key = collation key → set.key = key
  inserted : ∀ i set, s.sets i = some set → set.key = key → Alone s.sets i set →
    set.progress = .inserted → s.stores.kvstore.value subdomain key = set.value
  finished : ∀ i set finishedAt, s.sets i = some set → set.key = key → Alone s.sets i set →
    set.progress = .finished finishedAt → Settled subdomain key s set.value finishedAt

namespace FillInvariant

theorem initial (stores : Stores collation) :
    FillInvariant subdomain key (State.initial stores) := by
  constructor <;> simp [State.initial]

/-- Calls have started before the time that a step takes. -/
theorem getStarted_tick (hinv : FillInvariant subdomain key s) :
    ∀ g get, s.gets g = some get → get.startedAt < s.time + 1 :=
  fun g get hget => Nat.lt_succ_of_lt (hinv.getStarted g get hget)

theorem setStarted_tick (hinv : FillInvariant subdomain key s) :
    ∀ i set, s.sets i = some set → set.startedAt < s.time + 1 :=
  fun i set hset => Nat.lt_succ_of_lt (hinv.setStarted i set hset)

theorem getStarted_setGet (hinv : FillInvariant subdomain key s) {g : ℕ} {get : GetCall}
    (hget : get.startedAt ≤ s.time) :
    ∀ d found, (s.setGet g get).gets d = some found → found.startedAt < s.time + 1 := by
  intro d found hfound
  rcases s.setGet_eq_some hfound with ⟨rfl, rfl⟩ | ⟨_, hbefore⟩
  · exact Nat.lt_succ_of_le hget
  · exact hinv.getStarted_tick d found hbefore

theorem setStarted_setSet (hinv : FillInvariant subdomain key s) {i : ℕ} {set : SetCall}
    (hset : set.startedAt ≤ s.time) :
    ∀ j found, (s.setSet i set).sets j = some found → found.startedAt < s.time + 1 := by
  intro j found hfound
  rcases s.setSet_eq_some hfound with ⟨rfl, rfl⟩ | ⟨_, hbefore⟩
  · exact Nat.lt_succ_of_le hset
  · exact hinv.setStarted_tick j found hbefore

/-- A Get that begins has no value yet. -/
theorem getBegin (hinv : FillInvariant subdomain key s) {g : ℕ} {get : GetCall}
    (hstart : get.startedAt = s.time) (hvalue : get.progress.value? = none) :
    FillInvariant subdomain key (s.setGet g get).tick := by
  refine ⟨hinv.getStarted_setGet (Nat.le_of_eq hstart), hinv.setStarted_tick, hinv.named,
    hinv.inserted, fun i set finishedAt hset hkey halone hfinished => ?_⟩
  have hsettled := hinv.finished i set finishedAt hset hkey halone hfinished
  refine ⟨hsettled.kvstore, hsettled.memcached, fun d found value hfound => ?_⟩
  rcases s.setGet_eq_some hfound with ⟨rfl, rfl⟩ | ⟨_, hbefore⟩
  · simp [hvalue]
  · exact hsettled.carried d found value hbefore

/-- A Get that moves takes its value from settled stores and copies it back to them. -/
theorem get (hinv : FillInvariant subdomain key s) {g : ℕ} {label : GetLabel} {get : GetCall}
    {stores : Stores collation} {progress : GetProgress}
    (hok : FreshFill subdomain key s (.get g label)) (hget : s.gets g = some get)
    (hstep : getStep subdomain s.stores get label = some (stores, progress)) :
    FillInvariant subdomain key ({ s with stores }.setGet g { get with progress }).tick := by
  obtain ⟨hvalues, hmemcached, hsource⟩ := getStep_eq_some hstep
  refine ⟨hinv.getStarted_setGet (Nat.le_of_lt (hinv.getStarted g get hget)),
    hinv.setStarted_tick, hinv.named, fun i set hset hkey halone hinserted => ?_,
    fun i set finishedAt hset hkey halone hfinished => ?_⟩
  · exact (hvalues subdomain key).trans (hinv.inserted i set hset hkey halone hinserted)
  · have hsettled := hinv.finished i set finishedAt hset hkey halone hfinished
    refine ⟨(hvalues subdomain key).trans hsettled.kvstore, ?_,
      fun d found value hfound hname hlater hvalue => ?_⟩
    · change MemcacheProxy.get stores.memcached _ = [] ∨ MemcacheProxy.get stores.memcached _ = _
      rcases hmemcached with hsame | ⟨selected, value, hreading, rfl, hset'⟩
      · rw [hsame]
        exact hsettled.memcached
      · rw [hset', MemcacheProxy.get_set]
        by_cases hname : get.key = key
        · rw [if_pos (by rw [hname])]
          rcases hok get selected value hget hname hreading with
            hnone | hcurrent | ⟨j, other, hother, hkey', hrunning⟩
          · exact Or.inl hnone
          · exact Or.inr (hcurrent.trans hsettled.kvstore)
          · -- no Set of the key is running: this one has finished, the others before it
            by_cases hj : j = i
            · subst hj
              rw [show s.sets j = some set from hset, Option.some.injEq] at hother
              exact absurd (hother ▸ hfinished) (hrunning finishedAt)
            · obtain ⟨time, hdone, _⟩ := halone j other hj hother (hkey'.trans hkey.symm)
              exact absurd hdone (hrunning time)
        · rw [if_neg fun hsame => hname (longTermKey_inj.1 hsame)]
          exact hsettled.memcached
    · rcases State.setGet_eq_some _ hfound with ⟨rfl, rfl⟩ | ⟨_, hbefore⟩
      · rcases hsource value hvalue with hold | hmysql | ⟨hhit, hcached⟩
        · exact hsettled.carried _ get value hget hname hlater hold
        · rw [hmysql, hname, hsettled.kvstore]
        · simp only at hname
          rw [hname] at hcached
          rcases hsettled.memcached with hnone | hsome
          · exact absurd (hcached.trans hnone) hhit
          · exact hcached.trans hsome
      · exact hsettled.carried d found value hbefore hname hlater hvalue

/-- A Set of another key changes nothing of this one. -/
theorem setStep_frame {stores after : Stores collation} {set : SetCall} {time : ℕ}
    {label : SetLabel} {progress : SetProgress}
    (h : setStep subdomain stores set time label = some (after, progress))
    (hne : collation set.key ≠ collation key) :
    after.kvstore.value subdomain key = stores.kvstore.value subdomain key ∧
      MemcacheProxy.get after.memcached (longTermKey subdomain key) =
        MemcacheProxy.get stores.memcached (longTermKey subdomain key) := by
  have hprimary : primaryKey collation subdomain key ≠
      primaryKey collation subdomain set.key := by
    intro hsame
    exact hne (Prod.ext_iff.1 hsame).2.symm
  have hcached : longTermKey subdomain set.key ≠ longTermKey subdomain key := by
    intro hsame
    exact hne (congrArg collation (longTermKey_inj.1 hsame))
  rcases setStep_eq_some h with ⟨_, _, rfl⟩ | ⟨_, _, _, kvstore, hinsert, rfl⟩ | ⟨_, _, rfl⟩
  · exact ⟨by rw [KvStore.value_deleteKey, if_neg hprimary], rfl⟩
  · exact ⟨by rw [KvStore.value_insertRow _ _ _ hinsert, if_neg hprimary], rfl⟩
  · exact ⟨rfl, by rw [MemcacheProxy.get_set, if_neg hcached]⟩

/-- A Set that begins is not alone with any other Set of its key. -/
theorem setBegin (hinv : FillInvariant subdomain key s) {i : ℕ} {set : SetCall}
    (hfree : s.sets i = none) (hstart : set.startedAt = s.time)
    (hprogress : set.progress = .started)
    (hnamed : collation set.key = collation key → set.key = key) :
    FillInvariant subdomain key (s.setSet i set).tick := by
  have hbefore : ∀ {j other}, Alone (Function.update s.sets i (some set)) j other →
      Alone s.sets j other := by
    intro j other halone
    exact halone.of_update fun old hold => absurd (hfree.symm.trans hold) (by simp)
  refine ⟨hinv.getStarted_tick, hinv.setStarted_setSet (Nat.le_of_eq hstart),
    fun j other hother => ?_, fun j other hother hkey halone hinserted => ?_,
    fun j other finishedAt hother hkey halone hfinished => ?_⟩
  · rcases s.setSet_eq_some hother with ⟨rfl, rfl⟩ | ⟨_, hold⟩
    · exact hnamed
    · exact hinv.named j other hold
  · rcases s.setSet_eq_some hother with ⟨rfl, rfl⟩ | ⟨_, hold⟩
    · simp [hprogress] at hinserted
    · exact hinv.inserted j other hold hkey (hbefore halone) hinserted
  · rcases s.setSet_eq_some hother with ⟨rfl, rfl⟩ | ⟨_, hold⟩
    · simp [hprogress] at hfinished
    · have hsettled := hinv.finished j other finishedAt hold hkey (hbefore halone) hfinished
      exact ⟨hsettled.kvstore, hsettled.memcached, hsettled.carried⟩

/-- A Set that is alone after a step of another one is for another key, and nothing of its own
key changes. -/
theorem unchanged_of_alone (hinv : FillInvariant subdomain key s) {i : ℕ} {label : SetLabel}
    {set : SetCall} {stores : Stores collation} {progress : SetProgress}
    (hset : s.sets i = some set)
    (hstep : setStep subdomain s.stores set s.time label = some (stores, progress))
    {j : ℕ} {other : SetCall} (hne : j ≠ i) (hfound : s.sets j = some other)
    (hkey : other.key = key)
    (halone : Alone (Function.update s.sets i (some { set with progress })) j other) :
    Alone s.sets j other ∧
      stores.kvstore.value subdomain key = s.stores.kvstore.value subdomain key ∧
      MemcacheProxy.get stores.memcached (longTermKey subdomain key) =
        MemcacheProxy.get s.stores.memcached (longTermKey subdomain key) := by
  -- a Set that finishes now was still running when the other one began
  have hlate : ∀ time, progress = .finished time → other.startedAt ≤ time := by
    intro time hfinished
    have hbefore := hinv.setStarted j other hfound
    rcases setStep_eq_some hstep with ⟨_, h, _⟩ | ⟨_, h, _⟩ | ⟨_, h, _⟩ <;>
      rw [hfinished] at h <;> cases h
    omega
  have hmoved : Function.update s.sets i (some { set with progress }) i =
      some { set with progress } := Function.update_self ..
  have hmovedKey := halone.key_ne hmoved (Ne.symm hne) hlate
  have hdiffers : set.key ≠ other.key := hmovedKey
  refine ⟨halone.of_update fun old hold => ?_, setStep_frame hstep fun hcollation => ?_⟩
  · rw [hset, Option.some.injEq] at hold
    exact hold ▸ hdiffers
  · exact hdiffers ((hinv.named i set hset hcollation).trans hkey.symm)

/-- A Set of the key settles it; while it runs no other Set of the key is alone. -/
theorem set (hinv : FillInvariant subdomain key s) {i : ℕ} {label : SetLabel} {set : SetCall}
    {stores : Stores collation} {progress : SetProgress} (hset : s.sets i = some set)
    (hstep : setStep subdomain s.stores set s.time label = some (stores, progress)) :
    FillInvariant subdomain key ({ s with stores }.setSet i { set with progress }).tick := by
  refine ⟨hinv.getStarted_tick,
    hinv.setStarted_setSet (Nat.le_of_lt (hinv.setStarted i set hset)),
    fun j found hfound => ?_, fun j found hfound hkey halone hinserted => ?_,
    fun j found finishedAt hfound hkey halone hfinished => ?_⟩
  · rcases State.setSet_eq_some _ hfound with ⟨rfl, rfl⟩ | ⟨_, hold⟩
    · exact hinv.named _ set hset
    · exact hinv.named j found hold
  · rcases State.setSet_eq_some _ hfound with ⟨rfl, rfl⟩ | ⟨hne, hold⟩
    · -- the Set has just inserted its row
      rcases setStep_eq_some hstep with ⟨_, h, _⟩ | ⟨_, _, _, kvstore, hinsert, rfl⟩ | ⟨_, h, _⟩
      · cases hinserted.symm.trans h
      · have hvalue := KvStore.value_insertRow s.stores.kvstore subdomain key hinsert
        simp only at hkey
        rw [hkey, if_pos rfl] at hvalue
        exact hvalue
      · cases hinserted.symm.trans h
    · obtain ⟨hbefore, hvalue, _⟩ :=
        hinv.unchanged_of_alone hset hstep hne hold hkey halone
      exact hvalue.trans (hinv.inserted j found hold hkey hbefore hinserted)
  · rcases State.setSet_eq_some _ hfound with ⟨rfl, rfl⟩ | ⟨hne, hold⟩
    · -- the Set has just written memcached
      rcases setStep_eq_some hstep with ⟨_, h, _⟩ | ⟨_, h, _⟩ | ⟨hinserted, h, rfl⟩
      · cases hfinished.symm.trans h
      · cases hfinished.symm.trans h
      · obtain rfl : finishedAt = s.time := by
          cases hfinished.symm.trans h
          rfl
        refine ⟨hinv.inserted _ set hset hkey halone.of_update_self hinserted, Or.inr ?_,
          fun g get value hget _ hlater => ?_⟩
        · simp only at hkey
          rw [← hkey]
          exact (MemcacheProxy.get_set ..).trans (if_pos rfl)
        · have := hinv.getStarted g get hget
          omega
    · obtain ⟨hbefore, hvalue, hcached⟩ :=
        hinv.unchanged_of_alone hset hstep hne hold hkey halone
      have hsettled := hinv.finished j found finishedAt hold hkey hbefore hfinished
      refine ⟨hvalue.trans hsettled.kvstore, ?_, hsettled.carried⟩
      change MemcacheProxy.get stores.memcached _ = [] ∨ MemcacheProxy.get stores.memcached _ = _
      rw [hcached]
      exact hsettled.memcached

theorem step (hinv : FillInvariant subdomain key s) (hok : FreshFill subdomain key s label)
    (h : step subdomain s label = some next) : FillInvariant subdomain key next := by
  obtain ⟨moved, hmoves, rfl⟩ := moves_of_step h
  cases hmoves with
  | getBegin hfree =>
      refine hinv.getBegin rfl ?_
      simp only
      split <;> rfl
  | get hget hstep => exact hinv.get hok hget hstep
  | setBegin hfree => exact hinv.setBegin hfree rfl rfl hok
  | set hset hstep => exact hinv.set hset hstep

end FillInvariant

/-- In every interleaving without a stale copy to memcached, Gets that start after a Set that
is alone has finished return its value. -/
theorem longTermCacheGet_noStaleAnswer (subdomain key : Str) (stores : Stores collation)
    {labels : List Label} {s : State collation}
    (hrun : run (step subdomain) (State.initial stores) labels = some s)
    (hok : Meets (step subdomain) (FreshFill subdomain key) (State.initial stores) labels) :
    NoStaleAnswer key s := by
  have hinv : FillInvariant subdomain key s :=
    invariant_of_meets (fun _ _ _ hinv hok hstep => hinv.step hok hstep)
      (FillInvariant.initial stores) hok hrun
  intro i set finishedAt hset hkey halone hfinished g get value hget hname hlater hreturned
  have hsettled := hinv.finished i set finishedAt hset hkey halone hfinished
  exact hsettled.carried g get value hget hname hlater (by rw [hreturned]; rfl)

/-- The steps of a Set. -/
def setRequest (i : ℕ) (key value : Str) : List Label :=
  [.setBegin i key value 30 0, .set i .delete, .set i (.insert 0), .set i .memcachedSet]

/-- A Set, and a Get that reads memcached. -/
def setThenGet : List Label :=
  setRequest 0 "a" "1" ++ [.getBegin 0 "a" 0 1, .get 0 .memcachedGet]

theorem longTermCacheGet_noStaleAnswer_setThenGet :
    ∃ s, run (step "shop") (State.initial (Stores.initial .caseInsensitive)) setThenGet =
      some s ∧ NoStaleAnswer "a" s := by
  have hok : Meets (step "shop") (FreshFill "shop" "a")
      (State.initial (Stores.initial .caseInsensitive)) setThenGet := by
    refine meets_of_forall_mem fun label hlabel state => ?_
    simp only [setThenGet, setRequest, List.cons_append, List.nil_append, List.mem_cons,
      List.not_mem_nil, or_false] at hlabel
    rcases hlabel with rfl | rfl | rfl | rfl | rfl | rfl <;> first | trivial | exact fun _ => rfl
  exact ⟨_, rfl, longTermCacheGet_noStaleAnswer "shop" "a" _ rfl hok⟩

/-- A Get reads the value of the first Set and copies it to memcached after the second. -/
def getDuringSet : List Label :=
  setRequest 0 "a" "1" ++ [.getBegin 0 "a" 0 0, .get 0 (.select 0), .get 0 (.visitRow 0)] ++
    setRequest 1 "a" "2" ++
    [.get 0 .memcachedSet, .getBegin 1 "a" 0 1, .get 1 .memcachedGet]

/-- The Get after both answers with the value of the first Set. -/
theorem longTermCacheGet_stale :
    ∃ s, run (step "shop") (State.initial (Stores.initial .caseInsensitive)) getDuringSet =
      some s ∧ ¬ NoStaleAnswer "a" s := by
  refine ⟨_, rfl, fun h => ?_⟩
  have hstale := h 1 ⟨"a", "2", 30, 0, 7, .finished 10⟩ 10 rfl rfl ?_ rfl 1
    ⟨"a", 0, 1, 12, .returned "1"⟩ "1" rfl rfl (by decide) rfl
  · exact absurd hstale (by decide)
  · intro j other hj hother _
    by_cases hzero : j = 0
    · subst hzero
      obtain rfl := Option.some.inj hother
      exact ⟨3, rfl, by decide⟩
    · -- the only other Set is the first one
      simp [State.tick, State.setSet, State.setGet, State.initial, hj, hzero] at hother

end VaeDb.Cache
