import VaeDb.Server.Protocol

/-!
# One load per site

While no `reloadSite` touches a key, at most one Site is ever constructed for it, and all
`getSite` calls for that key that return return that Site.  Calls whose key is refused
and loads that throw do not change this: a refused key leaves the Site in the map, a
load that throws constructs none.

The argument has two layers.

* `MutexInvariant` ties the table of per-site mutexes to their owners.  From it,
  `MutexInvariant.exclusive`: two calls for one key never hold their mutex together.
* `LoadInvariant` says of one key that its Site, once constructed, is either in the
  map or in the hands of the one call that is about to store it.  A call that found
  nothing in the map still holds the mutex, so nothing can have been stored since.
-/

namespace VaeDb.Server

open Transition

variable {config : Config} {s next : State} {label : Label}

/-! ## Mutual exclusion -/

/-- The per-site mutex that a call waits for or holds. -/
def Progress.mutex? : Progress → Option ℕ
  | .waiting mutex | .locked mutex | .missed mutex | .fetched mutex _ | .constructed mutex _
  | .stored mutex _ => some mutex
  | .entered | .returned _ | .threw _ => none

/-- The per-site mutex that a call holds. -/
def Progress.held? : Progress → Option ℕ
  | .locked mutex | .missed mutex | .fetched mutex _ | .constructed mutex _
  | .stored mutex _ => some mutex
  | .entered | .waiting _ | .returned _ | .threw _ => none

theorem Progress.mutex?_of_held? {progress : Progress} {mutex : ℕ}
    (h : progress.held? = some mutex) : progress.mutex? = some mutex := by
  cases progress <;> simp_all [held?, mutex?]

/-- The table of mutexes and their owners. -/
structure MutexInvariant (s : State) : Prop where
  allocated : ∀ key mutex, s.siteMutexes key = some mutex → mutex < s.nextMutex
  injective : ∀ key other mutex, s.siteMutexes key = some mutex →
    s.siteMutexes other = some mutex → key = other
  filed : ∀ c call mutex, s.calls c = some call → call.progress.mutex? = some mutex →
    s.siteMutexes call.request.key = some mutex
  owned : ∀ c call mutex, s.calls c = some call → call.progress.held? = some mutex →
    s.owner mutex = some c

namespace MutexInvariant

theorem initial (feeds : Str → Object) : MutexInvariant (State.initial feeds) := by
  constructor <;> simp [State.initial]

/-- Two calls for one key that both hold their mutex are the same call. -/
theorem exclusive (hinv : MutexInvariant s) {c d mutex other : ℕ} {call found : Call}
    (hcall : s.calls c = some call) (hheld : call.progress.held? = some mutex)
    (hfound : s.calls d = some found) (hother : found.progress.held? = some other)
    (hkey : call.request.key = found.request.key) : c = d := by
  have hmutex := hinv.filed c call mutex hcall (Progress.mutex?_of_held? hheld)
  have hmutex' := hinv.filed d found other hfound (Progress.mutex?_of_held? hother)
  rw [hkey, hmutex'] at hmutex
  obtain rfl := Option.some.inj hmutex
  have howner := hinv.owned c call _ hcall hheld
  rw [hinv.owned d found _ hfound hother] at howner
  exact (Option.some.inj howner).symm

/-- A call moves on with a mutex that the table and the owners agree on. -/
theorem setCall (hinv : MutexInvariant s) {c : ℕ} {call : Call}
    (hfiled : ∀ mutex, call.progress.mutex? = some mutex →
      s.siteMutexes call.request.key = some mutex)
    (howned : ∀ mutex, call.progress.held? = some mutex → s.owner mutex = some c) :
    MutexInvariant (s.setCall c call) where
  allocated := hinv.allocated
  injective := hinv.injective
  filed := by
    intro d found mutex hfound hmutex
    rcases s.setCall_eq_some hfound with ⟨rfl, rfl⟩ | ⟨_, hold⟩
    · exact hfiled mutex hmutex
    · exact hinv.filed d found mutex hold hmutex
  owned := by
    intro d found mutex hfound hheld
    rcases s.setCall_eq_some hfound with ⟨rfl, rfl⟩ | ⟨_, hold⟩
    · exact howned mutex hheld
    · exact hinv.owned d found mutex hold hheld

/-- A call that keeps holding its mutex. -/
theorem keep (hinv : MutexInvariant s) {c startedAt mutex : ℕ} {request : Request}
    {old new : Progress} (hcall : s.calls c = some ⟨request, startedAt, old⟩)
    (hold : old.held? = some mutex) (hnew : new.held? = some mutex) :
    MutexInvariant (s.setCall c ⟨request, startedAt, new⟩) := by
  refine hinv.setCall (fun other hother => ?_) fun other hother => ?_
  · obtain rfl : mutex = other := by
      simpa [Progress.mutex?_of_held? hnew] using hother
    have hfiled := hinv.filed c _ mutex hcall (Progress.mutex?_of_held? hold)
    exact hfiled
  · obtain rfl : mutex = other := by simpa [hnew] using hother
    exact hinv.owned c _ mutex hcall hold

/-- A call that holds its mutex ends and releases it. -/
theorem release (hinv : MutexInvariant s) {c startedAt mutex : ℕ} {request : Request}
    {old new : Progress} (hcall : s.calls c = some ⟨request, startedAt, old⟩)
    (hold : old.held? = some mutex) (hnew : new.mutex? = none) :
    MutexInvariant ((s.unlockSite mutex).setCall c ⟨request, startedAt, new⟩) where
  allocated := hinv.allocated
  injective := hinv.injective
  filed := by
    intro d found other hfound hother
    rcases (s.unlockSite mutex).setCall_eq_some hfound with ⟨rfl, rfl⟩ | ⟨_, hfound⟩
    · simp [hnew] at hother
    · exact hinv.filed d found other hfound hother
  owned := by
    intro d found other hfound hheld
    rcases (s.unlockSite mutex).setCall_eq_some hfound with ⟨rfl, rfl⟩ | ⟨hne, hfound⟩
    · simp [Progress.mutex?_of_held? hheld] at hnew
    · have howner := hinv.owned d found other hfound hheld
      have hdistinct : other ≠ mutex := by
        rintro rfl
        rw [hinv.owned c _ other hcall hold] at howner
        exact hne (Option.some.inj howner).symm
      simp only [State.setCall, State.unlockSite, Function.update_of_ne hdistinct]
      exact howner

/-- A new mutex differs from all that are filed. -/
theorem newMutex (hinv : MutexInvariant s) {key : Str} (hmutex : s.siteMutexes key = none) :
    MutexInvariant (s.newMutex key) := by
  refine ⟨fun other mutex h => ?_, fun first second mutex h h' => ?_,
    fun d found mutex hfound h => ?_, hinv.owned⟩
  · simp only [State.newMutex, Function.update_apply] at h ⊢
    split at h
    · cases h
      omega
    · have := hinv.allocated other mutex h
      omega
  · simp only [State.newMutex, Function.update_apply] at h h'
    split at h <;> split at h'
    · next hfirst hsecond => rw [hfirst, hsecond]
    · cases h
      exact absurd (hinv.allocated second _ h') (Nat.lt_irrefl _)
    · cases h'
      exact absurd (hinv.allocated first _ h) (Nat.lt_irrefl _)
    · exact hinv.injective first second mutex h h'
  · have hfiled := hinv.filed d found mutex hfound h
    have hne : found.request.key ≠ key := by
      intro hkey
      simp [hkey, hmutex] at hfiled
    simpa [State.newMutex, hne] using hfiled

/-- A free mutex is taken by a call that waits for it. -/
theorem lockSite (hinv : MutexInvariant s) {c startedAt mutex : ℕ} {request : Request}
    (hcall : s.calls c = some ⟨request, startedAt, .waiting mutex⟩)
    (howner : s.owner mutex = none) :
    MutexInvariant ((s.lockSite mutex c).setCall c ⟨request, startedAt, .locked mutex⟩) := by
  have hlocked : MutexInvariant (s.lockSite mutex c) := by
    refine ⟨hinv.allocated, hinv.injective, hinv.filed, fun d found other hfound hheld => ?_⟩
    have hfree := hinv.owned d found other hfound hheld
    have hdistinct : other ≠ mutex := by
      rintro rfl
      simp [howner] at hfree
    simpa [State.lockSite, hdistinct] using hfree
  refine hlocked.setCall (fun other h => ?_) fun other h => ?_
  · obtain rfl : mutex = other := by simpa [Progress.mutex?] using h
    have hfiled := hinv.filed c _ mutex hcall rfl
    exact hfiled
  · obtain rfl : mutex = other := by simpa [Progress.held?] using h
    simp [State.lockSite]

theorem moves (hinv : MutexInvariant s) (h : Moves config s label next) :
    MutexInvariant next := by
  cases h with
  | call hcall => exact hinv.setCall (by simp [Progress.mutex?]) (by simp [Progress.held?])
  | @advance c startedAt request _ _ _ _ hcall hadvance =>
      cases hadvance with
      | oldMutex hmutex =>
          refine hinv.setCall (fun mutex h => ?_) (by simp [Progress.held?])
          simpa [Progress.mutex?, ← h] using hmutex
      | newMutex hmutex =>
          refine (hinv.newMutex hmutex).setCall (fun mutex h => ?_) (by simp [Progress.held?])
          simpa [Progress.mutex?, State.newMutex] using h
      | lockSite howner => exact hinv.lockSite hcall howner
      | refused _ => exact hinv.release hcall rfl rfl
      | hit _ => exact hinv.release hcall rfl rfl
      | miss _ => exact hinv.keep hcall rfl rfl
      | readFeed => exact hinv.keep hcall rfl rfl
      | loadFailed _ => exact hinv.release hcall rfl rfl
      | @construct mutex xml secret site _ =>
          have hadded : MutexInvariant (s.addSite request.key site) :=
            ⟨hinv.allocated, hinv.injective, hinv.filed, hinv.owned⟩
          exact hadded.keep hcall rfl rfl
      | @store mutex site =>
          have hstored : MutexInvariant (s.storeSite request.key site) :=
            ⟨hinv.allocated, hinv.injective, hinv.filed, hinv.owned⟩
          exact hstored.keep hcall rfl rfl
      | invalid _ => exact hinv.release hcall rfl rfl
      | valid _ => exact hinv.release hcall rfl rfl
  | changeFeed => exact ⟨hinv.allocated, hinv.injective, hinv.filed, hinv.owned⟩
  | reloadBegin _ => exact ⟨hinv.allocated, hinv.injective, hinv.filed, hinv.owned⟩
  | reloadSite _ => exact ⟨hinv.allocated, hinv.injective, hinv.filed, hinv.owned⟩

end MutexInvariant

/-! ## The Site of one key -/

/-- The Sites that were constructed for a key, oldest first. -/
def State.builtFor (s : State) (key : Str) : List Site :=
  (s.built.filter fun entry => entry.1 = key).map Prod.snd

theorem State.builtFor_setCall (s : State) (c : ℕ) (call : Call) (key : Str) :
    (s.setCall c call).builtFor key = s.builtFor key := rfl

/-- The call found no Site in the map and has not stored one yet. -/
def Progress.Loading : Progress → Prop
  | .missed _ | .fetched _ _ | .constructed _ _ => True
  | _ => False

theorem Progress.Loading.held {progress : Progress} (h : progress.Loading) :
    ∃ mutex, progress.held? = some mutex := by
  cases progress <;> simp_all [Loading, held?]

/-- Nothing has happened to the Site of a key since it was constructed. -/
structure LoadInvariant (key : Str) (s : State) : Prop where
  atMostOne : (s.builtFor key).length ≤ 1
  known : ∀ site, s.sites key = some site → site ∈ s.builtFor key
  kept : ∀ site ∈ s.builtFor key, s.sites key = some site ∨
    ∃ c call mutex, s.calls c = some call ∧ call.request.key = key ∧
      call.progress = .constructed mutex site
  carried : ∀ c call site, s.calls c = some call → call.request.key = key →
    call.progress.site? = some site → site ∈ s.builtFor key
  absent : ∀ c call, s.calls c = some call → call.request.key = key →
    call.progress.Loading → s.sites key = none

/-- The step is the erasure of a `reloadSite` call that drops the key. -/
def ReloadStep (key : Str) (s : State) (label : Label) : Prop :=
  ∃ r reload, label = .reloadSite r ∧ s.reloads r = some reload ∧ Reloads reload.subdomain key

namespace LoadInvariant

variable {key : Str}

theorem initial (feeds : Str → Object) : LoadInvariant key (State.initial feeds) := by
  constructor <;> simp [State.initial, State.builtFor]

/-- A call that holds no constructed Site moves on. -/
theorem setCall (hinv : LoadInvariant key s) {c : ℕ} {call : Call}
    (hold : ∀ found mutex site, s.calls c = some found →
      found.progress ≠ .constructed mutex site)
    (hsite : ∀ site, call.request.key = key → call.progress.site? = some site →
      site ∈ s.builtFor key)
    (hloading : call.request.key = key → call.progress.Loading → s.sites key = none) :
    LoadInvariant key (s.setCall c call) where
  atMostOne := hinv.atMostOne
  known := hinv.known
  kept := by
    intro site hbuilt
    refine (hinv.kept site hbuilt).imp id ?_
    rintro ⟨d, found, mutex, hfound, hkey, hprogress⟩
    have hne : d ≠ c := by rintro rfl; exact hold found mutex site hfound hprogress
    exact ⟨d, found, mutex, by rw [s.setCall_of_ne hne]; exact hfound, hkey, hprogress⟩
  carried := by
    intro d found site hfound hkey hprogress
    rcases s.setCall_eq_some hfound with ⟨rfl, rfl⟩ | ⟨_, hfound⟩
    · exact hsite site hkey hprogress
    · exact hinv.carried d found site hfound hkey hprogress
  absent := by
    intro d found hfound hkey hprogress
    rcases s.setCall_eq_some hfound with ⟨rfl, rfl⟩ | ⟨_, hfound⟩
    · exact hloading hkey hprogress
    · exact hinv.absent d found hfound hkey hprogress

/-- A call that holds its mutex and no Site that is only in its hands ends. -/
theorem release (hinv : LoadInvariant key s) {c startedAt mutex : ℕ} {request : Request}
    {old new : Progress} (hcall : s.calls c = some ⟨request, startedAt, old⟩)
    (hold : ∀ other site, old ≠ .constructed other site)
    (hsite : ∀ site, request.key = key → new.site? = some site → site ∈ s.builtFor key)
    (hdone : ¬ new.Loading) :
    LoadInvariant key ((s.unlockSite mutex).setCall c ⟨request, startedAt, new⟩) := by
  have hunlocked : LoadInvariant key (s.unlockSite mutex) :=
    ⟨hinv.atMostOne, hinv.known, hinv.kept, hinv.carried, hinv.absent⟩
  refine hunlocked.setCall (fun found other site hfound => ?_) hsite fun _ h => absurd h hdone
  rw [show s.calls c = some found from hfound, Option.some.injEq] at hcall
  rw [hcall]
  exact hold other site

/-- While a call loads the key without having constructed a Site, none was constructed. -/
theorem builtFor_eq_nil (hinv : LoadInvariant key s) (hmutex : MutexInvariant s)
    {c startedAt mutex : ℕ} {request : Request} {xml : Object}
    (hcall : s.calls c = some ⟨request, startedAt, .fetched mutex xml⟩)
    (hkey : request.key = key) : s.builtFor key = [] := by
  refine List.eq_nil_iff_forall_not_mem.2 fun site hbuilt => ?_
  rcases hinv.kept site hbuilt with hsite | ⟨d, found, other, hfound, hkey', hprogress⟩
  · rw [hinv.absent c _ hcall hkey trivial] at hsite
    cases hsite
  · -- the call that holds the Site would share the mutex with this one
    have hsame : c = d := hmutex.exclusive hcall rfl hfound (by rw [hprogress]; rfl)
      (hkey.trans hkey'.symm)
    subst hsame
    rw [hcall] at hfound
    obtain rfl := Option.some.inj hfound
    cases hprogress

theorem construct (hinv : LoadInvariant key s) (hmutex : MutexInvariant s)
    {c startedAt mutex : ℕ} {request : Request} {xml : Object} {site : Site}
    (hcall : s.calls c = some ⟨request, startedAt, .fetched mutex xml⟩) :
    LoadInvariant key ((s.addSite request.key site).setCall c
      ⟨request, startedAt, .constructed mutex site⟩) := by
  have hold : ∀ found other built, s.calls c = some found →
      found.progress ≠ .constructed other built := by
    intro found other built hfound
    rw [hcall] at hfound
    cases hfound
    simp
  by_cases hkey : request.key = key
  · -- the first Site for this key
    have hnil := hinv.builtFor_eq_nil hmutex hcall hkey
    have hone : (s.addSite request.key site).builtFor key = [site] := by
      simp only [State.builtFor, State.addSite, List.filter_append, List.map_append]
      rw [← State.builtFor, hnil, hkey]
      simp
    have hnone : s.sites key = none := hinv.absent c _ hcall hkey trivial
    refine ⟨by rw [State.builtFor_setCall, hone]; simp, ?_, ?_, ?_, ?_⟩
    · intro found hfound
      exact absurd (hnone.symm.trans hfound) (by simp)
    · intro found hbuilt
      rw [State.builtFor_setCall, hone, List.mem_singleton] at hbuilt
      subst hbuilt
      exact Or.inr ⟨c, _, mutex, State.setCall_self _ c _, hkey, rfl⟩
    · intro d found built hfound hkey' hprogress
      rw [State.builtFor_setCall]
      rcases (s.addSite request.key site).setCall_eq_some hfound with ⟨rfl, rfl⟩ | ⟨_, hfound⟩
      · obtain rfl : site = built := by simpa [Progress.site?] using hprogress
        simp [hone]
      · have := hinv.carried d found built hfound hkey' hprogress
        simp [hnil] at this
    · intro d found hfound _ _
      exact hnone
  · have hsame : (s.addSite request.key site).builtFor key = s.builtFor key := by
      simp [State.builtFor, State.addSite, List.filter_append, hkey]
    have hadded : LoadInvariant key (s.addSite request.key site) := by
      refine ⟨hsame ▸ hinv.atMostOne, fun found hfound => ?_, fun found hbuilt => ?_,
        fun d call built hfound hkey' hprogress => ?_, hinv.absent⟩
      · rw [hsame]; exact hinv.known found hfound
      · rw [hsame] at hbuilt; exact hinv.kept found hbuilt
      · rw [hsame]; exact hinv.carried d call built hfound hkey' hprogress
    exact hadded.setCall hold (fun _ h => absurd h hkey) fun h => absurd h hkey

theorem store (hinv : LoadInvariant key s) (hmutex : MutexInvariant s)
    {c startedAt mutex : ℕ} {request : Request} {site : Site}
    (hcall : s.calls c = some ⟨request, startedAt, .constructed mutex site⟩) :
    LoadInvariant key ((s.storeSite request.key site).setCall c
      ⟨request, startedAt, .stored mutex site⟩) := by
  by_cases hkey : request.key = key
  · subst hkey
    have hbuilt : site ∈ s.builtFor request.key := hinv.carried c _ site hcall rfl rfl
    have honly : ∀ found ∈ s.builtFor request.key, found = site := by
      intro found hfound
      have hlength := hinv.atMostOne
      cases hlist : s.builtFor request.key with
      | nil => rw [hlist] at hbuilt; cases hbuilt
      | cons first rest =>
          rw [hlist] at hlength hbuilt hfound
          obtain rfl : rest = [] := List.eq_nil_of_length_eq_zero (by simpa using hlength)
          rw [List.mem_singleton] at hbuilt hfound
          rw [hfound, hbuilt]
    refine ⟨hinv.atMostOne, fun found hfound => ?_, fun found hfound => ?_,
      fun d found built hfound hkey' hprogress => ?_, fun d found hfound hkey' hprogress => ?_⟩
    · obtain rfl : site = found := by
        simpa [State.storeSite, SiteMap.store, State.setCall] using hfound
      exact hbuilt
    · rw [honly found hfound]
      exact Or.inl (by simp [State.storeSite, SiteMap.store, State.setCall])
    · rcases State.setCall_eq_some _ hfound with ⟨rfl, rfl⟩ | ⟨_, hfound⟩
      · obtain rfl : site = built := by simpa [Progress.site?] using hprogress
        exact hbuilt
      · exact hinv.carried d found built hfound hkey' hprogress
    · -- no other call for this key can be loading while this one holds the mutex
      rcases State.setCall_eq_some _ hfound with ⟨rfl, rfl⟩ | ⟨hne, hfound⟩
      · exact absurd hprogress (by simp [Progress.Loading])
      · obtain ⟨other, hother⟩ := Progress.Loading.held hprogress
        exact absurd (hmutex.exclusive hcall rfl hfound hother hkey'.symm).symm hne
  · have hsites : (s.storeSite request.key site).sites key = s.sites key := by
      simp [State.storeSite, SiteMap.store, Ne.symm hkey]
    refine ⟨hinv.atMostOne, fun found hfound => ?_, fun found hfound => ?_,
      fun d found built hfound hkey' hprogress => ?_, fun d found hfound hkey' hprogress => ?_⟩
    · exact hinv.known found (hsites ▸ hfound)
    · refine (hinv.kept found hfound).imp (fun h => hsites.trans h) ?_
      rintro ⟨d, call, other, hcall', hkey', hprogress⟩
      have hne : d ≠ c := by
        rintro rfl
        rw [hcall] at hcall'
        cases hcall'
        exact hkey hkey'
      exact ⟨d, call, other, by rw [State.setCall_of_ne _ hne]; exact hcall', hkey', hprogress⟩
    · rcases State.setCall_eq_some _ hfound with ⟨rfl, rfl⟩ | ⟨_, hfound⟩
      · exact absurd hkey' hkey
      · exact hinv.carried d found built hfound hkey' hprogress
    · rcases State.setCall_eq_some _ hfound with ⟨rfl, rfl⟩ | ⟨_, hfound⟩
      · exact absurd hkey' hkey
      · exact hsites.trans (hinv.absent d found hfound hkey' hprogress)

/-- A call that has no Site yet goes on without finding out about the map. -/
theorem wait (hinv : LoadInvariant key s) {c startedAt : ℕ} {request : Request}
    {old new : Progress} (hcall : s.calls c = some ⟨request, startedAt, old⟩)
    (hold : ∀ mutex site, old ≠ .constructed mutex site) (hsite : new.site? = none)
    (hloading : ¬ new.Loading) :
    LoadInvariant key (s.setCall c ⟨request, startedAt, new⟩) := by
  refine hinv.setCall (fun found mutex site hfound => ?_) (by simp [hsite])
    fun _ h => absurd h hloading
  rw [hcall, Option.some.injEq] at hfound
  rw [← hfound]
  exact hold mutex site

theorem moves (hinv : LoadInvariant key s) (hmutex : MutexInvariant s)
    (hreload : ¬ ReloadStep key s label) (h : Moves config s label next) :
    LoadInvariant key next := by
  cases h with
  | call hcall =>
      exact hinv.setCall (fun _ _ _ hfound => by simp [hcall] at hfound) (by simp [Progress.site?])
        (by simp [Progress.Loading])
  | @advance c startedAt request _ _ _ _ hcall hadvance =>
      cases hadvance with
      | oldMutex _ => exact hinv.wait hcall (by simp) rfl id
      | newMutex _ =>
          have htable : LoadInvariant key (s.newMutex request.key) :=
            ⟨hinv.atMostOne, hinv.known, hinv.kept, hinv.carried, hinv.absent⟩
          exact htable.wait hcall (by simp) rfl id
      | @lockSite mutex _ =>
          have hlocked : LoadInvariant key (s.lockSite mutex c) :=
            ⟨hinv.atMostOne, hinv.known, hinv.kept, hinv.carried, hinv.absent⟩
          exact hlocked.wait hcall (by simp) rfl id
      | refused _ => exact hinv.release hcall (by simp) (by simp [Progress.site?]) id
      | hit hget =>
          refine hinv.release hcall (by simp) (fun site hkey hsite => ?_) id
          obtain rfl := Option.some.inj hsite
          exact hinv.known _ (hkey ▸ SiteMap.getSite_eq_some hget)
      | miss hget =>
          refine hinv.setCall (by rw [hcall]; rintro _ _ _ ⟨⟩; simp) (by simp [Progress.site?])
            fun hkey _ => ?_
          exact hkey ▸ SiteMap.getSite_eq_none hget
      | readFeed =>
          refine hinv.setCall (by rw [hcall]; rintro _ _ _ ⟨⟩; simp) (by simp [Progress.site?])
            fun hkey _ => ?_
          exact hinv.absent _ _ hcall hkey trivial
      | loadFailed _ => exact hinv.release hcall (by simp) (by simp [Progress.site?]) id
      | construct _ => exact hinv.construct hmutex hcall
      | store => exact hinv.store hmutex hcall
      | invalid _ => exact hinv.release hcall (by simp) (by simp [Progress.site?]) id
      | valid _ =>
          refine hinv.release hcall (by simp) (fun site hkey hsite => ?_) id
          exact hinv.carried _ _ site hcall hkey hsite
  | changeFeed => exact ⟨hinv.atMostOne, hinv.known, hinv.kept, hinv.carried, hinv.absent⟩
  | reloadBegin _ => exact ⟨hinv.atMostOne, hinv.known, hinv.kept, hinv.carried, hinv.absent⟩
  | @reloadSite r subdomain began hfound =>
      have hsites : s.sites.reloadSite subdomain key = s.sites key := by
        rw [SiteMap.reloadSite_apply, if_neg fun hdrop => hreload ⟨r, _, rfl, hfound, hdrop⟩]
      refine ⟨hinv.atMostOne, fun site h => hinv.known site (hsites ▸ h), fun site h => ?_,
        hinv.carried, fun c call hcall hkey hloading => ?_⟩
      · exact (hinv.kept site h).imp (fun h => hsites.trans h) id
      · exact hsites.trans (hinv.absent c call hcall hkey hloading)

end LoadInvariant

/-- In every interleaving of `getSite` calls in which no `reloadSite` drops `key`, at most
one Site is constructed for `key`, and every call for `key` that returns returns that one. -/
theorem getSite_single_load (config : Config) (feeds : Str → Object) (key : Str)
    {labels : List Label} {s : State}
    (hrun : run (step config) (State.initial feeds) labels = some s)
    (hreload : Meets (step config) (fun s label => ¬ ReloadStep key s label)
      (State.initial feeds) labels) :
    (s.builtFor key).length ≤ 1 ∧
      ∀ c call site, s.calls c = some call → call.request.key = key →
        call.progress = .returned site → s.builtFor key = [site] := by
  have hstep : ∀ s label next, MutexInvariant s ∧ LoadInvariant key s →
      ¬ ReloadStep key s label → step config s label = some next →
        MutexInvariant next ∧ LoadInvariant key next := by
    intro s label next hinv hok hstep
    obtain ⟨moved, hmoves, rfl⟩ := moves_of_step hstep
    have hmutex := hinv.1.moves hmoves
    have hload := hinv.2.moves hinv.1 hok hmoves
    exact ⟨⟨hmutex.allocated, hmutex.injective, hmutex.filed, hmutex.owned⟩,
      ⟨hload.atMostOne, hload.known, hload.kept, hload.carried, hload.absent⟩⟩
  have hinv := invariant_of_meets hstep
    ⟨MutexInvariant.initial feeds, LoadInvariant.initial feeds⟩ hreload hrun
  refine ⟨hinv.2.atMostOne, fun c call site hcall hkey hreturned => ?_⟩
  have hbuilt := hinv.2.carried c call site hcall hkey (by rw [hreturned]; rfl)
  have hlength := hinv.2.atMostOne
  cases hlist : s.builtFor key with
  | nil => rw [hlist] at hbuilt; cases hbuilt
  | cons first rest =>
      rw [hlist] at hbuilt hlength
      obtain rfl : rest = [] := List.eq_nil_of_length_eq_zero (by simpa using hlength)
      rw [List.mem_singleton] at hbuilt
      rw [hbuilt]

/-- Two calls for one site: the second waits for the mutex while the first one loads. -/
def twoCalls : List Label :=
  [.call 0 ⟨"shop", "key", false⟩, .call 1 ⟨"shop", "key", false⟩, .getSiteMutex 0,
    .lockSite 0, .getSiteMutex 1, .getSite 0, .readFeed 0 (delivered "<website/>" 1),
    .construct 0 (delivered "key" 1), .store 0, .validate 0, .lockSite 1, .getSite 1]

theorem getSite_single_load_twoCalls :
    ∃ s, run (step loadingConfig) (State.initial fun _ => ⟨"<website/>", 1⟩) twoCalls =
        some s ∧
      s.builtFor "shop" = [⟨0, "shop", false, some "key", 1, 1⟩] := by
  have hreload : Meets (step loadingConfig) (fun s label => ¬ ReloadStep "shop" s label)
      (State.initial fun _ => ⟨"<website/>", 1⟩) twoCalls := by
    refine meets_of_forall_mem fun label hlabel state => ?_
    rintro ⟨r, reload, rfl, _⟩
    simp [twoCalls] at hlabel
  exact ⟨_, rfl, (getSite_single_load loadingConfig (fun _ => ⟨"<website/>", 1⟩) "shop" rfl
    hreload).2 1 ⟨⟨"shop", "key", false⟩, 1, _⟩ _ rfl rfl rfl⟩

end VaeDb.Server
