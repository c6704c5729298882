import VaeDb.Server.Site
import VaeDb.Library.Transition

/-!
# Interleaved `getSite` and `reloadSite` calls

Any number of `getSite` calls, `reloadSite` calls and changes of the stored feeds, one
step at a time.  A section under `sitesMutex` is one step.  The per-site mutex is held
across several steps, from `lockSite` until the call returns or throws, so it is part of
the state: `siteMutexes` hands it out by key, creating it the first time, and `owner`
says which call holds it.

The steps of one `getSite` call, in the order of the source:

```text
call            the call begins
getSiteMutex    _get_site_mutex: look up or create the mutex
lockSite        take it
getSite         _getSite: return the Site found, or throw, or go on
readFeed        read_s3(subdomain + "-feed.xml")
construct       new Site(subdomain, stagingMode, xml), which may throw
store           sites[sitesKey] = site
validate        validateSecretKey, then return
```

`read_s3` returns.  It can throw as well, from `remove` and `exists`; such a call gives the
mutex back and ends like one whose constructor throws.

`time` counts the steps, and calls and reloads note when they started and returned;
`built` lists the Sites that were constructed, with the key they were constructed for.
These three are history, no step depends on them.
-/

namespace VaeDb.Server

/-- How far a `getSite` call has got, with the per-site mutex it waits for or holds. -/
inductive Progress
  | entered
  | waiting (mutex : ℕ)
  | locked (mutex : ℕ)
  | missed (mutex : ℕ)
  | fetched (mutex : ℕ) (xml : Object)
  | constructed (mutex : ℕ) (site : Site)
  | stored (mutex : ℕ) (site : Site)
  | returned (site : Site)
  | threw (fault : Fault)

/-- A `getSite` call. -/
structure Call where
  request : Request
  startedAt : ℕ
  progress : Progress

/-- A `reloadSite` call: the feed versions stored when it began, and when it returned. -/
structure Reload where
  subdomain : Str
  began : Str → ℕ
  returnedAt : Option ℕ

/-- The server as far as Sites go, and the feeds in the bucket. -/
structure State where
  time : ℕ
  sites : SiteMap
  siteMutexes : Str → Option ℕ
  nextMutex : ℕ
  owner : ℕ → Option ℕ
  nextAddress : ℕ
  feeds : Str → Object
  calls : ℕ → Option Call
  reloads : ℕ → Option Reload
  built : List (Str × Site)

/-- The server after start-up: no Sites, no mutexes, no calls. -/
def State.initial (feeds : Str → Object) : State where
  time := 0
  sites := fun _ => none
  siteMutexes := fun _ => none
  nextMutex := 0
  owner := fun _ => none
  nextAddress := 0
  feeds := feeds
  calls := fun _ => none
  reloads := fun _ => none
  built := []

/-- Who moves, and what its surroundings answer. -/
inductive Label
  | call (c : ℕ) (request : Request)
  | getSiteMutex (c : ℕ)
  | lockSite (c : ℕ)
  | getSite (c : ℕ)
  | readFeed (c : ℕ) (transfer : Transfer)
  | construct (c : ℕ) (secret : Transfer)
  | store (c : ℕ)
  | validate (c : ℕ)
  | changeFeed (subdomain content : Str)
  | reloadBegin (r : ℕ) (subdomain : Str)
  | reloadSite (r : ℕ)

namespace State

/-- Note the new progress of a call. -/
def setCall (s : State) (c : ℕ) (call : Call) : State :=
  { s with calls := Function.update s.calls c (some call) }

/-- Take a per-site mutex. -/
def lockSite (s : State) (mutex c : ℕ) : State :=
  { s with owner := Function.update s.owner mutex (some c) }

/-- Release a per-site mutex. -/
def unlockSite (s : State) (mutex : ℕ) : State :=
  { s with owner := Function.update s.owner mutex none }

/-- `_get_site_mutex` for a key without a mutex. -/
def newMutex (s : State) (key : Str) : State :=
  { s with
    siteMutexes := Function.update s.siteMutexes key (some s.nextMutex)
    nextMutex := s.nextMutex + 1 }

/-- A Site was constructed for a key. -/
def addSite (s : State) (key : Str) (site : Site) : State :=
  { s with nextAddress := s.nextAddress + 1, built := s.built ++ [(key, site)] }

/-- The assignment of `_loadSite`. -/
def storeSite (s : State) (key : Str) (site : Site) : State :=
  { s with sites := s.sites.store key site }

/-- One more step has been taken. -/
def tick (s : State) : State := { s with time := s.time + 1 }

end State

/-- One step, before the clock moves on. -/
def act (config : Config) (s : State) : Label → Option State
  | .call c request =>
      match s.calls c with
      | none => some (s.setCall c ⟨request, s.time, .entered⟩)
      | some _ => none
  | .getSiteMutex c =>
      match s.calls c with
      | some ⟨request, startedAt, .entered⟩ =>
          match s.siteMutexes request.key with
          | some mutex => some (s.setCall c ⟨request, startedAt, .waiting mutex⟩)
          | none =>
              some ((s.newMutex request.key).setCall c
                ⟨request, startedAt, .waiting s.nextMutex⟩)
      | _ => none
  | .lockSite c =>
      match s.calls c with
      | some ⟨request, startedAt, .waiting mutex⟩ =>
          match s.owner mutex with
          | none =>
              some ((s.lockSite mutex c).setCall c ⟨request, startedAt, .locked mutex⟩)
          | some _ => none
      | _ => none
  | .getSite c =>
      match s.calls c with
      | some ⟨request, startedAt, .locked mutex⟩ =>
          match s.sites.getSite config request.key request.secretKey with
          | .error fault =>
              some ((s.unlockSite mutex).setCall c ⟨request, startedAt, .threw fault⟩)
          | .ok (some site) =>
              some ((s.unlockSite mutex).setCall c ⟨request, startedAt, .returned site⟩)
          | .ok none => some (s.setCall c ⟨request, startedAt, .missed mutex⟩)
      | _ => none
  | .readFeed c transfer =>
      match s.calls c with
      | some ⟨request, startedAt, .missed mutex⟩ =>
          -- in test mode the constructor parses a local file instead
          let xml := if config.testMode then ⟨[], 0⟩ else transfer.getValue
          some (s.setCall c ⟨request, startedAt, .fetched mutex xml⟩)
      | _ => none
  | .construct c secret =>
      match s.calls c with
      | some ⟨request, startedAt, .fetched mutex xml⟩ =>
          match Site.new config s.nextAddress request.subdomain request.stagingMode secret
              xml with
          | .error fault =>
              some ((s.unlockSite mutex).setCall c ⟨request, startedAt, .threw fault⟩)
          | .ok site =>
              some ((s.addSite request.key site).setCall c
                ⟨request, startedAt, .constructed mutex site⟩)
      | _ => none
  | .store c =>
      match s.calls c with
      | some ⟨request, startedAt, .constructed mutex site⟩ =>
          some ((s.storeSite request.key site).setCall c
            ⟨request, startedAt, .stored mutex site⟩)
      | _ => none
  | .validate c =>
      match s.calls c with
      | some ⟨request, startedAt, .stored mutex site⟩ =>
          match site.validateSecretKey config request.secretKey with
          | .error fault =>
              some ((s.unlockSite mutex).setCall c ⟨request, startedAt, .threw fault⟩)
          | .ok () =>
              some ((s.unlockSite mutex).setCall c ⟨request, startedAt, .returned site⟩)
      | _ => none
  | .changeFeed subdomain content =>
      some { s with
        feeds := Function.update s.feeds subdomain
          ⟨content, (s.feeds subdomain).version + 1⟩ }
  | .reloadBegin r subdomain =>
      match s.reloads r with
      | none =>
          some { s with
            reloads := Function.update s.reloads r
              (some ⟨subdomain, fun d => (s.feeds d).version, none⟩) }
      | some _ => none
  | .reloadSite r =>
      match s.reloads r with
      | some ⟨subdomain, began, none⟩ =>
          some { s with
            sites := s.sites.reloadSite subdomain
            reloads := Function.update s.reloads r (some ⟨subdomain, began, some s.time⟩) }
      | _ => none

/-- One step of the server. -/
def step (config : Config) (s : State) (label : Label) : Option State :=
  (act config s label).map State.tick

/-! ## What a step can do

`Advance` lists, one by one, how a call can get on: the label, the progress before and
after, what has to hold, and what happens to the rest of the state.  `Moves` adds the
steps that start a call or belong to no call.  Every invariant of the protocol is proved
by cases on the two. -/

/-- How call `c` gets on: label, old progress, the state with everything but the call
itself updated, new progress. -/
inductive Advance (config : Config) (s : State) (c : ℕ) (request : Request) :
    Label → Progress → State → Progress → Prop
  | oldMutex {mutex : ℕ} (hmutex : s.siteMutexes request.key = some mutex) :
      Advance config s c request (.getSiteMutex c) .entered s (.waiting mutex)
  | newMutex (hmutex : s.siteMutexes request.key = none) :
      Advance config s c request (.getSiteMutex c) .entered (s.newMutex request.key)
        (.waiting s.nextMutex)
  | lockSite {mutex : ℕ} (howner : s.owner mutex = none) :
      Advance config s c request (.lockSite c) (.waiting mutex) (s.lockSite mutex c)
        (.locked mutex)
  | refused {mutex : ℕ} {fault : Fault}
      (hget : s.sites.getSite config request.key request.secretKey = .error fault) :
      Advance config s c request (.getSite c) (.locked mutex) (s.unlockSite mutex)
        (.threw fault)
  | hit {mutex : ℕ} {site : Site}
      (hget : s.sites.getSite config request.key request.secretKey = .ok (some site)) :
      Advance config s c request (.getSite c) (.locked mutex) (s.unlockSite mutex)
        (.returned site)
  | miss {mutex : ℕ}
      (hget : s.sites.getSite config request.key request.secretKey = .ok none) :
      Advance config s c request (.getSite c) (.locked mutex) s (.missed mutex)
  | readFeed {mutex : ℕ} {transfer : Transfer} :
      Advance config s c request (.readFeed c transfer) (.missed mutex) s
        (.fetched mutex (if config.testMode then ⟨[], 0⟩ else transfer.getValue))
  | loadFailed {mutex : ℕ} {xml : Object} {secret : Transfer} {fault : Fault}
      (hnew : Site.new config s.nextAddress request.subdomain request.stagingMode secret xml =
        .error fault) :
      Advance config s c request (.construct c secret) (.fetched mutex xml)
        (s.unlockSite mutex) (.threw fault)
  | construct {mutex : ℕ} {xml : Object} {secret : Transfer} {site : Site}
      (hnew : Site.new config s.nextAddress request.subdomain request.stagingMode secret xml =
        .ok site) :
      Advance config s c request (.construct c secret) (.fetched mutex xml)
        (s.addSite request.key site) (.constructed mutex site)
  | store {mutex : ℕ} {site : Site} :
      Advance config s c request (.store c) (.constructed mutex site)
        (s.storeSite request.key site) (.stored mutex site)
  | invalid {mutex : ℕ} {site : Site} {fault : Fault}
      (hkey : site.validateSecretKey config request.secretKey = .error fault) :
      Advance config s c request (.validate c) (.stored mutex site) (s.unlockSite mutex)
        (.threw fault)
  | valid {mutex : ℕ} {site : Site}
      (hkey : site.validateSecretKey config request.secretKey = .ok ()) :
      Advance config s c request (.validate c) (.stored mutex site) (s.unlockSite mutex)
        (.returned site)

/-- What a step with a label can lead to. -/
inductive Moves (config : Config) (s : State) : Label → State → Prop
  | call {c : ℕ} {request : Request} (hcall : s.calls c = none) :
      Moves config s (.call c request) (s.setCall c ⟨request, s.time, .entered⟩)
  | advance {c startedAt : ℕ} {request : Request} {label : Label} {old new : Progress}
      {rest : State} (hcall : s.calls c = some ⟨request, startedAt, old⟩)
      (hadvance : Advance config s c request label old rest new) :
      Moves config s label (rest.setCall c ⟨request, startedAt, new⟩)
  | changeFeed {subdomain content : Str} :
      Moves config s (.changeFeed subdomain content) { s with
        feeds := Function.update s.feeds subdomain
          ⟨content, (s.feeds subdomain).version + 1⟩ }
  | reloadBegin {r : ℕ} {subdomain : Str} (hreload : s.reloads r = none) :
      Moves config s (.reloadBegin r subdomain) { s with
        reloads := Function.update s.reloads r
          (some ⟨subdomain, fun d => (s.feeds d).version, none⟩) }
  | reloadSite {r : ℕ} {subdomain : Str} {began : Str → ℕ}
      (hreload : s.reloads r = some ⟨subdomain, began, none⟩) :
      Moves config s (.reloadSite r) { s with
        sites := s.sites.reloadSite subdomain
        reloads := Function.update s.reloads r (some ⟨subdomain, began, some s.time⟩) }

/-- `act` does nothing that `Moves` does not list. -/
theorem moves_of_act {config : Config} {s next : State} {label : Label}
    (h : act config s label = some next) : Moves config s label next := by
  cases label with
  | call c request =>
      simp only [act] at h
      split at h
      · next hcall => exact Option.some.inj h ▸ .call hcall
      · contradiction
  | getSiteMutex c =>
      simp only [act] at h
      split at h
      · next hcall =>
        split at h
        · next hmutex => exact Option.some.inj h ▸ .advance hcall (.oldMutex hmutex)
        · next hmutex => exact Option.some.inj h ▸ .advance hcall (.newMutex hmutex)
      · contradiction
  | lockSite c =>
      simp only [act] at h
      split at h
      · next hcall =>
        split at h
        · next howner => exact Option.some.inj h ▸ .advance hcall (.lockSite howner)
        · contradiction
      · contradiction
  | getSite c =>
      simp only [act] at h
      split at h
      · next hcall =>
        split at h
        · next hget => exact Option.some.inj h ▸ .advance hcall (.refused hget)
        · next hget => exact Option.some.inj h ▸ .advance hcall (.hit hget)
        · next hget => exact Option.some.inj h ▸ .advance hcall (.miss hget)
      · contradiction
  | readFeed c transfer =>
      simp only [act] at h
      split at h
      · next hcall => exact Option.some.inj h ▸ .advance hcall .readFeed
      · contradiction
  | construct c secret =>
      simp only [act] at h
      split at h
      · next hcall =>
        split at h
        · next hnew => exact Option.some.inj h ▸ .advance hcall (.loadFailed hnew)
        · next hnew => exact Option.some.inj h ▸ .advance hcall (.construct hnew)
      · contradiction
  | store c =>
      simp only [act] at h
      split at h
      · next hcall => exact Option.some.inj h ▸ .advance hcall .store
      · contradiction
  | validate c =>
      simp only [act] at h
      split at h
      · next hcall =>
        split at h
        · next hkey => exact Option.some.inj h ▸ .advance hcall (.invalid hkey)
        · next hkey => exact Option.some.inj h ▸ .advance hcall (.valid hkey)
      · contradiction
  | changeFeed subdomain content =>
      exact Option.some.inj h ▸ .changeFeed
  | reloadBegin r subdomain =>
      simp only [act] at h
      split at h
      · next hreload => exact Option.some.inj h ▸ .reloadBegin hreload
      · contradiction
  | reloadSite r =>
      simp only [act] at h
      split at h
      · next hreload => exact Option.some.inj h ▸ .reloadSite hreload
      · contradiction

/-- A step is one of the moves, and the clock moves on. -/
theorem moves_of_step {config : Config} {s next : State} {label : Label}
    (h : step config s label = some next) :
    ∃ moved, Moves config s label moved ∧ next = moved.tick := by
  obtain ⟨moved, hact, htick⟩ := Option.map_eq_some_iff.1 h
  exact ⟨moved, moves_of_act hact, htick.symm⟩

/-! ## Where calls and Sites come from -/

namespace State

variable (s : State)

theorem setCall_self (c : ℕ) (call : Call) : (s.setCall c call).calls c = some call := by
  simp [setCall]

theorem setCall_of_ne {c d : ℕ} (h : d ≠ c) (call : Call) :
    (s.setCall c call).calls d = s.calls d := by
  simp [setCall, h]

/-- Where a call comes from after one call has been noted. -/
theorem setCall_eq_some {c d : ℕ} {call found : Call}
    (h : (s.setCall c call).calls d = some found) :
    (d = c ∧ found = call) ∨ (d ≠ c ∧ s.calls d = some found) := by
  by_cases hd : d = c
  · subst hd
    rw [setCall_self] at h
    exact Or.inl ⟨rfl, (Option.some.inj h).symm⟩
  · rw [setCall_of_ne s hd] at h
    exact Or.inr ⟨hd, h⟩

end State

section

variable {config : Config} {s next rest : State} {label : Label} {c : ℕ} {request : Request}
  {old new : Progress}

/-- A call gets on without touching any other call. -/
theorem Advance.calls_eq (h : Advance config s c request label old rest new) :
    rest.calls = s.calls := by
  cases h <;> rfl

theorem Advance.time_eq (h : Advance config s c request label old rest new) :
    rest.time = s.time := by
  cases h <;> rfl

theorem Moves.time_eq (h : Moves config s label next) : next.time = s.time := by
  cases h with
  | advance _ hadvance => exact hadvance.time_eq
  | _ => rfl

/-- Calls keep their request and their start. -/
theorem Moves.call_kept (h : Moves config s label next) {d : ℕ} {call : Call}
    (hfound : s.calls d = some call) :
    ∃ progress, next.calls d = some { call with progress } := by
  cases h with
  | @call c request hcall =>
      have hne : d ≠ c := by rintro rfl; simp [hcall] at hfound
      exact ⟨_, by rw [s.setCall_of_ne hne]; exact hfound⟩
  | @advance c startedAt request _ _ new rest hcall hadvance =>
      by_cases hd : d = c
      · subst hd
        obtain rfl := Option.some.inj (hcall.symm.trans hfound)
        exact ⟨new, rest.setCall_self d _⟩
      · exact ⟨_, by rw [rest.setCall_of_ne hd, hadvance.calls_eq]; exact hfound⟩
  | changeFeed => exact ⟨_, hfound⟩
  | reloadBegin _ => exact ⟨_, hfound⟩
  | reloadSite _ => exact ⟨_, hfound⟩

/-- A call was there before the move, as it is or one step back, or begins with it. -/
theorem Moves.call_origin (h : Moves config s label next) {d : ℕ} {call : Call}
    (hfound : next.calls d = some call) :
    s.calls d = some call ∨
      (∃ old rest, s.calls d = some { call with progress := old } ∧
        Advance config s d call.request label old rest call.progress) ∨
      (label = .call d call.request ∧ call.startedAt = s.time ∧ call.progress = .entered) := by
  cases h with
  | call hcall =>
      rcases s.setCall_eq_some hfound with ⟨rfl, rfl⟩ | ⟨_, hbefore⟩
      · exact Or.inr (Or.inr ⟨rfl, rfl, rfl⟩)
      · exact Or.inl hbefore
  | @advance c startedAt request _ old new rest hcall hadvance =>
      rcases rest.setCall_eq_some hfound with ⟨rfl, rfl⟩ | ⟨_, hbefore⟩
      · exact Or.inr (Or.inl ⟨old, rest, hcall, hadvance⟩)
      · exact Or.inl (hadvance.calls_eq ▸ hbefore)
  | changeFeed => exact Or.inl hfound
  | reloadBegin _ => exact Or.inl hfound
  | reloadSite _ => exact Or.inl hfound

/-- A Site in the map was there before the move or is stored by it. -/
theorem Moves.site_origin (h : Moves config s label next) {key : Str} {site : Site}
    (hsite : next.sites key = some site) :
    s.sites key = some site ∨
      ∃ c call mutex, label = .store c ∧ s.calls c = some call ∧
        call.progress = .constructed mutex site ∧ call.request.key = key := by
  cases h with
  | call _ => exact Or.inl hsite
  | @advance c startedAt request _ _ _ rest hcall hadvance =>
      cases hadvance with
      | @store mutex stored =>
          change s.sites.store request.key stored key = some site at hsite
          by_cases hkey : key = request.key
          · subst hkey
            obtain rfl : stored = site := by simpa [SiteMap.store] using hsite
            exact Or.inr ⟨c, _, mutex, rfl, hcall, rfl, rfl⟩
          · exact Or.inl (by simpa [SiteMap.store, hkey] using hsite)
      | _ => exact Or.inl hsite
  | changeFeed => exact Or.inl hsite
  | reloadBegin _ => exact Or.inl hsite
  | @reloadSite r subdomain began hreload =>
      change s.sites.reloadSite subdomain key = some site at hsite
      rw [SiteMap.reloadSite_apply] at hsite
      split at hsite
      · cases hsite
      · exact Or.inl hsite

theorem SiteMap.getSite_eq_some {sites : SiteMap} {key secretKey : Str} {site : Site}
    (h : sites.getSite config key secretKey = .ok (some site)) : sites key = some site := by
  unfold SiteMap.getSite at h
  cases hsite : sites key with
  | none => simp [hsite, pure, Except.pure] at h
  | some found =>
      rw [hsite] at h
      obtain ⟨_, _, hfound⟩ := Outcome.bind_eq_ok.1 h
      rw [Outcome.pure_eq_ok.1 hfound]

theorem SiteMap.getSite_eq_none {sites : SiteMap} {key secretKey : Str}
    (h : sites.getSite config key secretKey = .ok none) : sites key = none := by
  unfold SiteMap.getSite at h
  cases hsite : sites key with
  | none => rfl
  | some found =>
      rw [hsite] at h
      obtain ⟨_, _, hfound⟩ := Outcome.bind_eq_ok.1 h
      exact absurd (Outcome.pure_eq_ok.1 hfound) (by simp)

/-- The Site that a call has constructed, stored or returned. -/
def Progress.site? : Progress → Option Site
  | .constructed _ site | .stored _ site | .returned site => some site
  | _ => none

/-- A call has its Site from one step back, from the map, or from the constructor. -/
theorem Advance.site_origin (h : Advance config s c request label old rest new) {site : Site}
    (hsite : new.site? = some site) :
    old.site? = some site ∨ s.sites request.key = some site ∨
      ∃ mutex xml secret, old = .fetched mutex xml ∧
        Site.new config s.nextAddress request.subdomain request.stagingMode secret xml =
          .ok site := by
  cases h with
  | hit hget =>
      obtain rfl := Option.some.inj hsite
      exact Or.inr (Or.inl (SiteMap.getSite_eq_some hget))
  | construct hnew =>
      obtain rfl := Option.some.inj hsite
      exact Or.inr (Or.inr ⟨_, _, _, rfl, hnew⟩)
  | store => exact Or.inl hsite
  | valid _ => exact Or.inl hsite
  | _ => simp [Progress.site?] at hsite

end

end VaeDb.Server
