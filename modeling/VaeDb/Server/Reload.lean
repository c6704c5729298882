import VaeDb.Server.RightSite

/-!
# What a completed `reloadSite` guarantees

`reloadSite` erases Sites under `sitesMutex` alone.  A `getSite` call that has read the
feed before the reload began may still be constructing its Site when the reload
returns; it then stores a Site built from the old feed, and the reload is lost.

That store is the only way to lose a reload.  In a run without one, and with reads that
return the stored feed, every call that starts after a reload has returned gets a Site
at least as new as the feed was when the reload began.
-/

namespace VaeDb.Server

open Transition

variable {config : Config} {s next : State} {label : Label} {name subdomain : Str}

/-- A call of `reloadSite(name)` has returned at a time, and when it began the stored feed
of the subdomain had a version. -/
def Reloaded (s : State) (name subdomain : Str) (returnedAt version : ℕ) : Prop :=
  ∃ r began, s.reloads r = some ⟨name, began, some returnedAt⟩ ∧ began subdomain = version

/-- No reload of the subdomain by `reloadSite(name)` is lost: a call that starts after it
has returned gets a Site that was built from the subdomain's feed in a version at least
as new. -/
def NotLost (name subdomain : Str) (s : State) : Prop :=
  ∀ returnedAt version c call site, Reloaded s name subdomain returnedAt version →
    s.calls c = some call → call.request.subdomain = subdomain →
    returnedAt < call.startedAt → call.progress = .returned site →
    site.subdomain = subdomain ∧ version ≤ site.feedVersion

/-! ## Conditions on the steps of a run -/

/-- Reads of feeds succeed and return the stored version. -/
def ReadsCurrent (s : State) : Label → Prop
  | .readFeed c transfer => ∀ call, s.calls c = some call →
      transfer.failed = false ∧ transfer.received = s.feeds call.request.subdomain
  | _ => True

/-- A call that stores a Site of the subdomain did not read its feed before a reload that
has returned by now. -/
def FreshStore (name subdomain : Str) (s : State) : Label → Prop
  | .store c => ∀ call mutex site returnedAt version, s.calls c = some call →
      call.progress = .constructed mutex site → call.request.subdomain = subdomain →
      Reloaded s name subdomain returnedAt version → version ≤ site.feedVersion
  | _ => True

/-! ## Feeds, reloads and the clock over one step -/

/-- Stored feeds only get newer. -/
theorem Moves.feeds_le (h : Moves config s label next) (subdomain : Str) :
    (s.feeds subdomain).version ≤ (next.feeds subdomain).version := by
  cases h with
  | @advance _ _ _ _ _ _ _ _ hadvance => cases hadvance <;> exact Nat.le_refl _
  | @changeFeed changed content =>
      by_cases hchanged : subdomain = changed
      · subst hchanged
        simp
      · simp [hchanged]
  | _ => exact Nat.le_refl _

/-- A call gets on without touching reloads. -/
theorem Advance.reloads_eq {c : ℕ} {request : Request} {old new : Progress} {rest : State}
    (h : Advance config s c request label old rest new) : rest.reloads = s.reloads := by
  cases h <;> rfl

/-- A reload is the one before the move, or it begins with it, or it returns with it. -/
theorem Moves.reload_origin (h : Moves config s label next) {r : ℕ} {reload : Reload}
    (hreload : next.reloads r = some reload) :
    s.reloads r = some reload ∨
      (reload.began = fun d => (s.feeds d).version) ∧ reload.returnedAt = none ∨
      label = .reloadSite r ∧ s.reloads r = some { reload with returnedAt := none } ∧
        reload.returnedAt = some s.time := by
  cases h with
  | call _ => exact Or.inl hreload
  | advance _ hadvance => exact Or.inl (hadvance.reloads_eq ▸ hreload)
  | changeFeed => exact Or.inl hreload
  | reloadBegin hnone =>
      simp only [Function.update_apply] at hreload
      split at hreload
      · exact Or.inr (Or.inl (Option.some.inj hreload ▸ ⟨rfl, rfl⟩))
      · exact Or.inl hreload
  | @reloadSite returning subdomain began hbegun =>
      simp only [Function.update_apply] at hreload
      split at hreload
      · next hr =>
        subst hr
        obtain rfl := Option.some.inj hreload
        exact Or.inr (Or.inr ⟨rfl, hbegun, rfl⟩)
      · exact Or.inl hreload

/-- A reload had returned before the move, or it returns with it. -/
theorem Moves.reloaded_origin (h : Moves config s label next) {returnedAt version : ℕ}
    (hreloaded : Reloaded next name subdomain returnedAt version) :
    Reloaded s name subdomain returnedAt version ∨
      ∃ r began, label = .reloadSite r ∧ s.reloads r = some ⟨name, began, none⟩ ∧
        returnedAt = s.time := by
  obtain ⟨r, began, hreload, hversion⟩ := hreloaded
  rcases h.reload_origin hreload with hold | ⟨_, hnone⟩ | ⟨hlabel, hold, htime⟩
  · exact Or.inl ⟨r, began, hold, hversion⟩
  · cases hnone
  · exact Or.inr ⟨r, began, hlabel, hold, Option.some.inj htime⟩

/-! ## The invariant -/

/-- The version of the feed that a call has in its hands, as a document or as a Site. -/
def Progress.version? : Progress → Option ℕ
  | .fetched _ xml => some xml.version
  | .constructed _ site | .stored _ site | .returned site => some site.feedVersion
  | _ => none

/-- What is in the map, and what calls that started after a reload have in their hands,
is as new as the reload asks for. -/
structure ReloadInvariant (name subdomain : Str) (s : State) : Prop where
  started : ∀ c call, s.calls c = some call → call.startedAt < s.time
  began : ∀ r reload, s.reloads r = some reload →
    reload.began subdomain ≤ (s.feeds subdomain).version
  filed : ∀ returnedAt version key site, Reloaded s name subdomain returnedAt version →
    s.sites key = some site → site.subdomain = subdomain → version ≤ site.feedVersion
  carried : ∀ returnedAt version c call inHand,
    Reloaded s name subdomain returnedAt version → s.calls c = some call →
    call.request.subdomain = subdomain → returnedAt < call.startedAt →
    call.progress.version? = some inHand → version ≤ inHand

namespace ReloadInvariant

theorem initial (feeds : Str → Object) :
    ReloadInvariant name subdomain (State.initial feeds) := by
  constructor <;> simp [State.initial, Reloaded]

/-- A reload that has returned began with a feed that is still there or was replaced by a
newer one. -/
theorem version_le (hinv : ReloadInvariant name subdomain s) {returnedAt version : ℕ}
    (hreloaded : Reloaded s name subdomain returnedAt version) :
    version ≤ (s.feeds subdomain).version := by
  obtain ⟨r, began, hreload, rfl⟩ := hreloaded
  exact hinv.began r _ hreload

/-- The erasure leaves no Site of the subdomain. -/
theorem reloadSite_subdomain (hsite : SiteInvariant s)
    (hcovers : name = subdomain ∨ name = ("all" : Str)) {key : Str} {site : Site}
    (hkept : s.sites.reloadSite name key = some site) : site.subdomain ≠ subdomain := by
  rintro rfl
  rw [SiteMap.reloadSite_apply] at hkept
  split at hkept
  · cases hkept
  · next hdrop =>
    obtain ⟨c, call, _, hkey, hsubdomain, _⟩ := hsite.filed key site hkept
    apply hdrop
    rcases hcovers with rfl | rfl
    · unfold Request.key sitesKey at hkey
      rw [← hsubdomain] at hkey
      split at hkey
      · exact Or.inr (Or.inr hkey.symm)
      · exact Or.inr (Or.inl hkey.symm)
    · exact Or.inl rfl

/-- What a call that started after a reload takes up is new enough. -/
theorem advance (hinv : ReloadInvariant name subdomain s) (hsite : SiteInvariant s)
    (htest : config.testMode = false) (hread : ReadsCurrent s label) {c startedAt : ℕ}
    {request : Request} {old new : Progress} {rest : State}
    (hcall : s.calls c = some ⟨request, startedAt, old⟩)
    (h : Advance config s c request label old rest new)
    (hsubdomain : request.subdomain = subdomain) {returnedAt version inHand : ℕ}
    (hreloaded : Reloaded s name subdomain returnedAt version)
    (hstarted : returnedAt < startedAt) (hnew : new.version? = some inHand) :
    version ≤ inHand := by
  have hkept : old.version? = some inHand → version ≤ inHand := by
    intro hold
    have hcarried := hinv.carried _ _ c _ inHand hreloaded hcall hsubdomain hstarted hold
    exact hcarried
  cases h with
  | @hit mutex site hget =>
      obtain rfl := Option.some.inj hnew
      have hmap := SiteMap.getSite_eq_some hget
      have hright := hsite.constructedFor_of_sites hcall hmap
      exact hinv.filed _ _ _ site hreloaded hmap (hright.1.trans hsubdomain)
  | @readFeed mutex transfer =>
      obtain rfl := Option.some.inj hnew
      obtain ⟨hsuccess, hcurrent⟩ := hread _ hcall
      simp only [htest, Bool.false_eq_true, if_false, Transfer.getValue, hsuccess,
        Bool.not_false, if_true, hcurrent, hsubdomain]
      exact hinv.version_le hreloaded
  | construct hconstruct =>
      obtain rfl := Option.some.inj hnew
      have hversion := (Site.new_eq_ok hconstruct).2.2.1
      exact hkept (congrArg some hversion.symm)
  | store => exact hkept hnew
  | valid _ => exact hkept hnew
  | _ => simp [Progress.version?] at hnew

theorem moves (hinv : ReloadInvariant name subdomain s) (hsite : SiteInvariant s)
    (htest : config.testMode = false)
    (hcovers : name = subdomain ∨ name = ("all" : Str)) (hread : ReadsCurrent s label)
    (hfresh : FreshStore name subdomain s label) (h : Moves config s label next) :
    ReloadInvariant name subdomain next.tick := by
  refine ⟨fun c call hcall => ?_, fun r reload hreload => ?_,
    fun returnedAt version key site hreloaded hfound hsubdomain => ?_,
    fun returnedAt version c call inHand hreloaded hcall hsubdomain hstarted hhand => ?_⟩
  · have htime := h.time_eq
    change call.startedAt < next.time + 1
    rcases h.call_origin hcall with hold | ⟨_, _, hold, _⟩ | ⟨_, hstart, _⟩
    · have := hinv.started c call hold
      omega
    · have := hinv.started c _ hold
      simp only at this
      omega
    · omega
  · have hfeeds := h.feeds_le subdomain
    refine Nat.le_trans ?_ hfeeds
    rcases h.reload_origin hreload with hold | ⟨hbegan, _⟩ | ⟨_, hold, _⟩
    · exact hinv.began r reload hold
    · simp [hbegan]
    · have hbegan := hinv.began r _ hold
      exact hbegan
  · change next.sites key = some site at hfound
    rcases h.reloaded_origin hreloaded with hold | ⟨r, began, rfl, hreload, _⟩
    · rcases h.site_origin hfound with hsites | ⟨c, call, mutex, rfl, hcall, hprogress, _⟩
      · exact hinv.filed _ _ key site hold hsites hsubdomain
      · have hright := hsite.carried c call site hcall (by rw [hprogress]; rfl)
        exact hfresh call mutex site _ _ hcall hprogress (hright.1.symm.trans hsubdomain) hold
    · -- the reload returns now: no Site of the subdomain is left
      cases h with
      | advance _ hadvance => cases hadvance
      | reloadSite hbegun =>
          rw [hreload] at hbegun
          cases hbegun
          exact absurd hsubdomain (reloadSite_subdomain hsite hcovers hfound)
  · rcases h.reloaded_origin hreloaded with hreloaded | ⟨r, began, rfl, hreload, rfl⟩
    · rcases h.call_origin hcall with hold | ⟨old, rest, hold, hadvance⟩ | ⟨_, _, hentered⟩
      · exact hinv.carried _ _ c call inHand hreloaded hold hsubdomain hstarted hhand
      · exact hinv.advance hsite htest hread hold hadvance hsubdomain hreloaded hstarted hhand
      · simp [hentered, Progress.version?] at hhand
    · -- no call has started after this moment
      have hbefore : call.startedAt < s.time := by
        rcases h.call_origin hcall with hold | ⟨_, _, hold, _⟩ | ⟨hlabel, _⟩
        · exact hinv.started c call hold
        · have hstart := hinv.started c _ hold
          exact hstart
        · cases hlabel
      omega

end ReloadInvariant

/-- In every run with reads that return the stored feed, without colliding requests and
without a store of a Site from before a completed reload, no reload is lost. -/
theorem reloadSite_notLost (config : Config) (feeds : Str → Object) (name subdomain : Str)
    (htest : config.testMode = false)
    (hcovers : name = subdomain ∨ name = ("all" : Str)) {labels : List Label} {s : State}
    (hrun : run (step config) (State.initial feeds) labels = some s)
    (hread : Meets (step config) ReadsCurrent (State.initial feeds) labels)
    (hdistinct : Meets (step config) Distinct (State.initial feeds) labels)
    (hfresh : Meets (step config) (FreshStore name subdomain) (State.initial feeds) labels) :
    NotLost name subdomain s := by
  have hstep : ∀ s label next, SiteInvariant s ∧ ReloadInvariant name subdomain s →
      ReadsCurrent s label ∧ Distinct s label ∧ FreshStore name subdomain s label →
      step config s label = some next →
      SiteInvariant next ∧ ReloadInvariant name subdomain next := by
    intro s label next ⟨hsite, hinv⟩ ⟨hread, hdistinct, hfresh⟩ hstep
    have hsite' := hsite.step htest hdistinct hstep
    obtain ⟨moved, hmoves, rfl⟩ := moves_of_step hstep
    exact ⟨hsite', hinv.moves hsite htest hcovers hread hfresh hmoves⟩
  have hinv := invariant_of_meets hstep
    ⟨SiteInvariant.initial feeds, ReloadInvariant.initial feeds⟩
    (meets_and.2 ⟨hread, meets_and.2 ⟨hdistinct, hfresh⟩⟩) hrun
  intro returnedAt version c call site hreloaded hcall hsubdomain hstarted hreturned
  have hright := hinv.1.carried c call site hcall (by rw [hreturned]; rfl)
  refine ⟨hright.1.trans hsubdomain, ?_⟩
  exact hinv.2.carried _ _ c call _ hreloaded hcall hsubdomain hstarted (by rw [hreturned]; rfl)

/-! ## A reload that is kept, and one that is lost -/

/-- The feed changes, it is reloaded, and the next call loads it. -/
def reloadThenLoad : List Label :=
  [.changeFeed "shop" "<website id='2'/>", .reloadBegin 0 "shop", .reloadSite 0] ++
    loadCall 0 ⟨"shop", "key", false⟩ (delivered "<website id='2'/>" 2) (delivered "key" 1)

theorem reloadSite_notLost_reloadThenLoad :
    ∃ s, run (step loadingConfig) (State.initial fun _ => ⟨"<website/>", 1⟩) reloadThenLoad =
      some s ∧ NotLost "shop" "shop" s := by
  have hread : Meets (step loadingConfig) ReadsCurrent
      (State.initial fun _ => ⟨"<website/>", 1⟩) reloadThenLoad := by
    iterate 7 refine (meets_cons_of_step rfl).2 ⟨trivial, ?_⟩
    refine (meets_cons_of_step rfl).2 ⟨fun call hcall => ?_, ?_⟩
    · obtain rfl := Option.some.inj hcall
      exact ⟨rfl, rfl⟩
    · iterate 3 refine (meets_cons_of_step rfl).2 ⟨trivial, ?_⟩
      trivial
  have hdistinct : Meets (step loadingConfig) Distinct
      (State.initial fun _ => ⟨"<website/>", 1⟩) reloadThenLoad := by
    iterate 3 refine (meets_cons_of_step rfl).2 ⟨trivial, ?_⟩
    refine (meets_cons_of_step rfl).2 ⟨fun d found hfound => ?_, ?_⟩
    · cases hfound
    · iterate 7 refine (meets_cons_of_step rfl).2 ⟨trivial, ?_⟩
      trivial
  have hfresh : Meets (step loadingConfig) (FreshStore "shop" "shop")
      (State.initial fun _ => ⟨"<website/>", 1⟩) reloadThenLoad := by
    iterate 9 refine (meets_cons_of_step rfl).2 ⟨trivial, ?_⟩
    refine (meets_cons_of_step rfl).2 ⟨?_, ?_⟩
    · rintro call mutex site returnedAt version hcall hprogress _ ⟨r, began, hreload, rfl⟩
      obtain rfl := Option.some.inj hcall
      obtain ⟨_, rfl⟩ := Progress.constructed.inj hprogress
      by_cases hr : r = 0
      · subst hr
        cases hreload
        exact Nat.le_refl 2
      · change Function.update (Function.update (fun _ => none) 0 _) 0 _ r = _ at hreload
        rw [Function.update_of_ne hr, Function.update_of_ne hr] at hreload
        cases hreload
    · exact (meets_cons_of_step rfl).2 ⟨trivial, trivial⟩
  exact ⟨_, rfl, reloadSite_notLost loadingConfig _ "shop" "shop" rfl (Or.inl rfl) rfl hread
    hdistinct hfresh⟩

/-- A call reads the feed, the feed changes and is reloaded, and only then the call
constructs and stores its Site. -/
def reloadDuringLoad : List Label :=
  [.call 0 ⟨"shop", "key", false⟩, .getSiteMutex 0, .lockSite 0, .getSite 0,
    .readFeed 0 (delivered "<website/>" 1), .changeFeed "shop" "<website id='2'/>",
    .reloadBegin 0 "shop", .reloadSite 0, .construct 0 (delivered "key" 1), .store 0,
    .validate 0] ++ findCall 1 ⟨"shop", "key", false⟩

/-- The call after the reload gets the Site from before it. -/
theorem reloadSite_lost :
    ∃ s, run (step loadingConfig) (State.initial fun _ => ⟨"<website/>", 1⟩)
        reloadDuringLoad = some s ∧
      Meets (step loadingConfig) ReadsCurrent (State.initial fun _ => ⟨"<website/>", 1⟩)
        reloadDuringLoad ∧
      ¬ NotLost "shop" "shop" s := by
  refine ⟨_, rfl, ?_, fun h => ?_⟩
  · iterate 4 refine (meets_cons_of_step rfl).2 ⟨trivial, ?_⟩
    refine (meets_cons_of_step rfl).2 ⟨fun call hcall => ?_, ?_⟩
    · obtain rfl := Option.some.inj hcall
      exact ⟨rfl, rfl⟩
    · iterate 10 refine (meets_cons_of_step rfl).2 ⟨trivial, ?_⟩
      trivial
  · have hlost := h 7 2 1 ⟨⟨"shop", "key", false⟩, 11, _⟩ _ ⟨0, _, rfl, rfl⟩ rfl rfl
      (by decide) rfl
    exact absurd hlost.2 (by decide)

end VaeDb.Server
