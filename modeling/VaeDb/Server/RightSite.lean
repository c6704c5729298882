import VaeDb.Server.Protocol

/-!
# Whose Site a call returns

The Sites of all subdomains, in both staging modes, share one map.  A request looks
under `subdomain` or `subdomain + ".staging"`, so the live Site of the subdomain
`shop.staging` and the staging Site of `shop` have one key: whichever is loaded first
answers for both.  That is the only collision (`Request.key_eq_iff`).

In a run without such a pair of requests every Site in the map was constructed for a
request with its key, and so for every request with that key.
-/

namespace VaeDb.Server

open Transition

variable {config : Config} {s next : State} {label : Label}

/-- The Site was constructed with the subdomain and staging mode of the request. -/
def Site.ConstructedFor (site : Site) (request : Request) : Prop :=
  site.subdomain = request.subdomain ∧ site.stagingMode = request.stagingMode

/-- The staging request of a subdomain and the live request of the subdomain that is
named like it with `.staging` at the end. -/
def ShadowedBy (staging live : Request) : Prop :=
  staging.stagingMode = true ∧ live.stagingMode = false ∧
    live.subdomain = staging.subdomain ++ (".staging" : Str)

/-- One of the requests shadows the other. -/
def Collide (a b : Request) : Prop := ShadowedBy a b ∨ ShadowedBy b a

theorem Collide.symm {a b : Request} (h : Collide a b) : Collide b a := Or.symm h

/-- Requests share a key when they are for the same Site or one shadows the other. -/
theorem Request.key_eq_iff {a b : Request} :
    a.key = b.key ↔
      (a.subdomain = b.subdomain ∧ a.stagingMode = b.stagingMode) ∨ Collide a b := by
  unfold Collide ShadowedBy Request.key sitesKey
  cases a.stagingMode <;> cases b.stagingMode <;> simp [eq_comm]

/-- A new request collides with none of the calls so far. -/
def Distinct (s : State) : Label → Prop
  | .call _ request => ∀ d found, s.calls d = some found → ¬ Collide found.request request
  | _ => True

/-- Every call that returned has a Site that was constructed for its request, and calls
that returned the same Site asked for the same one. -/
structure RightSite (s : State) : Prop where
  constructedFor : ∀ c call site, s.calls c = some call → call.progress = .returned site →
    site.ConstructedFor call.request
  notShared : ∀ c d call found site, s.calls c = some call → s.calls d = some found →
    call.progress = .returned site → found.progress = .returned site →
    call.request.subdomain = found.request.subdomain ∧
      call.request.stagingMode = found.request.stagingMode

/-! ## The invariant -/

/-- No two calls collide, and every Site, in the map or in the hands of a call, was
constructed for the request that it answers. -/
structure SiteInvariant (s : State) : Prop where
  separate : ∀ c d call found, s.calls c = some call → s.calls d = some found →
    ¬ Collide call.request found.request
  filed : ∀ key site, s.sites key = some site →
    ∃ c call, s.calls c = some call ∧ call.request.key = key ∧
      site.ConstructedFor call.request
  carried : ∀ c call site, s.calls c = some call → call.progress.site? = some site →
    site.ConstructedFor call.request

namespace SiteInvariant

theorem initial (feeds : Str → Object) : SiteInvariant (State.initial feeds) := by
  constructor <;> simp [State.initial]

/-- A Site in the map was constructed for every request that finds it. -/
theorem constructedFor_of_sites (hinv : SiteInvariant s) {c : ℕ} {call : Call} {site : Site}
    (hcall : s.calls c = some call) (hsite : s.sites call.request.key = some site) :
    site.ConstructedFor call.request := by
  obtain ⟨d, found, hfound, hkey, hsubdomain, hstaging⟩ := hinv.filed _ site hsite
  rcases Request.key_eq_iff.1 hkey with hsame | hcollide
  · exact ⟨hsubdomain.trans hsame.1, hstaging.trans hsame.2⟩
  · exact absurd hcollide (hinv.separate d c found call hfound hcall)

/-- The Site that a call gets on with was constructed for its request. -/
theorem advance (hinv : SiteInvariant s) (htest : config.testMode = false) {c startedAt : ℕ}
    {request : Request} {old new : Progress} {rest : State}
    (hcall : s.calls c = some ⟨request, startedAt, old⟩)
    (h : Advance config s c request label old rest new) {site : Site}
    (hsite : new.site? = some site) : site.ConstructedFor request := by
  rcases h.site_origin hsite with hold | hmap | ⟨mutex, xml, secret, _, hnew⟩
  · have hcarried := hinv.carried c _ site hcall hold
    exact hcarried
  · have hfound := hinv.constructedFor_of_sites hcall hmap
    exact hfound
  · obtain ⟨_, hstaging, _, hlive⟩ := Site.new_eq_ok hnew
    exact ⟨(hlive htest).1, hstaging⟩

theorem moves (hinv : SiteInvariant s) (htest : config.testMode = false)
    (hdistinct : Distinct s label) (h : Moves config s label next) : SiteInvariant next := by
  -- a call of `next` was there before with the same request, or it is the one that begins
  have hbefore : ∀ c call, next.calls c = some call →
      (∃ found, s.calls c = some found ∧ found.request = call.request) ∨
        label = .call c call.request := by
    intro c call hcall
    rcases h.call_origin hcall with hold | ⟨_, _, hold, _⟩ | ⟨hlabel, _⟩
    · exact Or.inl ⟨_, hold, rfl⟩
    · exact Or.inl ⟨_, hold, rfl⟩
    · exact Or.inr hlabel
  refine ⟨fun c d call found hcall hfound => ?_, fun key site hsite => ?_,
    fun c call site hcall hsite => ?_⟩
  · rcases hbefore c call hcall with ⟨call', hcall', hrequest⟩ | hlabel <;>
      rcases hbefore d found hfound with ⟨found', hfound', hrequest'⟩ | hlabel'
    · rw [← hrequest, ← hrequest']
      exact hinv.separate c d call' found' hcall' hfound'
    · subst hlabel'
      rw [← hrequest]
      exact hdistinct c call' hcall'
    · subst hlabel
      rw [← hrequest']
      exact fun hcollide => hdistinct d found' hfound' hcollide.symm
    · -- both calls are the one that begins
      rw [hlabel, Label.call.injEq] at hlabel'
      rw [hlabel'.2]
      rintro (⟨htrue, hfalse, _⟩ | ⟨htrue, hfalse, _⟩) <;> simp [htrue] at hfalse
  · rcases h.site_origin hsite with hold | ⟨c, call, mutex, _, hcall, hprogress, hkey⟩
    · obtain ⟨c, call, hcall, hkey, hright⟩ := hinv.filed key site hold
      obtain ⟨progress, hkept⟩ := h.call_kept hcall
      exact ⟨c, _, hkept, hkey, hright⟩
    · obtain ⟨progress, hkept⟩ := h.call_kept hcall
      have hright := hinv.carried c call site hcall (by rw [hprogress]; rfl)
      exact ⟨c, _, hkept, hkey, hright⟩
  · rcases h.call_origin hcall with hold | ⟨old, rest, hold, hadvance⟩ | ⟨_, _, hentered⟩
    · exact hinv.carried c call site hold hsite
    · exact hinv.advance htest hold hadvance hsite
    · simp [hentered, Progress.site?] at hsite

theorem step (hinv : SiteInvariant s) (htest : config.testMode = false)
    (hdistinct : Distinct s label) (h : step config s label = some next) :
    SiteInvariant next := by
  obtain ⟨moved, hmoves, rfl⟩ := moves_of_step h
  have hmoved := hinv.moves htest hdistinct hmoves
  exact ⟨hmoved.separate, hmoved.filed, hmoved.carried⟩

end SiteInvariant

/-- In every run in which no two requests collide, calls return the right Sites. -/
theorem getSite_rightSite (config : Config) (feeds : Str → Object)
    (htest : config.testMode = false) {labels : List Label} {s : State}
    (hrun : run (step config) (State.initial feeds) labels = some s)
    (hdistinct : Meets (step config) Distinct (State.initial feeds) labels) : RightSite s := by
  have hinv : SiteInvariant s :=
    invariant_of_meets (fun _ _ _ hinv hok hstep => hinv.step htest hok hstep)
      (SiteInvariant.initial feeds) hdistinct hrun
  have hright : ∀ c call site, s.calls c = some call → call.progress = .returned site →
      site.ConstructedFor call.request := by
    intro c call site hcall hreturned
    exact hinv.carried c call site hcall (by rw [hreturned]; rfl)
  refine ⟨hright, fun c d call found site hcall hfound hreturned hreturned' => ?_⟩
  have hone := hright c call site hcall hreturned
  have hother := hright d found site hfound hreturned'
  exact ⟨hone.1.symm.trans hother.1, hone.2.symm.trans hother.2⟩

/-- The condition is met when no request is for a subdomain that ends in `.staging`. -/
theorem meets_distinct_of_plain {labels : List Label}
    (hlabels : ∀ c request, .call c request ∈ labels →
      ¬ (".staging" : Str) <:+ request.subdomain)
    (hcalls : ∀ c call, s.calls c = some call → ¬ (".staging" : Str) <:+ call.request.subdomain) :
    Meets (step config) Distinct s labels := by
  induction labels generalizing s with
  | nil => trivial
  | cons label rest ih =>
      refine ⟨?_, fun next hnext => ih (fun c request h => ?_) fun c call hcall => ?_⟩
      · cases label with
        | call c request =>
            intro d found hfound
            have hnew := hlabels c request (List.mem_cons_self ..)
            rintro (⟨_, _, hsubdomain⟩ | ⟨_, _, hsubdomain⟩)
            · exact hnew (hsubdomain ▸ List.suffix_append _ _)
            · exact hcalls d found hfound (hsubdomain ▸ List.suffix_append _ _)
        | _ => trivial
      · exact hlabels c request (List.mem_cons_of_mem _ h)
      · obtain ⟨moved, hmoves, rfl⟩ := moves_of_step hnext
        rcases hmoves.call_origin hcall with hold | ⟨_, _, hold, _⟩ | ⟨hlabel, _⟩
        · exact hcalls c call hold
        · have hplain := hcalls c _ hold
          exact hplain
        · exact hlabels c call.request (hlabel ▸ List.mem_cons_self ..)

/-- The steps of a call that loads its Site. -/
def loadCall (c : ℕ) (request : Request) (xml secret : Transfer) : List Label :=
  [.call c request, .getSiteMutex c, .lockSite c, .getSite c, .readFeed c xml,
    .construct c secret, .store c, .validate c]

/-- The steps of a call that finds its Site in the map. -/
def findCall (c : ℕ) (request : Request) : List Label :=
  [.call c request, .getSiteMutex c, .lockSite c, .getSite c]

/-- Both modes of one subdomain, one after the other. -/
def twoModes : List Label :=
  loadCall 0 ⟨"shop", "key", true⟩ (delivered "<website/>" 1) (delivered "key" 1) ++
    loadCall 1 ⟨"shop", "key", false⟩ (delivered "<website/>" 1) (delivered "key" 1)

theorem getSite_rightSite_twoModes :
    ∃ s, run (step loadingConfig) (State.initial fun _ => ⟨"<website/>", 1⟩) twoModes =
      some s ∧ RightSite s := by
  have hdistinct : Meets (step loadingConfig) Distinct
      (State.initial fun _ => ⟨"<website/>", 1⟩) twoModes := by
    refine meets_distinct_of_plain (fun c request hlabel => ?_) (by simp [State.initial])
    have hsubdomain : request.subdomain = "shop" := by
      simp only [twoModes, loadCall, List.mem_append, List.mem_cons, reduceCtorEq,
        or_false, Label.call.injEq, List.not_mem_nil] at hlabel
      rcases hlabel with ⟨_, rfl⟩ | ⟨_, rfl⟩ <;> rfl
    rw [hsubdomain]
    decide
  exact ⟨_, rfl, getSite_rightSite loadingConfig _ rfl rfl hdistinct⟩

/-- The live request of `shop.staging` is answered with the staging Site of `shop`. -/
theorem getSite_returns_staging :
    ∃ s, run (step loadingConfig) (State.initial fun _ => ⟨"<website/>", 1⟩)
        (loadCall 0 ⟨"shop", "key", true⟩ (delivered "<website/>" 1) (delivered "key" 1) ++
          findCall 1 ⟨"shop.staging", "key", false⟩) = some s ∧ ¬ RightSite s := by
  refine ⟨_, rfl, fun h => ?_⟩
  have hwrong := h.constructedFor 1 ⟨⟨"shop.staging", "key", false⟩, 8, _⟩ _ rfl rfl
  exact absurd hwrong.2 (by decide)

end VaeDb.Server
