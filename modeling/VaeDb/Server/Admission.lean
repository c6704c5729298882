import VaeDb.Server.Authentication
import VaeDb.Server.RightSite

/-!
# Which secret keys obtain a Site

The constructor splits what `read_s3` returns for the `-secret` object of its own
subdomain, once; from then on the Site in the map is asked.  So the entries that a key is
compared with are those of the right object only as long as the Site in the map is the
right one: after `openSession` of `shop` in staging mode the live request of the subdomain
`shop.staging` is admitted with the keys of `shop`.

* `SecretInvariant`: every Site holds what was read from the object of its subdomain, and
  every call that returned one gave an entry of it;
* `openSession_admits`: who is admitted in a run without colliding requests, and exactly
  when the next `openSession` admits only with a non-empty entry.
-/

namespace VaeDb.Server

open Transition

variable {config : Config} {bucket : ℕ → Str → Transfer} {s next : State} {label : Label}

/-! ## What a run reads and compares -/

/-- What `read_s3` returns for the `-secret` object of a subdomain, when the bucket answers
as it does at this time. -/
def secretAt (bucket : ℕ → Str → Transfer) (time : ℕ) (subdomain : Str) : Str :=
  (bucket time (secretName subdomain)).getValue.content

/-- A Site is constructed with the `-secret` object of the subdomain it is for. -/
def ReadsSecret (bucket : ℕ → Str → Transfer) (s : State) : Label → Prop
  | .construct c secret =>
      ∀ call, s.calls c = some call → secret = bucket s.time (secretName call.request.subdomain)
  | _ => True

/-- The step compares the secret key of a request with the entries of this Site, the one in
the map or the one that was loaded. -/
def Compares (s : State) (request : Request) (site : Site) : Label → Prop
  | .getSite c =>
      (∃ startedAt mutex, s.calls c = some ⟨request, startedAt, .locked mutex⟩) ∧
        s.sites request.key = some site
  | .validate c => ∃ startedAt mutex, s.calls c = some ⟨request, startedAt, .stored mutex site⟩
  | _ => False

/-- A key that is compared is not empty, or the content it is compared with has no empty
entry. -/
def NoEmptyEntry (s : State) (label : Label) : Prop :=
  ∀ request site content, Compares s request site label → site.secret = some content →
    request.secretKey ≠ [] ∨ ¬ HasEmptyEntry ",;\n" content

/-- The Site holds the content of the `-secret` object of a subdomain, read before a time,
and the key is an entry of it. -/
def EntryOf (bucket : ℕ → Str → Transfer) (limit : ℕ) (subdomain key : Str) (site : Site) :
    Prop :=
  ∃ time < limit, site.secret = some (secretAt bucket time subdomain) ∧
    key ∈ secretEntries (secretAt bucket time subdomain)

/-! ## The invariant -/

/-- The content of a Site was read from the object of its subdomain. -/
def ReadBefore (bucket : ℕ → Str → Transfer) (limit : ℕ) (site : Site) : Prop :=
  ∃ time < limit, site.secret = some (secretAt bucket time site.subdomain)

theorem ReadBefore.mono {site : Site} {limit later : ℕ} (h : ReadBefore bucket limit site)
    (hle : limit ≤ later) : ReadBefore bucket later site := by
  obtain ⟨time, htime, hsecret⟩ := h
  exact ⟨time, htime.trans_le hle, hsecret⟩

/-- Every Site, in the map or in the hands of a call, holds the content of the object of its
subdomain. -/
structure SecretInvariant (bucket : ℕ → Str → Transfer) (s : State) : Prop where
  filed : ∀ key site, s.sites key = some site → ReadBefore bucket s.time site
  carried : ∀ c call site, s.calls c = some call → call.progress.site? = some site →
    ReadBefore bucket s.time site

/-- A Site that the constructor returns holds what it has read. -/
theorem Site.new_readBefore (htest : config.testMode = false) {request : Request}
    {address time limit : ℕ} {xml : Object} {site : Site}
    (hnew : Site.new config address request.subdomain request.stagingMode
      (bucket time (secretName request.subdomain)) xml = .ok site) (htime : time < limit) :
    ReadBefore bucket limit site := by
  obtain ⟨_, _, _, hlive⟩ := Site.new_eq_ok hnew
  obtain ⟨hsubdomain, hsecret⟩ := hlive htest
  exact ⟨time, htime, hsubdomain ▸ hsecret⟩

namespace SecretInvariant

theorem initial (bucket : ℕ → Str → Transfer) (feeds : Str → Object) :
    SecretInvariant bucket (State.initial feeds) := by
  constructor <;> simp [State.initial]

/-- The Site that a call gets on with holds the content of the right object. -/
theorem advance (hinv : SecretInvariant bucket s) (htest : config.testMode = false)
    (hreads : ReadsSecret bucket s label) {c startedAt : ℕ} {request : Request}
    {old new : Progress} {rest : State} (hcall : s.calls c = some ⟨request, startedAt, old⟩)
    (h : Advance config s c request label old rest new) {site : Site}
    (hsite : new.site? = some site) : ReadBefore bucket (s.time + 1) site := by
  cases h with
  | hit hget =>
      obtain rfl := Option.some.inj hsite
      have hfiled := hinv.filed _ _ (SiteMap.getSite_eq_some hget)
      exact hfiled.mono (Nat.le_succ _)
  | construct hnew =>
      obtain rfl := Option.some.inj hsite
      have hsecret := hreads _ hcall
      rw [hsecret] at hnew
      exact Site.new_readBefore htest hnew (Nat.lt_succ_self _)
  | store => exact (hinv.carried c _ site hcall hsite).mono (Nat.le_succ _)
  | valid _ => exact (hinv.carried c _ site hcall hsite).mono (Nat.le_succ _)
  | _ => simp [Progress.site?] at hsite

theorem step (hinv : SecretInvariant bucket s) (htest : config.testMode = false)
    (hreads : ReadsSecret bucket s label) (h : step config s label = some next) :
    SecretInvariant bucket next := by
  obtain ⟨moved, hmoves, rfl⟩ := moves_of_step h
  have htime : moved.time = s.time := hmoves.time_eq
  constructor
  · intro key site hsite
    rcases hmoves.site_origin hsite with hold | ⟨c, call, mutex, _, hcall, hprogress, _⟩
    · exact (hinv.filed key site hold).mono (htime ▸ Nat.le_succ _)
    · have hcarried := hinv.carried c call site hcall (by rw [hprogress]; rfl)
      exact hcarried.mono (htime ▸ Nat.le_succ _)
  · intro c call site hcall hsite
    rcases hmoves.call_origin hcall with hold | ⟨old, rest, hold, hadvance⟩ | ⟨_, _, hentered⟩
    · exact (hinv.carried c call site hold hsite).mono (htime ▸ Nat.le_succ _)
    · have hread := hinv.advance htest hreads hold hadvance hsite
      exact hread.mono (htime ▸ Nat.le_refl _)
    · simp [hentered, Progress.site?] at hsite

end SecretInvariant

/-- Every call that returned gave a key that is not empty and that its Site has. -/
def KeysGiven (s : State) : Prop :=
  ∀ c call site, s.calls c = some call → call.progress = .returned site →
    call.request.secretKey ≠ [] ∧ call.request.secretKey ∈ site.secretKeys

theorem SiteMap.getSite_secretKey (htest : config.testMode = false) {sites : SiteMap}
    {key secretKey : Str} {site : Site}
    (h : sites.getSite config key secretKey = .ok (some site)) :
    secretKey ∈ site.secretKeys := by
  unfold SiteMap.getSite at h
  cases hsite : sites key with
  | none => simp [hsite, pure, Except.pure] at h
  | some found =>
      rw [hsite] at h
      obtain ⟨_, hvalid, hfound⟩ := Outcome.bind_eq_ok.1 h
      obtain rfl : found = site := Option.some.inj (Outcome.pure_eq_ok.1 hfound)
      exact (Site.validateSecretKey_eq_ok htest).1 hvalid

/-- An empty key that a Site has is an empty entry of its content. -/
theorem Compares.key_ne_nil {request : Request} {site : Site} (hok : NoEmptyEntry s label)
    (hcompares : Compares s request site label) (hkey : request.secretKey ∈ site.secretKeys) :
    request.secretKey ≠ [] := by
  obtain ⟨content, hsecret, hmem⟩ := Site.mem_secretKeys.1 hkey
  rcases hok request site content hcompares hsecret with hne | hnone
  · exact hne
  · intro hempty
    exact hnone ((mem_split_nil _ _).1 (hempty ▸ hmem))

theorem KeysGiven.step (hinv : KeysGiven s) (htest : config.testMode = false)
    (hok : NoEmptyEntry s label) (h : step config s label = some next) : KeysGiven next := by
  obtain ⟨moved, hmoves, rfl⟩ := moves_of_step h
  intro c call site hcall hreturned
  rcases hmoves.call_origin hcall with hold | ⟨old, rest, hold, hadvance⟩ | ⟨_, _, hentered⟩
  · exact hinv c call site hold hreturned
  · -- the call returns with this step, which has compared its key
    rw [hreturned] at hadvance
    cases hadvance with
    | hit hget =>
        have hkey := SiteMap.getSite_secretKey htest hget
        have hcompares : Compares s call.request site (.getSite c) :=
          ⟨⟨_, _, hold⟩, SiteMap.getSite_eq_some hget⟩
        exact ⟨hcompares.key_ne_nil hok hkey, hkey⟩
    | valid hvalid =>
        have hkey := (Site.validateSecretKey_eq_ok htest).1 hvalid
        have hcompares : Compares s call.request site (.validate c) := ⟨_, _, hold⟩
        exact ⟨hcompares.key_ne_nil hok hkey, hkey⟩
  · rw [hentered] at hreturned
    cases hreturned

/-! ## Whole runs -/

/-- The calls that have returned gave a key that is not empty and is an entry of the object
of their own subdomain, as it was when their Site was constructed. -/
def Admits (bucket : ℕ → Str → Transfer) (s : State) : Prop :=
  ∀ c call site, s.calls c = some call → call.progress = .returned site →
    call.request.secretKey ≠ [] ∧
      EntryOf bucket s.time call.request.subdomain call.request.secretKey site

/-- A Site constructed for a request that holds what was read has the entries of the object
of the request. -/
theorem entryOf_of_readBefore {request : Request} {site : Site} {limit : ℕ}
    (hright : site.subdomain = request.subdomain) (hread : ReadBefore bucket limit site)
    (hkey : request.secretKey ∈ site.secretKeys) :
    EntryOf bucket limit request.subdomain request.secretKey site := by
  obtain ⟨time, htime, hsecret⟩ := hread
  obtain ⟨content, hcontent, hmem⟩ := Site.mem_secretKeys.1 hkey
  rw [hright] at hsecret
  obtain rfl := Option.some.inj (hcontent.symm.trans hsecret)
  exact ⟨time, htime, hsecret, hmem⟩

/-- The Site that a request is compared with is the right one, with the content of its
object. -/
theorem checkedSite_right (htest : config.testMode = false) (hsites : SiteInvariant s)
    (hsecrets : SecretInvariant bucket s) {request : Request} {site : Site}
    (hseparate : ∀ d found, s.calls d = some found → ¬ Collide found.request request)
    (h : checkedSite config (bucket s.time) ⟨s.sites, s.nextAddress⟩ request = some site) :
    site.subdomain = request.subdomain ∧ ReadBefore bucket (s.time + 1) site := by
  unfold checkedSite at h
  cases hfound : s.sites request.key with
  | some found =>
      simp only [hfound, Option.some.injEq] at h
      subst h
      obtain ⟨d, call, hcall, hkey, hsubdomain, _⟩ := hsites.filed _ _ hfound
      -- one map key belongs to one subdomain, unless the two requests collide
      rcases Request.key_eq_iff.1 hkey with hsame | hcollide
      · exact ⟨hsubdomain.trans hsame.1, (hsecrets.filed _ _ hfound).mono (Nat.le_succ _)⟩
      · exact absurd hcollide (hseparate d call hcall)
  | none =>
      simp only [hfound] at h
      -- the Site is constructed now, from what the object holds
      obtain ⟨built, hnew, rfl⟩ : ∃ built, _ = Except.ok built ∧ built = site := by
        cases hnew : Site.new config s.nextAddress request.subdomain request.stagingMode
            (bucket s.time (secretName request.subdomain))
            (if config.testMode then ⟨[], 0⟩
              else (bucket s.time (feedName request.subdomain)).getValue) with
        | error fault => simp [hnew, Except.toOption] at h
        | ok built => exact ⟨built, hnew, by simpa [hnew, Except.toOption] using h⟩
      obtain ⟨_, _, _, hlive⟩ := Site.new_eq_ok hnew
      exact ⟨(hlive htest).1, Site.new_readBefore htest hnew (Nat.lt_succ_self _)⟩

/-- In a run in which no two requests collide, every call that returned gave a non-empty
entry of the object of its own subdomain, if no empty key was compared with an empty entry.
The next `openSession` obtains a Site only with such an entry exactly when its key is not
empty or the content to compare with has no empty entry. -/
theorem openSession_admits (config : Config) (feeds : Str → Object)
    (bucket : ℕ → Str → Transfer) (htest : config.testMode = false) {labels : List Label}
    {s : State} (hrun : run (step config) (State.initial feeds) labels = some s)
    (hdistinct : Meets (step config) Distinct (State.initial feeds) labels)
    (hreads : Meets (step config) (ReadsSecret bucket) (State.initial feeds) labels) :
    (Meets (step config) NoEmptyEntry (State.initial feeds) labels → Admits bucket s) ∧
      ∀ params arguments, openSessionArguments params = .ok arguments →
        (∀ d found, s.calls d = some found → ¬ Collide found.request arguments.request) →
        ((∀ site, (openSessionSite config (bucket s.time) ⟨s.sites, s.nextAddress⟩ params).1 =
              .ok site →
            arguments.secretKey ≠ [] ∧
              EntryOf bucket (s.time + 1) arguments.subdomain arguments.secretKey site) ↔
          (arguments.secretKey ≠ [] ∨
            ∀ site content,
              checkedSite config (bucket s.time) ⟨s.sites, s.nextAddress⟩ arguments.request =
                some site → site.secret = some content → ¬ HasEmptyEntry ",;\n" content)) := by
  have hsites : SiteInvariant s :=
    invariant_of_meets (fun _ _ _ hinv hok hstep => hinv.step htest hok hstep)
      (SiteInvariant.initial feeds) hdistinct hrun
  have hsecrets : SecretInvariant bucket s :=
    invariant_of_meets (fun _ _ _ hinv hok hstep => hinv.step htest hok hstep)
      (SecretInvariant.initial bucket feeds) hreads hrun
  -- the calls of the run, and the next one
  refine ⟨fun hnone c call site hcall hreturned => ?_, fun params arguments harguments
    hseparate => ?_⟩
  · have hgiven : KeysGiven s :=
      invariant_of_meets (fun _ _ _ hinv hok hstep => hinv.step htest hok hstep)
        (by simp [KeysGiven, State.initial]) hnone hrun
    obtain ⟨hne, hkey⟩ := hgiven c call site hcall hreturned
    have hhand : call.progress.site? = some site := by rw [hreturned]; rfl
    have hright := hsites.carried c call site hcall hhand
    have hread := hsecrets.carried c call site hcall hhand
    exact ⟨hne, entryOf_of_readBefore hright.1 hread hkey⟩
  · refine Iff.trans ?_ (openSessionSite_nonempty_iff htest harguments)
    refine forall_congr' fun site => imp_congr_right fun hobtained => and_congr_right fun _ => ?_
    obtain ⟨hchecked, hkey⟩ := (openSessionSite_eq_ok htest harguments).1 hobtained
    obtain ⟨hright, hread⟩ := checkedSite_right htest hsites hsecrets hseparate hchecked
    have hentry : EntryOf bucket (s.time + 1) arguments.subdomain arguments.secretKey site :=
      entryOf_of_readBefore hright hread hkey
    exact ⟨fun _ => Site.mem_secretKeys.1 hkey, fun _ => hentry⟩

/-- The condition is met when every request gives a key. -/
theorem meets_noEmptyEntry_of_keyed {labels : List Label}
    (hlabels : ∀ c request, .call c request ∈ labels → request.secretKey ≠ [])
    (hcalls : ∀ c call, s.calls c = some call → call.request.secretKey ≠ []) :
    Meets (step config) NoEmptyEntry s labels := by
  induction labels generalizing s with
  | nil => trivial
  | cons label rest ih =>
      refine ⟨fun request site content hcompares _ => Or.inl ?_,
        fun next hnext => ih (fun c request h => hlabels c request (List.mem_cons_of_mem _ h))
          fun c call hcall => ?_⟩
      · cases label with
        | getSite c =>
            obtain ⟨⟨startedAt, mutex, hcall⟩, _⟩ := hcompares
            exact hcalls c _ hcall
        | validate c =>
            obtain ⟨startedAt, mutex, hcall⟩ := hcompares
            exact hcalls c _ hcall
        | _ => exact hcompares.elim
      · obtain ⟨moved, hmoves, rfl⟩ := moves_of_step hnext
        rcases hmoves.call_origin hcall with hold | ⟨_, _, hold, _⟩ | ⟨hlabel, _⟩
        · exact hcalls c call hold
        · have hkeyed := hcalls c _ hold
          exact hkeyed
        · exact hlabels c call.request (hlabel ▸ List.mem_cons_self ..)

/-- The calls of a run are those that its labels begin. -/
theorem call_mem_labels {feeds : Str → Object} {labels : List Label}
    (hrun : run (step config) (State.initial feeds) labels = some s) {c : ℕ} {call : Call}
    (hcall : s.calls c = some call) : Label.call c call.request ∈ labels := by
  have hbegun : ∀ s label next, (∀ c call, s.calls c = some call →
        Label.call c call.request ∈ labels) → label ∈ labels →
      step config s label = some next →
      ∀ c call, next.calls c = some call → Label.call c call.request ∈ labels := by
    intro s label next hinv hlabel hstep c call hcall
    obtain ⟨moved, hmoves, rfl⟩ := moves_of_step hstep
    rcases hmoves.call_origin hcall with hold | ⟨_, _, hold, _⟩ | ⟨rfl, _⟩
    · exact hinv c call hold
    · have hmem := hinv c _ hold
      exact hmem
    · exact hlabel
  exact invariant_of_meets hbegun (by simp [State.initial])
    (meets_of_forall_mem fun label hlabel _ => hlabel) hrun c call hcall

/-- A bucket whose objects all have this content. -/
def bucketOf (content : Str) : Str → Transfer := fun _ => delivered content 1

/-- A bucket from which every download fails, with no cache files. -/
def unreachableBucket : Str → Transfer := fun _ => ⟨true, ⟨[], 0⟩, none⟩

/-- Parameters with a subdomain and this value for the secret key. -/
def paramsWithKey (subdomain : Str) (secretKey : Json) : Params := fun name =>
  if name = ("subdomain" : Str) then .string subdomain
  else if name = ("secretKey" : Str) then secretKey
  else .null

/-- One call loads the Site of `shop`, and another finds it. -/
def loadAndFind : List Label :=
  loadCall 0 ⟨"shop", "key2", false⟩ (delivered "key1,key2" 1) (delivered "key1,key2" 1) ++
    findCall 1 ⟨"shop", "key1", false⟩

/-- Both calls have an entry of `key1,key2`, and so has the next `openSession`. -/
theorem openSession_admits_loadAndFind :
    ∃ s, run (step loadingConfig) (State.initial fun _ => ⟨"<website/>", 1⟩) loadAndFind =
        some s ∧ Admits (fun _ => bucketOf "key1,key2") s ∧
      ∀ site, (openSessionSite loadingConfig (bucketOf "key1,key2") ⟨s.sites, s.nextAddress⟩
            (paramsWithKey "shop" (.string "key2"))).1 = .ok site →
        ("key2" : Str) ≠ [] ∧
          EntryOf (fun _ => bucketOf "key1,key2") (s.time + 1) "shop" "key2" site := by
  have hcalls : ∀ c request, .call c request ∈ loadAndFind →
      request.subdomain = ("shop" : Str) ∧ request.secretKey ≠ [] := by
    intro c request hlabel
    simp only [loadAndFind, loadCall, findCall, List.mem_append, List.mem_cons, reduceCtorEq,
      or_false, Label.call.injEq, List.not_mem_nil] at hlabel
    rcases hlabel with ⟨_, rfl⟩ | ⟨_, rfl⟩ <;> decide
  have hdistinct : Meets (step loadingConfig) Distinct
      (State.initial fun _ => ⟨"<website/>", 1⟩) loadAndFind := by
    refine meets_distinct_of_plain (fun c request hlabel => ?_) (by simp [State.initial])
    rw [(hcalls c request hlabel).1]
    decide
  have hreads : Meets (step loadingConfig) (ReadsSecret fun _ => bucketOf "key1,key2")
      (State.initial fun _ => ⟨"<website/>", 1⟩) loadAndFind := by
    refine meets_of_forall_mem fun label hlabel state => ?_
    cases label with
    | construct c secret =>
        intro call _
        simp only [loadAndFind, loadCall, findCall, List.mem_append, List.mem_cons, reduceCtorEq,
          or_false, false_or, Label.construct.injEq, List.not_mem_nil] at hlabel
        exact hlabel.2
    | _ => trivial
  have hkeyed : Meets (step loadingConfig) NoEmptyEntry
      (State.initial fun _ => ⟨"<website/>", 1⟩) loadAndFind :=
    meets_noEmptyEntry_of_keyed (fun c request hlabel => (hcalls c request hlabel).2)
      (by simp [State.initial])
  obtain ⟨s, hrun⟩ : ∃ s, run (step loadingConfig) (State.initial fun _ => ⟨"<website/>", 1⟩)
      loadAndFind = some s := ⟨_, rfl⟩
  obtain ⟨hadmits, hnext⟩ := openSession_admits loadingConfig (fun _ => ⟨"<website/>", 1⟩)
    (fun _ => bucketOf "key1,key2") rfl hrun hdistinct hreads
  refine ⟨s, hrun, hadmits hkeyed, ?_⟩
  refine (hnext _ ⟨"shop", "key2", 0, 0⟩ rfl fun d found hfound hcollide => ?_).2
    (Or.inl (by decide))
  have hshop := (hcalls d found.request (call_mem_labels hrun hfound)).1
  rcases hcollide with ⟨_, _, hlonger⟩ | ⟨_, _, hlonger⟩ <;> rw [hshop] at hlonger <;>
    exact absurd hlonger (by decide)

/-- The bucket with the key of `shop`, in which every other object holds `other`. -/
def keyOfShop : Str → Transfer := fun name =>
  if name = secretName "shop" then delivered "key" 1 else delivered "other" 1

/-- With a `-secret` object that could not be read, a request without a secret key obtains
a Site: it is loaded for the first such request, and found in the map by the second.  After
a staging request of `shop`, the subdomain `shop.staging` is opened with the key of `shop`. -/
theorem openSession_admits_wrongly :
    (∃ (arguments : OpenSessionArguments) (site : Site) (store : SiteStore),
      openSessionArguments (paramsWithKey "shop" .null) = .ok arguments ∧
        arguments.secretKey = [] ∧
        openSessionSite loadingConfig unreachableBucket ⟨fun _ => none, 0⟩
          (paramsWithKey "shop" .null) = (.ok site, store) ∧
        (openSessionSite loadingConfig unreachableBucket store
          (paramsWithKey "shop" .null)).1 = .ok site) ∧
      ∃ s site, run (step loadingConfig) (State.initial fun _ => ⟨"<website/>", 1⟩)
          (loadCall 0 ⟨"shop", "key", true⟩ (delivered "<website/>" 1)
            (keyOfShop (secretName "shop"))) = some s ∧
        (openSessionSite loadingConfig keyOfShop ⟨s.sites, s.nextAddress⟩
          (paramsWithKey "shop.staging" (.string "key"))).1 = .ok site ∧
        ("key" : Str) ∉
          secretEntries (keyOfShop (secretName "shop.staging")).getValue.content :=
  ⟨⟨⟨"shop", [], 0, 0⟩, ⟨0, "shop", false, some [], 1, 0⟩, _, rfl, rfl, rfl, rfl⟩,
    _, ⟨0, "shop", true, some "key", 1, 1⟩, rfl, rfl, by decide⟩

end VaeDb.Server
