import VaeDb.Server.SingleLoad

/-!
# Calls of `getSite` end

A call waits for one mutex only, that of its own Site, and never for it while it holds it.  The
call that holds it is for the same Site, and waits for nothing.  So every call that has not ended
can go on, or the call that it waits for can (`getSite_goes_on`), and as no call takes more than
seven steps, whatever else happens in between, all calls end.
-/

namespace VaeDb.Server

open Transition

variable {config : Config} {s next rest : State} {label : Label} {c d mutex : ℕ}
  {request : Request} {old new : Progress}

/-! ## Steps of a call -/

/-- The call that gets on with a step. -/
def Label.caller? : Label → Option ℕ
  | .getSiteMutex c | .lockSite c | .getSite c | .readFeed c _ | .construct c _ | .store c
  | .validate c => some c
  | .call _ _ | .changeFeed _ _ | .reloadBegin _ _ | .reloadSite _ => none

/-- The call has returned or thrown. -/
def Progress.Ended : Progress → Prop
  | .returned _ | .threw _ => True
  | _ => False

/-- How many steps a call may have taken. -/
def Progress.rank : Progress → ℕ
  | .entered => 0
  | .waiting _ => 1
  | .locked _ => 2
  | .missed _ => 3
  | .fetched _ _ => 4
  | .constructed _ _ => 5
  | .stored _ _ => 6
  | .returned _ | .threw _ => 7

theorem Progress.rank_le (progress : Progress) : progress.rank ≤ 7 := by
  cases progress <;> simp [rank]

theorem Advance.caller (h : Advance config s c request label old rest new) :
    label.caller? = some c := by
  cases h <;> rfl

theorem Advance.rank_lt (h : Advance config s c request label old rest new) :
    old.rank < new.rank := by
  cases h <;> simp [Progress.rank]

/-! ## Who holds a mutex -/

/-- A mutex with an owner is held by it. -/
def OwnersHold (s : State) : Prop :=
  ∀ mutex c, s.owner mutex = some c →
    ∃ call, s.calls c = some call ∧ call.progress.held? = some mutex

namespace OwnersHold

theorem initial (feeds : Str → Object) : OwnersHold (State.initial feeds) :=
  fun _ _ howner => by cases howner

/-- A call that holds nothing, or goes on holding what it held. -/
theorem setCall (h : OwnersHold s) {call : Call} (howner : rest.owner = s.owner)
    (hcalls : rest.calls = s.calls)
    (hheld : ∀ mutex found, s.owner mutex = some c → s.calls c = some found →
      found.progress.held? = some mutex → call.progress.held? = some mutex) :
    OwnersHold (rest.setCall c call) := by
  intro mutex d howned
  have hbefore : s.owner mutex = some d := howner ▸ howned
  obtain ⟨found, hfound, hholds⟩ := h mutex d hbefore
  by_cases hsame : d = c
  · subst hsame
    exact ⟨call, rest.setCall_self d call, hheld mutex found hbefore hfound hholds⟩
  · exact ⟨found, by rw [rest.setCall_of_ne hsame, hcalls, hfound], hholds⟩

/-- A call gets on and holds the same as before. -/
theorem keep (h : OwnersHold s) {startedAt : ℕ}
    (hcall : s.calls c = some ⟨request, startedAt, old⟩) (howner : rest.owner = s.owner)
    (hcalls : rest.calls = s.calls) (hheld : old.held? = new.held?) :
    OwnersHold (rest.setCall c ⟨request, startedAt, new⟩) := by
  refine h.setCall howner hcalls fun mutex found _ hfound hholds => ?_
  obtain rfl := Option.some.inj (hcall.symm.trans hfound)
  exact hheld.symm.trans hholds

/-- A call ends and gives its mutex back. -/
theorem release (h : OwnersHold s) {startedAt : ℕ}
    (hcall : s.calls c = some ⟨request, startedAt, old⟩) (hheld : old.held? = some mutex) :
    OwnersHold ((s.unlockSite mutex).setCall c ⟨request, startedAt, new⟩) := by
  intro other d hd
  have hd : Function.update s.owner mutex none other = some d := hd
  by_cases hother : other = mutex
  · rw [hother, Function.update_self] at hd
    cases hd
  · rw [Function.update_of_ne hother] at hd
    obtain ⟨found, hfound, hholds⟩ := h other d hd
    have hne : d ≠ c := by
      rintro rfl
      obtain rfl := Option.some.inj (hcall.symm.trans hfound)
      exact hother (Option.some.inj (hholds.symm.trans hheld))
    exact ⟨found, (State.setCall_of_ne _ hne _).trans hfound, hholds⟩

/-- A call takes a mutex that nobody holds. -/
theorem lockSite (h : OwnersHold s) {startedAt : ℕ}
    (hcall : s.calls c = some ⟨request, startedAt, .waiting mutex⟩) :
    OwnersHold ((s.lockSite mutex c).setCall c ⟨request, startedAt, .locked mutex⟩) := by
  intro other d hd
  have hd : Function.update s.owner mutex (some c) other = some d := hd
  by_cases hother : other = mutex
  · rw [hother, Function.update_self] at hd
    obtain rfl := Option.some.inj hd
    exact ⟨_, State.setCall_self _ _ _, congrArg some hother.symm⟩
  · rw [Function.update_of_ne hother] at hd
    obtain ⟨found, hfound, hholds⟩ := h other d hd
    have hne : d ≠ c := by
      rintro rfl
      obtain rfl := Option.some.inj (hcall.symm.trans hfound)
      cases hholds
    exact ⟨found, (State.setCall_of_ne _ hne _).trans hfound, hholds⟩

theorem moves (h : OwnersHold s) (hmoves : Moves config s label next) : OwnersHold next := by
  cases hmoves with
  | @call c request hcall =>
      refine h.setCall rfl rfl fun mutex found _ hfound _ => ?_
      rw [hcall] at hfound
      cases hfound
  | advance hcall hadvance =>
      cases hadvance with
      | oldMutex _ => exact h.keep hcall rfl rfl rfl
      | newMutex _ => exact h.keep hcall rfl rfl rfl
      | lockSite _ => exact h.lockSite hcall
      | refused _ => exact h.release hcall rfl
      | hit _ => exact h.release hcall rfl
      | miss _ => exact h.keep hcall rfl rfl rfl
      | readFeed => exact h.keep hcall rfl rfl rfl
      | loadFailed _ => exact h.release hcall rfl
      | construct _ => exact h.keep hcall rfl rfl rfl
      | store => exact h.keep hcall rfl rfl rfl
      | invalid _ => exact h.release hcall rfl
      | valid _ => exact h.release hcall rfl
  | changeFeed => exact h
  | reloadBegin _ => exact h
  | reloadSite _ => exact h

end OwnersHold

/-! ## What a call can do next -/

/-- The call can take a step. -/
def CanStep (config : Config) (s : State) (c : ℕ) : Prop :=
  ∃ label, label.caller? = some c ∧ (step config s label).isSome

/-- A transfer that has failed: `readFeed` and `construct` work with any. -/
def noTransfer : Transfer := ⟨true, ⟨[], 0⟩, none⟩

/-- A call that is not waiting for its mutex can go on. -/
theorem canStep_of_not_waiting {call : Call} (hcall : s.calls c = some call)
    (hended : ¬ call.progress.Ended) (hwaiting : ∀ mutex, call.progress ≠ .waiting mutex) :
    CanStep config s c := by
  obtain ⟨request, startedAt, progress⟩ := call
  cases progress with
  | entered =>
      refine ⟨.getSiteMutex c, rfl, ?_⟩
      cases hmutex : s.siteMutexes request.key <;> simp [step, act, hcall, hmutex]
  | waiting mutex => exact absurd rfl (hwaiting mutex)
  | locked mutex =>
      refine ⟨.getSite c, rfl, ?_⟩
      cases hget : s.sites.getSite config request.key request.secretKey with
      | error fault => simp [step, act, hcall, hget]
      | ok found => cases found <;> simp [step, act, hcall, hget]
  | missed mutex => exact ⟨.readFeed c noTransfer, rfl, by simp [step, act, hcall]⟩
  | fetched mutex xml =>
      refine ⟨.construct c noTransfer, rfl, ?_⟩
      cases hnew : Site.new config s.nextAddress request.subdomain request.stagingMode
        noTransfer xml <;> simp [step, act, hcall, hnew]
  | constructed mutex site => exact ⟨.store c, rfl, by simp [step, act, hcall]⟩
  | stored mutex site =>
      refine ⟨.validate c, rfl, ?_⟩
      cases hkey : site.validateSecretKey config request.secretKey <;> simp [step, act, hcall, hkey]
  | returned site => exact absurd trivial hended
  | threw fault => exact absurd trivial hended

/-- A call that waits can go on, or it waits for a call for the same Site that can. -/
theorem canStep_of_waiting (hinv : MutexInvariant s) (howners : OwnersHold s)
    {call : Call} (hcall : s.calls c = some call) (hwaiting : call.progress = .waiting mutex) :
    CanStep config s c ∨
      ∃ d holder, s.owner mutex = some d ∧ s.calls d = some holder ∧
        holder.request.key = call.request.key ∧ CanStep config s d := by
  cases howner : s.owner mutex with
  | none =>
      obtain ⟨request, startedAt, progress⟩ := call
      obtain rfl : progress = .waiting mutex := hwaiting
      exact Or.inl ⟨.lockSite c, rfl, by simp [step, act, hcall, howner]⟩
  | some d =>
      obtain ⟨holder, hholder, hheld⟩ := howners mutex d howner
      -- both calls have their mutex from the table, which files it under one key only
      have hfiled := hinv.filed c call mutex hcall (by rw [hwaiting]; rfl)
      have hfiled' := hinv.filed d holder mutex hholder (Progress.mutex?_of_held? hheld)
      refine Or.inr ⟨d, holder, rfl, hholder, hinv.injective _ _ mutex hfiled' hfiled, ?_⟩
      refine canStep_of_not_waiting hholder (fun hended => ?_) fun other hother => ?_
      · cases hprogress : holder.progress <;> simp_all [Progress.Ended, Progress.held?]
      · rw [hother] at hheld
        cases hheld

/-! ## How many steps a call takes -/

/-- How many steps a call may have taken, if it has begun. -/
def State.rank (s : State) (c : ℕ) : ℕ := (s.calls c).elim 0 fun call => call.progress.rank

theorem State.rank_le (s : State) (c : ℕ) : s.rank c ≤ 7 := by
  unfold rank
  cases s.calls c with
  | none => exact Nat.zero_le 7
  | some call => exact call.progress.rank_le

theorem State.rank_eq {call : Call} (hcall : s.calls c = some call) :
    s.rank c = call.progress.rank := by
  simp [rank, hcall]

theorem Moves.rank_le (h : Moves config s label next) (c : ℕ) : s.rank c ≤ next.rank c := by
  cases hcall : s.calls c with
  | none => simp [State.rank, hcall]
  | some call =>
      rw [State.rank_eq hcall]
      cases h with
      | @call d request hnone =>
          have hne : c ≠ d := by rintro rfl; simp [hnone] at hcall
          rw [State.rank_eq ((s.setCall_of_ne hne _).trans hcall)]
      | @advance d startedAt request _ old new rest hfound hadvance =>
          by_cases hsame : c = d
          · subst hsame
            obtain rfl := Option.some.inj (hfound.symm.trans hcall)
            rw [State.rank_eq (rest.setCall_self c _)]
            exact hadvance.rank_lt.le
          · rw [State.rank_eq ((rest.setCall_of_ne hsame _).trans (hadvance.calls_eq ▸ hcall))]
      | changeFeed => exact (State.rank_eq hcall).ge
      | reloadBegin _ => exact (State.rank_eq hcall).ge
      | reloadSite _ => exact (State.rank_eq hcall).ge

theorem Moves.rank_lt (h : Moves config s label next) (hcaller : label.caller? = some c) :
    s.rank c < next.rank c := by
  cases h with
  | @advance d startedAt request _ old new rest hfound hadvance =>
      obtain rfl : d = c := Option.some.inj (hadvance.caller.symm.trans hcaller)
      rw [State.rank_eq hfound, State.rank_eq (rest.setCall_self d _)]
      exact hadvance.rank_lt
  | _ => cases hcaller

theorem steps_of_call_le {feeds : Str → Object} {labels : List Label}
    (hrun : run (step config) (State.initial feeds) labels = some s) (c : ℕ) :
    labels.countP (fun label => label.caller? = some c) ≤ 7 := by
  have hcount := countP_le_of_raised (fun s => s.rank c) (fun label => label.caller? = some c)
    (fun s label next hstep => ?_) (fun s label next hstep hcaller => ?_) hrun
  · calc
      labels.countP (fun label => label.caller? = some c)
          ≤ (State.initial feeds).rank c + labels.countP (fun label => label.caller? = some c) :=
        Nat.le_add_left _ _
      _ ≤ s.rank c := hcount
      _ ≤ 7 := s.rank_le c
  · obtain ⟨moved, hmoves, rfl⟩ := moves_of_step hstep
    exact hmoves.rank_le c
  · obtain ⟨moved, hmoves, rfl⟩ := moves_of_step hstep
    exact hmoves.rank_lt (of_decide_eq_true hcaller)

/-- In every interleaving of `getSite` calls, feed changes and reloads, a call that has not
ended can take a step, or it waits for the mutex of its Site while a call for the same Site holds
it and can take a step; and no call takes more than seven steps. -/
theorem getSite_goes_on (config : Config) (feeds : Str → Object) {labels : List Label} {s : State}
    (hrun : run (step config) (State.initial feeds) labels = some s) :
    (∀ c call, s.calls c = some call → ¬ call.progress.Ended →
      CanStep config s c ∨
        ∃ mutex d holder, call.progress = .waiting mutex ∧ s.owner mutex = some d ∧
          s.calls d = some holder ∧ holder.request.key = call.request.key ∧
            CanStep config s d) ∧
      ∀ c, labels.countP (fun label => label.caller? = some c) ≤ 7 := by
  have hstep : ∀ s label next, MutexInvariant s ∧ OwnersHold s → step config s label = some next →
      MutexInvariant next ∧ OwnersHold next := by
    rintro s label next ⟨hinv, howners⟩ hstep
    obtain ⟨moved, hmoves, rfl⟩ := moves_of_step hstep
    have hmutex := hinv.moves hmoves
    have hheld : OwnersHold moved := howners.moves hmoves
    exact ⟨⟨hmutex.allocated, hmutex.injective, hmutex.filed, hmutex.owned⟩, hheld⟩
  obtain ⟨hinv, howners⟩ := invariant hstep
    ⟨MutexInvariant.initial feeds, OwnersHold.initial feeds⟩ hrun
  refine ⟨fun c call hcall hended => ?_, steps_of_call_le hrun⟩
  by_cases hwaiting : ∃ mutex, call.progress = .waiting mutex
  · obtain ⟨mutex, hwaiting⟩ := hwaiting
    refine (canStep_of_waiting hinv howners hcall hwaiting).imp id ?_
    rintro ⟨d, holder, howner, hholder, hkey, hgoes⟩
    exact ⟨mutex, d, holder, hwaiting, howner, hholder, hkey, hgoes⟩
  · exact Or.inl (canStep_of_not_waiting hcall hended fun mutex h => hwaiting ⟨mutex, h⟩)

/-- The second call waits while the first one reads the feed. -/
theorem getSite_goes_on_twoCalls :
    ∃ s, run (step loadingConfig) (State.initial fun _ => ⟨"<website/>", 1⟩)
        (twoCalls.take 7) = some s ∧
      (CanStep loadingConfig s 1 ∨
        ∃ mutex d holder, (Progress.waiting 0) = .waiting mutex ∧ s.owner mutex = some d ∧
          s.calls d = some holder ∧ holder.request.key = "shop" ∧ CanStep loadingConfig s d) := by
  have hrun : run (step loadingConfig) (State.initial fun _ => ⟨"<website/>", 1⟩)
      (twoCalls.take 7) = some _ := rfl
  exact ⟨_, hrun, (getSite_goes_on loadingConfig _ hrun).1 1
    ⟨⟨"shop", "key", false⟩, 1, .waiting 0⟩ rfl id⟩

end VaeDb.Server
