import VaeDb.Server.Reload

/-!
# The bus

`Bus::run` receives the names of subdomains, one message after the other.  It calls `reloadSite`
itself, then starts a thread that calls it once more, and keeps the threads in a vector.  Before
it starts a thread it goes through the vector and deletes the threads that have come to their end.

The loop, its threads, the `getSite` calls of the server and the changes of the feeds interleave
in any order.  One step of the bus is

```text
recv            subscriber.recv(&update)
reloadBegin     _server->reloadSite(subdomain) is called
reloadSite      and it erases the Sites and returns
timedJoin       one round of the loop over the threads
pushBack        threads.push_back(new boost::thread(&Bus::reload, this, subdomain))
```

and a thread takes the steps `threadBegin`, `threadReload` and `threadReturn`.  Calls of
`reloadSite` are numbered for the protocol of the server: message `n` is reloaded by the loop as
`2 * n` and by its thread as `2 * n + 1`.
-/

namespace VaeDb.Bus

open Transition
open Server (Config Object loadingConfig)

/-! ## The loop and its threads -/

/-- How far `run` has got with a message, and where its iterator stands. -/
inductive Loop
  | receiving
  | received (subdomain : Str)
  | reloading (subdomain : Str)
  | joining (subdomain : Str) (it : ℕ)
  deriving DecidableEq

/-- How far a thread has got with `Bus::reload`. -/
inductive Stage
  | started
  | reloading
  | reloaded
  | finished
  deriving DecidableEq

/-- A thread and the argument that is bound to it. -/
structure Thread where
  subdomain : Str
  stage : Stage

/-- The server and the bus: the variables of `run`, the threads that were ever started, and
which of them were deleted.  The last is history. -/
structure State where
  server : Server.State
  loop : Loop
  threads : List ℕ
  started : List Thread
  deleted : List ℕ

/-- The bus after its constructor. -/
def State.initial (feeds : Str → Object) : State where
  server := .initial feeds
  loop := .receiving
  threads := []
  started := []
  deleted := []

/-- Who moves, and what arrives. -/
inductive Label
  | recv (subdomain : Str)
  | reloadBegin
  | reloadSite
  | timedJoin
  | pushBack
  | threadBegin (n : ℕ)
  | threadReload (n : ℕ)
  | threadReturn (n : ℕ)
  | server (label : Server.Label)

/-- The calls of `reloadSite` that the loop and a thread make for one message. -/
def ownReload (n : ℕ) : ℕ := 2 * n

def threadReload (n : ℕ) : ℕ := 2 * n + 1

namespace State

/-- A thread gets on, and the server with it. -/
def setThread (s : State) (n : ℕ) (thread : Thread) (server : Server.State) : State :=
  { s with server, started := s.started.set n thread }

end State

/-- A step of the server that neither the loop nor a thread takes: `getSite` calls and changes of
feeds. -/
def Outside : Server.Label → Prop
  | .reloadBegin _ _ | .reloadSite _ => False
  | _ => True

instance : DecidablePred Outside := fun label => by
  cases label <;> unfold Outside <;> infer_instance

/-- One step of the bus and the server. -/
def step (config : Config) (s : State) : Label → Option State
  | .recv subdomain =>
      match s.loop with
      | .receiving => some { s with loop := .received subdomain }
      | _ => none
  | .reloadBegin =>
      match s.loop with
      | .received subdomain =>
          (Server.step config s.server (.reloadBegin (ownReload s.started.length) subdomain)).map
            fun server => { s with server, loop := .reloading subdomain }
      | _ => none
  | .reloadSite =>
      match s.loop with
      | .reloading subdomain =>
          (Server.step config s.server (.reloadSite (ownReload s.started.length))).map
            fun server => { s with server, loop := .joining subdomain 0 }
      | _ => none
  | .timedJoin =>
      match s.loop with
      | .joining subdomain it =>
          match s.threads[it]? with
          | some n =>
              match s.started[n]? with
              | some thread =>
                  -- `timed_join` with no time to wait: whether the thread has come to its end
                  if thread.stage = .finished then
                    some { s with threads := s.threads.eraseIdx it, deleted := s.deleted ++ [n] }
                  else some { s with loop := .joining subdomain (it + 1) }
              | none => none
          | none => none
      | _ => none
  | .pushBack =>
      match s.loop with
      | .joining subdomain it =>
          match s.threads[it]? with
          | some _ => none
          | none =>
              some { s with
                loop := .receiving
                threads := s.threads ++ [s.started.length]
                started := s.started ++ [⟨subdomain, .started⟩] }
      | _ => none
  | .threadBegin n =>
      match s.started[n]? with
      | some ⟨subdomain, .started⟩ =>
          (Server.step config s.server (.reloadBegin (threadReload n) subdomain)).map
            (s.setThread n ⟨subdomain, .reloading⟩)
      | _ => none
  | .threadReload n =>
      match s.started[n]? with
      | some ⟨subdomain, .reloading⟩ =>
          (Server.step config s.server (.reloadSite (threadReload n))).map
            (s.setThread n ⟨subdomain, .reloaded⟩)
      | _ => none
  | .threadReturn n =>
      match s.started[n]? with
      | some ⟨subdomain, .reloaded⟩ =>
          some (s.setThread n ⟨subdomain, .finished⟩ s.server)
      | _ => none
  | .server label =>
      if Outside label then
        (Server.step config s.server label).map fun server => { s with server }
      else none

/-! ## What a step can do

As for the server, `Moves` lists the steps one by one, and the invariants are proved by cases on
it. -/

/-- What a step with a label can lead to. -/
inductive Moves (config : Config) (s : State) : Label → State → Prop
  | recv {subdomain : Str} (hloop : s.loop = .receiving) :
      Moves config s (.recv subdomain) { s with loop := .received subdomain }
  | reloadBegin {subdomain : Str} {server : Server.State} (hloop : s.loop = .received subdomain)
      (hserver : Server.step config s.server
        (.reloadBegin (ownReload s.started.length) subdomain) = some server) :
      Moves config s .reloadBegin { s with server, loop := .reloading subdomain }
  | reloadSite {subdomain : Str} {server : Server.State} (hloop : s.loop = .reloading subdomain)
      (hserver : Server.step config s.server (.reloadSite (ownReload s.started.length)) =
        some server) :
      Moves config s .reloadSite { s with server, loop := .joining subdomain 0 }
  | joined {subdomain : Str} {it n : ℕ} {thread : Thread} (hloop : s.loop = .joining subdomain it)
      (hn : s.threads[it]? = some n) (hthread : s.started[n]? = some thread)
      (hfinished : thread.stage = .finished) :
      Moves config s .timedJoin
        { s with threads := s.threads.eraseIdx it, deleted := s.deleted ++ [n] }
  | notJoined {subdomain : Str} {it n : ℕ} {thread : Thread}
      (hloop : s.loop = .joining subdomain it) (hn : s.threads[it]? = some n)
      (hthread : s.started[n]? = some thread) (hrunning : thread.stage ≠ .finished) :
      Moves config s .timedJoin { s with loop := .joining subdomain (it + 1) }
  | pushBack {subdomain : Str} {it : ℕ} (hloop : s.loop = .joining subdomain it)
      (hend : s.threads[it]? = none) :
      Moves config s .pushBack { s with
        loop := .receiving
        threads := s.threads ++ [s.started.length]
        started := s.started ++ [⟨subdomain, .started⟩] }
  | threadBegin {n : ℕ} {subdomain : Str} {server : Server.State}
      (hthread : s.started[n]? = some ⟨subdomain, .started⟩)
      (hserver : Server.step config s.server (.reloadBegin (threadReload n) subdomain) =
        some server) :
      Moves config s (.threadBegin n) (s.setThread n ⟨subdomain, .reloading⟩ server)
  | threadReload {n : ℕ} {subdomain : Str} {server : Server.State}
      (hthread : s.started[n]? = some ⟨subdomain, .reloading⟩)
      (hserver : Server.step config s.server (.reloadSite (threadReload n)) = some server) :
      Moves config s (.threadReload n) (s.setThread n ⟨subdomain, .reloaded⟩ server)
  | threadReturn {n : ℕ} {subdomain : Str}
      (hthread : s.started[n]? = some ⟨subdomain, .reloaded⟩) :
      Moves config s (.threadReturn n) (s.setThread n ⟨subdomain, .finished⟩ s.server)
  | server {label : Server.Label} {server : Server.State} (houtside : Outside label)
      (hserver : Server.step config s.server label = some server) :
      Moves config s (.server label) { s with server }

theorem moves_of_step {config : Config} {s next : State} {label : Label}
    (h : step config s label = some next) : Moves config s label next := by
  cases label with
  | recv subdomain =>
      simp only [step] at h
      split at h
      · next hloop => exact Option.some.inj h ▸ .recv hloop
      · contradiction
  | reloadBegin =>
      simp only [step] at h
      split at h
      · next hloop =>
        obtain ⟨server, hserver, rfl⟩ := Option.map_eq_some_iff.1 h
        exact .reloadBegin hloop hserver
      · contradiction
  | reloadSite =>
      simp only [step] at h
      split at h
      · next hloop =>
        obtain ⟨server, hserver, rfl⟩ := Option.map_eq_some_iff.1 h
        exact .reloadSite hloop hserver
      · contradiction
  | timedJoin =>
      simp only [step] at h
      split at h
      · next hloop =>
        split at h
        · next hn =>
          split at h
          · next hthread =>
            split at h
            · next hfinished => exact Option.some.inj h ▸ .joined hloop hn hthread hfinished
            · next hrunning => exact Option.some.inj h ▸ .notJoined hloop hn hthread hrunning
          · contradiction
        · contradiction
      · contradiction
  | pushBack =>
      simp only [step] at h
      split at h
      · next hloop =>
        split at h
        · contradiction
        · next hend => exact Option.some.inj h ▸ .pushBack hloop hend
      · contradiction
  | threadBegin n =>
      simp only [step] at h
      split at h
      · next hthread =>
        obtain ⟨server, hserver, rfl⟩ := Option.map_eq_some_iff.1 h
        exact .threadBegin hthread hserver
      · contradiction
  | threadReload n =>
      simp only [step] at h
      split at h
      · next hthread =>
        obtain ⟨server, hserver, rfl⟩ := Option.map_eq_some_iff.1 h
        exact .threadReload hthread hserver
      · contradiction
  | threadReturn n =>
      simp only [step] at h
      split at h
      · next hthread => exact Option.some.inj h ▸ .threadReturn hthread
      · contradiction
  | server label =>
      simp only [step] at h
      split at h
      · next houtside =>
        obtain ⟨server, hserver, rfl⟩ := Option.map_eq_some_iff.1 h
        exact .server houtside hserver
      · contradiction

/-! ## The calls of `reloadSite`

The server keeps a table of all calls of `reloadSite`.  It never has an entry that the loop or a
thread does not account for, and what it says of a call is what the loop and the thread say. -/

/-- What is noted of a call of `reloadSite`: its argument, and whether it has returned. -/
def noted (reload : Option Server.Reload) : Option (Str × Bool) :=
  reload.map fun reload => (reload.subdomain, reload.returnedAt.isSome)

/-- The call that the loop makes for the message it works on. -/
def Loop.reload? : Loop → Option (Str × Bool)
  | .receiving | .received _ => none
  | .reloading subdomain => some (subdomain, false)
  | .joining subdomain _ => some (subdomain, true)

/-- The call that a thread makes. -/
def Thread.reload? (thread : Thread) : Option (Str × Bool) :=
  match thread.stage with
  | .started => none
  | .reloading => some (thread.subdomain, false)
  | .reloaded | .finished => some (thread.subdomain, true)

/-- The loop has reloaded every message that has a thread, its call for the message at hand and
the calls of the threads have got as far as they have, and there are no others. -/
structure Accounted (s : State) : Prop where
  own : ∀ n thread, s.started[n]? = some thread →
    noted (s.server.reloads (ownReload n)) = some (thread.subdomain, true)
  current : noted (s.server.reloads (ownReload s.started.length)) = s.loop.reload?
  thread : ∀ n thread, s.started[n]? = some thread →
    noted (s.server.reloads (threadReload n)) = thread.reload?
  beyond : ∀ r, ownReload s.started.length < r → s.server.reloads r = none

section

variable {config : Config} {server moved : Server.State} {label : Server.Label}

theorem reloads_of_outside (hserver : Server.step config server label = some moved)
    (houtside : Outside label) : moved.reloads = server.reloads := by
  obtain ⟨next, hmoves, rfl⟩ := Server.moves_of_step hserver
  cases hmoves with
  | advance _ hadvance => exact hadvance.reloads_eq
  | reloadBegin _ => exact houtside.elim
  | reloadSite _ => exact houtside.elim
  | _ => rfl

theorem reloads_of_reloadBegin {r : ℕ} {subdomain : Str}
    (hserver : Server.step config server (.reloadBegin r subdomain) = some moved) :
    (∀ q, q ≠ r → moved.reloads q = server.reloads q) ∧
      noted (moved.reloads r) = some (subdomain, false) := by
  obtain ⟨next, hmoves, rfl⟩ := Server.moves_of_step hserver
  cases hmoves with
  | advance _ hadvance => cases hadvance
  | reloadBegin _ =>
      refine ⟨fun q hq => Function.update_of_ne hq _ _, ?_⟩
      simp [Server.State.tick, noted]

theorem reloads_of_reloadSite {r : ℕ} {subdomain : Str}
    (hserver : Server.step config server (.reloadSite r) = some moved)
    (hbegun : noted (server.reloads r) = some (subdomain, false)) :
    (∀ q, q ≠ r → moved.reloads q = server.reloads q) ∧
      noted (moved.reloads r) = some (subdomain, true) := by
  obtain ⟨next, hmoves, rfl⟩ := Server.moves_of_step hserver
  cases hmoves with
  | advance _ hadvance => cases hadvance
  | reloadSite hreload =>
      refine ⟨fun q hq => Function.update_of_ne hq _ _, ?_⟩
      simp only [noted, hreload, Option.map_some, Option.some.injEq, Prod.mk.injEq] at hbegun
      simp [Server.State.tick, noted, hbegun.1]

end

namespace Accounted

variable {config : Config} {s next : State} {label : Label} {server : Server.State}

theorem initial (feeds : Str → Object) : Accounted (State.initial feeds) := by
  constructor <;> simp [State.initial, Server.State.initial, noted, Loop.reload?]

/-- The loop gets on with the message at hand. -/
theorem setLoop (h : Accounted s) {loop : Loop}
    (hkept : ∀ q, q ≠ ownReload s.started.length → server.reloads q = s.server.reloads q)
    (hcurrent : noted (server.reloads (ownReload s.started.length)) = loop.reload?) :
    Accounted { s with server, loop } where
  own := by
    intro n thread hthread
    have hlength : n < s.started.length := (List.getElem?_eq_some_iff.1 hthread).1
    have hne : ownReload n ≠ ownReload s.started.length := by unfold ownReload; omega
    exact (congrArg noted (hkept _ hne)).trans (h.own n thread hthread)
  current := hcurrent
  thread := by
    intro n thread hthread
    have hne : threadReload n ≠ ownReload s.started.length := by
      unfold threadReload ownReload; omega
    exact (congrArg noted (hkept _ hne)).trans (h.thread n thread hthread)
  beyond := by
    intro r hr
    exact (hkept r (Nat.ne_of_gt hr)).trans (h.beyond r hr)

/-- A thread gets on. -/
theorem setThread (h : Accounted s) {n : ℕ} {old new : Thread} (hn : s.started[n]? = some old)
    (hsubdomain : new.subdomain = old.subdomain)
    (hkept : ∀ q, q ≠ threadReload n → server.reloads q = s.server.reloads q)
    (hnew : noted (server.reloads (threadReload n)) = new.reload?) :
    Accounted (s.setThread n new server) := by
  have hlength := (List.getElem?_eq_some_iff.1 hn).1
  have hown : ∀ m, server.reloads (ownReload m) = s.server.reloads (ownReload m) := by
    intro m
    exact hkept _ (by unfold ownReload threadReload; omega)
  -- the calls of the thread are told apart from all others by their numbers
  have hstarted : ∀ m thread, (s.started.set n new)[m]? = some thread →
      m = n ∧ thread = new ∨ m ≠ n ∧ s.started[m]? = some thread := by
    intro m thread hthread
    by_cases hm : m = n
    · subst hm
      rw [List.getElem?_set_self hlength] at hthread
      exact Or.inl ⟨rfl, (Option.some.inj hthread).symm⟩
    · rw [List.getElem?_set_ne (Ne.symm hm)] at hthread
      exact Or.inr ⟨hm, hthread⟩
  refine ⟨fun m thread hthread => ?_, ?_, fun m thread hthread => ?_, fun r hr => ?_⟩
  · change noted (server.reloads (ownReload m)) = _
    rw [hown m]
    rcases hstarted m thread hthread with ⟨rfl, rfl⟩ | ⟨_, hbefore⟩
    · rw [h.own m old hn, hsubdomain]
    · exact h.own m thread hbefore
  · change noted (server.reloads (ownReload (s.started.set n new).length)) = s.loop.reload?
    rw [List.length_set, hown]
    exact h.current
  · rcases hstarted m thread hthread with ⟨rfl, rfl⟩ | ⟨hm, hbefore⟩
    · exact hnew
    · have hne : threadReload m ≠ threadReload n := by unfold threadReload; omega
      exact (congrArg noted (hkept _ hne)).trans (h.thread m thread hbefore)
  · have hr : ownReload s.started.length < r := by
      simpa [State.setThread] using hr
    exact (hkept r (by unfold ownReload threadReload at *; omega)).trans (h.beyond r hr)

/-- The message at hand gets its thread. -/
theorem pushBack (h : Accounted s) {subdomain : Str} {it : ℕ}
    (hloop : s.loop = .joining subdomain it) {threads : List ℕ} :
    Accounted { s with
      loop := .receiving, threads, started := s.started ++ [⟨subdomain, .started⟩] } := by
  have hcurrent := h.current
  rw [hloop] at hcurrent
  have hstarted : ∀ n thread, (s.started ++ [⟨subdomain, .started⟩])[n]? = some thread →
      s.started[n]? = some thread ∨ n = s.started.length ∧ thread = ⟨subdomain, .started⟩ := by
    intro n thread hthread
    rw [List.getElem?_append] at hthread
    split at hthread
    · exact Or.inl hthread
    · rw [List.getElem?_singleton] at hthread
      split at hthread
      · exact Or.inr ⟨by omega, (Option.some.inj hthread).symm⟩
      · cases hthread
  refine ⟨fun n thread hthread => ?_, ?_, fun n thread hthread => ?_, fun r hr => ?_⟩
  · rcases hstarted n thread hthread with hbefore | ⟨rfl, rfl⟩
    · exact h.own n thread hbefore
    · exact hcurrent
  · have hnone := h.beyond (ownReload (s.started.length + 1)) (by unfold ownReload; omega)
    simp [hnone, noted, Loop.reload?]
  · rcases hstarted n thread hthread with hbefore | ⟨rfl, rfl⟩
    · exact h.thread n thread hbefore
    · have hnone := h.beyond (threadReload s.started.length)
        (by unfold ownReload threadReload; omega)
      simp [hnone, noted, Thread.reload?]
  · refine h.beyond r ?_
    simp only [List.length_append, List.length_singleton] at hr
    unfold ownReload at *
    omega

theorem moves (h : Accounted s) (hmoves : Moves config s label next) : Accounted next := by
  cases hmoves with
  | recv hloop =>
      have hcurrent := h.current
      rw [hloop] at hcurrent
      exact h.setLoop (fun _ _ => rfl) hcurrent
  | reloadBegin hloop hserver =>
      obtain ⟨hkept, hcurrent⟩ := reloads_of_reloadBegin hserver
      exact h.setLoop hkept hcurrent
  | reloadSite hloop hserver =>
      have hbegun := h.current
      rw [hloop] at hbegun
      obtain ⟨hkept, hcurrent⟩ := reloads_of_reloadSite hserver hbegun
      exact h.setLoop hkept hcurrent
  | joined _ _ _ _ => exact ⟨h.own, h.current, h.thread, h.beyond⟩
  | notJoined hloop _ _ _ =>
      have hcurrent := h.current
      rw [hloop] at hcurrent
      exact h.setLoop (fun _ _ => rfl) hcurrent
  | pushBack hloop _ => exact h.pushBack hloop
  | threadBegin hthread hserver =>
      obtain ⟨hkept, hnew⟩ := reloads_of_reloadBegin hserver
      exact h.setThread hthread rfl hkept hnew
  | threadReload hthread hserver =>
      obtain ⟨hkept, hnew⟩ := reloads_of_reloadSite hserver (h.thread _ _ hthread)
      exact h.setThread hthread rfl hkept hnew
  | threadReturn hthread =>
      have hreload := h.thread _ _ hthread
      exact h.setThread hthread rfl (fun _ _ => rfl) hreload
  | server houtside hserver =>
      have hreloads := reloads_of_outside hserver houtside
      have hcurrent := h.current
      rw [← hreloads] at hcurrent
      exact h.setLoop (fun q _ => congrFun hreloads q) hcurrent

/-- A call of a thread comes after the call that the loop made for the same message. -/
theorem returned (h : Accounted s) {n : ℕ} {second : Server.Reload}
    (hsecond : s.server.reloads (threadReload n) = some second) :
    noted (s.server.reloads (ownReload n)) = some (second.subdomain, true) := by
  have hn : n < s.started.length := by
    by_contra hn
    rw [h.beyond (threadReload n) (by unfold ownReload threadReload; omega)] at hsecond
    cases hsecond
  have hthread : s.started[n]? = some s.started[n] := List.getElem?_eq_getElem hn
  have hreload := h.thread n _ hthread
  rw [hsecond] at hreload
  have hsubdomain : s.started[n].subdomain = second.subdomain := by
    unfold Thread.reload? at hreload
    split at hreload <;> simp_all [noted]
  exact hsubdomain ▸ h.own n _ hthread

end Accounted

/-! ## The order of the two calls -/

/-- Calls of `reloadSite` began with feeds that are still there or were replaced by newer ones,
and returned before now. -/
def Timely (server : Server.State) : Prop :=
  ∀ r reload, server.reloads r = some reload →
    (∀ d, reload.began d ≤ (server.feeds d).version) ∧
      ∀ t, reload.returnedAt = some t → t < server.time

/-- The thread of a message calls `reloadSite` after the loop's call for it has returned. -/
def InOrder (server : Server.State) : Prop :=
  ∀ n first second, server.reloads (ownReload n) = some first →
    server.reloads (threadReload n) = some second →
      ∃ t, first.returnedAt = some t ∧ (∀ d, first.began d ≤ second.began d) ∧
        ∀ later, second.returnedAt = some later → t < later

section

variable {config : Config} {server moved : Server.State} {label : Server.Label}

theorem Timely.step (h : Timely server) (hserver : Server.step config server label = some moved) :
    Timely moved := by
  obtain ⟨next, hmoves, rfl⟩ := Server.moves_of_step hserver
  have htime := hmoves.time_eq
  intro r reload hreload
  have hfeeds : ∀ d, (server.feeds d).version ≤ (next.feeds d).version := hmoves.feeds_le
  change (∀ d, reload.began d ≤ (next.feeds d).version) ∧
    ∀ t, reload.returnedAt = some t → t < next.time + 1
  rw [htime]
  rcases hmoves.reload_origin hreload with hold | ⟨hbegan, hnone⟩ | ⟨_, hold, hreturned⟩
  · refine ⟨fun d => ((h r reload hold).1 d).trans (hfeeds d), fun t ht => ?_⟩
    exact Nat.lt_succ_of_lt ((h r reload hold).2 t ht)
  · refine ⟨fun d => hbegan ▸ hfeeds d, fun t ht => ?_⟩
    rw [hnone] at ht
    cases ht
  · refine ⟨fun d => ((h r _ hold).1 d).trans (hfeeds d), fun t ht => ?_⟩
    rw [hreturned] at ht
    cases ht
    exact Nat.lt_succ_self _

theorem InOrder.step (h : InOrder server) (htimely : Timely server)
    (hserver : Server.step config server label = some moved)
    (hreturned : ∀ n second, moved.reloads (threadReload n) = some second →
      noted (moved.reloads (ownReload n)) = some (second.subdomain, true)) : InOrder moved := by
  obtain ⟨next, hmoves, rfl⟩ := Server.moves_of_step hserver
  intro n first second hfirst hsecond
  have hdone := hreturned n second hsecond
  rw [hfirst] at hdone
  obtain ⟨t, ht⟩ : ∃ t, first.returnedAt = some t := by
    simp only [noted, Option.map_some, Option.some.injEq, Prod.mk.injEq] at hdone
    exact Option.isSome_iff_exists.1 hdone.2
  refine ⟨t, ht, ?_⟩
  rcases hmoves.reload_origin hfirst with hold | ⟨_, hnone⟩ | ⟨hlabel, hold, hnow⟩
  · rcases hmoves.reload_origin hsecond with hbefore | ⟨hbegan, hnone⟩ | ⟨_, hbefore, hnow⟩
    · obtain ⟨t', ht', horder⟩ := h n first second hold hbefore
      obtain rfl := Option.some.inj (ht'.symm.trans ht)
      exact horder
    · refine ⟨fun d => hbegan ▸ (htimely _ first hold).1 d, fun later hlater => ?_⟩
      rw [hnone] at hlater
      cases hlater
    · obtain ⟨t', ht', hbegan, _⟩ := h n first _ hold hbefore
      refine ⟨hbegan, fun later hlater => ?_⟩
      obtain rfl := Option.some.inj (hnow.symm.trans hlater)
      exact (htimely _ first hold).2 t ht
  · rw [hnone] at ht
    cases ht
  · -- the loop's call returns now, so the thread is not there yet or begins now
    rcases hmoves.reload_origin hsecond with hbefore | ⟨hbegan, hnone⟩ | ⟨hlabel', _, _⟩
    · obtain ⟨t', ht', _⟩ := h n _ second hold hbefore
      cases ht'
    · refine ⟨fun d => hbegan ▸ (htimely _ _ hold).1 d, fun later hlater => ?_⟩
      rw [hnone] at hlater
      cases hlater
    · have hsame : ownReload n = threadReload n := by
        rw [hlabel] at hlabel'
        exact Server.Label.reloadSite.inj hlabel'
      unfold ownReload threadReload at hsame
      omega

end

/-! ## The bus as a part of the server -/

/-- The step of the server that is not the bus's own. -/
def Label.outside? : Label → Option Server.Label
  | .server label => some label
  | _ => none

/-- What the bus does to the server is a step of the server's protocol, or nothing. -/
theorem Moves.server_eq {config : Config} {s next : State} {label : Label}
    (h : Moves config s label next) :
    (next.server = s.server ∧ label.outside? = none) ∨
      ∃ served, Server.step config s.server served = some next.server ∧
        [served].filter Outside = label.outside?.toList := by
  cases h with
  | reloadBegin _ hserver => exact Or.inr ⟨_, hserver, rfl⟩
  | reloadSite _ hserver => exact Or.inr ⟨_, hserver, rfl⟩
  | threadBegin _ hserver => exact Or.inr ⟨_, hserver, rfl⟩
  | threadReload _ hserver => exact Or.inr ⟨_, hserver, rfl⟩
  | server houtside hserver =>
      refine Or.inr ⟨_, hserver, ?_⟩
      simp [houtside, Label.outside?]
  | _ => exact Or.inl ⟨rfl, rfl⟩

theorem run_served {config : Config} {s final : State} {labels : List Label}
    (hrun : run (step config) s labels = some final) :
    ∃ served, run (Server.step config) s.server served = some final.server ∧
      served.filter Outside = labels.filterMap Label.outside? := by
  induction labels generalizing s with
  | nil =>
      simp only [run_nil, Option.some.injEq] at hrun
      exact ⟨[], by simp [hrun], rfl⟩
  | cons label rest ih =>
      obtain ⟨next, hnext, hrest⟩ := run_cons_eq_some.1 hrun
      obtain ⟨later, hlater, hlabels⟩ := ih hrest
      rcases (moves_of_step hnext).server_eq with ⟨hsame, hlabel⟩ | ⟨served, hserver, hlabel⟩
      · exact ⟨later, hsame ▸ hlater, by simp [hlabels, hlabel]⟩
      · refine ⟨served :: later, run_cons_eq_some.2 ⟨_, hserver, hlater⟩, ?_⟩
        rw [← List.singleton_append, List.filter_append, hlabel, hlabels]
        cases houtside : label.outside? <;> simp [houtside]

/-- In every interleaving of the bus with its threads, `getSite` calls and changes of feeds, the
server goes through a run of its own protocol with the same calls and changes; its calls of
`reloadSite` are those that the loop and the threads account for, two for every message whose
thread has come to its end; and the second one begins after the first has returned. -/
theorem run_reloads (config : Config) (feeds : Str → Object) {labels : List Label} {s : State}
    (hrun : run (step config) (State.initial feeds) labels = some s) :
    (∃ served, run (Server.step config) (.initial feeds) served = some s.server ∧
      served.filter Outside = labels.filterMap Label.outside?) ∧
      Accounted s ∧ InOrder s.server := by
  have hstep : ∀ s label next,
      Accounted s ∧ Timely s.server ∧ InOrder s.server → step config s label = some next →
        Accounted next ∧ Timely next.server ∧ InOrder next.server := by
    rintro s label next ⟨haccounted, htimely, horder⟩ hstep
    have hmoves := moves_of_step hstep
    have hnext := haccounted.moves hmoves
    refine ⟨hnext, ?_⟩
    rcases hmoves.server_eq with ⟨hsame, _⟩ | ⟨served, hserver, _⟩
    · exact hsame ▸ ⟨htimely, horder⟩
    · exact ⟨htimely.step hserver, horder.step htimely hserver fun n _ => hnext.returned⟩
  have hinv := invariant hstep ⟨Accounted.initial feeds, ?_, ?_⟩ hrun
  · exact ⟨run_served hrun, hinv.1, hinv.2.2⟩
  · rintro r reload ⟨⟩
  · rintro n first second ⟨⟩

/-- A message is reloaded twice while a call loads the Site. -/
def oneMessage : List Label :=
  [.recv "shop", .reloadBegin, .server (.call 0 ⟨"shop", "key", false⟩), .reloadSite, .pushBack,
    .threadBegin 0, .server (.getSiteMutex 0), .threadReload 0, .threadReturn 0]

theorem run_reloads_oneMessage :
    ∃ s, run (step loadingConfig) (State.initial fun _ => ⟨"<website/>", 1⟩) oneMessage = some s ∧
      noted (s.server.reloads 0) = some (("shop" : Str), true) ∧
        noted (s.server.reloads 1) = some (("shop" : Str), true) := by
  have hrun : run (step loadingConfig) (State.initial fun _ => ⟨"<website/>", 1⟩) oneMessage =
      some _ := rfl
  have haccounted := (run_reloads loadingConfig _ hrun).2.1
  exact ⟨_, hrun, haccounted.own 0 ⟨"shop", .finished⟩ rfl,
    haccounted.thread 0 ⟨"shop", .finished⟩ rfl⟩

end VaeDb.Bus
