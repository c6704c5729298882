import VaeDb.Server.Bus
import Mathlib.Data.List.Nodup

/-!
# The threads of the bus

`Bus::run` never waits for a thread: `timed_join` with no time to wait says whether the thread has
come to its end, and the loop deletes those that have.  Threads are started in the order of the
messages and end in any order, so the vector loses elements in the middle; `Kept` says what is in
it.  A thread is left in the vector by one pass over it at most: if it had come to its end before
the pass, the iterator cannot get past it (`Leaving`).
-/

namespace VaeDb.Bus

open Transition
open Server (Config Object loadingConfig)

/-! ## The vector of threads -/

/-- The thread has come to its end. -/
def State.Finished (s : State) (n : ℕ) : Prop :=
  ∃ thread, s.started[n]? = some thread ∧ thread.stage = .finished

/-- The vector holds the threads that were started and not deleted, in the order in which they
were started; none is deleted twice, and none before it has come to its end. -/
structure Kept (s : State) : Prop where
  ordered : s.threads.Pairwise (· < ·)
  mem_iff : ∀ n, n ∈ s.threads ↔ n < s.started.length ∧ n ∉ s.deleted
  once : s.deleted.Nodup
  ended : ∀ n ∈ s.deleted, s.Finished n

section

variable {config : Config} {s next : State} {label : Label}

theorem State.Finished.lt {n : ℕ} (h : s.Finished n) : n < s.started.length := by
  obtain ⟨thread, hthread, _⟩ := h
  exact (List.getElem?_eq_some_iff.1 hthread).1

/-- A thread that has come to its end takes no step. -/
theorem State.Finished.set {n m : ℕ} (h : s.Finished n) {old new : Thread}
    (hm : s.started[m]? = some old) (hold : old.stage ≠ .finished) :
    ∃ thread, (s.started.set m new)[n]? = some thread ∧ thread.stage = .finished := by
  obtain ⟨thread, hthread, hfinished⟩ := h
  have hne : m ≠ n := by
    rintro rfl
    obtain rfl := Option.some.inj (hm.symm.trans hthread)
    exact hold hfinished
  exact ⟨thread, by rw [List.getElem?_set_ne hne, hthread], hfinished⟩

theorem Moves.finished (h : Moves config s label next) {n : ℕ} (hn : s.Finished n) :
    next.Finished n := by
  cases h with
  | pushBack _ _ =>
      have hlt := hn.lt
      obtain ⟨thread, hthread, hfinished⟩ := hn
      exact ⟨thread, (List.getElem?_append_left hlt).trans hthread, hfinished⟩
  | threadBegin hthread _ => exact hn.set hthread (by simp)
  | threadReload hthread _ => exact hn.set hthread (by simp)
  | threadReturn hthread => exact hn.set hthread (by simp)
  | _ => exact hn

namespace Kept

theorem initial (feeds : Str → Object) : Kept (State.initial feeds) := by
  constructor <;> simp [State.initial]

/-- Threads get on. -/
theorem of_started (h : Kept s) (hthreads : next.threads = s.threads)
    (hdeleted : next.deleted = s.deleted) (hlength : next.started.length = s.started.length)
    (hfinished : ∀ n, s.Finished n → next.Finished n) : Kept next where
  ordered := hthreads ▸ h.ordered
  mem_iff := by
    intro n
    rw [hthreads, hdeleted, hlength]
    exact h.mem_iff n
  once := hdeleted ▸ h.once
  ended := fun n hn => hfinished n (h.ended n (hdeleted ▸ hn))

/-- The iterator is on a thread that has come to its end, and it is deleted. -/
theorem join (h : Kept s) {it n : ℕ} (hn : s.threads[it]? = some n) (hfinished : s.Finished n) :
    Kept { s with threads := s.threads.eraseIdx it, deleted := s.deleted ++ [n] } := by
  -- a number is in the vector at most once, so deleting at the iterator deletes it
  have hmem : n ∈ s.threads := List.mem_of_getElem? hn
  have hnodup : s.threads.Nodup := h.ordered.imp fun hlt => Nat.ne_of_lt hlt
  have hfresh : n ∉ s.deleted := ((h.mem_iff n).1 hmem).2
  obtain ⟨hit, hget⟩ := List.getElem?_eq_some_iff.1 hn
  refine ⟨h.ordered.sublist (List.eraseIdx_sublist ..), fun m => ?_, ?_, fun m hm => ?_⟩
  · have herase : s.threads.eraseIdx it = s.threads.erase n := by
      rw [← hget, hnodup.erase_getElem it hit]
    change m ∈ s.threads.eraseIdx it ↔ m < s.started.length ∧ m ∉ s.deleted ++ [n]
    rw [herase, hnodup.mem_erase_iff, h.mem_iff]
    simp only [List.mem_append, List.mem_singleton, not_or]
    tauto
  · rw [List.nodup_append]
    refine ⟨h.once, List.pairwise_singleton _ n, fun a ha b hb => ?_⟩
    obtain rfl := List.mem_singleton.1 hb
    rintro rfl
    exact hfresh ha
  · rcases List.mem_append.1 hm with hold | hnew
    · exact h.ended m hold
    · obtain rfl := List.mem_singleton.1 hnew
      exact hfinished

/-- The new thread comes last. -/
theorem pushBack (h : Kept s) {loop : Loop} {thread : Thread} :
    Kept { s with
      loop, threads := s.threads ++ [s.started.length], started := s.started ++ [thread] } := by
  refine ⟨?_, fun n => ?_, h.once, fun n hn => ?_⟩
  · refine List.pairwise_append.2 ⟨h.ordered, List.pairwise_singleton _ _, fun a ha b hb => ?_⟩
    rw [List.mem_singleton.1 hb]
    exact ((h.mem_iff a).1 ha).1
  · simp only [List.mem_append, List.mem_singleton, h.mem_iff, List.length_append,
      List.length_singleton]
    have hnew : s.started.length ∉ s.deleted := fun hmem => Nat.lt_irrefl _ (h.ended _ hmem).lt
    constructor
    · rintro (⟨hlt, hkept⟩ | rfl)
      · exact ⟨by omega, hkept⟩
      · exact ⟨by omega, hnew⟩
    · rintro ⟨hlt, hkept⟩
      by_cases hn : n = s.started.length
      · exact Or.inr hn
      · exact Or.inl ⟨by omega, hkept⟩
  · have hlt := (h.ended n hn).lt
    obtain ⟨found, hfound, hfinished⟩ := h.ended n hn
    exact ⟨found, (List.getElem?_append_left hlt).trans hfound, hfinished⟩

theorem moves (h : Kept s) (hmoves : Moves config s label next) : Kept next := by
  have hfinished : ∀ n, s.Finished n → next.Finished n := fun n => hmoves.finished
  cases hmoves with
  | joined _ hn hthread hend => exact h.join hn ⟨_, hthread, hend⟩
  | pushBack _ _ => exact h.pushBack
  | threadBegin _ _ => exact h.of_started rfl rfl (List.length_set ..) hfinished
  | threadReload _ _ => exact h.of_started rfl rfl (List.length_set ..) hfinished
  | threadReturn _ => exact h.of_started rfl rfl (List.length_set ..) hfinished
  | _ => exact h.of_started rfl rfl rfl hfinished

end Kept

/-! ## Going through the vector -/

/-- A thread that had come to its end when `k` threads were started: the loop may still have it in
the vector, but then it has started no other thread and the iterator has not passed it. -/
structure Leaving (k n : ℕ) (s : State) : Prop where
  finished : s.Finished n
  started : k ≤ s.started.length
  ahead : n ∈ s.threads → s.started.length = k ∧
    ∀ subdomain it, s.loop = .joining subdomain it → ∀ i, s.threads[i]? = some n → it ≤ i

namespace Leaving

variable {k n : ℕ}

/-- The vector stays as it is, and the iterator is not moved past the thread. -/
theorem of_threads (h : Leaving k n s) (hfinished : next.Finished n)
    (hlength : next.started.length = s.started.length) (hthreads : next.threads = s.threads)
    (hloop : n ∈ s.threads → ∀ subdomain it, next.loop = .joining subdomain it →
      ∀ i, s.threads[i]? = some n → it ≤ i) : Leaving k n next where
  finished := hfinished
  started := hlength ▸ h.started
  ahead := by
    rw [hthreads, hlength]
    exact fun hmem => ⟨(h.ahead hmem).1, hloop hmem⟩

theorem moves (h : Leaving k n s) (hmoves : Moves config s label next) : Leaving k n next := by
  have hfinished : next.Finished n := hmoves.finished h.finished
  have hkept : n ∈ s.threads → ∀ subdomain it, s.loop = .joining subdomain it →
      ∀ i, s.threads[i]? = some n → it ≤ i := fun hmem => (h.ahead hmem).2
  cases hmoves with
  | recv hloop => exact h.of_threads hfinished rfl rfl fun _ _ _ hnext => by cases hnext
  | reloadBegin hloop _ => exact h.of_threads hfinished rfl rfl fun _ _ _ hnext => by cases hnext
  | reloadSite hloop _ =>
      refine h.of_threads hfinished rfl rfl fun _ subdomain it hnext i _ => ?_
      cases hnext
      exact Nat.zero_le i
  | @joined _ it _ _ hloop _ _ _ =>
      refine ⟨hfinished, h.started, fun hmem => ?_⟩
      have hbefore : n ∈ s.threads := List.mem_of_mem_eraseIdx hmem
      refine ⟨(h.ahead hbefore).1, fun subdomain it' hnext i hi => ?_⟩
      obtain ⟨rfl, rfl⟩ := Loop.joining.inj (hloop.symm.trans hnext)
      -- deleting moves the threads behind the iterator forward, at most to where it is
      rw [List.getElem?_eraseIdx] at hi
      split at hi
      · exact hkept hbefore _ _ hloop i hi
      · omega
  | @notJoined _ it m thread hloop hm hthread hrunning =>
      refine h.of_threads hfinished rfl rfl fun hmem subdomain it' hnext i hi => ?_
      obtain ⟨_, rfl⟩ := Loop.joining.inj hnext
      have hle := hkept hmem _ _ hloop i hi
      -- the iterator passes a thread that is still running
      have hne : it ≠ i := by
        rintro rfl
        obtain rfl := Option.some.inj (hm.symm.trans hi)
        obtain ⟨found, hfound, hend⟩ := h.finished
        obtain rfl := Option.some.inj (hthread.symm.trans hfound)
        exact hrunning hend
      omega
  | @pushBack _ it hloop hend =>
      refine ⟨hfinished, by simpa using Nat.le_succ_of_le h.started, fun hmem => ?_⟩
      rcases List.mem_append.1 hmem with hbefore | hnew
      · obtain ⟨i, hi⟩ := List.mem_iff_getElem?.1 hbefore
        have hle := hkept hbefore _ _ hloop i hi
        have hlength := List.getElem?_eq_none_iff.1 hend
        have hlt := (List.getElem?_eq_some_iff.1 hi).1
        omega
      · have hlt := h.finished.lt
        rw [List.mem_singleton.1 hnew] at hlt
        exact absurd hlt (Nat.lt_irrefl _)
  | threadBegin _ _ => exact h.of_threads hfinished (List.length_set ..) rfl hkept
  | threadReload _ _ => exact h.of_threads hfinished (List.length_set ..) rfl hkept
  | threadReturn _ => exact h.of_threads hfinished (List.length_set ..) rfl hkept
  | server _ _ => exact h.of_threads hfinished rfl rfl hkept

end Leaving

/-! ## The loop goes on -/

/-- The steps of the loop. -/
def Label.OfLoop : Label → Prop
  | .recv _ | .reloadBegin | .reloadSite | .timedJoin | .pushBack => True
  | .threadBegin _ | .threadReload _ | .threadReturn _ | .server _ => False

/-- The loop waits for messages and for nothing else. -/
theorem loop_goes_on (haccounted : Accounted s) (hkept : Kept s) :
    ∃ label, label.OfLoop ∧ (step config s label).isSome := by
  have hcurrent := haccounted.current
  cases hloop : s.loop with
  | receiving => exact ⟨.recv [], trivial, by simp [step, hloop]⟩
  | received subdomain =>
      have hnone : s.server.reloads (ownReload s.started.length) = none := by
        simpa [hloop, Loop.reload?, noted] using hcurrent
      exact ⟨.reloadBegin, trivial, by simp [step, hloop, Server.step, Server.act, hnone]⟩
  | reloading subdomain =>
      rw [hloop] at hcurrent
      obtain ⟨⟨name, began, returnedAt⟩, hreload, hnoted⟩ := Option.map_eq_some_iff.1 hcurrent
      obtain rfl : returnedAt = none := by simpa using congrArg Prod.snd hnoted
      exact ⟨.reloadSite, trivial, by simp [step, hloop, Server.step, Server.act, hreload]⟩
  | joining subdomain it =>
      cases hn : s.threads[it]? with
      | none => exact ⟨.pushBack, trivial, by simp [step, hloop, hn]⟩
      | some n =>
          have hlt := ((hkept.mem_iff n).1 (List.mem_of_getElem? hn)).1
          have hthread : s.started[n]? = some s.started[n] := List.getElem?_eq_getElem hlt
          refine ⟨.timedJoin, trivial, ?_⟩
          by_cases hfinished : s.started[n].stage = .finished <;>
            simp [step, hloop, hn, hlt, hfinished]

/-- In every interleaving of the bus with its threads, `getSite` calls and changes of feeds, the
vector holds the threads that were started and not deleted, in the order in which they were
started, none is deleted twice or before it has come to its end, and the loop can always go on.
A thread that has come to its end before the loop goes through the vector is deleted when the
loop has started the next thread. -/
theorem threads_deleted (config : Config) (feeds : Str → Object) {labels : List Label}
    (hrun : run (step config) (State.initial feeds) labels = some s) :
    Kept s ∧ (∃ label, label.OfLoop ∧ (step config s label).isSome) ∧
      ∀ n more final, s.Finished n → (∀ subdomain it, s.loop ≠ .joining subdomain it) →
        run (step config) s more = some final → s.started.length < final.started.length →
          n ∈ final.deleted := by
  have hkeeps : ∀ s label next, Accounted s ∧ Kept s → step config s label = some next →
      Accounted next ∧ Kept next := by
    rintro s label next ⟨haccounted, hkept⟩ hstep
    exact ⟨haccounted.moves (moves_of_step hstep), hkept.moves (moves_of_step hstep)⟩
  have hinv := invariant hkeeps ⟨Accounted.initial feeds, Kept.initial feeds⟩ hrun
  refine ⟨hinv.2, loop_goes_on hinv.1 hinv.2, fun n more final hfinished hloop hmore hlater => ?_⟩
  have hleaves : ∀ s' label next, Leaving s.started.length n s' →
      step config s' label = some next → Leaving s.started.length n next :=
    fun _ _ _ hleaving hstep => hleaving.moves (moves_of_step hstep)
  have hleaving : Leaving s.started.length n final := by
    refine invariant hleaves ⟨hfinished, Nat.le_refl _, fun _ => ⟨rfl, ?_⟩⟩ hmore
    exact fun subdomain it hjoining => absurd hjoining (hloop subdomain it)
  have hgone : n ∉ final.threads := fun hmem => Nat.ne_of_gt hlater (hleaving.ahead hmem).1
  have hfinal := invariant hkeeps hinv hmore
  by_contra hdeleted
  exact hgone ((hfinal.2.mem_iff n).2 ⟨hleaving.finished.lt, hdeleted⟩)

/-- The thread of the first message is deleted while the loop works on the second one. -/
theorem threads_deleted_oneMessage :
    ∃ s final, run (step loadingConfig) (State.initial fun _ => ⟨"<website/>", 1⟩) oneMessage =
        some s ∧
      run (step loadingConfig) s [.recv "blog", .reloadBegin, .reloadSite, .timedJoin, .pushBack] =
        some final ∧ 0 ∈ final.deleted := by
  have hrun : run (step loadingConfig) (State.initial fun _ => ⟨"<website/>", 1⟩) oneMessage =
      some _ := rfl
  refine ⟨_, _, hrun, rfl, (threads_deleted loadingConfig _ hrun).2.2 0
    [.recv "blog", .reloadBegin, .reloadSite, .timedJoin, .pushBack] _
    ⟨⟨"shop", .finished⟩, rfl, rfl⟩ (fun _ _ hloop => ?_) rfl (by decide)⟩
  cases hloop

end

end VaeDb.Bus
