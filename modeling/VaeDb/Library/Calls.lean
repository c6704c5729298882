import Mathlib.Data.List.Induction
import VaeDb.Library.Isolation

/-!
# Calls

A client's call of a request lasts from the label with which it begins to the one with which the
client ends it.  The answers of a run do not say to whose calls they were given, nor when these
were under way, and equal requests may be made many times; the labels say it.

* `Call` : the last call of a client, and what has happened since it began.
* `Answers` : a call that begins in a run is answered in it.
* `During` : a moment of the last call of a client.
-/

/-- A run, and its last step. -/
theorem Transition.run_concat_eq_some {State Label : Type*} {step : State → Label → Option State}
    {state final : State} {labels : List Label} {label : Label} :
    run step state (labels ++ [label]) = some final ↔
      ∃ middle, run step state labels = some middle ∧ step middle label = some final := by
  rw [run_append, Option.bind_eq_some_iff]
  refine exists_congr fun middle => and_congr_right fun _ => ?_
  rw [run_cons]
  exact Option.bind_eq_some_iff.trans (by simp)

namespace Threads

variable {Client Memory Request Answer : Type}

/-- The last call of a client: what has happened before it, and since it has begun. -/
structure Call (labels : List (Label Client Request)) (client : Client) (request : Request)
    (before since : List (Label Client Request)) : Prop where
  labels_eq : labels = before ++ .start client request :: since
  last : ∀ other, .start client other ∉ since

namespace Call

variable {labels before since : List (Label Client Request)} {client : Client} {request : Request}

theorem start (labels : List (Label Client Request)) (client : Client) (request : Request) :
    Call (labels ++ [.start client request]) client request labels [] where
  labels_eq := rfl
  last := fun _ hmem => by cases hmem

theorem concat (h : Call labels client request before since) {label : Label Client Request}
    (hlabel : ∀ other, label ≠ .start client other) :
    Call (labels ++ [label]) client request before (since ++ [label]) where
  labels_eq := by rw [h.labels_eq, List.append_assoc, List.cons_append]
  last := by
    intro other hmem
    rcases List.mem_append.1 hmem with hold | hnew
    · exact h.last other hold
    · exact hlabel other (List.mem_singleton.1 hnew).symm

theorem mem (h : Call labels client request before since) : .start client request ∈ labels :=
  h.labels_eq ▸ List.mem_append_right before List.mem_cons_self

end Call

section

variable [DecidableEq Client] (code : Client → Request → Program Memory Answer)

/-- A call that begins after `state` ends with an answer. -/
def Answers (state : State Client Memory Request Answer) (labels : List (Label Client Request))
    (client : Client) (request : Request) (answer : Answer) : Prop :=
  ∃ earlier later before since now, labels = earlier ++ .act client :: later ∧
    Call earlier client request before since ∧
    Transition.run (step code) state earlier = some now ∧
    now.running client = some (request, .done answer)

/-- A moment since the last call of a client has begun. -/
def During (state : State Client Memory Request Answer) (labels : List (Label Client Request))
    (client : Client) (request : Request) (moment : Memory) : Prop :=
  ∃ before since earlier now, Call labels client request before since ∧
    earlier <+: since ∧
    Transition.run (step code) state (before ++ .start client request :: earlier) = some now ∧
    now.memory = moment

variable {code} {state next final : State Client Memory Request Answer} {client : Client}
  {labels : List (Label Client Request)} {memory : Memory}

/-- Another client moves, or the client goes on. -/
theorem step_running_of_ne_start {label : Label Client Request}
    (hlabel : ∀ request, label ≠ .start client request)
    (hstep : step code state label = some next) {request : Request}
    {program : Program Memory Answer} (hrunning : next.running client = some (request, program)) :
    ∃ program', state.running client = some (request, program') := by
  rcases step_cases hstep with hstart | hdone | haction
  · obtain ⟨starter, started, rfl, -, rfl⟩ := hstart
    have hne : client ≠ starter := fun hsame => hlabel started (hsame ▸ rfl)
    exact ⟨program, (Function.update_of_ne hne _ _).symm.trans hrunning⟩
  · obtain ⟨actor, _, _, rfl, -, rfl⟩ := hdone
    by_cases hsame : client = actor
    · subst hsame
      cases (Function.update_self ..).symm.trans hrunning
    · exact ⟨program, (Function.update_of_ne hsame _ _).symm.trans hrunning⟩
  · obtain ⟨actor, _, _, _, _, _, _, rfl, hacting, -, rfl⟩ := haction
    by_cases hsame : client = actor
    · subst hsame
      cases (Function.update_self ..).symm.trans hrunning
      exact ⟨_, hacting⟩
    · exact ⟨program, (Function.update_of_ne hsame _ _).symm.trans hrunning⟩

/-- What a client works on, it has begun with. -/
theorem exists_call (hrun : Transition.run (step code) (State.initial memory) labels = some final)
    {request : Request} {program : Program Memory Answer}
    (hrunning : final.running client = some (request, program)) :
    ∃ before since, Call labels client request before since := by
  induction labels using List.reverseRecOn generalizing final program with
  | nil =>
      obtain rfl := Option.some.inj hrun
      cases hrunning
  | append_singleton labels label ih =>
      obtain ⟨middle, hmiddle, hstep⟩ := Transition.run_concat_eq_some.1 hrun
      -- the last label begins the call, or the client was at work before it
      by_cases hlabel : ∃ started, label = .start client started
      · obtain ⟨started, rfl⟩ := hlabel
        have hstarted : started = request := by
          rcases step_cases hstep with hstart | hdone | haction
          · obtain ⟨starter, request', hsame, -, rfl⟩ := hstart
            cases hsame
            have hjob : some (started, code client started) = some (request, program) :=
              (Function.update_self client _ middle.running).symm.trans hrunning
            exact congrArg Prod.fst (Option.some.inj hjob)
          · obtain ⟨_, _, _, hother, -⟩ := hdone
            cases hother
          · obtain ⟨_, _, _, _, _, _, _, hother, -⟩ := haction
            cases hother
        exact ⟨labels, [], hstarted ▸ Call.start labels client started⟩
      · have hother : ∀ other, label ≠ .start client other := fun other hsame =>
          hlabel ⟨other, hsame⟩
        obtain ⟨program', hbefore⟩ := step_running_of_ne_start hother hstep hrunning
        obtain ⟨before, since, hcall⟩ := ih hmiddle hbefore
        exact ⟨before, _, hcall.concat hother⟩

namespace During

variable {request : Request} {moment : Memory}

theorem concat (h : During code state labels client request moment)
    {label : Label Client Request} (hlabel : ∀ other, label ≠ .start client other) :
    During code state (labels ++ [label]) client request moment := by
  obtain ⟨before, since, earlier, now, hcall, hearlier, hrun, hmoment⟩ := h
  exact ⟨before, since ++ [label], earlier, now, hcall.concat hlabel,
    hearlier.trans (List.prefix_append ..), hrun, hmoment⟩

/-- The moment at which the call begins. -/
theorem start
    (hrun : Transition.run (step code) state (labels ++ [.start client request]) = some final) :
    During code state (labels ++ [.start client request]) client request final.memory :=
  ⟨labels, [], [], final, Call.start labels client request, List.prefix_rfl, hrun, rfl⟩

/-- The present moment, for a client that is at work. -/
theorem now (hrun : Transition.run (step code) (State.initial memory) labels = some final)
    {program : Program Memory Answer}
    (hrunning : final.running client = some (request, program)) :
    During code (State.initial memory) labels client request final.memory := by
  obtain ⟨before, since, hcall⟩ := exists_call hrun hrunning
  exact ⟨before, since, since, final, hcall, List.prefix_rfl, hcall.labels_eq ▸ hrun, rfl⟩

end During

end

end Threads
