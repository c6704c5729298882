import Mathlib.Data.List.Basic
import VaeDb.Library.Threads

/-!
# Clients that leave others alone

What all programs keep holds after every interleaving of them (`Kept.run`).

A client sees a part of the memory, its `view`.  A program is `Silent` for the view if none of
its actions changes it, and `Confined` to the view if what its actions give, and how they change
the view, depends on the view alone.  Clients whose programs are confined do not notice those
whose programs are silent, however the actions interleave: all that happens to them happens
just as well without the others (`State.run_purge`).

`Program.alone` is what a program does when nothing interleaves with it.
-/

namespace Threads

variable {Memory View Value Value' Result : Type}

/-! ## Alone -/

/-- What a program does when nothing comes in between, if it does not have to wait. -/
def Program.alone : Program Memory Value → Memory → Option (Value × Memory)
  | .done value, memory => some (value, memory)
  | .act action next, memory =>
      (action memory).bind fun result => (next result.1).alone result.2

@[simp] theorem Program.alone_pure (value : Value) (memory : Memory) :
    (pure value : Program Memory Value).alone memory = some (value, memory) := rfl

@[simp] theorem Program.alone_step (action : Memory → Result × Memory) (memory : Memory) :
    (Program.step action).alone memory = some (action memory) := rfl

@[simp] theorem Program.alone_read (view : Memory → Result) (memory : Memory) :
    (Program.read view).alone memory = some (view memory, memory) := rfl

@[simp] theorem Program.alone_write (change : Memory → Memory) (memory : Memory) :
    (Program.write change).alone memory = some ((), change memory) := rfl

@[simp] theorem Program.alone_bind (program : Program Memory Value)
    (rest : Value → Program Memory Value') (memory : Memory) :
    (program >>= rest).alone memory =
      (program.alone memory).bind fun result => (rest result.1).alone result.2 := by
  induction program generalizing memory with
  | done value => rfl
  | act action next ih =>
      show ((action memory).bind fun result => (next result.1 >>= rest).alone result.2) =
        ((action memory).bind fun result => (next result.1).alone result.2).bind _
      rw [Option.bind_assoc]
      exact congrArg _ (funext fun result => ih result.1 result.2)

/-- A program that throws: after a value goes on with the rest. -/
theorem Throwing.alone_bind_ok {Fault : Type} {program : Throwing Fault Memory Value}
    {rest : Value → Throwing Fault Memory Value'} {value : Value} {memory middle : Memory}
    (h : program.run.alone memory = some (.ok value, middle)) :
    (program >>= rest).run.alone memory = (rest value).run.alone middle := by
  rw [ExceptT.run_bind, Program.alone_bind, h]
  rfl

theorem Throwing.alone_bind_error {Fault : Type} {program : Throwing Fault Memory Value}
    {rest : Value → Throwing Fault Memory Value'} {fault : Fault} {memory middle : Memory}
    (h : program.run.alone memory = some (.error fault, middle)) :
    (program >>= rest).run.alone memory = some (.error fault, middle) := by
  rw [ExceptT.run_bind, Program.alone_bind, h]
  rfl

/-! ## What programs keep -/

/-- What holds of the memory before an action holds after it. -/
def Keeps (A : Memory → Prop) : Program Memory Value → Prop
  | .done _ => True
  | .act action next =>
      (∀ memory result, A memory → action memory = some result → A result.2) ∧
        ∀ result, Keeps A (next result)

namespace Keeps

variable {A : Memory → Prop}

theorem pure (value : Value) : Keeps A (Pure.pure value : Program Memory Value) := trivial

theorem step {action : Memory → Result × Memory} (h : ∀ memory, A memory → A (action memory).2) :
    Keeps A (Program.step action) :=
  ⟨fun memory _ hmemory hresult => Option.some.inj hresult ▸ h memory hmemory, fun _ => trivial⟩

theorem read (look : Memory → Result) : Keeps A (Program.read look) := step fun _ h => h

theorem write {change : Memory → Memory} (h : ∀ memory, A memory → A (change memory)) :
    Keeps A (Program.write change) := step h

theorem bind {program : Program Memory Value} {rest : Value → Program Memory Value'}
    (h : Keeps A program) (hrest : ∀ value, Keeps A (rest value)) :
    Keeps A (program >>= rest) := by
  induction program with
  | done value => exact hrest value
  | act action next ih => exact ⟨h.1, fun result => ih result (h.2 result)⟩

theorem foldlM {Item : Type} {visit : Value → Item → Program Memory Value}
    (h : ∀ value item, Keeps A (visit value item)) (items : List Item) (value : Value) :
    Keeps A (items.foldlM visit value) := by
  induction items generalizing value with
  | nil => exact pure value
  | cons item rest ih => exact bind (h value item) ih

/-- For programs that throw. -/
theorem run_bind {Fault : Type} {program : Throwing Fault Memory Value}
    {rest : Value → Throwing Fault Memory Value'} (h : Keeps A program.run)
    (hrest : ∀ value, Keeps A (rest value).run) : Keeps A (program >>= rest).run := by
  rw [ExceptT.run_bind]
  refine bind h fun ended => ?_
  cases ended with
  | ok value => exact hrest value
  | error fault => exact pure _

/-- What a program keeps holds after it has run alone. -/
theorem alone {program : Program Memory Value} (h : Keeps A program) {memory : Memory}
    (hmemory : A memory) {result : Value × Memory} (halone : program.alone memory = some result) :
    A result.2 := by
  induction program generalizing memory with
  | done value => exact Option.some.inj halone ▸ hmemory
  | act action next ih =>
      obtain ⟨middle, haction, hrest⟩ := Option.bind_eq_some_iff.1 halone
      exact ih middle.1 (h.2 middle.1) (h.1 memory middle hmemory haction) hrest

end Keeps

/-- No action changes the view. -/
def Silent (view : Memory → View) (program : Program Memory Value) : Prop :=
  ∀ seen, Keeps (fun memory => view memory = seen) program

/-! ## Programs that depend on the view alone -/

/-- Both have to wait, or both give the same and leave the same in view. -/
def Alike (view : Memory → View) :
    Option (Result × Memory) → Option (Result × Memory) → Prop
  | none, none => True
  | some first, some second => first.1 = second.1 ∧ view first.2 = view second.2
  | _, _ => False

/-- What the actions give, and how they change the view, depends on the view alone. -/
def Confined (view : Memory → View) : Program Memory Value → Prop
  | .done _ => True
  | .act action next =>
      (∀ memory memory', view memory = view memory' →
        Alike view (action memory) (action memory')) ∧
        ∀ result, Confined view (next result)

namespace Confined

variable {view : Memory → View}

theorem pure (value : Value) : Confined view (Pure.pure value : Program Memory Value) := trivial

theorem step {action : Memory → Result × Memory}
    (h : ∀ memory memory', view memory = view memory' →
      (action memory).1 = (action memory').1 ∧ view (action memory).2 = view (action memory').2) :
    Confined view (Program.step action) := ⟨h, fun _ => trivial⟩

theorem read {look : Memory → Result}
    (h : ∀ memory memory', view memory = view memory' → look memory = look memory') :
    Confined view (Program.read look) :=
  step fun memory memory' hview => ⟨h memory memory' hview, hview⟩

theorem write {change : Memory → Memory}
    (h : ∀ memory memory', view memory = view memory' →
      view (change memory) = view (change memory')) :
    Confined view (Program.write change) :=
  step fun memory memory' hview => ⟨rfl, h memory memory' hview⟩

theorem bind {program : Program Memory Value} {rest : Value → Program Memory Value'}
    (h : Confined view program) (hrest : ∀ value, Confined view (rest value)) :
    Confined view (program >>= rest) := by
  induction program with
  | done value => exact hrest value
  | act action next ih => exact ⟨h.1, fun result => ih result (h.2 result)⟩

theorem foldlM {Item : Type} {visit : Value → Item → Program Memory Value}
    (h : ∀ value item, Confined view (visit value item)) (items : List Item) (value : Value) :
    Confined view (items.foldlM visit value) := by
  induction items generalizing value with
  | nil => exact pure value
  | cons item rest ih => exact bind (h value item) ih

end Confined

/-! ## Steps -/

section

variable {Client Request Answer : Type} [DecidableEq Client]
  {code : Client → Request → Program Memory Answer}
  {state next final : State Client Memory Request Answer} {client : Client}

theorem step_start (hidle : state.running client = none) (request : Request) :
    step code state (.start client request) = some { state with
      running := Function.update state.running client (some (request, code client request)) } := by
  simp only [step, hidle]

theorem step_done {request : Request} {answer : Answer}
    (hrunning : state.running client = some (request, .done answer)) :
    step code state (.act client) = some { state with
      running := Function.update state.running client none
      ended := (request, answer) :: state.ended } := by
  simp only [step, act, hrunning]

theorem step_action {request : Request} {action : Memory → Option (Result × Memory)}
    {rest : Result → Program Memory Answer} {result : Result} {memory : Memory}
    (hrunning : state.running client = some (request, .act action rest))
    (haction : action state.memory = some (result, memory)) :
    step code state (.act client) = some { state with
      memory
      running := Function.update state.running client (some (request, rest result)) } := by
  simp only [step, act, hrunning, haction, Option.map_some]

/-- All that can happen. -/
theorem step_cases {label : Label Client Request} (h : step code state label = some next) :
    (∃ client request, label = .start client request ∧ state.running client = none ∧
      next = { state with
        running := Function.update state.running client (some (request, code client request)) }) ∨
    (∃ client request answer, label = .act client ∧
      state.running client = some (request, .done answer) ∧
      next = { state with
        running := Function.update state.running client none
        ended := (request, answer) :: state.ended }) ∨
    ∃ (client : Client) (request : Request) (Result : Type)
      (action : Memory → Option (Result × Memory)) (rest : Result → Program Memory Answer)
      (result : Result) (memory : Memory), label = .act client ∧
      state.running client = some (request, .act action rest) ∧
      action state.memory = some (result, memory) ∧
      next = { state with
        memory
        running := Function.update state.running client (some (request, rest result)) } := by
  cases label with
  | start client request =>
      unfold step at h
      cases hrunning : state.running client with
      | some job => simp [hrunning] at h
      | none =>
          simp only [hrunning, Option.some.injEq] at h
          exact .inl ⟨client, request, rfl, hrunning, h.symm⟩
  | act client =>
      rcases act_cases h with hdone | haction
      · obtain ⟨request, answer, hrunning, hnext⟩ := hdone
        exact .inr (.inl ⟨client, request, answer, rfl, hrunning, hnext⟩)
      · obtain ⟨request, Result, action, rest, result, memory, hrunning, haction, hnext⟩ := haction
        exact .inr (.inr ⟨client, request, Result, action, rest, result, memory, rfl, hrunning,
          haction, hnext⟩)

/-- Something is true of all programs that are left after one of them has changed. -/
theorem forall_running_update
    {P : Client → Request → Program Memory Answer → Prop}
    {running : Client → Option (Request × Program Memory Answer)}
    (h : ∀ client request program, running client = some (request, program) →
      P client request program)
    {job : Option (Request × Program Memory Answer)}
    (hjob : ∀ request program, job = some (request, program) → P client request program)
    (other : Client) (request : Request) (program : Program Memory Answer)
    (hrunning : Function.update running client job other = some (request, program)) :
    P other request program := by
  by_cases hother : other = client
  · subst hother
    rw [Function.update_self] at hrunning
    exact hjob request program hrunning
  · rw [Function.update_of_ne hother] at hrunning
    exact h other request program hrunning

/-! ## What all programs keep -/

/-- It holds, and all that is left of the programs keeps it. -/
structure Kept (A : Memory → Prop) (state : State Client Memory Request Answer) : Prop where
  memory : A state.memory
  programs : ∀ client request program, state.running client = some (request, program) →
    Keeps A program

namespace Kept

variable {A : Memory → Prop}

theorem step (h : Kept A state) {label : Label Client Request}
    (hcode : ∀ client request, label = .start client request → Keeps A (code client request))
    (hstep : Threads.step code state label = some next) : Kept A next := by
  rcases step_cases hstep with hstart | hdone | haction
  · obtain ⟨client, request, hlabel, -, rfl⟩ := hstart
    refine ⟨h.memory, forall_running_update h.programs fun request' program hjob => ?_⟩
    cases hjob
    exact hcode client request hlabel
  · obtain ⟨client, request, answer, -, -, rfl⟩ := hdone
    exact ⟨h.memory, forall_running_update h.programs fun request' program hjob => by cases hjob⟩
  · obtain ⟨client, request, Result, action, rest, result, memory, -, hrunning, haction, rfl⟩ :=
      haction
    have hkeeps := h.programs client request _ hrunning
    refine ⟨hkeeps.1 state.memory _ h.memory haction,
      forall_running_update h.programs fun request' program hjob => ?_⟩
    cases hjob
    exact hkeeps.2 result

/-- What the code for every request of a run keeps holds after it. -/
theorem run (h : Kept A state) {labels : List (Label Client Request)}
    (hcode : ∀ client request, .start client request ∈ labels → Keeps A (code client request))
    (hrun : Transition.run (Threads.step code) state labels = some final) : Kept A final := by
  induction labels generalizing state with
  | nil => exact Option.some.inj hrun ▸ h
  | cons label rest ih =>
      obtain ⟨middle, hstep, hrest⟩ := Transition.run_cons_eq_some.1 hrun
      have hmiddle : Kept A middle := h.step
        (fun client request hlabel => hcode client request (hlabel ▸ List.mem_cons_self ..)) hstep
      exact ih hmiddle
        (fun client request hmem => hcode client request (List.mem_cons_of_mem _ hmem)) hrest

end Kept

/-- What is left of a program keeps what its code keeps. -/
theorem keeps_of_run {memory : Memory} {labels : List (Label Client Request)}
    (hrun : Transition.run (Threads.step code) (State.initial memory) labels = some final)
    {client : Client} {request : Request} {program : Program Memory Answer}
    (hrunning : final.running client = some (request, program)) {A : Memory → Prop}
    (hcode : ∀ client, Keeps A (code client request)) : Keeps A program := by
  have hstep : ∀ (state : State Client Memory Request Answer) label next,
      (∀ client request program, state.running client = some (request, program) →
        (∀ client, Keeps A (code client request)) → Keeps A program) →
      Threads.step code state label = some next →
      ∀ client request program, next.running client = some (request, program) →
        (∀ client, Keeps A (code client request)) → Keeps A program := by
    intro state label next hinv hstep
    rcases step_cases hstep with hstart | hdone | haction
    · obtain ⟨client, request, -, -, rfl⟩ := hstart
      refine forall_running_update hinv fun request' program hjob hcode => ?_
      cases hjob
      exact hcode client
    · obtain ⟨client, request, answer, -, -, rfl⟩ := hdone
      exact forall_running_update hinv fun request' program hjob => by cases hjob
    · obtain ⟨client, request, Result, action, rest, result, memory, -, hrunning, -, rfl⟩ := haction
      refine forall_running_update hinv fun request' program hjob hcode => ?_
      cases hjob
      exact (hinv client request _ hrunning hcode).2 result
  exact Transition.invariant hstep (fun _ _ _ h => by cases h) hrun client request program hrunning
    hcode

end

/-! ## Interleavings without the others -/

section

variable {Client Request Answer : Type} [DecidableEq Client]
  {code : Client → Request → Program Memory Answer} {view : Memory → View}
  {mine : Client → Bool} {Mine : Request → Bool}

/-- Who moves. -/
def Label.client : Label Client Request → Client
  | .start client _ => client
  | .act client => client

/-- A program for one's own client and request is confined, one for the others is silent. -/
structure Proper (view : Memory → View) (mine : Client → Bool) (Mine : Request → Bool)
    (client : Client) (request : Request) (program : Program Memory Answer) : Prop where
  request : Mine request = mine client
  confined : mine client = true → Confined view program
  silent : mine client = false → Silent view program

/-- With the others and without them: one's own clients are equally far. -/
structure Purged (view : Memory → View) (mine : Client → Bool) (Mine : Request → Bool)
    (state alone : State Client Memory Request Answer) : Prop where
  view_eq : view state.memory = view alone.memory
  running_eq : ∀ client, mine client = true → state.running client = alone.running client
  ended_eq : alone.ended = state.ended.filter fun ended => Mine ended.1
  proper : ∀ client request program, state.running client = some (request, program) →
    Proper view mine Mine client request program

namespace Purged

variable {state next alone : State Client Memory Request Answer} {client : Client}

omit [DecidableEq Client] in
theorem initial (memory : Memory) :
    Purged view mine Mine (State.initial memory : State Client Memory Request Answer)
      (State.initial memory) where
  view_eq := rfl
  running_eq := fun _ _ => rfl
  ended_eq := rfl
  proper := fun _ _ _ hrunning => by cases hrunning

/-- A client of one's own moves on both sides. -/
theorem running_update (h : Purged view mine Mine state alone)
    (job : Option (Request × Program Memory Answer)) (other : Client)
    (hother : mine other = true) :
    Function.update state.running client job other =
      Function.update alone.running client job other := by
  by_cases hsame : other = client
  · subst hsame
    rw [Function.update_self, Function.update_self]
  · rw [Function.update_of_ne hsame, Function.update_of_ne hsame, h.running_eq other hother]

/-- Another client moves on the one side only. -/
theorem running_of_others (h : Purged view mine Mine state alone) (hclient : mine client = false)
    (job : Option (Request × Program Memory Answer)) (other : Client)
    (hother : mine other = true) :
    Function.update state.running client job other = alone.running other := by
  have hne : other ≠ client := by
    intro hsame
    rw [hsame, hclient] at hother
    cases hother
  rw [Function.update_of_ne hne, h.running_eq other hother]

/-- Nothing that another client does is noticed. -/
theorem step_others (h : Purged view mine Mine state alone)
    {label : Label Client Request}
    (hcode : ∀ client request, label = .start client request →
      Proper view mine Mine client request (code client request))
    (hlabel : mine label.client = false) (hstep : step code state label = some next) :
    Purged view mine Mine next alone := by
  rcases step_cases hstep with hstart | hdone | haction
  · obtain ⟨client, request, rfl, -, rfl⟩ := hstart
    refine ⟨h.view_eq, h.running_of_others hlabel _, h.ended_eq,
      forall_running_update h.proper fun request' program hjob => ?_⟩
    cases hjob
    exact hcode client request rfl
  · obtain ⟨client, request, answer, rfl, hrunning, rfl⟩ := hdone
    have hrequest : Mine request = false :=
      (h.proper client request _ hrunning).request.trans hlabel
    refine ⟨h.view_eq, h.running_of_others hlabel _, ?_,
      forall_running_update h.proper fun request' program hjob => by cases hjob⟩
    rw [List.filter_cons_of_neg (by simp [hrequest])]
    exact h.ended_eq
  · obtain ⟨client, request, Result, action, rest, result, memory, rfl, hrunning, haction, rfl⟩ :=
      haction
    have hproper := h.proper client request _ hrunning
    have hsilent := hproper.silent hlabel
    refine ⟨?_, h.running_of_others hlabel _, h.ended_eq,
      forall_running_update h.proper fun request' program hjob => ?_⟩
    · exact ((hsilent _).1 state.memory (result, memory) rfl haction).trans h.view_eq
    · cases hjob
      exact ⟨hproper.request, fun hmine => absurd (hlabel.symm.trans hmine) (by decide),
        fun _ seen => (hsilent seen).2 result⟩

/-- What one's own clients do, they do without the others as well. -/
theorem step_mine (h : Purged view mine Mine state alone)
    {label : Label Client Request}
    (hcode : ∀ client request, label = .start client request →
      Proper view mine Mine client request (code client request))
    (hlabel : mine label.client = true) (hstep : step code state label = some next) :
    ∃ alone', step code alone label = some alone' ∧ Purged view mine Mine next alone' := by
  rcases step_cases hstep with hstart | hdone | haction
  · obtain ⟨client, request, rfl, hidle, rfl⟩ := hstart
    have halone : alone.running client = none := (h.running_eq client hlabel) ▸ hidle
    refine ⟨_, step_start halone request, h.view_eq, h.running_update _, h.ended_eq,
      forall_running_update h.proper fun request' program hjob => ?_⟩
    cases hjob
    exact hcode client request rfl
  · obtain ⟨client, request, answer, rfl, hrunning, rfl⟩ := hdone
    have halone : alone.running client = some (request, .done answer) :=
      (h.running_eq client hlabel) ▸ hrunning
    have hrequest : Mine request = true :=
      (h.proper client request _ hrunning).request.trans hlabel
    refine ⟨_, step_done halone, h.view_eq, h.running_update _, ?_,
      forall_running_update h.proper fun request' program hjob => by cases hjob⟩
    rw [List.filter_cons, if_pos hrequest, h.ended_eq]
  · obtain ⟨client, request, Result, action, rest, result, memory, rfl, hrunning, haction, rfl⟩ :=
      haction
    have halone : alone.running client = some (request, .act action rest) :=
      (h.running_eq client hlabel) ▸ hrunning
    have hproper := h.proper client request _ hrunning
    have hconfined := hproper.confined hlabel
    have halike := hconfined.1 state.memory alone.memory h.view_eq
    rw [haction] at halike
    cases haction' : action alone.memory with
    | none => rw [haction'] at halike; exact halike.elim
    | some result' =>
        obtain ⟨given, memory'⟩ := result'
        rw [haction'] at halike
        obtain ⟨hgiven, hview⟩ := halike
        have hgiven : result = given := hgiven
        subst hgiven
        refine ⟨_, step_action halone haction', hview, h.running_update _, h.ended_eq,
          forall_running_update h.proper fun request' program hjob => ?_⟩
        cases hjob
        exact ⟨hproper.request, fun _ => hconfined.2 result,
          fun hothers => absurd (hlabel.symm.trans hothers) (by decide)⟩

theorem run (h : Purged view mine Mine state alone)
    {labels : List (Label Client Request)}
    (hcode : ∀ client request, .start client request ∈ labels →
      Proper view mine Mine client request (code client request))
    (hrun : Transition.run (step code) state labels = some next) :
    ∃ alone', Transition.run (step code) alone
        (labels.filter fun label => mine label.client) = some alone' ∧
      Purged view mine Mine next alone' := by
  induction labels generalizing state alone with
  | nil =>
      obtain rfl := Option.some.inj hrun
      exact ⟨alone, rfl, h⟩
  | cons label rest ih =>
      obtain ⟨middle, hstep, hrest⟩ := Transition.run_cons_eq_some.1 hrun
      have hfirst : ∀ client request, label = .start client request →
          Proper view mine Mine client request (code client request) :=
        fun client request hlabel => hcode client request (hlabel ▸ List.mem_cons_self ..)
      have hlater : ∀ client request, .start client request ∈ rest →
          Proper view mine Mine client request (code client request) :=
        fun client request hmem => hcode client request (List.mem_cons_of_mem _ hmem)
      cases hlabel : mine label.client with
      | false =>
          rw [List.filter_cons_of_neg (by simp [hlabel])]
          exact ih (h.step_others hfirst hlabel hstep) hlater hrest
      | true =>
          obtain ⟨middle', hstep', hmiddle⟩ := h.step_mine hfirst hlabel hstep
          obtain ⟨final, hfinal, hpurged⟩ := ih hmiddle hlater hrest
          rw [List.filter_cons, if_pos hlabel]
          exact ⟨final, Transition.run_cons_eq_some.2 ⟨middle', hstep', hfinal⟩, hpurged⟩

end Purged

/-- Leave out all that the others do: the answers to one's own requests are the same. -/
theorem State.run_purge
    {memory : Memory} {labels : List (Label Client Request)}
    (hcode : ∀ client request, .start client request ∈ labels →
      Proper view mine Mine client request (code client request))
    {final : State Client Memory Request Answer}
    (hrun : Transition.run (step code) (State.initial memory) labels = some final) :
    ∃ alone, Transition.run (step code) (State.initial memory)
        (labels.filter fun label => mine label.client) = some alone ∧
      alone.ended = final.ended.filter fun ended => Mine ended.1 := by
  obtain ⟨alone, halone, hpurged⟩ := (Purged.initial memory).run hcode hrun
  exact ⟨alone, halone, hpurged.ended_eq⟩

end

end Threads
