import VaeDb.Library.Calls

/-!
# Programs within programs

A system can be a part of a larger one: its memory is a `view` of the larger memory, and a
program of the larger system, a host, lets a program of the smaller one in as its guest.  Before
that it leaves the view alone, and after it makes an answer of the guest's.

Whatever happens in the larger system, the smaller one can do what is seen of it
(`State.run_guests`): it runs the guests that were let in, and nothing else.  Every answer is made
of the reply of a guest, or is one that may be given without, and what it was that allowed this was
so at a moment of that very call.
-/

namespace Threads

/-- A smaller system in a larger one. -/
structure Hosting (Memory View Request Answer Guest Reply : Type) : Type 1 where
  view : Memory → View
  code : Guest → Program View Reply
  /-- which guest a request may let in, and when -/
  Lets : Request → Memory → Guest → Prop
  /-- the answers without a guest, and when they may be given -/
  Alone : Request → Memory → Answer → Prop
  /-- the answers that are made of a guest's -/
  Renders : Request → Guest → Reply → Answer → Prop

variable {Memory View Request Answer Guest Reply Result : Type}

/-! ## Hosts -/

/-- What is left of a program for a request, and of its guest. -/
def Within (h : Hosting Memory View Request Answer Guest Reply) (request : Request)
    (guest : Guest) : Program Memory Answer → Program View Reply → Prop
  | .done answer, program => ∃ reply, program = .done reply ∧ h.Renders request guest reply answer
  | .act action next, program => ∃ action' next', program = .act action' next' ∧
      (∀ memory, action' (h.view memory) =
        (action memory).map fun result => (result.1, h.view result.2)) ∧
      ∀ result, Within h request guest (next result) (next' result)

/-- What is left of a program that has not let anybody in, and how the memory was when it did
something last. -/
def Hosts (h : Hosting Memory View Request Answer Guest Reply) (request : Request) :
    Memory → Program Memory Answer → Prop
  | last, .done answer => h.Alone request last answer
  | _, .act action next => ∀ memory result, action memory = some result →
      h.view result.2 = h.view memory ∧
        (Hosts h request result.2 (next result.1) ∨ ∃ guest, h.Lets request memory guest ∧
          Within h request guest (next result.1) (h.code guest))

/-- A program that is in the view only. -/
def Program.zoom (view : Memory → View) (put : Memory → View → Memory) :
    Program View Result → Program Memory Result
  | .done result => .done result
  | .act action next =>
      .act (fun memory => (action (view memory)).map fun result => (result.1, put memory result.2))
        fun result => (next result).zoom view put

theorem Program.bind_assoc {Value Value' : Type} (program : Program Memory Result)
    (rest : Result → Program Memory Value) (last : Value → Program Memory Value') :
    program >>= rest >>= last = program >>= fun result => rest result >>= last := by
  induction program with
  | done result => rfl
  | act action next ih => exact congrArg (Program.act action) (funext ih)

theorem Program.bind_pure (program : Program Memory Result) : program >>= pure = program := by
  induction program with
  | done result => rfl
  | act action next ih => exact congrArg (Program.act action) (funext ih)

variable {h : Hosting Memory View Request Answer Guest Reply} {request : Request}

/-- The guest runs in the view, and the answer is made of what it gives. -/
theorem Within.zoom {guest : Guest} {put : Memory → View → Memory}
    (hput : ∀ memory seen, h.view (put memory seen) = seen) {wrap : Result → Reply}
    {render : Result → Answer}
    (hrender : ∀ result, h.Renders request guest (wrap result) (render result))
    (program : Program View Result) :
    Within h request guest
      (program.zoom h.view put >>= fun result => pure (render result))
      (program >>= fun result => pure (wrap result)) := by
  induction program with
  | done result => exact ⟨wrap result, rfl, hrender result⟩
  | act action next ih =>
      refine ⟨action, fun result => next result >>= fun result => pure (wrap result), rfl,
        fun memory => ?_, ih⟩
      show action (h.view memory) = ((action (h.view memory)).map _).map _
      rw [Option.map_map]
      cases action (h.view memory) with
      | none => rfl
      | some result => exact congrArg some (Prod.ext rfl (hput memory result.2).symm)

namespace Hosts

/-- An action that changes nothing in view, and what follows on it. -/
theorem step {last : Memory} {action : Memory → Result × Memory}
    {rest : Result → Program Memory Answer}
    (hsilent : ∀ memory, h.view (action memory).2 = h.view memory)
    (hrest : ∀ memory, Hosts h request (action memory).2 (rest (action memory).1) ∨
      ∃ guest, h.Lets request memory guest ∧
        Within h request guest (rest (action memory).1) (h.code guest)) :
    Hosts h request last (Program.step action >>= rest) := by
  intro memory result hresult
  obtain rfl := Option.some.inj hresult
  exact ⟨hsilent memory, hrest memory⟩

theorem read {last : Memory} {look : Memory → Result} {rest : Result → Program Memory Answer}
    (hrest : ∀ memory, Hosts h request memory (rest (look memory)) ∨
      ∃ guest, h.Lets request memory guest ∧
        Within h request guest (rest (look memory)) (h.code guest)) :
    Hosts h request last (Program.read look >>= rest) :=
  step (fun _ => rfl) hrest

/-- Nothing in view ever changes, and every answer may always be given without a guest. -/
theorem of_silent {program : Program Memory Result} (hsilent : Silent h.view program)
    {render : Result → Answer} (halone : ∀ last result, h.Alone request last (render result))
    (last : Memory) :
    Hosts h request last (program >>= fun result => pure (render result)) := by
  induction program generalizing last with
  | done result => exact halone last result
  | act action next ih =>
      intro memory result hresult
      exact ⟨(hsilent (h.view memory)).1 memory result rfl hresult,
        .inl (ih result.1 (fun seen => (hsilent seen).2 result.1) result.2)⟩

end Hosts

/-! ## Steps -/

/-- Another answer than these is given to a call, and this was a moment of it. -/
def AnswersNext {Client : Type} [DecidableEq Client]
    (code : Client → Request → Program Memory Answer) (initial : Memory)
    (labels : List (Label Client Request)) (ended : List (Request × Answer)) (request : Request)
    (answer : Answer) (moment : Memory) : Prop :=
  ∃ client earlier later now, labels = earlier ++ .act client :: later ∧
    Transition.run (step code) (State.initial initial) earlier = some now ∧
    now.running client = some (request, .done answer) ∧ now.ended = ended ∧
    During code (State.initial initial) earlier client request moment

/-- The answers, and those of the guests of which they are made, in order.  What allows an answer,
or allows the guest in, holds at a moment of the call. -/
inductive Matched (h : Hosting Memory View Request Answer Guest Reply)
    (Next : List (Request × Answer) → Request → Answer → Memory → Prop) :
    List (Request × Answer) → List (Guest × Reply) → Prop
  | nil : Matched h Next [] []
  | alone {ended : List (Request × Answer)} {ended' : List (Guest × Reply)} {request : Request}
      {answer : Answer} {moment : Memory} (rest : Matched h Next ended ended')
      (hnext : Next ended request answer moment) (halone : h.Alone request moment answer) :
      Matched h Next ((request, answer) :: ended) ended'
  | rendered {ended : List (Request × Answer)} {ended' : List (Guest × Reply)}
      {request : Request} {answer : Answer} {moment : Memory} {guest : Guest} {reply : Reply}
      (rest : Matched h Next ended ended') (hnext : Next ended request answer moment)
      (hlets : h.Lets request moment guest) (hrenders : h.Renders request guest reply answer) :
      Matched h Next ((request, answer) :: ended) ((guest, reply) :: ended')

theorem Matched.mono {Next Next' : List (Request × Answer) → Request → Answer → Memory → Prop}
    {ended : List (Request × Answer)} {ended' : List (Guest × Reply)}
    (hmatched : Matched h Next ended ended')
    (hmore : ∀ ended request answer moment, Next ended request answer moment →
      Next' ended request answer moment) : Matched h Next' ended ended' := by
  induction hmatched with
  | nil => exact .nil
  | alone _ hnext halone ih => exact .alone ih (hmore _ _ _ _ hnext) halone
  | rendered _ hnext hlets hrenders ih => exact .rendered ih (hmore _ _ _ _ hnext) hlets hrenders

section

variable {Client : Type} [DecidableEq Client] {code : Client → Request → Program Memory Answer}
  {state next final : State Client Memory Request Answer}
  {guests : State Client View Guest Reply} {client : Client} {initial : Memory}
  {labels : List (Label Client Request)} {label : Label Client Request}

/-- What a client works on, and its guest; `Moment` are the moments of its call. -/
def Accords (h : Hosting Memory View Request Answer Guest Reply)
    (Moment : Request → Memory → Prop) :
    Option (Request × Program Memory Answer) → Option (Guest × Program View Reply) → Prop
  | none, job' => job' = none
  | some (request, program), none => ∃ last, Moment request last ∧ Hosts h request last program
  | some (request, program), some (guest, program') =>
      (∃ entry, Moment request entry ∧ h.Lets request entry guest) ∧
        Within h request guest program program'

/-- Nobody has been let in. -/
theorem Accords.outside {Moment : Request → Memory → Prop} {program : Program Memory Answer}
    {last : Memory} (hmoment : Moment request last) (hhosts : Hosts h request last program)
    {job' : Option (Guest × Program View Reply)} (hjob : job' = none) :
    Accords h Moment (some (request, program)) job' :=
  hjob ▸ ⟨last, hmoment, hhosts⟩

theorem Accords.inside {Moment : Request → Memory → Prop} {program : Program Memory Answer}
    {entry : Memory} {guest : Guest} {program' : Program View Reply}
    (hmoment : Moment request entry) (hlets : h.Lets request entry guest)
    (hwithin : Within h request guest program program') :
    Accords h Moment (some (request, program)) (some (guest, program')) :=
  ⟨⟨entry, hmoment, hlets⟩, hwithin⟩

theorem Accords.mono {Moment Moment' : Request → Memory → Prop}
    {job : Option (Request × Program Memory Answer)} {job' : Option (Guest × Program View Reply)}
    (haccords : Accords h Moment job job')
    (hmore : ∀ request memory, Moment request memory → Moment' request memory) :
    Accords h Moment' job job' := by
  cases job with
  | none => exact haccords
  | some job =>
      cases job' with
      | none =>
          obtain ⟨last, hlast, hhosts⟩ := haccords
          exact ⟨last, hmore job.1 last hlast, hhosts⟩
      | some job' =>
          obtain ⟨hentry, hwithin⟩ := haccords
          obtain ⟨entry, hmoment, hlets⟩ := hentry
          exact ⟨⟨entry, hmore job.1 entry hmoment, hlets⟩, hwithin⟩

/-- What a larger system has done, and what is seen of it. -/
structure Hosted (h : Hosting Memory View Request Answer Guest Reply)
    (code : Client → Request → Program Memory Answer) (initial : Memory)
    (labels : List (Label Client Request)) (state : State Client Memory Request Answer)
    (guests : State Client View Guest Reply) : Prop where
  memory : guests.memory = h.view state.memory
  running : ∀ client, Accords h (During code (State.initial initial) labels client)
    (state.running client) (guests.running client)
  ended : Matched h (AnswersNext code initial labels) state.ended guests.ended

/-- The code for a request begins without a guest, or with one that is let in. -/
def Receives (h : Hosting Memory View Request Answer Guest Reply) (request : Request)
    (program : Program Memory Answer) : Prop :=
  ∀ memory, Hosts h request memory program ∨ ∃ guest, h.Lets request memory guest ∧
    Within h request guest program (h.code guest)

/-- A client lets a guest in at a moment of its call. -/
def Admits (h : Hosting Memory View Request Answer Guest Reply)
    (code : Client → Request → Program Memory Answer) (initial : Memory)
    (labels : List (Label Client Request)) (client : Client) (guest : Guest) : Prop :=
  ∃ earlier request moment, earlier <+: labels ∧
    During code (State.initial initial) earlier client request moment ∧
    h.Lets request moment guest

/-- The smaller system goes on to where it is seen after these labels, and begins only with guests
that were let in. -/
def GoesOn (h : Hosting Memory View Request Answer Guest Reply)
    (code : Client → Request → Program Memory Answer) (initial : Memory)
    (labels : List (Label Client Request)) (next : State Client Memory Request Answer)
    (guests : State Client View Guest Reply) : Prop :=
  ∃ labels' guests', Transition.run (step fun _ => h.code) guests labels' = some guests' ∧
    Hosted h code initial labels next guests' ∧
    ∀ client guest, .start client guest ∈ labels' → Admits h code initial labels client guest

theorem AnswersNext.concat {ended : List (Request × Answer)} {request : Request} {answer : Answer}
    {moment : Memory} (hnext : AnswersNext code initial labels ended request answer moment)
    (label : Label Client Request) :
    AnswersNext code initial (labels ++ [label]) ended request answer moment := by
  obtain ⟨client, earlier, later, now, rfl, hnow⟩ := hnext
  exact ⟨client, earlier, later ++ [label], now, by simp, hnow⟩

namespace Hosted

theorem nil (initial : Memory) :
    Hosted h code initial [] (State.initial initial : State Client Memory Request Answer)
      (State.initial (h.view initial)) where
  memory := rfl
  running := fun _ => rfl
  ended := .nil

/-- One client moves, or ends, on both sides. -/
theorem move (hhosted : Hosted h code initial labels state guests)
    (hlabel : ∀ other, other ≠ client → ∀ request, label ≠ .start other request)
    {job : Option (Request × Program Memory Answer)} {job' : Option (Guest × Program View Reply)}
    (hjob : Accords h (During code (State.initial initial) (labels ++ [label]) client) job job')
    {memory : Memory} {seen : View} (hmemory : seen = h.view memory)
    {ended : List (Request × Answer)} {ended' : List (Guest × Reply)}
    (hended : Matched h (AnswersNext code initial (labels ++ [label])) ended ended') :
    Hosted h code initial (labels ++ [label])
      { memory, running := Function.update state.running client job, ended }
      { memory := seen, running := Function.update guests.running client job',
        ended := ended' } where
  memory := hmemory
  running := by
    intro other
    show Accords h _ (Function.update state.running client job other)
      (Function.update guests.running client job' other)
    by_cases hsame : other = client
    · subst hsame
      rw [Function.update_self, Function.update_self]
      exact hjob
    · rw [Function.update_of_ne hsame, Function.update_of_ne hsame]
      exact (hhosted.running other).mono fun _ _ hmoment => hmoment.concat (hlabel other hsame)
  ended := hended

/-- The same where the guest does nothing. -/
theorem move_host (hhosted : Hosted h code initial labels state guests)
    (hlabel : ∀ other, other ≠ client → ∀ request, label ≠ .start other request)
    {job : Option (Request × Program Memory Answer)}
    (hjob : Accords h (During code (State.initial initial) (labels ++ [label]) client) job
      (guests.running client))
    {memory : Memory} (hmemory : h.view memory = h.view state.memory)
    {ended : List (Request × Answer)}
    (hended : Matched h (AnswersNext code initial (labels ++ [label])) ended guests.ended) :
    Hosted h code initial (labels ++ [label])
      { memory, running := Function.update state.running client job, ended } guests := by
  have hmove := hhosted.move hlabel hjob (hhosted.memory.trans hmemory.symm) hended
  rwa [Function.update_eq_self] at hmove

theorem ended_concat (hhosted : Hosted h code initial labels state guests)
    (label : Label Client Request) :
    Matched h (AnswersNext code initial (labels ++ [label])) state.ended guests.ended :=
  hhosted.ended.mono fun _ _ _ _ hnext => hnext.concat label

/-- A call begins; its guest may be let in at once. -/
theorem start (hhosted : Hosted h code initial labels state guests) {request : Request}
    (hnext : Transition.run (Threads.step code) (State.initial initial)
      (labels ++ [.start client request]) = some { state with
        running := Function.update state.running client (some (request, code client request)) })
    (hidle : state.running client = none) (hcode : Receives h request (code client request)) :
    GoesOn h code initial (labels ++ [.start client request]) { state with
      running := Function.update state.running client (some (request, code client request)) }
      guests := by
  have hothers : ∀ other, other ≠ client → ∀ request',
      (.start client request : Label Client Request) ≠ .start other request' := by
    intro other hother request' hsame
    cases hsame
    exact hother rfl
  have hmoment := During.start hnext
  have hidle' : guests.running client = none := by
    have haccords := hhosted.running client
    rwa [hidle] at haccords
  rcases hcode state.memory with hhosts | hinside
  · exact ⟨[], guests, rfl, hhosted.move_host hothers (.outside hmoment hhosts hidle') rfl
      (hhosted.ended_concat _), fun _ _ hmem => by cases hmem⟩
  · obtain ⟨guest, hlets, hwithin⟩ := hinside
    refine ⟨[.start client guest], _, Transition.run_cons_eq_some.2
      ⟨_, step_start hidle' guest, rfl⟩, hhosted.move hothers (.inside hmoment hlets hwithin)
        hhosted.memory (hhosted.ended_concat _), ?_⟩
    intro other guest' hmem
    cases List.mem_singleton.1 hmem
    exact ⟨_, request, state.memory, List.prefix_rfl, hmoment, hlets⟩

/-- A call is answered, and so is its guest if it has one. -/
theorem finish (hhosted : Hosted h code initial labels state guests)
    (hrun : Transition.run (Threads.step code) (State.initial initial) labels = some state)
    {request : Request} {answer : Answer}
    (hrunning : state.running client = some (request, .done answer)) :
    GoesOn h code initial (labels ++ [.act client]) { state with
      running := Function.update state.running client none
      ended := (request, answer) :: state.ended } guests := by
  have hothers : ∀ other, other ≠ client → ∀ request',
      (.act client : Label Client Request) ≠ .start other request' := fun _ _ _ => by simp
  have haccords := hhosted.running client
  rw [hrunning] at haccords
  have hanswers : ∀ {moment : Memory},
      During code (State.initial initial) labels client request moment →
      AnswersNext code initial (labels ++ [.act client]) state.ended request answer moment :=
    fun hmoment => ⟨client, labels, [], state, rfl, hrun, hrunning, rfl, hmoment⟩
  have hnone : Accords h (During code (State.initial initial) (labels ++ [.act client]) client)
      (none : Option (Request × Program Memory Answer)) none := rfl
  cases hguest : guests.running client with
  | none =>
      rw [hguest] at haccords
      obtain ⟨last, hmoment, halone⟩ := haccords
      exact ⟨[], guests, rfl, hhosted.move_host hothers (hguest ▸ hnone) rfl
        (.alone (hhosted.ended_concat _) (hanswers hmoment) halone),
        fun _ _ hmem => by cases hmem⟩
  | some job =>
      obtain ⟨guest, program⟩ := job
      rw [hguest] at haccords
      obtain ⟨⟨entry, hmoment, hlets⟩, reply, rfl, hrenders⟩ := haccords
      exact ⟨[.act client], _, Transition.run_cons_eq_some.2 ⟨_, step_done hguest, rfl⟩,
        hhosted.move hothers hnone hhosted.memory
          (.rendered (hhosted.ended_concat _) (hanswers hmoment) hlets hrenders),
        fun _ _ hmem => by cases List.mem_singleton.1 hmem⟩

/-- An action is the guest's, or changes nothing in view and may let a guest in. -/
theorem act (hhosted : Hosted h code initial labels state guests)
    (hrun : Transition.run (Threads.step code) (State.initial initial) labels = some state)
    {request : Request} {action : Memory → Option (Result × Memory)}
    {rest : Result → Program Memory Answer} {result : Result} {memory : Memory}
    (hnext : Transition.run (Threads.step code) (State.initial initial) (labels ++ [.act client]) =
      some { state with
        memory
        running := Function.update state.running client (some (request, rest result)) })
    (hrunning : state.running client = some (request, .act action rest))
    (haction : action state.memory = some (result, memory)) :
    GoesOn h code initial (labels ++ [.act client]) { state with
      memory
      running := Function.update state.running client (some (request, rest result)) } guests := by
  have hothers : ∀ other, other ≠ client → ∀ request',
      (.act client : Label Client Request) ≠ .start other request' := fun _ _ _ => by simp
  -- a guest is let in as the memory is before the action, an answer may depend on it after that
  have hbefore : During code (State.initial initial) (labels ++ [.act client]) client request
      state.memory := (During.now hrun hrunning).concat fun _ => by simp
  have hafter : During code (State.initial initial) (labels ++ [.act client]) client request
      memory := During.now hnext (Function.update_self client _ state.running)
  have haccords := hhosted.running client
  rw [hrunning] at haccords
  cases hguest : guests.running client with
  | none =>
      rw [hguest] at haccords
      obtain ⟨last, -, hhosts⟩ := haccords
      obtain ⟨hview, houtside | hinside⟩ := hhosts state.memory (result, memory) haction
      · exact ⟨[], guests, rfl, hhosted.move_host hothers (.outside hafter houtside hguest) hview
          (hhosted.ended_concat _), fun _ _ hmem => by cases hmem⟩
      · obtain ⟨guest, hlets, hwithin⟩ := hinside
        refine ⟨[.start client guest], _, Transition.run_cons_eq_some.2
          ⟨_, step_start hguest guest, rfl⟩, hhosted.move hothers (.inside hbefore hlets hwithin)
            (hhosted.memory.trans hview.symm) (hhosted.ended_concat _), ?_⟩
        intro other guest' hmem
        cases List.mem_singleton.1 hmem
        exact ⟨_, request, state.memory, List.prefix_rfl, hbefore, hlets⟩
  | some job =>
      obtain ⟨guest, program⟩ := job
      rw [hguest] at haccords
      obtain ⟨⟨entry, hmoment, hlets⟩, action', next', rfl, hsame, hrest⟩ := haccords
      have haction' : action' guests.memory = some (result, h.view memory) := by
        rw [hhosted.memory, hsame, haction]
        rfl
      exact ⟨[.act client], _, Transition.run_cons_eq_some.2
        ⟨_, step_action hguest haction', rfl⟩, hhosted.move hothers
          (.inside (hmoment.concat fun _ => by simp) hlets (hrest result)) rfl
          (hhosted.ended_concat _),
        fun _ _ hmem => by cases List.mem_singleton.1 hmem⟩

theorem step (hhosted : Hosted h code initial labels state guests)
    (hrun : Transition.run (Threads.step code) (State.initial initial) labels = some state)
    (hcode : ∀ client request, label = .start client request →
      Receives h request (code client request))
    (hstep : Threads.step code state label = some next) :
    GoesOn h code initial (labels ++ [label]) next guests := by
  have hnext : Transition.run (Threads.step code) (State.initial initial) (labels ++ [label]) =
      some next := Transition.run_concat_eq_some.2 ⟨state, hrun, hstep⟩
  rcases step_cases hstep with hstart | hdone | haction
  · obtain ⟨client, request, rfl, hidle, rfl⟩ := hstart
    exact hhosted.start hnext hidle (hcode client request rfl)
  · obtain ⟨client, request, answer, rfl, hrunning, rfl⟩ := hdone
    exact hhosted.finish hrun hrunning
  · obtain ⟨client, request, Result, action, rest, result, memory, rfl, hrunning, haction, rfl⟩ :=
      haction
    exact hhosted.act hrun hnext hrunning haction

end Hosted

/-! ## Runs -/

/-- **What is seen of a larger system is a run of the smaller one.**  Its clients begin with the
guests that are let in. -/
theorem State.run_guests
    (hcode : ∀ client request, .start client request ∈ labels →
      Receives h request (code client request))
    (hrun : Transition.run (step code) (State.initial initial) labels = some final) :
    ∃ labels' final', Transition.run (step fun _ => h.code) (State.initial (h.view initial))
        labels' = some final' ∧ Hosted h code initial labels final final' ∧
      ∀ client guest, .start client guest ∈ labels' →
        Admits h code initial labels client guest := by
  induction labels using List.reverseRecOn generalizing final with
  | nil =>
      obtain rfl := Option.some.inj hrun
      exact ⟨[], _, rfl, Hosted.nil initial, fun _ _ hmem => by cases hmem⟩
  | append_singleton labels label ih =>
      obtain ⟨middle, hmiddle, hstep⟩ := Transition.run_concat_eq_some.1 hrun
      obtain ⟨labels', middle', hrun', hhosted, hadmits⟩ :=
        ih (fun client request hmem => hcode client request (List.mem_append_left _ hmem)) hmiddle
      obtain ⟨more, final', hmore, hfinal, hnew⟩ := hhosted.step hmiddle
        (fun client request hlabel => hcode client request
          (hlabel ▸ List.mem_append_right _ List.mem_cons_self)) hstep
      refine ⟨labels' ++ more, final', ?_, hfinal, fun client guest hmem => ?_⟩
      · rw [Transition.run_append, hrun']
        exact hmore
      · rcases List.mem_append.1 hmem with hold | hmem
        · obtain ⟨earlier, request, moment, hearlier, hduring, hlets⟩ := hadmits client guest hold
          exact ⟨earlier, request, moment, hearlier.trans (List.prefix_append ..), hduring, hlets⟩
        · exact hnew client guest hmem

end

end Threads
