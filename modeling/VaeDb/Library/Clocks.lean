import Mathlib.Data.Int.Notation
import VaeDb.Library.Guests

/-!
# Programs that have read the clock

A program can read the clock first and act on what it has read later, when the clock has moved
on.  `KeepsSince` is what such a program keeps: all that it knows is that the clock is not behind
the time that it has read.  As in `Kept`, what all programs keep holds after every interleaving
of them (`KeptSince.run`), and that is so from any moment of a run on, whatever has begun before
it (`leaves_of_run`).  What all programs answer while something holds are the answers to the calls
that begin in a run in which it always does (`ensures_of_call`).
-/

namespace Threads

variable {Memory View Value Value' Result : Type} {clock : Memory → ℤ} {A : Memory → Prop}

/-- What holds before an action holds after it, and the clock does not go back, for a program
that has read a time. -/
def KeepsSince (clock : Memory → ℤ) (A : Memory → Prop) : ℤ → Program Memory Value → Prop
  | _, .done _ => True
  | time, .act action next => ∀ memory result, time ≤ clock memory → action memory = some result →
      (A memory → A result.2) ∧ clock memory ≤ clock result.2 ∧
        KeepsSince clock A (clock memory) (next result.1)

namespace KeepsSince

variable {time : ℤ}

theorem pure (value : Value) :
    KeepsSince clock A time (Pure.pure value : Program Memory Value) := trivial

/-- A time that has been read later. -/
theorem mono {program : Program Memory Value} (h : KeepsSince clock A time program) {later : ℤ}
    (hle : time ≤ later) : KeepsSince clock A later program := by
  cases program with
  | done value => trivial
  | act action next => exact fun memory result htime => h memory result (hle.trans htime)

theorem bind {program : Program Memory Value} {rest : Value → Program Memory Value'}
    (h : KeepsSince clock A time program)
    (hrest : ∀ value later, time ≤ later → KeepsSince clock A later (rest value)) :
    KeepsSince clock A time (program >>= rest) := by
  induction program generalizing time with
  | done value => exact hrest value time (Int.le_refl _)
  | act action next ih =>
      intro memory result htime hresult
      obtain ⟨hkept, hclock, hnext⟩ := h memory result htime hresult
      exact ⟨hkept, hclock, ih result.1 hnext fun value later hlater =>
        hrest value later (htime.trans hlater)⟩

/-- For programs that throw. -/
theorem run_bind {Fault : Type} {program : Throwing Fault Memory Value}
    {rest : Value → Throwing Fault Memory Value'} (h : KeepsSince clock A time program.run)
    (hrest : ∀ value later, time ≤ later → KeepsSince clock A later (rest value).run) :
    KeepsSince clock A time (program >>= rest).run := by
  rw [ExceptT.run_bind]
  refine bind h fun ended later hlater => ?_
  cases ended with
  | ok value => exact hrest value later hlater
  | error fault => exact pure _

theorem step {action : Memory → Result × Memory}
    (h : ∀ memory, time ≤ clock memory →
      (A memory → A (action memory).2) ∧ clock memory ≤ clock (action memory).2) :
    KeepsSince clock A time (Program.step action) := by
  intro memory result htime hresult
  obtain rfl := Option.some.inj hresult
  obtain ⟨hkept, hclock⟩ := h memory htime
  exact ⟨hkept, hclock, trivial⟩

theorem read (look : Memory → Result) : KeepsSince clock A time (Program.read look) :=
  step fun _ _ => ⟨fun h => h, Int.le_refl _⟩

/-- The clock is read, and the rest goes by it. -/
theorem readClock {rest : ℤ → Program Memory Value}
    (hrest : ∀ now, KeepsSince clock A now (rest now)) :
    KeepsSince clock A time (Program.read clock >>= rest) := by
  intro memory result _ hresult
  obtain rfl := Option.some.inj hresult
  exact ⟨fun hmemory => hmemory, Int.le_refl _, hrest (clock memory)⟩

/-- The clock alone. -/
theorem forward {program : Program Memory Value} (h : KeepsSince clock A time program) :
    KeepsSince clock (fun _ => True) time program := by
  induction program generalizing time with
  | done value => trivial
  | act action next ih =>
      intro memory result htime hresult
      obtain ⟨-, hclock, hnext⟩ := h memory result htime hresult
      exact ⟨fun _ => trivial, hclock, ih result.1 hnext⟩

/-- A program that changes nothing in view and never puts the clock back. -/
theorem of_silent {view : Memory → View} {program : Program Memory Value}
    (hsilent : Silent view program)
    (hclock : ∀ time, Keeps (fun memory => time ≤ clock memory) program)
    (hA : ∀ memory memory', view memory' = view memory → clock memory ≤ clock memory' →
      A memory → A memory') : KeepsSince clock A time program := by
  induction program generalizing time with
  | done value => trivial
  | act action next ih =>
      intro memory result _ hresult
      have hview := (hsilent (view memory)).1 memory result rfl hresult
      have hlater := (hclock (clock memory)).1 memory result (Int.le_refl _) hresult
      exact ⟨hA memory result.2 hview hlater, hlater,
        ih result.1 (fun seen => (hsilent seen).2 result.1) fun time => (hclock time).2 result.1⟩

end KeepsSince

/-- What the program of a smaller system keeps. -/
theorem Keeps.zoom {B : View → Prop} {view : Memory → View} {put : Memory → View → Memory}
    {program : Program View Value} (h : Keeps B program)
    (hview : ∀ memory, A memory → B (view memory))
    (hput : ∀ memory seen, A memory → B seen → A (put memory seen)) :
    Keeps A (program.zoom view put) := by
  induction program with
  | done value => trivial
  | act action next ih =>
      refine ⟨fun memory result hmemory hresult => ?_, fun result => ih result (h.2 result)⟩
      obtain ⟨seen, hseen, rfl⟩ := Option.map_eq_some_iff.1 hresult
      exact hput memory seen.2 hmemory (h.1 (view memory) seen (hview memory hmemory) hseen)

/-- What the program of a smaller system does not change. -/
theorem Silent.zoom {Seen : Type} {see : Memory → Seen} {view : Memory → View}
    {put : Memory → View → Memory} (hput : ∀ memory seen, see (put memory seen) = see memory)
    (program : Program View Value) : Silent see (program.zoom view put) := by
  intro seen
  induction program with
  | done value => trivial
  | act action next ih =>
      refine ⟨fun memory result hmemory hresult => ?_, ih⟩
      obtain ⟨inner, -, rfl⟩ := Option.map_eq_some_iff.1 hresult
      exact (hput memory inner.2).trans hmemory

/-! ## Runs -/

section

variable {Client Request Answer : Type} [DecidableEq Client]
  {code : Client → Request → Program Memory Answer}
  {state next final : State Client Memory Request Answer}

/-- What is left of the programs for these requests keeps it. -/
def Leaves (clock : Memory → ℤ) (A : Memory → Prop) (These : Request → Prop)
    (state : State Client Memory Request Answer) : Prop :=
  ∀ client request program, state.running client = some (request, program) → These request →
    KeepsSince clock A (clock state.memory) program

namespace Leaves

variable {These : Request → Prop}

theorem clock_le (h : Leaves clock A (fun _ => True) state) {label : Label Client Request}
    (hstep : Threads.step code state label = some next) :
    clock state.memory ≤ clock next.memory := by
  rcases step_cases hstep with hstart | hdone | haction
  · obtain ⟨_, _, -, -, rfl⟩ := hstart
    exact Int.le_refl _
  · obtain ⟨_, _, _, -, -, rfl⟩ := hdone
    exact Int.le_refl _
  · obtain ⟨client, request, Result, action, rest, result, memory, -, hrunning, haction, rfl⟩ :=
      haction
    exact (h client request _ hrunning trivial state.memory (result, memory) (Int.le_refl _)
      haction).2.1

theorem step (h : Leaves clock A These state) {label : Label Client Request}
    (hclock : clock state.memory ≤ clock next.memory)
    (hcode : ∀ client request time, label = .start client request → These request →
      KeepsSince clock A time (code client request))
    (hstep : Threads.step code state label = some next) : Leaves clock A These next := by
  rcases step_cases hstep with hstart | hdone | haction
  · obtain ⟨client, request, hlabel, -, rfl⟩ := hstart
    refine forall_running_update h fun request' program hjob hthese => ?_
    cases hjob
    exact hcode client request _ hlabel hthese
  · obtain ⟨client, request, answer, -, -, rfl⟩ := hdone
    exact forall_running_update h fun _ _ hjob => by cases hjob
  · obtain ⟨client, request, Result, action, rest, result, memory, -, hrunning, haction, rfl⟩ :=
      haction
    have hclock : clock state.memory ≤ clock memory := hclock
    have hothers : ∀ client request program, state.running client = some (request, program) →
        These request → KeepsSince clock A (clock memory) program :=
      fun _ _ _ hother hthese => (h _ _ _ hother hthese).mono hclock
    refine forall_running_update hothers fun request' program hjob hthese => ?_
    cases hjob
    exact ((h client request _ hrunning hthese state.memory (result, memory) (Int.le_refl _)
      haction).2.2).mono hclock

end Leaves

/-- No program puts the clock back, and those for some of the requests keep it: so does what is
left of them at any moment of a run. -/
theorem leaves_of_run {These : Request → Prop} {memory : Memory}
    {labels : List (Label Client Request)}
    (hforward : ∀ client request time,
      KeepsSince clock (fun _ => True) time (code client request))
    (hcode : ∀ client request time, These request → KeepsSince clock A time (code client request))
    (hrun : Transition.run (Threads.step code) (State.initial memory) labels = some final) :
    Leaves clock A These final := by
  have hstep : ∀ (state : State Client Memory Request Answer) label next,
      Leaves clock (fun _ => True) (fun _ => True) state ∧ Leaves clock A These state →
      Threads.step code state label = some next →
      Leaves clock (fun _ => True) (fun _ => True) next ∧ Leaves clock A These next := by
    intro state label next hstate hnext
    have hclock := hstate.1.clock_le hnext
    exact ⟨hstate.1.step hclock (fun client request time _ _ => hforward client request time)
      hnext, hstate.2.step hclock (fun client request time _ => hcode client request time) hnext⟩
  -- nothing has begun, so nothing is left
  refine (Transition.invariant hstep ⟨?_, ?_⟩ hrun).2
  · intro _ _ _ hrunning
    cases hrunning
  · intro _ _ _ hrunning
    cases hrunning

/-- It holds, and all that is left of the programs keeps it. -/
structure KeptSince (clock : Memory → ℤ) (A : Memory → Prop)
    (state : State Client Memory Request Answer) : Prop where
  memory : A state.memory
  programs : Leaves clock A (fun _ => True) state

namespace KeptSince

theorem step (h : KeptSince clock A state) {label : Label Client Request}
    (hcode : ∀ client request time, label = .start client request →
      KeepsSince clock A time (code client request))
    (hstep : Threads.step code state label = some next) :
    KeptSince clock A next ∧ clock state.memory ≤ clock next.memory := by
  have hclock := h.programs.clock_le hstep
  refine ⟨⟨?_, h.programs.step hclock
    (fun client request time hlabel _ => hcode client request time hlabel) hstep⟩, hclock⟩
  rcases step_cases hstep with hstart | hdone | haction
  · obtain ⟨_, _, -, -, rfl⟩ := hstart
    exact h.memory
  · obtain ⟨_, _, _, -, -, rfl⟩ := hdone
    exact h.memory
  · obtain ⟨client, request, Result, action, rest, result, memory, -, hrunning, haction, rfl⟩ :=
      haction
    exact (h.programs client request _ hrunning trivial state.memory (result, memory)
      (Int.le_refl _) haction).1 h.memory

theorem run (h : KeptSince clock A state) {labels : List (Label Client Request)}
    (hcode : ∀ client request time, .start client request ∈ labels →
      KeepsSince clock A time (code client request))
    (hrun : Transition.run (Threads.step code) state labels = some final) :
    KeptSince clock A final ∧ clock state.memory ≤ clock final.memory := by
  induction labels generalizing state with
  | nil =>
      obtain rfl := Option.some.inj hrun
      exact ⟨h, Int.le_refl _⟩
  | cons label rest ih =>
      obtain ⟨middle, hstep, hrest⟩ := Transition.run_cons_eq_some.1 hrun
      obtain ⟨hmiddle, hclock⟩ := h.step (fun client request time hlabel =>
        hcode client request time (hlabel ▸ List.mem_cons_self ..)) hstep
      obtain ⟨hfinal, hlater⟩ := ih hmiddle (fun client request time hmem =>
        hcode client request time (List.mem_cons_of_mem _ hmem)) hrest
      exact ⟨hfinal, hclock.trans hlater⟩

end KeptSince

/-! ## Answers -/

/-- The answers of a program while something holds of the memory. -/
def Ensures (A : Memory → Prop) (Good : Value → Prop) : Program Memory Value → Prop
  | .done value => Good value
  | .act action next => ∀ memory result, A memory → action memory = some result →
      Ensures A Good (next result.1)

namespace Ensures

variable {Good : Value → Prop} {Good' : Value' → Prop}

theorem of_forall (h : ∀ value, Good value) (program : Program Memory Value) :
    Ensures A Good program := by
  induction program with
  | done value => exact h value
  | act action next ih => exact fun _ result _ _ => ih result.1

theorem bind {program : Program Memory Value} {rest : Value → Program Memory Value'}
    (h : Ensures A Good program) (hrest : ∀ value, Good value → Ensures A Good' (rest value)) :
    Ensures A Good' (program >>= rest) := by
  induction program with
  | done value => exact hrest value h
  | act action next ih =>
      exact fun memory result hmemory hresult => ih result.1 (h memory result hmemory hresult)

end Ensures

/-- While something holds, what is left of the program of a call answers well. -/
theorem ensures_of_call {Right : Request → Answer → Prop} {labels : List (Label Client Request)}
    (halways : ∀ earlier later middle, labels = earlier ++ later →
      Transition.run (Threads.step code) state earlier = some middle → A middle.memory)
    {client : Client} {request : Request} {before since : List (Label Client Request)}
    (hcall : Call labels client request before since)
    (hcode : Ensures A (Right request) (code client request))
    (hrun : Transition.run (Threads.step code) state labels = some final) {request' : Request}
    {program : Program Memory Answer}
    (hrunning : final.running client = some (request', program)) :
    Ensures A (Right request) program := by
  obtain ⟨rfl, hlast⟩ := hcall
  -- on what has happened since the call began; it keeps holding, so each action of the client
  -- leaves a rest that answers well
  induction since using List.reverseRecOn generalizing final request' program with
  | nil =>
      obtain ⟨middle, -, hstep⟩ := Transition.run_concat_eq_some.1 hrun
      rcases step_cases hstep with hstart | hdone | haction
      · obtain ⟨starter, started, hlabel, -, rfl⟩ := hstart
        cases hlabel
        have hjob : some (request, code client request) = some (request', program) :=
          (Function.update_self client _ middle.running).symm.trans hrunning
        cases hjob
        exact hcode
      · obtain ⟨_, _, _, hlabel, -⟩ := hdone
        cases hlabel
      · obtain ⟨_, _, _, _, _, _, _, hlabel, -⟩ := haction
        cases hlabel
  | append_singleton since label ih =>
      have hsplit : before ++ .start client request :: (since ++ [label]) =
          (before ++ .start client request :: since) ++ [label] := by
        rw [List.append_assoc, List.cons_append]
      rw [hsplit] at hrun halways
      obtain ⟨middle, hmiddle, hstep⟩ := Transition.run_concat_eq_some.1 hrun
      have hearlier : ∀ {request' : Request} {program : Program Memory Answer},
          middle.running client = some (request', program) → Ensures A (Right request) program :=
        fun hrunning => ih hrunning
          (fun other hmem => hlast other (List.mem_append_left _ hmem))
          (fun earlier later before' hlabels => halways earlier (later ++ [label]) before'
            (by rw [hlabels, List.append_assoc])) hmiddle
      rcases step_cases hstep with hstart | hdone | haction
      · obtain ⟨starter, started, rfl, -, rfl⟩ := hstart
        have hne : client ≠ starter := fun hsame =>
          hlast started (List.mem_append_right _ (hsame ▸ List.mem_singleton.2 rfl))
        exact hearlier ((Function.update_of_ne hne _ _).symm.trans hrunning)
      · obtain ⟨actor, _, _, -, -, rfl⟩ := hdone
        by_cases hsame : client = actor
        · subst hsame
          cases (Function.update_self ..).symm.trans hrunning
        · exact hearlier ((Function.update_of_ne hsame _ _).symm.trans hrunning)
      · obtain ⟨actor, _, _, _, _, _, _, -, hacting, haction, rfl⟩ := haction
        by_cases hsame : client = actor
        · subst hsame
          cases (Function.update_self ..).symm.trans hrunning
          exact hearlier hacting middle.memory _ (halways _ [label] middle rfl hmiddle) haction
        · exact hearlier ((Function.update_of_ne hsame _ _).symm.trans hrunning)

/-- The answers to the calls that begin in a run in which something always holds. -/
theorem right_of_answers {Right : Request → Answer → Prop} {labels : List (Label Client Request)}
    (halways : ∀ earlier later middle, labels = earlier ++ later →
      Transition.run (Threads.step code) state earlier = some middle → A middle.memory)
    {client : Client} {request : Request} {answer : Answer}
    (hcode : Ensures A (Right request) (code client request))
    (hanswers : Answers code state labels client request answer) : Right request answer := by
  obtain ⟨earlier, later, before, since, now, rfl, hcall, hrun, hrunning⟩ := hanswers
  exact ensures_of_call (fun first rest middle hlabels => halways first (rest ++ _) middle
    (by rw [hlabels, List.append_assoc])) hcall hcode hrun hrunning

end

end Threads
