import VaeDb.Library.Isolation
import VaeDb.Library.Transition

/-!
# Programs that follow a transition system

A transition system may say in its own terms what the actions of concurrent programs come to.
It has a view of their memory, its image, and it knows something of every client: how far it is
with what it is doing.  A program `Follows` the system if each of its actions is matched by
steps of the system that change what is known of this client alone; so one program after
another follows it (`Follows.bind`), and so does a program that changes nothing in view
(`Follows.of_silent`).

If the code for all requests follows the system, from whatever is known of an idle client, every
interleaving is a run of the system (`Mirrored.run`).
-/

namespace Threads

open Transition (run_nil run_append run_cons_eq_some)

variable {Client Memory View S L Known Value Value' Result Request Answer : Type}

/-- A transition system, with the view it has of a memory and what it knows of the clients. -/
structure System (Client Memory View S L Known : Type) where
  step : S → L → Option S
  view : Memory → View
  image : S → View
  know : S → Client → Known

variable {sys : System Client Memory View S L Known} {me : Client} {allowed : L → Prop}

/-- The system takes allowed steps to the image of the memory, and what it knows of the other
clients stays the same. -/
structure System.Matches (sys : System Client Memory View S L Known) (me : Client)
    (allowed : L → Prop) (state after : S) (memory : Memory) : Prop where
  run : ∃ labels, Transition.run sys.step state labels = some after ∧
    ∀ label ∈ labels, allowed label
  view_eq : sys.view memory = sys.image after
  others : ∀ other, other ≠ me → sys.know after other = sys.know state other

namespace System.Matches

variable {state after : S} {memory : Memory}

theorem refl (hview : sys.view memory = sys.image state) :
    sys.Matches me allowed state state memory :=
  ⟨⟨[], rfl, fun _ h => absurd h List.not_mem_nil⟩, hview, fun _ _ => rfl⟩

/-- One step of the system. -/
theorem single {label : L} (hstep : sys.step state label = some after) (hlabel : allowed label)
    (hview : sys.view memory = sys.image after)
    (hothers : ∀ other, other ≠ me → sys.know after other = sys.know state other) :
    sys.Matches me allowed state after memory := by
  refine ⟨⟨[label], ?_, fun other hother => ?_⟩, hview, hothers⟩
  · exact run_cons_eq_some.2 ⟨after, hstep, rfl⟩
  · rw [List.mem_singleton.1 hother]
    exact hlabel

end System.Matches

/-! ## Programs -/

/-- Each action is matched by the system, from what it knows of the client at that moment, and
`post` holds of the value and of what it knows in the end. -/
def Follows (sys : System Client Memory View S L Known) (me : Client) (allowed : L → Prop)
    (post : Value → Known → Prop) : Program Memory Value → Known → Prop
  | .done value, known => post value known
  | .act action next, known => ∀ state memory result, sys.view memory = sys.image state →
      sys.know state me = known → action memory = some result →
      ∃ after, sys.Matches me allowed state after result.2 ∧
        Follows sys me allowed post (next result.1) (sys.know after me)

namespace Follows

variable {post : Value → Known → Prop} {known : Known}

theorem pure {value : Value} (h : post value known) :
    Follows sys me allowed post (Pure.pure value : Program Memory Value) known := h

theorem step {action : Memory → Value × Memory}
    (h : ∀ state memory, sys.view memory = sys.image state → sys.know state me = known →
      ∃ after, sys.Matches me allowed state after (action memory).2 ∧
        post (action memory).1 (sys.know after me)) :
    Follows sys me allowed post (Program.step action) known := by
  intro state memory result hview hknown haction
  obtain rfl := Option.some.inj haction
  exact h state memory hview hknown

theorem bind {program : Program Memory Value} {rest : Value → Program Memory Value'}
    {post' : Value' → Known → Prop} (h : Follows sys me allowed post program known)
    (hrest : ∀ value known, post value known → Follows sys me allowed post' (rest value) known) :
    Follows sys me allowed post' (program >>= rest) known := by
  induction program generalizing known with
  | done value => exact hrest value known h
  | act action next ih =>
      intro state memory result hview hknown haction
      obtain ⟨after, hmatches, hfollows⟩ := h state memory result hview hknown haction
      exact ⟨after, hmatches, ih result.1 hfollows⟩

/-- What changes nothing in view leaves the system where it is. -/
theorem of_silent {program : Program Memory Value} (hsilent : Silent sys.view program)
    (hpost : ∀ value, post value known) : Follows sys me allowed post program known := by
  induction program with
  | done value => exact hpost value
  | act action next ih =>
      intro state memory result hview hknown haction
      have hsame : sys.view result.2 = sys.view memory :=
        (hsilent (sys.view memory)).1 memory result rfl haction
      refine ⟨state, .refl (hsame.trans hview), ?_⟩
      rw [hknown]
      exact ih result.1 fun seen => (hsilent seen).2 result.1

end Follows

/-! ## Interleavings -/

section

variable [DecidableEq Client] {code : Client → Request → Program Memory Answer}
  {allowed : Client → Request → L → Prop} {post : Request → Answer → Known → Prop}
  {Ready : Known → Prop} {Begun : Client → Request → Prop}

/-- Something is true of all idle clients after one of them has changed. -/
theorem forall_idle_update {P : Client → Prop}
    {running : Client → Option (Request × Program Memory Answer)} {client : Client}
    (h : ∀ other, other ≠ client → running other = none → P other)
    {job : Option (Request × Program Memory Answer)} (hjob : job = none → P client)
    (other : Client) (hidle : Function.update running client job other = none) : P other := by
  by_cases hsame : other = client
  · subst hsame
    rw [Function.update_self] at hidle
    exact hjob hidle
  · rw [Function.update_of_ne hsame] at hidle
    exact h other hsame hidle

/-- The system is where the clients are. -/
structure Mirrored (sys : System Client Memory View S L Known)
    (allowed : Client → Request → L → Prop) (post : Request → Answer → Known → Prop)
    (Ready : Known → Prop) (Begun : Client → Request → Prop)
    (state : State Client Memory Request Answer) (mirror : S) : Prop where
  view_eq : sys.view state.memory = sys.image mirror
  ready : ∀ client, state.running client = none → Ready (sys.know mirror client)
  follows : ∀ client request program, state.running client = some (request, program) →
    Begun client request ∧
      Follows sys client (allowed client request) (post request) program (sys.know mirror client)

namespace Mirrored

variable {state next final : State Client Memory Request Answer} {mirror : S}

/-- A step of the clients is none of the system, or some that are allowed to one of them. -/
theorem step (h : Mirrored sys allowed post Ready Begun state mirror)
    (hready : ∀ request answer known, post request answer known → Ready known)
    {label : Label Client Request}
    (hcode : ∀ client request known, label = .start client request → Ready known →
      Begun client request ∧
        Follows sys client (allowed client request) (post request) (code client request) known)
    (hstep : Threads.step code state label = some next) :
    ∃ labels after, Transition.run sys.step mirror labels = some after ∧
      (∀ step ∈ labels, ∃ client request, Begun client request ∧ allowed client request step) ∧
      Mirrored sys allowed post Ready Begun next after := by
  -- to begin and to be answered is no step of the system; an action is one of those that
  -- `Follows` gives for it
  rcases step_cases hstep with hstart | hdone | haction
  · obtain ⟨client, request, hlabel, hidle, rfl⟩ := hstart
    refine ⟨[], mirror, rfl, fun _ hmem => absurd hmem List.not_mem_nil, h.view_eq,
      forall_idle_update (fun other _ => h.ready other) (fun hjob => by cases hjob),
      forall_running_update h.follows fun request' program hjob => ?_⟩
    cases hjob
    exact hcode client request _ hlabel (h.ready client hidle)
  · obtain ⟨client, request, answer, -, hrunning, rfl⟩ := hdone
    refine ⟨[], mirror, rfl, fun _ hmem => absurd hmem List.not_mem_nil, h.view_eq,
      forall_idle_update (fun other _ => h.ready other) fun _ => ?_,
      forall_running_update h.follows fun _ _ hjob => by cases hjob⟩
    exact hready request answer _ (h.follows client request _ hrunning).2
  · obtain ⟨client, request, Result, action, rest, result, memory, -, hrunning, haction, rfl⟩ :=
      haction
    obtain ⟨hbegun, hfollows⟩ := h.follows client request _ hrunning
    obtain ⟨after, hmatches, hrest⟩ :=
      hfollows mirror state.memory (result, memory) h.view_eq rfl haction
    obtain ⟨labels, hrun, hallowed⟩ := hmatches.run
    refine ⟨labels, after, hrun, fun step hmem => ⟨client, request, hbegun, hallowed step hmem⟩,
      hmatches.view_eq, ?_, ?_⟩
    · refine forall_idle_update (fun other hother hidle => ?_) fun hjob => by cases hjob
      rw [hmatches.others other hother]
      exact h.ready other hidle
    · intro other request' program hother
      by_cases hsame : other = client
      · subst hsame
        cases (Function.update_self other _ state.running).symm.trans hother
        exact ⟨hbegun, hrest⟩
      · rw [hmatches.others other hsame]
        exact h.follows other request' program
          ((Function.update_of_ne hsame _ state.running).symm.trans hother)

/-- Every interleaving of the clients is a run of the system. -/
theorem run (h : Mirrored sys allowed post Ready Begun state mirror)
    (hready : ∀ request answer known, post request answer known → Ready known)
    {labels : List (Label Client Request)}
    (hbegun : ∀ client request, .start client request ∈ labels → Begun client request)
    (hcode : ∀ client request known, Ready known →
      Follows sys client (allowed client request) (post request) (code client request) known)
    (hrun : Transition.run (Threads.step code) state labels = some final) :
    ∃ steps after, Transition.run sys.step mirror steps = some after ∧
      (∀ step ∈ steps, ∃ client request, Begun client request ∧ allowed client request step) ∧
      Mirrored sys allowed post Ready Begun final after := by
  induction labels generalizing state mirror with
  | nil =>
      obtain rfl := Option.some.inj hrun
      exact ⟨[], mirror, rfl, fun _ hmem => absurd hmem List.not_mem_nil, h⟩
  | cons label rest ih =>
      obtain ⟨middle, hstep, hrest⟩ := run_cons_eq_some.1 hrun
      have hstart : ∀ client request known, label = .start client request → Ready known →
          Begun client request ∧ Follows sys client (allowed client request) (post request)
            (code client request) known := by
        intro client request known hlabel hknown
        exact ⟨hbegun client request (hlabel ▸ List.mem_cons_self ..),
          hcode client request known hknown⟩
      obtain ⟨first, between, hfirst, hallowed, hmiddle⟩ := h.step hready hstart hstep
      -- the mirror goes on from where the first label has led it
      obtain ⟨second, after, hsecond, hallowed', hafter⟩ :=
        ih hmiddle (fun client request hmem => hbegun client request (List.mem_cons_of_mem _ hmem))
          hrest
      refine ⟨first ++ second, after, ?_, fun step hmem => ?_, hafter⟩
      · rw [run_append, hfirst]
        exact hsecond
      · rcases List.mem_append.1 hmem with hmem | hmem
        · exact hallowed step hmem
        · exact hallowed' step hmem

end Mirrored

end

end Threads
