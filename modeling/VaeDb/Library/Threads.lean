import Mathlib.Data.DFinsupp.WellFounded
import Mathlib.Logic.Function.Basic
import VaeDb.Library.Transition

/-!
# Threads over one memory

The code of a thread is a `Program`: it has ended with a value, or it does an atomic action on
the memory and goes on with the result.  An action can have to wait.  Any number of clients run
programs, one after another each, and their actions interleave in any order.

## Rely and guarantee

A `Protocol` says what holds of the memory between actions, what a client may change, and when
it owns something that others wait for.  `Meets` is the Hoare triple of a program that keeps to
the protocol: what a client knows between two of its actions is not disturbed by others
(`Stable`), and a client that has to wait owns nothing while another client owns something.

* `Meets.bind`, `Meets.act`, `Meets.weaken` : a triple from the triples of the parts.
* `Returns.bind` : what a program that can throw returns, from what its parts return.
* `Gives.bind` : the same where others have a say in what it returns.
* `Inv.run` : in every interleaving the answers are those that the triples promise.
* `Inv.ends` : there is no deadlock, and no schedule in which requests go on forever.
-/

namespace Threads

/-! ## Programs -/

/-- The code of a thread over a memory, with a value at its end. -/
inductive Program (Memory Value : Type) : Type 1
  | done (value : Value)
  | act {Result : Type} (action : Memory → Option (Result × Memory))
      (next : Result → Program Memory Value)

namespace Program

variable {Memory Value Value' : Type}

/-- One program after another. -/
def bind : Program Memory Value → (Value → Program Memory Value') → Program Memory Value'
  | .done value, rest => rest value
  | .act action next, rest => .act action fun result => (next result).bind rest

instance : Monad (Program Memory) where
  pure := .done
  bind := bind

/-- An action that never waits. -/
def step {Result : Type} (action : Memory → Result × Memory) : Program Memory Result :=
  .act (fun memory => some (action memory)) .done

/-- Read from the memory. -/
def read {Result : Type} (view : Memory → Result) : Program Memory Result :=
  step fun memory => (view memory, memory)

/-- Write to the memory. -/
def write (change : Memory → Memory) : Program Memory Unit :=
  step fun memory => ((), change memory)

/-- Change the memory as soon as a condition holds. -/
def await (condition : Memory → Bool) (change : Memory → Memory) : Program Memory Unit :=
  .act (fun memory => if condition memory then some ((), change memory) else none) .done

end Program

/-! ## Protocols -/

/-- How clients use a memory. -/
structure Protocol (Client Memory : Type) where
  /-- what holds between two actions -/
  Inv : Memory → Prop
  /-- the changes that a client may make -/
  May : Client → Memory → Memory → Prop
  may_refl : ∀ client memory, May client memory memory
  /-- a client owns something that others may have to wait for -/
  Owns : Client → Memory → Prop
  owns_iff : ∀ {me other memory memory'}, other ≠ me → Inv memory → May other memory memory' →
    (Owns me memory' ↔ Owns me memory)

namespace Protocol

variable {Client Memory : Type} (p : Protocol Client Memory)

/-- The others do not disturb it. -/
def Stable (me : Client) (A : Memory → Prop) : Prop :=
  ∀ ⦃other⦄, other ≠ me → ∀ ⦃memory memory'⦄, p.Inv memory → A memory →
    p.May other memory memory' → A memory'

/-- What an action may lead to: the client waits, or it has made a change that it may make. -/
def Allows {Result : Type} (me : Client) (post : Result → Memory → Prop) (memory : Memory) :
    Option (Result × Memory) → Prop
  | none => ¬ p.Owns me memory ∧ ∃ other, p.Owns other memory
  | some (result, memory') => p.Inv memory' ∧ p.May me memory memory' ∧ post result memory'

/-- A program keeps to the protocol, and leads from `pre` to `post`. -/
def Meets (me : Client) {Value : Type} :
    Program Memory Value → (Memory → Prop) → (Value → Memory → Prop) → Prop
  | .done value, pre, post => ∀ memory, p.Inv memory → pre memory → post value memory
  | .act action next, pre, post => ∃ between : _ → Memory → Prop,
      (∀ result, p.Stable me (between result)) ∧
      (∀ memory, p.Inv memory → pre memory → p.Allows me between memory (action memory)) ∧
      ∀ result, Meets me (next result) (between result) post

variable {p} {me : Client} {Value Value' Result : Type} {pre : Memory → Prop}

/-! ## Stable assertions -/

theorem Stable.and {A B : Memory → Prop} (hA : p.Stable me A) (hB : p.Stable me B) :
    p.Stable me fun memory => A memory ∧ B memory :=
  fun _ hother _ _ hinv h hmay => ⟨hA hother hinv h.1 hmay, hB hother hinv h.2 hmay⟩

variable (p) in
theorem stable_const (A : Prop) : p.Stable me fun _ => A := fun _ _ _ _ _ h _ => h

theorem stable_not_owns : p.Stable me fun memory => ¬ p.Owns me memory :=
  fun _ hother _ _ hinv h hmay => fun howns => h ((p.owns_iff hother hinv hmay).1 howns)

/-! ## Triples -/

namespace Meets

theorem done {value : Value} {post : Value → Memory → Prop}
    (h : ∀ memory, p.Inv memory → pre memory → post value memory) :
    p.Meets me (.done value) pre post := h

/-- An action, with what is known after it. -/
theorem act {action : Memory → Option (Result × Memory)} {post : Result → Memory → Prop}
    (hstable : ∀ result, p.Stable me (post result))
    (h : ∀ memory, p.Inv memory → pre memory → p.Allows me post memory (action memory)) :
    p.Meets me (.act action .done) pre post :=
  ⟨post, hstable, h, fun _ _ _ hpost => hpost⟩

theorem weaken {program : Program Memory Value} {pre' : Memory → Prop}
    {post post' : Value → Memory → Prop} (h : p.Meets me program pre post)
    (hpre : ∀ memory, p.Inv memory → pre' memory → pre memory)
    (hpost : ∀ value memory, p.Inv memory → post value memory → post' value memory) :
    p.Meets me program pre' post' := by
  induction program generalizing pre pre' with
  | done value =>
      intro memory hinv hmemory
      exact hpost value memory hinv (h memory hinv (hpre memory hinv hmemory))
  | act action next ih =>
      obtain ⟨between, hstable, haction, hnext⟩ := h
      refine ⟨between, hstable, fun memory hinv hmemory => ?_, fun result => ?_⟩
      · exact haction memory hinv (hpre memory hinv hmemory)
      · exact ih result (hnext result) fun _ _ hbetween => hbetween

/-- One program after another: what is known in between need not be stable, as no action
comes in between. -/
theorem bind {program : Program Memory Value} {rest : Value → Program Memory Value'}
    {between : Value → Memory → Prop} {post : Value' → Memory → Prop}
    (h : p.Meets me program pre between)
    (hrest : ∀ value, p.Meets me (rest value) (between value) post) :
    p.Meets me (program >>= rest) pre post := by
  induction program generalizing pre with
  | done value => exact (hrest value).weaken (h · · ·) fun _ _ _ hpost => hpost
  | act action next ih =>
      obtain ⟨between', hstable, haction, hnext⟩ := h
      exact ⟨between', hstable, haction, fun result => ih result (hnext result)⟩

/-- An action that never waits. -/
theorem step {action : Memory → Result × Memory} {post : Result → Memory → Prop}
    (hstable : ∀ result, p.Stable me (post result))
    (h : ∀ memory, p.Inv memory → pre memory → p.Inv (action memory).2 ∧
      p.May me memory (action memory).2 ∧ post (action memory).1 (action memory).2) :
    p.Meets me (.step action) pre post :=
  act hstable h

theorem write {change : Memory → Memory} {post : Memory → Prop} (hstable : p.Stable me post)
    (h : ∀ memory, p.Inv memory → pre memory →
      p.Inv (change memory) ∧ p.May me memory (change memory) ∧ post (change memory)) :
    p.Meets me (.write change) pre fun _ => post :=
  step (fun _ => hstable) h

/-- What is known may be known for some value only. -/
theorem of_exists {Index : Sort*} {program : Program Memory Value} {pre : Index → Memory → Prop}
    {post : Value → Memory → Prop} (h : ∀ i, p.Meets me program (pre i) post) :
    p.Meets me program (fun memory => ∃ i, pre i memory) post := by
  induction program generalizing Index with
  | done value =>
      intro memory hinv hmemory
      obtain ⟨i, hi⟩ := hmemory
      exact h i memory hinv hi
  | act action next ih =>
      choose between hstable haction hnext using h
      refine ⟨fun result memory => ∃ i, between i result memory, ?_, ?_, ?_⟩
      · intro result other hother memory memory' hinv hbetween hmay
        obtain ⟨i, hi⟩ := hbetween
        exact ⟨i, hstable i result hother hinv hi hmay⟩
      · intro memory hinv hmemory
        obtain ⟨i, hi⟩ := hmemory
        have hallows := haction i memory hinv hi
        cases hresult : action memory with
        | none => rwa [hresult] at hallows
        | some pair =>
            rw [hresult] at hallows
            exact ⟨hallows.1, hallows.2.1, i, hallows.2.2⟩
      · exact fun result => ih result fun i => hnext i result

/-- A fact that does not depend on the memory. -/
theorem of_and {A : Prop} {program : Program Memory Value} {post : Value → Memory → Prop}
    (h : A → p.Meets me program pre post) :
    p.Meets me program (fun memory => A ∧ pre memory) post :=
  (of_exists h).weaken (fun _ _ hmemory => ⟨hmemory.1, hmemory.2⟩) fun _ _ _ hpost => hpost

/-- Waiting for a condition that fails only while another client owns something. -/
theorem await {condition : Memory → Bool} {change : Memory → Memory} {post : Memory → Prop}
    (hstable : p.Stable me post)
    (hwait : ∀ memory, p.Inv memory → pre memory → condition memory = false →
      ¬ p.Owns me memory ∧ ∃ other, p.Owns other memory)
    (h : ∀ memory, p.Inv memory → pre memory → condition memory = true →
      p.Inv (change memory) ∧ p.May me memory (change memory) ∧ post (change memory)) :
    p.Meets me (.await condition change) pre fun _ => post := by
  refine act (fun _ => hstable) fun memory hinv hmemory => ?_
  cases hcondition : condition memory with
  | false =>
      rw [if_neg Bool.false_ne_true]
      exact hwait memory hinv hmemory hcondition
  | true =>
      rw [if_pos rfl]
      exact h memory hinv hmemory hcondition

end Meets

end Protocol

/-! ## Programs that throw -/

/-- A program that ends with a value or throws. -/
abbrev Throwing (Fault Memory : Type) := ExceptT Fault (Program Memory)

/-- Read from the memory. -/
def Throwing.read {Fault Memory Value : Type} (view : Memory → Value) :
    Throwing Fault Memory Value :=
  ExceptT.mk (Program.read fun memory => .ok (view memory))

/-- Write to the memory. -/
def Throwing.write {Fault Memory : Type} (change : Memory → Memory) :
    Throwing Fault Memory Unit :=
  ExceptT.mk (Program.step fun memory => (.ok (), change memory))

section

variable {Client Memory Fault Value Value' : Type}

/-- A program leads from `pre` to `post`, and has ended as it is said here. -/
def Triple (p : Protocol Client Memory) (me : Client) (program : Throwing Fault Memory Value)
    (pre : Memory → Prop) (outcome : Except Fault Value) (post : Memory → Prop) : Prop :=
  p.Meets me program.run pre fun ended memory => ended = outcome ∧ post memory

/-- A client that owns nothing runs a program: it owns nothing afterwards, and the program has
ended as it is said here, whatever the others have done. -/
def Returns (p : Protocol Client Memory) (me : Client) (program : Throwing Fault Memory Value)
    (outcome : Except Fault Value) : Prop :=
  Triple p me program (fun memory => ¬ p.Owns me memory) outcome fun memory => ¬ p.Owns me memory

variable {p : Protocol Client Memory} {me : Client} {program : Throwing Fault Memory Value}
  {rest : Value → Throwing Fault Memory Value'} {pre between post : Memory → Prop}

namespace Triple

theorem of_outcome (outcome : Except Fault Value)
    (h : ∀ memory, p.Inv memory → pre memory → post memory) :
    Triple p me (ExceptT.mk (Pure.pure outcome)) pre outcome post :=
  fun memory hinv hmemory => ⟨rfl, h memory hinv hmemory⟩

theorem pure (value : Value) : Triple p me (Pure.pure value : Throwing Fault Memory Value) pre
    (.ok value) pre :=
  of_outcome (.ok value) fun _ _ hmemory => hmemory

theorem throw (fault : Fault) : Triple p me (MonadExcept.throw fault : Throwing Fault Memory Value)
    pre (.error fault) pre :=
  of_outcome (.error fault) fun _ _ hmemory => hmemory

/-- The beginning returns a value, and the rest goes on with it. -/
theorem bind {value : Value} {outcome : Except Fault Value'}
    (h : Triple p me program pre (.ok value) between)
    (hrest : Triple p me (rest value) between outcome post) :
    Triple p me (program >>= rest) pre outcome post := by
  refine Protocol.Meets.bind h fun ended => Protocol.Meets.of_and fun hended => ?_
  subst hended
  exact hrest

/-- The beginning throws, and that is all. -/
theorem bind_error {fault : Fault} (h : Triple p me program pre (.error fault) post) :
    Triple p me (program >>= rest) pre (.error fault) post := by
  refine Protocol.Meets.bind h fun ended => Protocol.Meets.of_and fun hended => ?_
  subst hended
  exact of_outcome (.error fault) fun _ _ hmemory => hmemory

theorem weaken {outcome : Except Fault Value} {pre' post' : Memory → Prop}
    (h : Triple p me program pre outcome post)
    (hpre : ∀ memory, p.Inv memory → pre' memory → pre memory)
    (hpost : ∀ memory, p.Inv memory → post memory → post' memory) :
    Triple p me program pre' outcome post' :=
  Protocol.Meets.weaken h hpre fun _ memory hinv hended => ⟨hended.1, hpost memory hinv hended.2⟩

/-- Reading what is known. -/
theorem read {view : Memory → Value} {value : Value} (hstable : p.Stable me pre)
    (h : ∀ memory, p.Inv memory → pre memory → view memory = value) :
    Triple p me (Throwing.read view : Throwing Fault Memory Value) pre (.ok value) pre := by
  refine Protocol.Meets.step (fun ended => (p.stable_const _).and hstable) ?_
  intro memory hinv hmemory
  exact ⟨hinv, p.may_refl me memory, congrArg Except.ok (h memory hinv hmemory), hmemory⟩

/-- Reading something that others may change: what is known afterwards is stable. -/
theorem read_bind {view : Memory → Value} {known : Value → Memory → Prop}
    {outcome : Except Fault Value'} (hstable : ∀ value, p.Stable me (known value))
    (h : ∀ memory, p.Inv memory → pre memory → known (view memory) memory)
    (hrest : ∀ value, Triple p me (rest value) (known value) outcome post) :
    Triple p me (Throwing.read view >>= rest) pre outcome post := by
  have hread : p.Meets me (Throwing.read view : Throwing Fault Memory Value).run pre
      fun ended memory => ∃ value, ended = .ok value ∧ known value memory := by
    refine Protocol.Meets.step (fun ended other hother memory memory' hinv hknown hmay => ?_) ?_
    · obtain ⟨value, hended, hknown⟩ := hknown
      exact ⟨value, hended, hstable value hother hinv hknown hmay⟩
    · exact fun memory hinv hmemory =>
        ⟨hinv, p.may_refl me memory, view memory, rfl, h memory hinv hmemory⟩
  refine Protocol.Meets.bind hread fun ended => ?_
  refine Protocol.Meets.of_exists fun value => Protocol.Meets.of_and fun hended => ?_
  subst hended
  exact hrest value

theorem write {change : Memory → Memory} (hstable : p.Stable me post)
    (h : ∀ memory, p.Inv memory → pre memory →
      p.Inv (change memory) ∧ p.May me memory (change memory) ∧ post (change memory)) :
    Triple p me (Throwing.write change : Throwing Fault Memory Unit) pre (.ok ()) post := by
  refine Protocol.Meets.step (fun ended => (p.stable_const _).and hstable) ?_
  intro memory hinv hmemory
  obtain ⟨hinv', hmay, hpost⟩ := h memory hinv hmemory
  exact ⟨hinv', hmay, rfl, hpost⟩

end Triple

/-- A program leads from `pre` to `ok` if it returns, and throws only what `fails` allows. -/
def Gives (p : Protocol Client Memory) (me : Client) (program : Throwing Fault Memory Value)
    (pre : Memory → Prop) (ok : Value → Memory → Prop) (fails : Fault → Prop) : Prop :=
  p.Meets me program.run pre fun ended memory =>
    (∃ value, ended = .ok value ∧ ok value memory) ∨ ∃ fault, ended = .error fault ∧ fails fault

namespace Gives

variable {ok : Value → Memory → Prop} {ok' : Value' → Memory → Prop} {fails : Fault → Prop}

theorem pure {value : Value} (h : ∀ memory, p.Inv memory → pre memory → ok value memory) :
    Gives p me (Pure.pure value : Throwing Fault Memory Value) pre ok fails :=
  fun memory hinv hmemory => .inl ⟨value, rfl, h memory hinv hmemory⟩

theorem throw {fault : Fault} (h : fails fault) :
    Gives p me (MonadExcept.throw fault : Throwing Fault Memory Value) pre ok fails :=
  fun _ _ _ => .inr ⟨fault, rfl, h⟩

theorem bind {between : Value → Memory → Prop} (h : Gives p me program pre between fails)
    (hrest : ∀ value, Gives p me (rest value) (between value) ok' fails) :
    Gives p me (program >>= rest) pre ok' fails := by
  refine Protocol.Meets.bind h fun ended => ?_
  cases ended with
  | ok value =>
      refine (hrest value).weaken (fun memory _ hended => ?_) fun _ _ _ hpost => hpost
      rcases hended with hok | hfails
      · obtain ⟨value', hsame, hbetween⟩ := hok
        obtain rfl := Except.ok.inj hsame
        exact hbetween
      · obtain ⟨fault, hsame, -⟩ := hfails
        cases hsame
  | error fault =>
      intro memory _ hended
      rcases hended with hok | hfails
      · obtain ⟨value, hsame, -⟩ := hok
        cases hsame
      · obtain ⟨fault', hsame, hfault⟩ := hfails
        obtain rfl := Except.error.inj hsame
        exact .inr ⟨fault, rfl, hfault⟩

theorem weaken {pre' : Memory → Prop} {weaker : Value → Memory → Prop}
    (h : Gives p me program pre ok fails)
    (hpre : ∀ memory, p.Inv memory → pre' memory → pre memory)
    (hok : ∀ value memory, p.Inv memory → ok value memory → weaker value memory) :
    Gives p me program pre' weaker fails := by
  refine Protocol.Meets.weaken h hpre fun ended memory hinv hended =>
    hended.imp_left fun hvalue => ?_
  obtain ⟨value, hsame, hmemory⟩ := hvalue
  exact ⟨value, hsame, hok value memory hinv hmemory⟩

/-- It may throw more. -/
theorem imp {fails' : Fault → Prop} (h : Gives p me program pre ok fails)
    (hfails : ∀ fault, fails fault → fails' fault) : Gives p me program pre ok fails' := by
  refine Protocol.Meets.weaken h (fun _ _ hmemory => hmemory) fun ended memory _ hended =>
    hended.imp_right fun hfault => ?_
  obtain ⟨fault, hsame, hthrown⟩ := hfault
  exact ⟨fault, hsame, hfails fault hthrown⟩

/-- An action that returns a value. -/
theorem act (action : Memory → Value × Memory) (hstable : ∀ value, p.Stable me (ok value))
    (h : ∀ memory, p.Inv memory → pre memory → p.Inv (action memory).2 ∧
      p.May me memory (action memory).2 ∧ ok (action memory).1 (action memory).2) :
    Gives p me (ExceptT.mk (Program.step fun memory =>
      (Except.ok (action memory).1, (action memory).2)) : Throwing Fault Memory Value)
        pre ok fails := by
  refine Protocol.Meets.weaken (Protocol.Meets.step
    (fun ended other hother memory memory' hinv hknown hmay => ?_) fun memory hinv hmemory => ?_)
    (fun _ _ hmemory => hmemory) (fun ended memory _ hended => Or.inl hended)
  · obtain ⟨value, hended, hknown⟩ := hknown
    exact ⟨value, hended, hstable value hother hinv hknown hmay⟩
  · obtain ⟨hinv', hmay, hok⟩ := h memory hinv hmemory
    exact ⟨hinv', hmay, _, rfl, hok⟩

theorem read {view : Memory → Value} (hstable : ∀ value, p.Stable me (ok value))
    (h : ∀ memory, p.Inv memory → pre memory → ok (view memory) memory) :
    Gives p me (Throwing.read view : Throwing Fault Memory Value) pre ok fails :=
  act (fun memory => (view memory, memory)) hstable fun memory hinv hmemory =>
    ⟨hinv, p.may_refl me memory, h memory hinv hmemory⟩

theorem write {change : Memory → Memory} (hstable : p.Stable me post)
    (h : ∀ memory, p.Inv memory → pre memory →
      p.Inv (change memory) ∧ p.May me memory (change memory) ∧ post (change memory)) :
    Gives p me (Throwing.write change : Throwing Fault Memory Unit) pre (fun _ => post) fails :=
  act (fun memory => ((), change memory)) (fun _ => hstable) h

/-- What is known may be known for some value only. -/
theorem of_exists {Index : Sort*} {pre : Index → Memory → Prop}
    (h : ∀ i, Gives p me program (pre i) ok fails) :
    Gives p me program (fun memory => ∃ i, pre i memory) ok fails :=
  Protocol.Meets.of_exists h

/-- A fact that does not depend on the memory. -/
theorem of_and {A : Prop} (h : A → Gives p me program pre ok fails) :
    Gives p me program (fun memory => A ∧ pre memory) ok fails :=
  Protocol.Meets.of_and h

end Gives

namespace Returns

theorem of_outcome (outcome : Except Fault Value) :
    Returns p me (ExceptT.mk (Pure.pure outcome)) outcome :=
  Triple.of_outcome outcome fun _ _ hfree => hfree

theorem pure (value : Value) :
    Returns p me (Pure.pure value : Throwing Fault Memory Value) (Pure.pure value) :=
  Triple.pure value

theorem throw (fault : Fault) :
    Returns p me (MonadExcept.throw fault : Throwing Fault Memory Value) (.error fault) :=
  Triple.throw fault

theorem bind {outcome : Except Fault Value} {outcome' : Value → Except Fault Value'}
    (h : Returns p me program outcome)
    (hrest : ∀ value, outcome = .ok value → Returns p me (rest value) (outcome' value)) :
    Returns p me (program >>= rest) (outcome >>= outcome') := by
  cases outcome with
  | ok value => exact Triple.bind h (hrest value rfl)
  | error fault => exact Triple.bind_error h

end Returns

end

/-! ## Interleavings -/

/-- The memory, the request that each client works on and the rest of its program, and the
answers so far. -/
structure State (Client Memory Request Answer : Type) : Type 1 where
  memory : Memory
  running : Client → Option (Request × Program Memory Answer)
  ended : List (Request × Answer)

/-- A client begins with a request, or does the next action. -/
inductive Label (Client Request : Type)
  | start (client : Client) (request : Request)
  | act (client : Client)

section

variable {Client Memory Request Answer : Type} [DecidableEq Client]
  {code : Client → Request → Program Memory Answer}

/-- A memory that no client works on. -/
def State.initial (memory : Memory) : State Client Memory Request Answer :=
  ⟨memory, fun _ => none, []⟩

/-- The next action of a client. -/
def act (state : State Client Memory Request Answer) (client : Client) :
    Option (State Client Memory Request Answer) :=
  match state.running client with
  | none => none
  | some (request, .done answer) =>
      some { state with
        running := Function.update state.running client none
        ended := (request, answer) :: state.ended }
  | some (request, .act action next) =>
      (action state.memory).map fun result =>
        { state with
          memory := result.2
          running := Function.update state.running client (some (request, next result.1)) }

/-- A step of the clients. -/
def step (code : Client → Request → Program Memory Answer)
    (state : State Client Memory Request Answer) :
    Label Client Request → Option (State Client Memory Request Answer)
  | .start client request =>
      match state.running client with
      | none =>
          some { state with
            running := Function.update state.running client (some (request, code client request)) }
      | some _ => none
  | .act client => act state client

variable {state next : State Client Memory Request Answer} {client : Client}

theorem act_cases (h : act state client = some next) :
    (∃ request answer, state.running client = some (request, .done answer) ∧
      next = { state with
        running := Function.update state.running client none
        ended := (request, answer) :: state.ended }) ∨
    ∃ (request : Request) (Result : Type) (action : Memory → Option (Result × Memory))
      (rest : Result → Program Memory Answer) (result : Result) (memory : Memory),
      state.running client = some (request, .act action rest) ∧
      action state.memory = some (result, memory) ∧
      next = { state with
        memory
        running := Function.update state.running client (some (request, rest result)) } := by
  unfold act at h
  cases hrunning : state.running client with
  | none => simp [hrunning] at h
  | some job =>
      obtain ⟨request, program⟩ := job
      cases program with
      | done answer =>
          simp only [hrunning, Option.some.injEq] at h
          exact Or.inl ⟨request, answer, rfl, h.symm⟩
      | act action rest =>
          simp only [hrunning, Option.map_eq_some_iff] at h
          obtain ⟨pair, haction, hnext⟩ := h
          exact Or.inr ⟨request, _, action, rest, pair.1, pair.2, rfl, haction, hnext.symm⟩

/-! ## What holds of every interleaving -/

variable {p : Protocol Client Memory} {Right : Request → Answer → Prop}

/-- A program for a request begins and ends without owning anything, and with a right answer. -/
def SoundFor (p : Protocol Client Memory) (Right : Request → Answer → Prop) (client : Client)
    (request : Request) (program : Program Memory Answer) : Prop :=
  p.Meets client program (fun memory => ¬ p.Owns client memory)
    fun answer memory => ¬ p.Owns client memory ∧ Right request answer

/-- The code for a request begins and ends without owning anything, and with a right answer. -/
def Sound (p : Protocol Client Memory) (code : Client → Request → Program Memory Answer)
    (Right : Request → Answer → Prop) : Prop :=
  ∀ client request, p.Meets client (code client request) (fun memory => ¬ p.Owns client memory)
    fun answer memory => ¬ p.Owns client memory ∧ Right request answer

/-- What is known of a client: between requests it owns nothing, and what is left of a program
meets its triple. -/
def Knows (p : Protocol Client Memory) (Right : Request → Answer → Prop) (client : Client)
    (memory : Memory) : Option (Request × Program Memory Answer) → Prop
  | none => ¬ p.Owns client memory
  | some (request, program) => ∃ pre, p.Stable client pre ∧ pre memory ∧
      p.Meets client program pre fun answer memory =>
        ¬ p.Owns client memory ∧ Right request answer

/-- What holds between the steps. -/
structure Inv (p : Protocol Client Memory) (Right : Request → Answer → Prop)
    (state : State Client Memory Request Answer) : Prop where
  memory : p.Inv state.memory
  clients : ∀ client, Knows p Right client state.memory (state.running client)
  ended : ∀ request answer, (request, answer) ∈ state.ended → Right request answer

omit [DecidableEq Client] in
theorem inv_initial {memory : Memory} (hmemory : p.Inv memory)
    (hfree : ∀ client, ¬ p.Owns client memory) : Inv p Right (State.initial memory) where
  memory := hmemory
  clients := hfree
  ended := fun _ _ hended => by cases hended

omit [DecidableEq Client] in
/-- The others do not disturb what is known of a client. -/
theorem Knows.stable {other : Client} (hother : other ≠ client) {memory memory' : Memory}
    (hinv : p.Inv memory) (hmay : p.May other memory memory')
    {job : Option (Request × Program Memory Answer)} (h : Knows p Right client memory job) :
    Knows p Right client memory' job := by
  cases job with
  | none => exact Protocol.stable_not_owns hother hinv h hmay
  | some job =>
      obtain ⟨pre, hstable, hpre, hmeets⟩ := h
      exact ⟨pre, hstable, hstable hother hinv hpre hmay, hmeets⟩

namespace Inv

/-- A client begins or ends: nothing happens to the memory. -/
theorem update (h : Inv p Right state) {job : Option (Request × Program Memory Answer)}
    (hjob : Knows p Right client state.memory job) {ended : List (Request × Answer)}
    (hended : ∀ request answer, (request, answer) ∈ ended → Right request answer) :
    Inv p Right
      { state with running := Function.update state.running client job, ended } where
  memory := h.memory
  clients := by
    intro other
    show Knows p Right other state.memory (Function.update state.running client job other)
    by_cases hother : other = client
    · subst hother
      rwa [Function.update_self]
    · rw [Function.update_of_ne hother]
      exact h.clients other
  ended := hended

theorem start (h : Inv p Right state) {request : Request} (hidle : state.running client = none)
    (hmeets : SoundFor p Right client request (code client request)) :
    Inv p Right { state with
      running := Function.update state.running client (some (request, code client request)) } := by
  have hfree : ¬ p.Owns client state.memory := by
    have hclient := h.clients client
    rwa [hidle] at hclient
  have hjob : Knows p Right client state.memory (some (request, code client request)) :=
    ⟨_, Protocol.stable_not_owns, hfree, hmeets⟩
  exact h.update hjob h.ended

theorem act (h : Inv p Right state) (hact : Threads.act state client = some next) :
    Inv p Right next := by
  have hclient := h.clients client
  rcases act_cases hact with hdone | haction
  · obtain ⟨request, answer, hrunning, rfl⟩ := hdone
    rw [hrunning] at hclient
    obtain ⟨pre, -, hpre, hmeets⟩ := hclient
    obtain ⟨hfree, hright⟩ := hmeets state.memory h.memory hpre
    have hjob : Knows p Right client state.memory none := hfree
    refine h.update hjob fun request' answer' hended => ?_
    rcases List.mem_cons.1 hended with hnew | hold
    · cases hnew
      exact hright
    · exact h.ended request' answer' hold
  · obtain ⟨request, Result, action, rest, result, memory, hrunning, haction, rfl⟩ := haction
    rw [hrunning] at hclient
    obtain ⟨pre, -, hpre, between, hstable, hallows, hrest⟩ := hclient
    have hallows := hallows state.memory h.memory hpre
    rw [haction] at hallows
    obtain ⟨hinv, hmay, hbetween⟩ := hallows
    refine ⟨hinv, fun other => ?_, h.ended⟩
    show Knows p Right other memory
      (Function.update state.running client (some (request, rest result)) other)
    by_cases hother : other = client
    · subst hother
      rw [Function.update_self]
      exact ⟨between result, hstable result, hbetween, hrest result⟩
    · rw [Function.update_of_ne hother]
      exact (h.clients other).stable (Ne.symm hother) h.memory hmay

theorem step (h : Inv p Right state) {label : Label Client Request}
    (hsound : ∀ client request, label = .start client request →
      SoundFor p Right client request (code client request))
    (hstep : Threads.step code state label = some next) : Inv p Right next := by
  cases label with
  | start client request =>
      unfold Threads.step at hstep
      cases hrunning : state.running client with
      | none =>
          simp only [hrunning, Option.some.injEq] at hstep
          exact hstep ▸ h.start hrunning (hsound client request rfl)
      | some job => simp [hrunning] at hstep
  | act client => exact h.act hstep

/-- A run of requests whose code is sound. -/
theorem run_of_starts (h : Inv p Right state) {labels : List (Label Client Request)}
    (hsound : ∀ client request, .start client request ∈ labels →
      SoundFor p Right client request (code client request))
    (hrun : Transition.run (Threads.step code) state labels = some next) : Inv p Right next := by
  induction labels generalizing state with
  | nil => exact Option.some.inj hrun ▸ h
  | cons label rest ih =>
      obtain ⟨middle, hstep, hrest⟩ := Transition.run_cons_eq_some.1 hrun
      have hmiddle : Inv p Right middle := h.step
        (fun client request hlabel => hsound client request (hlabel ▸ List.mem_cons_self ..)) hstep
      exact ih hmiddle
        (fun client request hmem => hsound client request (List.mem_cons_of_mem _ hmem)) hrest

theorem run (hsound : Sound p code Right) (h : Inv p Right state)
    {labels : List (Label Client Request)}
    (hrun : Transition.run (Threads.step code) state labels = some next) : Inv p Right next :=
  h.run_of_starts (fun client request _ => hsound client request) hrun

/-- A client that cannot go on has nothing to do, or waits for one that owns something. -/
theorem waits (h : Inv p Right state) (hstuck : Threads.act state client = none) :
    state.running client = none ∨
      ¬ p.Owns client state.memory ∧ ∃ other, p.Owns other state.memory := by
  have hclient := h.clients client
  unfold Threads.act at hstuck
  cases hrunning : state.running client with
  | none => exact Or.inl rfl
  | some job =>
      obtain ⟨request, program⟩ := job
      rw [hrunning] at hclient
      cases program with
      | done answer => simp [hrunning] at hstuck
      | act action rest =>
          obtain ⟨pre, -, hpre, between, -, hallows, -⟩ := hclient
          simp only [hrunning, Option.map_eq_none_iff] at hstuck
          have hallows := hallows state.memory h.memory hpre
          rw [hstuck] at hallows
          exact Or.inr hallows

/-- While a client has something to do, one can go on. -/
theorem exists_act (h : Inv p Right state) (hbusy : state.running client ≠ none) :
    ∃ other next, Threads.act state other = some next := by
  by_contra hstuck
  have hstuck : ∀ other, Threads.act state other = none := fun other =>
    Option.eq_none_iff_forall_ne_some.2 fun next hnext => hstuck ⟨other, next, hnext⟩
  obtain hidle | ⟨-, owner, howner⟩ := h.waits (hstuck client)
  · exact hbusy hidle
  · obtain hidle | ⟨hfree, -⟩ := h.waits (hstuck owner)
    · have hclient := h.clients owner
      rw [hidle] at hclient
      exact hclient howner
    · exact hfree howner

end Inv

/-! ## All requests end -/

/-- Whatever clients do the next actions, in the end no client has anything left to do, and the
memory is as it is said here. -/
inductive Ends (Left : Memory → Prop) : State Client Memory Request Answer → Prop
  | idle {state : State Client Memory Request Answer} (h : ∀ client, state.running client = none)
      (hleft : Left state.memory) : Ends Left state
  | later {state : State Client Memory Request Answer}
      (hcan : ∃ client next, act state client = some next)
      (hthen : ∀ client next, act state client = some next → Ends Left next) : Ends Left state

/-- What is left to do becomes less. -/
inductive Less : Option (Request × Program Memory Answer) →
    Option (Request × Program Memory Answer) → Prop
  | done (request : Request) (answer : Answer) : Less none (some (request, .done answer))
  | act (request : Request) {Result : Type} (action : Memory → Option (Result × Memory))
      (rest : Result → Program Memory Answer) (result : Result) :
      Less (some (request, rest result)) (some (request, .act action rest))

omit [DecidableEq Client] in
theorem less_wellFounded :
    WellFounded (Less : Option (Request × Program Memory Answer) → _ → Prop) := by
  have hnone : Acc Less (none : Option (Request × Program Memory Answer)) :=
    ⟨_, fun job hless => by cases hless⟩
  refine ⟨fun job => ?_⟩
  cases job with
  | none => exact hnone
  | some job =>
      obtain ⟨request, program⟩ := job
      induction program with
      | done answer =>
          refine ⟨_, fun job hless => ?_⟩
          cases hless
          exact hnone
      | act action rest ih =>
          refine ⟨_, fun job hless => ?_⟩
          cases hless with
          | act request action rest result => exact ih result

/-- An action leaves less to one client, and the same to the others. -/
theorem act_less (h : act state client = some next) :
    Less (next.running client) (state.running client) ∧
      ∀ other, other ≠ client → next.running other = state.running other := by
  rcases act_cases h with hdone | haction
  · obtain ⟨request, answer, hrunning, rfl⟩ := hdone
    refine ⟨?_, fun other hother => Function.update_of_ne hother _ _⟩
    show Less (Function.update state.running client none client) _
    rw [Function.update_self, hrunning]
    exact .done request answer
  · obtain ⟨request, Result, action, rest, result, memory, hrunning, -, rfl⟩ := haction
    refine ⟨?_, fun other hother => Function.update_of_ne hother _ _⟩
    show Less (Function.update state.running client (some (request, rest result)) client) _
    rw [Function.update_self, hrunning]
    exact .act request action rest result

/-- With finitely many clients, actions cannot go on forever. -/
theorem act_wellFounded [Finite Client] :
    WellFounded fun next state : State Client Memory Request Answer =>
      ∃ client, act state client = some next := by
  let less : (Client → Option (Request × Program Memory Answer)) → _ → Prop :=
    Pi.Lex WellOrderingRel fun {_} => Less
  have hless : WellFounded less := Pi.Lex.wellFounded _ fun _ => less_wellFounded
  refine Subrelation.wf (r := InvImage less State.running) ?_ (InvImage.wf _ hless)
  intro next state hact
  obtain ⟨client, hact⟩ := hact
  obtain ⟨hclient, hothers⟩ := act_less hact
  refine ⟨client, fun other hother => hothers other fun hsame => ?_, hclient⟩
  subst hsame
  exact irrefl _ hother

/-- While the code is sound, every schedule comes to an end, and all requests with it; then
nobody owns anything. -/
theorem Inv.ends [Finite Client] (h : Inv p Right state) :
    Ends (fun memory => ∀ client, ¬ p.Owns client memory) state := by
  have hfinite : WellFounded fun next state : State Client Memory Request Answer =>
      ∃ client, Threads.act state client = some next := act_wellFounded
  induction state using hfinite.induction with
  | _ state ih =>
      by_cases hidle : ∀ client, state.running client = none
      · refine .idle hidle fun client => ?_
        have hclient := h.clients client
        rwa [hidle client] at hclient
      · obtain ⟨client, hbusy⟩ := not_forall.1 hidle
        exact .later (h.exists_act hbusy) fun other next hact => ih next ⟨other, hact⟩ (h.act hact)

theorem Ends.imp {Left Left' : Memory → Prop}
    (h : Ends Left state) (himp : ∀ memory, Left memory → Left' memory) : Ends Left' state := by
  induction h with
  | idle hidle hleft => exact .idle hidle (himp _ hleft)
  | later hcan _ ih => exact .later hcan ih

end

end Threads
