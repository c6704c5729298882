import VaeDb.Library.Transition
import VaeDb.Session.Responses

/-!
# Overlapping requests on one session

Nothing locks a session: any number of workers may be in `Session::get` at once.  A `get`
takes three steps here.  It finds the parent, builds the `Response` and its JSON; it reads
`responses.size()` for the member `id`; it appends the `Response`.  The requests that only
read the vector take one step each.

The element that a `get` appends is where its number says exactly if nobody has appended
another in between, and the number fits the 32 bits that later requests send it in
(`push_named_iff`).  In a run in which every `get` gets through like this, numbers name their
responses for good (`get_names_response`).
-/

namespace VaeDb.ResponseIds

open Transition

variable {α Reply Call : Type}

/-! ## Requests in steps -/

/-- A pointer in the vector: the `get` that built the object, and the object. -/
structure Built (Call α : Type) where
  builtBy : Call
  response : α
  deriving DecidableEq

/-- How far a `get` has come. -/
inductive Phase (α Reply : Type)
  | idle
  | built (response : α) (res : Reply)
  | numbered (response : α) (res : Reply) (id : ℕ)
  | returned (response : α) (res : Reply) (id : ℕ)
  | threw (fault : Fault)

/-- The size, plus one, that a `get` has read. -/
def Phase.id : Phase α Reply → Option ℕ
  | .numbered _ _ id => some id
  | .returned _ _ id => some id
  | _ => none

/-- The `get` has appended its response. -/
def Phase.isReturned : Phase α Reply → Bool
  | .returned _ _ _ => true
  | _ => false

/-- A session and the `get` requests on it. -/
structure State (α Reply Call : Type) where
  session : Session (Built Call α)
  phase : Call → Phase α Reply

/-- Before the first request. -/
def State.initial : State α Reply Call := ⟨Session.empty, fun _ => .idle⟩

/-- The next step of a `get`, or a whole request that reads the vector. -/
inductive Label (Call : Type)
  | build (call : Call) (responseId : Int32) (query : Str) (options : List (Str × Str))
  | number (call : Call)
  | push (call : Call)
  | request (method : Session.Method) (responseId : Int32)

/-- `Session::get` up to the JSON without its member `id`. -/
def State.build (responseClass : ResponseClass α Reply) (state : State α Reply Call)
    (responseId : Int32) (query : Str) (options : List (Str × Str)) : Outcome (α × Reply) := do
  let parent ← state.session.parent responseId
  let response ← responseClass.create (parent.map Built.response) query options
  let res ← responseClass.getJson response
  return (response, res)

variable [DecidableEq Call]

/-- A `get` has come further. -/
def State.advance (state : State α Reply Call) (call : Call) (phase : Phase α Reply) :
    State α Reply Call :=
  { state with phase := Function.update state.phase call phase }

/-- One step.  A request that reads outside the vector has none. -/
def step (responseClass : ResponseClass α Reply) (state : State α Reply Call) :
    Label Call → Option (State α Reply Call)
  | .build call responseId query options =>
      match state.phase call with
      | .idle =>
          match state.build responseClass responseId query options with
          | .ok (response, res) => some (state.advance call (.built response res))
          | .error fault => some (state.advance call (.threw fault))
      | _ => none
  | .number call =>
      match state.phase call with
      | .built response res =>
          some (state.advance call (.numbered response res (state.session.size + 1)))
      | _ => none
  | .push call =>
      match state.phase call with
      | .numbered response res id =>
          match state.session.push ⟨call, response⟩ with
          | .ok session =>
              some (State.advance { state with session } call (.returned response res id))
          | .error fault => some (state.advance call (.threw fault))
      | _ => none
  | .request method responseId =>
      match state.session.lookUp method responseId with
      | .error (.undefined _) => none
      | _ => some state

/-! ## What a step can do -/

/-- Every step is one of three: a `get` reads the size, a `get` appends its response, or
neither happens. -/
theorem step_cases {responseClass : ResponseClass α Reply} {state next : State α Reply Call}
    {label : Label Call} (h : step responseClass state label = some next) :
    (∃ call response res, label = .number call ∧ state.phase call = .built response res ∧
      next = state.advance call (.numbered response res (state.session.size + 1))) ∨
    (∃ call response res id session, label = .push call ∧
      state.phase call = .numbered response res id ∧
      state.session.push ⟨call, response⟩ = .ok session ∧
      next = State.advance { state with session } call (.returned response res id)) ∨
    (next = state ∨ ∃ call phase, next = state.advance call phase ∧ phase.id = none ∧
      (state.phase call).isReturned = false) := by
  cases label with
  | build call responseId query options =>
      refine Or.inr (Or.inr (Or.inr ?_))
      simp only [step] at h
      split at h
      · next hidle =>
        have hfresh : (state.phase call).isReturned = false := by rw [hidle]; rfl
        split at h
        · exact ⟨call, _, (Option.some.inj h).symm, rfl, hfresh⟩
        · exact ⟨call, _, (Option.some.inj h).symm, rfl, hfresh⟩
      · cases h
  | number call =>
      refine Or.inl ?_
      simp only [step] at h
      split at h
      · next response res hbuilt =>
        exact ⟨call, response, res, rfl, hbuilt, (Option.some.inj h).symm⟩
      · cases h
  | push call =>
      simp only [step] at h
      split at h
      · next response res id hnumbered =>
        split at h
        · next session hpush =>
          exact Or.inr (Or.inl ⟨call, response, res, id, session, rfl, hnumbered, hpush,
            (Option.some.inj h).symm⟩)
        · have hfresh : (state.phase call).isReturned = false := by rw [hnumbered]; rfl
          exact Or.inr (Or.inr (Or.inr ⟨call, _, (Option.some.inj h).symm, rfl, hfresh⟩))
      · cases h
  | request method responseId =>
      refine Or.inr (Or.inr (Or.inl ?_))
      simp only [step] at h
      split at h
      · cases h
      · exact (Option.some.inj h).symm

/-- What an append that succeeds leaves in the vector. -/
theorem responses_of_push {β : Type} {session next : Session β} {response : β}
    (h : session.push response = .ok next) : next.responses = session.responses ++ [response] := by
  unfold Session.push at h
  split at h
  · obtain rfl := Outcome.pure_eq_ok.1 h
    rfl
  · cases h

/-! ## Every run -/

/-- Responses in the vector belong to requests that have returned, and no number is larger
than the next one. -/
structure Sound (state : State α Reply Call) : Prop where
  isReturned : ∀ built ∈ state.session.responses, (state.phase built.builtBy).isReturned
  id_le : ∀ call id, (state.phase call).id = some id → 1 ≤ id ∧ id ≤ state.session.size + 1

namespace Sound

variable {state : State α Reply Call}

omit [DecidableEq Call] in
theorem initial : Sound (State.initial : State α Reply Call) where
  isReturned := fun _ hbuilt => by cases hbuilt
  id_le := fun _ _ hid => by cases hid

/-- A `get` whose response is not in the vector moves on without adding one. -/
theorem advance (h : Sound state) {call : Call} {phase : Phase α Reply}
    (hphase : (state.phase call).isReturned = false)
    (hid : ∀ id, phase.id = some id → 1 ≤ id ∧ id ≤ state.session.size + 1) :
    Sound (state.advance call phase) where
  isReturned := by
    intro built hbuilt
    have hreturned := h.isReturned built hbuilt
    have hne : built.builtBy ≠ call := by
      rintro rfl
      rw [hphase] at hreturned
      cases hreturned
    show (Function.update state.phase call phase built.builtBy).isReturned
    rw [Function.update_of_ne hne]
    exact hreturned
  id_le := by
    intro other id hother
    by_cases hsame : other = call
    · subst hsame
      have hnew : (Function.update state.phase other phase other).id = some id := hother
      rw [Function.update_self] at hnew
      exact hid id hnew
    · have hold : (Function.update state.phase call phase other).id = some id := hother
      rw [Function.update_of_ne hsame] at hold
      exact h.id_le other id hold

/-- A `get` appends its response. -/
theorem push (h : Sound state) {call : Call} {response : α} {res : Reply} {id : ℕ}
    {session : Session (Built Call α)} (hphase : state.phase call = .numbered response res id)
    (hpush : state.session.push ⟨call, response⟩ = .ok session) :
    Sound (State.advance { state with session } call (.returned response res id)) := by
  have hresponses := responses_of_push hpush
  have hsize : session.size = state.session.size + 1 := by
    simp [Session.size, hresponses]
  constructor
  · intro built hbuilt
    show (Function.update state.phase call _ built.builtBy).isReturned
    by_cases hsame : built.builtBy = call
    · rw [hsame, Function.update_self]
      rfl
    · rw [Function.update_of_ne hsame]
      have hmem : built ∈ session.responses := hbuilt
      rw [hresponses, List.mem_append, List.mem_singleton] at hmem
      rcases hmem with hmem | rfl
      · exact h.isReturned built hmem
      · exact absurd rfl hsame
  · intro other n hother
    show 1 ≤ n ∧ n ≤ session.size + 1
    by_cases hsame : other = call
    · subst hsame
      have hnew : (Function.update state.phase other _ other).id = some n := hother
      rw [Function.update_self] at hnew
      have hid := h.id_le other id (by rw [hphase]; rfl)
      obtain rfl : id = n := Option.some.inj hnew
      omega
    · have hold : (Function.update state.phase call _ other).id = some n := hother
      rw [Function.update_of_ne hsame] at hold
      have hid := h.id_le other n hold
      omega

theorem step {responseClass : ResponseClass α Reply} (h : Sound state) {label : Label Call}
    {next : State α Reply Call} (hstep : step responseClass state label = some next) :
    Sound next := by
  obtain ⟨call, response, res, rfl, hbuilt, rfl⟩ |
    ⟨call, response, res, id, session, rfl, hnumbered, hpush, rfl⟩ |
    rfl | ⟨call, phase, rfl, hid, hphase⟩ := step_cases hstep
  · refine h.advance (by rw [hbuilt]; rfl) fun id hid => ?_
    obtain rfl := Option.some.inj hid
    omega
  · exact h.push hnumbered hpush
  · exact h
  · refine h.advance hphase fun id hsome => ?_
    rw [hid] at hsome
    cases hsome

end Sound

/-! ## Numbers that name their responses -/

/-- Every `get` that has returned finds its response under the number that it returned. -/
def Named (state : State α Reply Call) : Prop :=
  ∀ call response res id, state.phase call = .returned response res id →
    id < 2 ^ 31 ∧ ∃ n, id = n + 1 ∧ state.session.responses[n]? = some ⟨call, response⟩

/-- A `get` appends at the position that it has read, and its number fits 32 bits. -/
def PushesNext (state : State α Reply Call) : Label Call → Prop
  | .push call => ∀ response res id, state.phase call = .numbered response res id →
      id = state.session.size + 1 ∧ id < 2 ^ 31
  | _ => True

namespace Named

variable {state : State α Reply Call}

theorem advance (h : Named state) {call : Call} {phase : Phase α Reply}
    (hphase : phase.isReturned = false) : Named (state.advance call phase) := by
  intro other response res id hother
  by_cases hsame : other = call
  · subst hsame
    have hnew : Function.update state.phase other phase other = _ := hother
    rw [Function.update_self] at hnew
    rw [hnew] at hphase
    cases hphase
  · have hold : Function.update state.phase call phase other = _ := hother
    rw [Function.update_of_ne hsame] at hold
    exact h other response res id hold

/-- Appending changes no earlier element. -/
theorem push (h : Named state) {call : Call} {response : α} {res : Reply} {id : ℕ}
    {session : Session (Built Call α)}
    (hpush : state.session.push ⟨call, response⟩ = .ok session)
    (hid : id = state.session.size + 1 ∧ id < 2 ^ 31) :
    Named (State.advance { state with session } call (.returned response res id)) := by
  have hresponses := responses_of_push hpush
  intro other response' res' id' hother
  show _ ∧ ∃ n, id' = n + 1 ∧ session.responses[n]? = some ⟨other, response'⟩
  rw [hresponses]
  by_cases hsame : other = call
  · subst hsame
    have hnew : Function.update state.phase other _ other = _ := hother
    rw [Function.update_self] at hnew
    cases hnew
    refine ⟨hid.2, state.session.size, hid.1, ?_⟩
    unfold Session.size
    rw [List.getElem?_append_right (Nat.le_refl _), Nat.sub_self]
    rfl
  · have hold : Function.update state.phase call _ other = _ := hother
    rw [Function.update_of_ne hsame] at hold
    obtain ⟨hlt, n, hn, hfound⟩ := h other response' res' id' hold
    have hsize := (List.getElem?_eq_some_iff.1 hfound).1
    refine ⟨hlt, n, hn, ?_⟩
    rw [List.getElem?_append_left hsize]
    exact hfound

theorem step {responseClass : ResponseClass α Reply} (h : Named state) {label : Label Call}
    {next : State α Reply Call} (hok : PushesNext state label)
    (hstep : step responseClass state label = some next) : Named next := by
  obtain ⟨call, response, res, rfl, hbuilt, rfl⟩ |
    ⟨call, response, res, id, session, rfl, hnumbered, hpush, rfl⟩ |
    rfl | ⟨call, phase, rfl, hid, hphase⟩ := step_cases hstep
  · exact h.advance rfl
  · exact h.push hpush (hok response res id hnumbered)
  · exact h
  · refine h.advance ?_
    cases phase with
    | returned response res id => cases hid
    | idle => rfl
    | built response res => rfl
    | numbered response res id => rfl
    | threw fault => rfl

omit [DecidableEq Call] in
/-- Later requests send the number as 32 bits, and it still fits. -/
theorem lookUp_eq (h : Named state) {call : Call} {response : α} {res : Reply} {id : ℕ}
    (hreturned : state.phase call = .returned response res id) (method : Session.Method) :
    state.session.lookUp method (Int32.ofInt id) = .ok (some ⟨call, response⟩) := by
  obtain ⟨hlt, n, hn, hfound⟩ := h call response res id hreturned
  have htoInt : (Int32.ofInt id).toInt = n + 1 := by
    rw [Int32.toInt_ofInt_of_le (by omega) (by omega)]
    omega
  exact state.session.lookUp_of_getElem? _ method htoInt hfound

end Named

/-- In a run in which every `get` appends at the position that it has read, a number that a
`get` returned is no other's, and all requests that are sent it use the response of that
`get`. -/
theorem get_names_response (responseClass : ResponseClass α Reply) {labels : List (Label Call)}
    {state : State α Reply Call}
    (hrun : run (step responseClass) State.initial labels = some state)
    (hok : Meets (step responseClass) PushesNext State.initial labels)
    {call : Call} {response : α} {res : Reply} {id : ℕ}
    (hreturned : state.phase call = .returned response res id) :
    (∀ other response' res', state.phase other = .returned response' res' id → other = call) ∧
      ∀ method, state.session.lookUp method (Int32.ofInt id) = .ok (some ⟨call, response⟩) := by
  have hinitial : Named (State.initial : State α Reply Call) :=
    fun call response res id h => by cases h
  have hnamed : Named state :=
    invariant_of_meets (fun _ _ _ h hok hstep => h.step hok hstep) hinitial hok hrun
  refine ⟨fun other response' res' hother => ?_, hnamed.lookUp_eq hreturned⟩
  have hfirst := hnamed.lookUp_eq hreturned .data
  have hsecond := hnamed.lookUp_eq hother .data
  rw [hfirst] at hsecond
  cases hsecond
  rfl

/-- When the element that a `get` appends is found under its number. -/
theorem push_named_iff (responseClass : ResponseClass α Reply) {labels : List (Label Call)}
    {state : State α Reply Call}
    (hrun : run (step responseClass) State.initial labels = some state)
    {call : Call} {response : α} {res : Reply} {id : ℕ} {session : Session (Built Call α)}
    (hnumbered : state.phase call = .numbered response res id)
    (hpush : state.session.push ⟨call, response⟩ = .ok session) (method : Session.Method) :
    session.lookUp method (Int32.ofInt id) = .ok (some ⟨call, response⟩) ↔
      id = state.session.size + 1 ∧ id < 2 ^ 31 := by
  have hsound : Sound state :=
    invariant (fun _ _ _ h hstep => h.step hstep) Sound.initial hrun
  obtain ⟨hpos, hle⟩ := hsound.id_le call id (by rw [hnumbered]; rfl)
  have hresponses := responses_of_push hpush
  constructor
  · intro hfound
    obtain ⟨n, hn, helement⟩ := session.getElem?_of_lookUp _ hfound
    have hlast : n = state.session.size := by
      by_contra hne
      have hlt : n < session.responses.length := (List.getElem?_eq_some_iff.1 helement).1
      rw [hresponses, List.length_append, List.length_singleton] at hlt
      have hbefore : n < state.session.responses.length := by
        unfold Session.size at hne
        omega
      rw [hresponses, List.getElem?_append_left hbefore] at helement
      -- but the response was not in the vector before
      have hphase := hsound.isReturned _ (List.mem_of_getElem? helement)
      rw [hnumbered] at hphase
      cases hphase
    -- a number that loses bits is larger than what is left of it
    have hcut : (Int32.ofInt id).toInt = (id : ℤ).bmod (2 ^ 32) := Int32.toInt_ofInt
    have hlt : (Int32.ofInt id).toInt < 2 ^ 31 := Int32.toInt_lt _
    have hid : (id : ℤ).bmod (2 ^ 32) = id := by
      apply Int.bmod_eq_of_le
      · omega
      · omega
    omega
  · intro hid
    have happended : session.responses[state.session.size]? = some ⟨call, response⟩ := by
      rw [hresponses, Session.size, List.getElem?_append_right (Nat.le_refl _), Nat.sub_self]
      rfl
    refine session.lookUp_of_getElem? _ method ?_ happended
    rw [Int32.toInt_ofInt_of_le (by omega) (by omega)]
    omega

/-! ## One request after another, and two at once -/

/-- A class whose responses are their queries. -/
def queries : ResponseClass Str Str where
  create := fun _ query _ => .ok query
  getJson := .ok
  getData := .ok
  getStructure := .ok
  getCreateInfo := fun _ query => .ok query

/-- A `get`, another below its response, and a look at the data. -/
def inTurn : List (Label ℕ) :=
  [.build 1 0 "articles" [], .number 1, .push 1, .build 2 1 "title" [], .number 2, .push 2,
    .request .data 2]

theorem get_names_response_inTurn :
    ∃ state, run (step queries) State.initial inTurn = some state ∧
      state.phase 2 = .returned "title" "title" 2 ∧
      state.session.lookUp .data 2 = .ok (some ⟨2, "title"⟩) := by
  have hok : Meets (step queries) PushesNext State.initial inTurn := by
    refine (meets_cons_of_step rfl).2 ⟨trivial, (meets_cons_of_step rfl).2 ⟨trivial,
      (meets_cons_of_step rfl).2 ⟨fun _ _ _ h => ?_, (meets_cons_of_step rfl).2 ⟨trivial,
      (meets_cons_of_step rfl).2 ⟨trivial, (meets_cons_of_step rfl).2 ⟨fun _ _ _ h => ?_,
      (meets_cons_of_step rfl).2 ⟨trivial, trivial⟩⟩⟩⟩⟩⟩⟩
    · cases h
      decide
    · cases h
      decide
  exact ⟨_, rfl, rfl, (get_names_response queries rfl hok rfl).2 .data⟩

/-- Two requests that read the size before either has appended its response. -/
def atOnce : List (Label ℕ) :=
  [.build 1 0 "articles" [], .build 2 0 "authors" [], .number 1, .number 2, .push 1, .push 2]

theorem get_sameId :
    ∃ state, run (step queries) State.initial atOnce = some state ∧
      state.phase 1 = .returned "articles" "articles" 1 ∧
      state.phase 2 = .returned "authors" "authors" 1 ∧
      state.session.lookUp .data 1 = .ok (some ⟨1, "articles"⟩) :=
  ⟨_, rfl, rfl, rfl, rfl⟩

/-! ## Without interruption -/

/-- What the pointers of a session point to. -/
def contents (session : Session (Built Call α)) : Session α where
  responses := session.responses.map Built.response
  size_le := by
    rw [List.length_map]
    exact session.size_le

section

variable (session : Session (Built Call α))

omit [DecidableEq Call]

theorem element_contents (i : ℤ) :
    (contents session).element i = Built.response <$> session.element i := by
  unfold Session.element contents
  rw [List.getElem?_map]
  cases session.responses[sizeT i]? <;> rfl

theorem size_contents : (contents session).size = session.size :=
  List.length_map _

theorem stored_contents (responseId : Int32) :
    (contents session).stored responseId = Built.response <$> session.stored responseId := by
  unfold Session.stored
  rw [size_contents]
  split
  · cases Response.int32 (responseId.toInt - 1) with
    | error fault => rfl
    | ok index => exact element_contents session index
  · rfl

theorem parent_contents (responseId : Int32) :
    (contents session).parent responseId =
      Option.map Built.response <$> session.parent responseId := by
  unfold Session.parent
  split
  · rw [stored_contents]
    cases session.stored responseId <;> rfl
  · rfl

theorem push_contents (built : Built Call α) :
    (contents session).push built.response = contents <$> session.push built := by
  unfold Session.push
  by_cases hfull : session.size + 1 ≤ maxSize
  · rw [dif_pos hfull, dif_pos (show (contents session).size + 1 ≤ maxSize by
      rw [size_contents]; exact hfull)]
    show Except.ok _ = Except.ok _
    simp [contents]
  · rw [dif_neg hfull, dif_neg (show ¬ ((contents session).size + 1 ≤ maxSize) by
      rw [size_contents]; exact hfull)]
    rfl

end

/-- `Session::get` is the three steps of a `get` that nobody interrupts. -/
theorem get_eq_run (responseClass : ResponseClass α Reply) {state : State α Reply Call}
    {call : Call} {responseId : Int32} {query : Str} {options : List (Str × Str)} {res : Reply}
    {id : ℕ} {session : Session α} (hidle : state.phase call = .idle)
    (hget : (contents state.session).get responseClass responseId query options =
      .ok ((res, id), session)) :
    ∃ final response, run (step responseClass) state
        [.build call responseId query options, .number call, .push call] = some final ∧
      final.phase call = .returned response res id ∧ contents final.session = session := by
  unfold Session.get at hget
  obtain ⟨parent, hparent, hget⟩ := Outcome.bind_eq_ok.1 hget
  obtain ⟨response, hcreate, hget⟩ := Outcome.bind_eq_ok.1 hget
  obtain ⟨res', hgetJson, hget⟩ := Outcome.bind_eq_ok.1 hget
  obtain ⟨pushed, hpush, hget⟩ := Outcome.bind_eq_ok.1 hget
  cases Outcome.pure_eq_ok.1 hget
  rw [parent_contents] at hparent
  obtain ⟨stored, hstored, rfl⟩ := Outcome.map_eq_ok.1 hparent
  rw [push_contents state.session ⟨call, response⟩] at hpush
  obtain ⟨final, hfinal, rfl⟩ := Outcome.map_eq_ok.1 hpush
  have hbuild : state.build responseClass responseId query options = .ok (response, res) := by
    unfold State.build
    rw [hstored]
    refine Outcome.bind_eq_ok.2 ⟨stored, rfl, Outcome.bind_eq_ok.2 ⟨response, hcreate, ?_⟩⟩
    exact Outcome.bind_eq_ok.2 ⟨res, hgetJson, rfl⟩
  have hfirst : step responseClass state (.build call responseId query options) =
      some (state.advance call (.built response res)) := by
    simp only [step, hidle, hbuild]
  have hsecond : step responseClass (state.advance call (.built response res)) (.number call) =
      some ((state.advance call (.built response res)).advance call
        (.numbered response res (state.session.size + 1))) := by
    simp only [step, State.advance, Function.update_self]
  have hthird : step responseClass ((state.advance call (.built response res)).advance call
        (.numbered response res (state.session.size + 1))) (.push call) =
      some (State.advance { (state.advance call (.built response res)).advance call
        (.numbered response res (state.session.size + 1)) with session := final } call
        (.returned response res (state.session.size + 1))) := by
    simp only [step, State.advance, Function.update_self, hfinal]
  refine ⟨_, response, run_cons_eq_some.2 ⟨_, hfirst, run_cons_eq_some.2 ⟨_, hsecond,
    run_cons_eq_some.2 ⟨_, hthird, rfl⟩⟩⟩, ?_, rfl⟩
  rw [size_contents]
  exact Function.update_self ..

end VaeDb.ResponseIds
