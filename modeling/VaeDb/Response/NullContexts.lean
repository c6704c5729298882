import VaeDb.Library.Stops
import VaeDb.Response.Unique
import VaeDb.Response.Options

/-!
# `Response::query` and nodes without a Context

The `_private` of a node of a result can be null: attributes and texts have no Context, nor
has an element outside of the content.  Here a Context is a pointer, and `query` stops with
`nullContext` when a method is called on none.

```text
loops          if (ctxt) push_back(ctxt)
sortCallback   lhs->getId() ..., on elements of the list that is sorted
uniqueMatch    context->getData(..), for whatever node passed the filter
```

`uniqueMatch` meets a null pointer where a node has no Context.  `sortCallback` does not as long
as `std::sort` keeps to the list, which it promises for a strict weak order only: for any other
comparison its behaviour is undefined, and it does read beyond the list.

* `query_pointers`: this is `Response.query`, on the pointers to its Contexts.
* `query_neverNull_iff`: no null Context is used, and none is listed, exactly if every node
  that `uniqueMatch` is called for has a Context, and the Contexts that are sorted are sorted
  by a strict weak order.
-/

namespace VaeDb.Response.Pointers

open Stops

variable {α β : Type}

/-! ## Calls -/

/-- Why `query` does not return. -/
inductive Stop
  /-- a method is called on a null Context -/
  | nullContext
  /-- `std::sort` is given a comparison that is no strict weak order, and may do anything -/
  | unordered
  | fault (fault : Fault)
  deriving DecidableEq

/-- A run of the code up to where it stops. -/
abbrev Run := Except Stop

/-- What is run without calls on Contexts. -/
def run (x : Outcome β) : Run β := x.mapError Stop.fault

/-- The methods of a Context that a response calls. -/
structure Methods (α : Type) where
  getId : α → ℤ
  getCount : α → Str → Outcome ℤ
  getData : α → Str → Outcome Str

/-- `context->method()`. -/
def call (context : Option α) (method : α → Outcome β) : Run β :=
  match context with
  | none => throw .nullContext
  | some context => run (method context)

/-- `std::sort` with a comparison, and `std::random_shuffle`. -/
structure Algorithms (α : Type) where
  sort : (Option α → Option α → Run Bool) → List (Option α) → Run (List (Option α))
  shuffle : List (Option α) → List (Option α)

/-! ## The code -/

/-- `sortCallback`, the loop over the sort fields. -/
def sortCallback (methods : Methods α) (lhs rhs : Option α) : List SortField → Run Bool
  | [] => pure false
  | it :: rest =>
      if it.isId then do
        let lid ← call lhs fun context => pure (methods.getId context)
        let rid ← call rhs fun context => pure (methods.getId context)
        return it.directed (lid < rid)
      else if it.count then do
        let lcount ← call lhs fun context => methods.getCount context it.field
        let rcount ← call rhs fun context => methods.getCount context it.field
        if lcount = rcount then sortCallback methods lhs rhs rest
        else return it.directed (lcount < rcount)
      else do
        let ldata ← call lhs fun context => methods.getData context it.field
        let rdata ← call rhs fun context => methods.getData context it.field
        let icomp := strCompareNat ldata rdata
        if icomp = 0 then sortCallback methods lhs rhs rest
        else return it.directed (icomp > 0)

/-- The loop of `uniqueMatch`. -/
def uniqueKey (methods : Methods α) (context : Option α) : List Str → Run Str
  | [] => pure []
  | it :: rest => do
      let data ← call context fun context => methods.getData context it
      let val ← uniqueKey methods context rest
      return data ++ ("~!~" : Str) ++ val

/-- `uniqueMatch`, and `uniqueFound` after it. -/
def uniqueMatch (response : Response) (methods : Methods α) (uniqueFound : List Str)
    (node : ResultNode α) : Run (Bool × List Str) := do
  let val ← uniqueKey methods node.context response.uniqueFields
  if val ∉ uniqueFound then return (true, val :: uniqueFound)
  else return (false, uniqueFound)

/-- What the counting loop does with a node that matches. -/
def countMatch (window : Window) (counting : Counting (Option α)) (node : ResultNode α) :
    Counting (Option α) :=
  let counting := { counting with total := counting.total + 1 }
  if counting.skipped < window.start then { counting with skipped := counting.skipped + 1 }
  else if counting.included + counting.skipped < window.stop then
    let ctxt := node.context
    if ctxt.isSome then
      { counting with
        contexts := counting.contexts ++ [ctxt]
        included := counting.included + 1 }
    else counting
  else counting

/-- The body of the counting loop. -/
def countNode (response : Response) (methods : Methods α) (window : Window)
    (state : Counting (Option α) × List Str) (node : ResultNode α) :
    Run (Counting (Option α) × List Str) :=
  if !response.filter || response.filterMatch node then
    if response.unique then do
      let (isNew, uniqueFound) ← uniqueMatch response methods state.2 node
      if isNew then return (countMatch window state.1 node, uniqueFound)
      else return (state.1, uniqueFound)
    else return (countMatch window state.1 node, state.2)
  else return state

/-- The loop without filter and unique fields, for so many more nodes from `i`. -/
def plainLoop (nodes : List (ResultNode α)) : ℕ → ℤ → Run (List (Option α))
  | 0, _ => pure []
  | rounds + 1, i => do
      let node ← run (getNode nodes i)
      let ctxt := node.context
      let rest ← plainLoop nodes rounds (i + 1)
      return if ctxt.isSome then ctxt :: rest else rest

/-- The Contexts that the loops collect, and the total. -/
def collect (response : Response) (methods : Methods α) (window : Window)
    (nodes : List (ResultNode α)) : Run (ResponseContext (Option α)) :=
  if response.filter || response.unique then do
    let state ← nodes.foldlM (countNode response methods window) (⟨0, 0, 0, []⟩, [])
    return { contexts := state.1.contexts, total := state.1.total }
  else do
    let contexts ← plainLoop nodes (window.stop - window.start).toNat window.start
    return { contexts, total := nodes.length }

/-- Reverse, shuffle or sort. -/
def arrange (response : Response) (methods : Methods α) (algorithms : Algorithms α)
    (contexts : List (Option α)) : Run (List (Option α)) :=
  match response.sortType with
  | .none => pure contexts
  | .reverse => pure contexts.reverse
  | .shuffle => pure (algorithms.shuffle contexts)
  | .specific =>
      algorithms.sort (fun lhs rhs => sortCallback methods lhs rhs response.sortFields) contexts

/-- `Response::query` on the nodes that the query found. -/
def query (response : Response) (methods : Methods α) (algorithms : Algorithms α)
    (nodes : List (ResultNode α)) : Run (ResponseContext (Option α)) := do
  let window ← run (response.offsets exactly nodes.length)
  let collected ← collect response methods window nodes
  let contexts ← arrange response methods algorithms collected.contexts
  return { contexts := response.cut window contexts, total := collected.total }

/-! ## The same on Contexts -/

section Contexts

variable {response : Response} {methods : Methods α} {surroundings : Surroundings α}
  (window : Window) {node : ResultNode α} {nodes : List (ResultNode α)}

/-- The counters, with pointers to the Contexts. -/
def pointers (counting : Counting α) : Counting (Option α) :=
  { skipped := counting.skipped
    included := counting.included
    total := counting.total
    contexts := counting.contexts.map some }

theorem countMatch_pointers (counting : Counting α) (node : ResultNode α) :
    countMatch window (pointers counting) node =
      pointers (Response.countMatch window counting node.context) := by
  unfold countMatch Response.countMatch pointers
  cases node.context with
  | none =>
      simp only
      split
      · rfl
      · split <;> rfl
  | some context =>
      simp only
      split
      · rfl
      · split
        · simp
        · rfl

theorem uniqueKey_pointers (hdata : surroundings.getData = methods.getData) {context : α}
    {fields : List Str} {key : Str}
    (h : Response.uniqueKey surroundings context fields = .ok key) :
    uniqueKey methods (some context) fields = .ok key := by
  induction fields generalizing key with
  | nil => exact congrArg Except.ok (Outcome.pure_eq_ok.1 h)
  | cons field rest ih =>
      unfold Response.uniqueKey at h
      obtain ⟨data, hfield, h⟩ := Outcome.bind_eq_ok.1 h
      obtain ⟨restKey, hrest, h⟩ := Outcome.bind_eq_ok.1 h
      rw [hdata] at hfield
      rw [uniqueKey, ih hrest, call, hfield]
      exact congrArg Except.ok (Outcome.pure_eq_ok.1 h)

theorem countNode_pointers (hdata : surroundings.getData = methods.getData)
    {state next : Counting α × List Str}
    (h : response.countNode surroundings window state node = .ok next) :
    countNode response methods window (pointers state.1, state.2) node =
      .ok (pointers next.1, next.2) := by
  unfold Response.countNode at h
  unfold countNode
  split at h
  · next hpass =>
      rw [if_pos hpass]
      split at h
      · next hunique =>
          obtain ⟨⟨isNew, uniqueFound⟩, hmatch, h⟩ := Outcome.bind_eq_ok.1 h
          have hunique' : uniqueMatch response methods state.2 node = .ok (isNew, uniqueFound) := by
            unfold Response.uniqueMatch at hmatch
            cases hcontext : node.context with
            | none => simp [hcontext] at hmatch
            | some context =>
                simp only [hcontext] at hmatch
                obtain ⟨key, hkey, hmatch⟩ := Outcome.bind_eq_ok.1 hmatch
                rw [uniqueMatch, hcontext, uniqueKey_pointers hdata hkey]
                by_cases hfound : key ∈ state.2
                · simpa [hfound, bind, Except.bind, pure, Except.pure] using hmatch
                · simpa [hfound, bind, Except.bind, pure, Except.pure] using hmatch
          rw [if_pos hunique, hunique']
          cases isNew with
          | true =>
              obtain rfl := Outcome.pure_eq_ok.1 h
              simp [bind, Except.bind, pure, Except.pure, countMatch_pointers]
          | false =>
              obtain rfl := Outcome.pure_eq_ok.1 h
              rfl
      · next hunique =>
          obtain rfl := Outcome.pure_eq_ok.1 h
          rw [if_neg hunique, countMatch_pointers]
          rfl
  · next hpass =>
      obtain rfl := Outcome.pure_eq_ok.1 h
      rw [if_neg hpass]
      rfl

theorem loop_pointers (hdata : surroundings.getData = methods.getData)
    {state next : Counting α × List Str}
    (h : nodes.foldlM (response.countNode surroundings window) state = .ok next) :
    nodes.foldlM (countNode response methods window) (pointers state.1, state.2) =
      .ok (pointers next.1, next.2) := by
  induction nodes generalizing state with
  | nil =>
      obtain rfl := Outcome.pure_eq_ok.1 h
      rfl
  | cons node nodes ih =>
      rw [List.foldlM_cons] at h
      obtain ⟨middle, hnode, hrest⟩ := Outcome.bind_eq_ok.1 h
      rw [List.foldlM_cons, countNode_pointers window hdata hnode]
      exact ih hrest

theorem plainLoop_pointers {rounds : ℕ} {i : ℤ} {contexts : List α}
    (h : Response.plainLoop nodes rounds i = .ok contexts) :
    plainLoop nodes rounds i = .ok (contexts.map some) := by
  induction rounds generalizing i contexts with
  | zero =>
      obtain rfl := Outcome.pure_eq_ok.1 h
      rfl
  | succ rounds ih =>
      unfold Response.plainLoop at h
      obtain ⟨node, hnode, h⟩ := Outcome.bind_eq_ok.1 h
      obtain ⟨rest, hrest, h⟩ := Outcome.bind_eq_ok.1 h
      obtain rfl := Outcome.pure_eq_ok.1 h
      rw [plainLoop, hnode, ih hrest]
      cases hcontext : node.context with
      | none => simp [run, Except.mapError, bind, Except.bind, pure, Except.pure, hcontext]
      | some context => simp [run, Except.mapError, bind, Except.bind, pure, Except.pure, hcontext]

theorem collect_pointers (hdata : surroundings.getData = methods.getData)
    {collected : ResponseContext α}
    (h : response.collect surroundings window nodes = .ok collected) :
    collect response methods window nodes =
      .ok { contexts := collected.contexts.map some, total := collected.total } := by
  unfold Response.collect at h
  unfold collect
  split at h
  · next hcounted =>
      obtain ⟨state, hloop, h⟩ := Outcome.bind_eq_ok.1 h
      obtain rfl := Outcome.pure_eq_ok.1 h
      have hpointers := loop_pointers window hdata hloop
      rw [if_pos hcounted]
      simp only [pointers, List.map_nil] at hpointers
      rw [hpointers]
      rfl
  · next hplain =>
      obtain ⟨contexts, hloop, h⟩ := Outcome.bind_eq_ok.1 h
      obtain rfl := Outcome.pure_eq_ok.1 h
      rw [if_neg hplain, plainLoop_pointers hloop]
      rfl

theorem cut_map (f : α → β) (contexts : List α) :
    response.cut window (contexts.map f) = (response.cut window contexts).map f := by
  unfold cut
  simp only [List.length_map]
  split
  · rw [← List.map_drop, List.length_map, ← List.map_take, apply_ite (List.map f)]
  · rfl

/-- Where `Response.query` returns, this returns pointers to the same Contexts. -/
theorem query_pointers {algorithms : Algorithms α}
    (hdata : surroundings.getData = methods.getData)
    (hsort : ∀ contexts sorted, surroundings.sort response.sortFields contexts = .ok sorted →
      algorithms.sort (fun lhs rhs => sortCallback methods lhs rhs response.sortFields)
        (contexts.map some) = .ok (sorted.map some))
    (hshuffle : ∀ contexts,
      algorithms.shuffle (contexts.map some) = (surroundings.shuffle contexts).map some)
    {result : ResponseContext α} (h : response.query surroundings nodes = .ok result) :
    query response methods algorithms nodes =
      .ok { contexts := result.contexts.map some, total := result.total } := by
  unfold Response.query queryBy at h
  obtain ⟨window, hwindow, h⟩ := Outcome.bind_eq_ok.1 h
  obtain ⟨collected, hcollected, h⟩ := Outcome.bind_eq_ok.1 h
  obtain ⟨contexts, harranged, h⟩ := Outcome.bind_eq_ok.1 h
  obtain rfl := Outcome.pure_eq_ok.1 h
  -- the algorithms are only known on pointers to Contexts, and there are no others by then
  have harrange : arrange response methods algorithms (collected.contexts.map some) =
      .ok (contexts.map some) := by
    unfold Response.arrange at harranged
    unfold arrange
    cases hsortType : response.sortType with
    | none =>
        rw [hsortType] at harranged
        obtain rfl := Outcome.pure_eq_ok.1 harranged
        rfl
    | reverse =>
        rw [hsortType] at harranged
        obtain rfl := Outcome.pure_eq_ok.1 harranged
        exact congrArg Except.ok List.map_reverse.symm
    | shuffle =>
        rw [hsortType] at harranged
        obtain rfl := Outcome.pure_eq_ok.1 harranged
        exact congrArg Except.ok (hshuffle _)
    | specific =>
        rw [hsortType] at harranged
        exact hsort _ _ harranged
  unfold query
  rw [hwindow]
  simp [run, Except.mapError, bind, Except.bind, collect_pointers window hdata hcollected, harrange,
    cut_map, pure, Except.pure]

end Contexts

/-! ## The algorithms -/

/-- There is nothing to compare, or on the elements a comparison that returns is a strict weak
order. -/
def Ordered (compare : Option α → Option α → Run Bool) (elements : List (Option α)) : Prop :=
  elements.length < 2 ∨
    ∃ before : Option α → Option α → Prop, IsStrictWeakOrder (Option α) before ∧
      ∀ a ∈ elements, ∀ b ∈ elements, ∀ result, compare a b = .ok result →
        (result = true ↔ before a b)

/-- What the standard says about the algorithms: for a comparison that is a strict weak order,
`std::sort` compares elements of its range only, lets through what the comparison throws,
and returns the elements that it was given; so does `std::random_shuffle`.  For any other
comparison it says nothing. -/
structure Algorithms.Standard (algorithms : Algorithms α) : Prop where
  unordered : ∀ compare elements, ¬ Ordered compare elements →
    algorithms.sort compare elements = .error .unordered
  compares : ∀ compare elements stop, Ordered compare elements →
    algorithms.sort compare elements = .error stop →
      ∃ a ∈ elements, ∃ b ∈ elements, compare a b = .error stop
  permutes : ∀ compare elements sorted, Ordered compare elements →
    algorithms.sort compare elements = .ok sorted → sorted.Perm elements
  shuffles : ∀ elements, (algorithms.shuffle elements).Perm elements

/-- An element put before the first one that it is not above. -/
def insert (compare : Option α → Option α → Run Bool) (a : Option α) :
    List (Option α) → Run (List (Option α))
  | [] => pure [a]
  | b :: rest => do
      let above ← compare b a
      if above then
        let inserted ← insert compare a rest
        return b :: inserted
      else return a :: b :: rest

/-- Sorting by insertion. -/
def insertionSort (compare : Option α → Option α → Run Bool) :
    List (Option α) → Run (List (Option α))
  | [] => pure []
  | a :: rest => do
      let sorted ← insertionSort compare rest
      insert compare a sorted

/-- A stop of the comparison of two of some elements. -/
def StopsOn (compare : Option α → Option α → Run Bool) (elements : List (Option α))
    (stop : Stop) : Prop :=
  ∃ a ∈ elements, ∃ b ∈ elements, compare a b = .error stop

theorem StopsOn.mono {compare : Option α → Option α → Run Bool}
    {elements elements' : List (Option α)} {stop : Stop} (h : StopsOn compare elements stop)
    (hsub : elements ⊆ elements') : StopsOn compare elements' stop := by
  obtain ⟨a, ha, b, hb, hstop⟩ := h
  exact ⟨a, hsub ha, b, hsub hb, hstop⟩

theorem meets_insert (compare : Option α → Option α → Run Bool) (a : Option α)
    (elements : List (Option α)) :
    Meets (StopsOn compare (a :: elements)) (·.Perm (a :: elements))
      (insert compare a elements) := by
  induction elements with
  | nil => exact meets_pure (.refl _)
  | cons b rest ih =>
      unfold insert
      cases hcompare : compare b a with
      | error stop => exact ⟨b, by simp, a, by simp, hcompare⟩
      | ok above =>
          cases above with
          | false => exact meets_pure (.refl _)
          | true =>
              cases hrest : insert compare a rest with
              | error stop =>
                  refine (ih.allowed_of_error hrest).mono fun c hc => ?_
                  simp only [List.mem_cons] at hc ⊢
                  tauto
              | ok inserted =>
                  exact ((ih.of_ok hrest).cons b).trans (.swap ..)

theorem meets_insertionSort (compare : Option α → Option α → Run Bool)
    (elements : List (Option α)) :
    Meets (StopsOn compare elements) (·.Perm elements) (insertionSort compare elements) := by
  -- what stops it is a comparison of two of the elements, at whatever depth
  induction elements with
  | nil => exact meets_pure (.refl _)
  | cons a rest ih =>
      unfold insertionSort
      cases hrest : insertionSort compare rest with
      | error stop =>
          exact (ih.allowed_of_error hrest).mono (List.subset_cons_self a rest)
      | ok sorted =>
          have hsorted := (ih.of_ok hrest).cons a
          have hinsert := meets_insert compare a sorted
          change Meets _ _ (insert compare a sorted)
          cases hall : insert compare a sorted with
          | error stop => exact (hinsert.allowed_of_error hall).mono hsorted.subset
          | ok all => exact (hinsert.of_ok hall).trans hsorted

open Classical in
/-- Algorithms as the standard has them. -/
noncomputable def insertionAlgorithms : Algorithms α where
  sort := fun compare elements =>
    if Ordered compare elements then insertionSort compare elements else .error .unordered
  shuffle := id

theorem insertionAlgorithms_standard : (insertionAlgorithms : Algorithms α).Standard where
  unordered := fun compare elements h => if_neg h
  compares := fun compare elements stop h hstop => by
    simp only [insertionAlgorithms, if_pos h] at hstop
    exact (meets_insertionSort compare elements).allowed_of_error hstop
  permutes := fun compare elements sorted h hsorted => by
    simp only [insertionAlgorithms, if_pos h] at hsorted
    exact (meets_insertionSort compare elements).of_ok hsorted
  shuffles := fun elements => .refl elements

/-! ## No null Context -/

/-- The stops that are no call on a null Context, and that do not leave one open. -/
def Allowed (stop : Stop) : Prop := ∃ fault, stop = .fault fault

/-- No method is called on a null Context, nor could one be, and none is in the list that is
stored. -/
structure NeverNull (x : Run (ResponseContext (Option α))) : Prop where
  called : x ≠ .error .nullContext
  sorted : x ≠ .error .unordered
  listed : ∀ result, x = .ok result → none ∉ result.contexts

theorem neverNull_of_meets {x : Run (ResponseContext (Option α))}
    (h : Meets Allowed (fun result => none ∉ result.contexts) x) : NeverNull x where
  called := fun hx => by
    obtain ⟨fault, hfault⟩ := h.allowed_of_error hx
    cases hfault
  sorted := fun hx => by
    obtain ⟨fault, hfault⟩ := h.allowed_of_error hx
    cases hfault
  listed := fun _ hx => h.of_ok hx

theorem meets_run (x : Outcome β) : Meets Allowed (fun _ => True) (run x) := by
  cases x with
  | error fault => exact ⟨fault, rfl⟩
  | ok b => trivial

theorem meets_call (context : α) (method : α → Outcome β) :
    Meets Allowed (fun _ => True) (call (some context) method) := meets_run _

/-- The comparison calls no method on a null Context if it is given none. -/
theorem meets_sortCallback (methods : Methods α) (lhs rhs : α) (fields : List SortField) :
    Meets Allowed (fun _ => True) (sortCallback methods (some lhs) (some rhs) fields) := by
  induction fields with
  | nil => exact meets_pure trivial
  | cons it rest ih =>
      unfold sortCallback
      split
      · exact (meets_call lhs _).bind fun lid _ => (meets_call rhs _).bind fun rid _ =>
          meets_pure trivial
      · split
        · refine (meets_call lhs _).bind fun lcount _ => (meets_call rhs _).bind fun rcount _ => ?_
          split
          · exact ih
          · exact meets_pure trivial
        · refine (meets_call lhs _).bind fun ldata _ => (meets_call rhs _).bind fun rdata _ => ?_
          simp only
          split
          · exact ih
          · exact meets_pure trivial

/-- `std::sort` is given no null Context, so it gives none to the comparison. -/
theorem meets_arrange (response : Response) (methods : Methods α) {algorithms : Algorithms α}
    (hstandard : algorithms.Standard) {contexts : List (Option α)} (h : none ∉ contexts)
    (hordered : response.sortType = .specific → Ordered
      (fun lhs rhs => sortCallback methods lhs rhs response.sortFields) contexts) :
    Meets Allowed (fun arranged => none ∉ arranged)
      (arrange response methods algorithms contexts) := by
  unfold arrange
  split
  · exact meets_pure h
  · exact meets_pure fun hmem => h (List.mem_reverse.1 hmem)
  · exact meets_pure fun hmem => h ((hstandard.shuffles contexts).mem_iff.1 hmem)
  · next hspecific =>
    have hordered := hordered hspecific
    generalize hcompare :
      (fun lhs rhs => sortCallback methods lhs rhs response.sortFields) = compare at hordered ⊢
    cases hsorted : algorithms.sort compare contexts with
    | ok sorted =>
        exact fun hmem => h ((hstandard.permutes _ _ _ hordered hsorted).mem_iff.1 hmem)
    | error stop =>
        obtain ⟨a, ha, b, hb, hstop⟩ := hstandard.compares _ _ _ hordered hsorted
        cases a with
        | none => exact absurd ha h
        | some lhs =>
            cases b with
            | none => exact absurd hb h
            | some rhs =>
                subst hcompare
                have hmeets := meets_sortCallback methods lhs rhs response.sortFields
                exact hmeets.allowed_of_error hstop

theorem mem_cut {response : Response} {window : Window} {contexts : List α} {context : α}
    (h : context ∈ response.cut window contexts) : context ∈ contexts := by
  have hpart : ∀ count : ℕ, context ∈
      (if ((contexts.drop count).length : ℤ) > window.paginate then
        (contexts.drop count).take window.paginate.toNat
      else contexts.drop count) → context ∈ contexts := by
    intro count hmem
    split at hmem
    · exact List.mem_of_mem_drop (List.mem_of_mem_take hmem)
    · exact List.mem_of_mem_drop hmem
  unfold cut at h
  split at h
  · exact hpart _ h
  · exact h

theorem meets_plainLoop (nodes : List (ResultNode α)) (rounds : ℕ) (i : ℤ) :
    Meets Allowed (fun contexts => none ∉ contexts) (plainLoop nodes rounds i) := by
  induction rounds generalizing i with
  | zero => exact meets_pure (List.not_mem_nil)
  | succ rounds ih =>
      refine (meets_run (getNode nodes i)).bind fun node _ => (ih (i + 1)).bind fun rest hrest => ?_
      apply meets_pure
      cases hcontext : node.context with
      | none => simpa using hrest
      | some context => simpa using hrest

theorem none_not_mem_countMatch {window : Window} {counting : Counting (Option α)}
    (node : ResultNode α) (h : none ∉ counting.contexts) :
    none ∉ (countMatch window counting node).contexts := by
  unfold countMatch
  simp only
  split
  · exact h
  · split
    · cases hcontext : node.context with
      | none => simpa using h
      | some context => simpa using h
    · exact h

/-! ## The nodes that `uniqueMatch` is called for -/

/-- The unique fields of a Context can be read. -/
def HasData (response : Response) (methods : Methods α) (context : α) : Prop :=
  ∀ field ∈ response.uniqueFields, ∃ data, methods.getData context field = .ok data

/-- A node that passes the filter has a Context, unless the data of an earlier one cannot be
read and `query` ends there. -/
def Covered (response : Response) (methods : Methods α) (nodes : List (ResultNode α)) : Prop :=
  ∀ before node after, nodes = before ++ node :: after → response.passes node →
    (∀ earlier ∈ before, response.passes earlier →
      ∃ context, earlier.context = some context ∧ HasData response methods context) →
    node.context.isSome

variable {response : Response} {methods : Methods α} {window : Window}
  {node : ResultNode α} {nodes : List (ResultNode α)}

theorem covered_nil : Covered response methods [] := by
  intro before node after h
  cases before <;> cases h

theorem covered_cons_of_not_passes (h : response.passes node = false) :
    Covered response methods (node :: nodes) ↔ Covered response methods nodes := by
  constructor
  · intro hcovered before found after hnodes hpass hbefore
    refine hcovered (node :: before) found after (by rw [hnodes]; rfl) hpass ?_
    intro earlier hmem hpasses
    rcases List.mem_cons.1 hmem with rfl | hmem
    · rw [h] at hpasses
      cases hpasses
    · exact hbefore earlier hmem hpasses
  · intro hcovered before found after hnodes hpass hbefore
    cases before with
    | nil =>
        obtain ⟨rfl, -⟩ := List.cons.inj hnodes
        rw [h] at hpass
        cases hpass
    | cons first before =>
        obtain ⟨-, hrest⟩ := List.cons.inj hnodes
        exact hcovered before found after hrest hpass
          fun earlier hmem => hbefore earlier (List.mem_cons_of_mem _ hmem)

theorem covered_cons_of_passes (h : response.passes node = true) :
    Covered response methods (node :: nodes) ↔
      ∃ context, node.context = some context ∧
        (HasData response methods context → Covered response methods nodes) := by
  constructor
  · intro hcovered
    have hsome := hcovered [] node nodes rfl h fun _ hmem => by cases hmem
    obtain ⟨context, hcontext⟩ := Option.isSome_iff_exists.1 hsome
    refine ⟨context, hcontext, fun hdata before found after hnodes hpass hbefore => ?_⟩
    refine hcovered (node :: before) found after (by rw [hnodes]; rfl) hpass ?_
    intro earlier hmem hpasses
    rcases List.mem_cons.1 hmem with rfl | hmem
    · exact ⟨context, hcontext, hdata⟩
    · exact hbefore earlier hmem hpasses
  · intro ⟨context, hcontext, hrest⟩ before found after hnodes hpass hbefore
    cases before with
    | nil =>
        obtain ⟨rfl, -⟩ := List.cons.inj hnodes
        simp [hcontext]
    | cons first before =>
        obtain ⟨rfl, htail⟩ : node = first ∧ nodes = before ++ found :: after := by
          simpa using hnodes
        obtain ⟨first', hfirst, hdata⟩ := hbefore node (List.mem_cons_self ..) h
        obtain rfl := Option.some.inj (hcontext.symm.trans hfirst)
        exact hrest hdata before found after htail hpass
          fun earlier hmem => hbefore earlier (List.mem_cons_of_mem _ hmem)

theorem uniqueKey_ok {context : α} {fields : List Str}
    (h : ∀ field ∈ fields, ∃ data, methods.getData context field = .ok data) :
    ∃ key, uniqueKey methods (some context) fields = .ok key := by
  induction fields with
  | nil => exact ⟨[], rfl⟩
  | cons field rest ih =>
      obtain ⟨data, hdata⟩ := h field (List.mem_cons_self ..)
      obtain ⟨key, hkey⟩ := ih fun field hfield => h field (List.mem_cons_of_mem _ hfield)
      refine ⟨data ++ ("~!~" : Str) ++ key, ?_⟩
      rw [uniqueKey, hkey, call, hdata]
      rfl

theorem uniqueKey_fault {context : α} {fields : List Str}
    (h : ¬ ∀ field ∈ fields, ∃ data, methods.getData context field = .ok data) :
    ∃ fault, uniqueKey methods (some context) fields = .error (.fault fault) := by
  induction fields with
  | nil => exact absurd (fun _ hmem => by cases hmem) h
  | cons field rest ih =>
      cases hdata : methods.getData context field with
      | error fault =>
          refine ⟨fault, ?_⟩
          rw [uniqueKey, call, hdata]
          rfl
      | ok data =>
          have hrest : ¬ ∀ field ∈ rest, ∃ data, methods.getData context field = .ok data := by
            intro hrest
            apply h
            intro found hfound
            rcases List.mem_cons.1 hfound with rfl | hfound
            · exact ⟨data, hdata⟩
            · exact hrest found hfound
          obtain ⟨fault, hfault⟩ := ih hrest
          refine ⟨fault, ?_⟩
          rw [uniqueKey, hfault, call, hdata]
          rfl

/-- A key is asked of the Context unless there are no unique fields. -/
theorem uniqueKey_none {fields : List Str} (h : fields ≠ []) :
    uniqueKey methods none fields = .error .nullContext := by
  cases fields with
  | nil => exact absurd rfl h
  | cons field rest => rfl

/-! ## The counting loop -/

/-- A node that does not pass the filter changes nothing. -/
theorem countNode_of_not_passes {state : Counting (Option α) × List Str}
    (h : response.passes node = false) :
    countNode response methods window state node = .ok state := by
  unfold countNode
  rw [if_neg]
  · rfl
  · simpa [passes] using h

theorem countNode_of_passes {state : Counting (Option α) × List Str}
    (h : response.passes node = true) (hunique : response.unique = true) :
    countNode response methods window state node =
      (do
        let (isNew, uniqueFound) ← uniqueMatch response methods state.2 node
        if isNew then return (countMatch window state.1 node, uniqueFound)
        else return (state.1, uniqueFound)) := by
  unfold countNode
  rw [if_pos (by simpa [passes] using h), if_pos hunique]

variable (window)

/-- Once its data is read, a node is counted or not. -/
theorem meets_countNode_of_hasData {state : Counting (Option α) × List Str} {context : α}
    (hstate : none ∉ state.1.contexts) (hpass : response.passes node = true)
    (hunique : response.unique = true) (hcontext : node.context = some context)
    (hdata : HasData response methods context) :
    ∃ next, countNode response methods window state node = .ok next ∧
      none ∉ next.1.contexts := by
  obtain ⟨key, hkey⟩ := uniqueKey_ok hdata
  rw [countNode_of_passes hpass hunique, uniqueMatch, hcontext, hkey]
  by_cases hfound : key ∈ state.2
  · exact ⟨(state.1, state.2), by simp [bind, Except.bind, hfound, pure, Except.pure], hstate⟩
  · exact ⟨(countMatch window state.1 node, key :: state.2),
      by simp [bind, Except.bind, hfound, pure, Except.pure],
      none_not_mem_countMatch node hstate⟩

/-- The loop ends at the first Context whose data cannot be read. -/
theorem countNode_of_not_hasData (state : Counting (Option α) × List Str) {context : α}
    (hpass : response.passes node = true) (hunique : response.unique = true)
    (hcontext : node.context = some context) (hdata : ¬ HasData response methods context) :
    ∃ fault, countNode response methods window state node = .error (.fault fault) := by
  obtain ⟨fault, hfault⟩ := uniqueKey_fault hdata
  refine ⟨fault, ?_⟩
  rw [countNode_of_passes hpass hunique, uniqueMatch, hcontext, hfault]
  rfl

/-- A node without a Context that passes the filter. -/
theorem countNode_of_null {state : Counting (Option α) × List Str}
    (hpass : response.passes node = true) (hunique : response.unique = true)
    (hfields : response.uniqueFields ≠ []) (hcontext : node.context = none) :
    countNode response methods window state node = .error .nullContext := by
  rw [countNode_of_passes hpass hunique, uniqueMatch, hcontext, uniqueKey_none hfields]
  rfl

/-- Without unique fields no Context is called, and nothing stops the loop. -/
theorem meets_countNode_plain {allowed : Stop → Prop} {state : Counting (Option α) × List Str}
    (hstate : none ∉ state.1.contexts) (hunique : response.unique = false)
    (node : ResultNode α) :
    Meets allowed (fun next => none ∉ next.1.contexts)
      (countNode response methods window state node) := by
  unfold countNode
  split
  · rw [if_neg (by simp [hunique])]
    exact meets_pure (none_not_mem_countMatch node hstate)
  · exact meets_pure hstate

/-- No null Context is used in the counting loop over nodes that are covered. -/
theorem meets_loop_of_covered (hunique : response.unique = true)
    {state : Counting (Option α) × List Str} (hstate : none ∉ state.1.contexts)
    (hcovered : Covered response methods nodes) :
    Meets Allowed (fun next => none ∉ next.1.contexts)
      (nodes.foldlM (countNode response methods window) state) := by
  induction nodes generalizing state with
  | nil => exact hstate
  | cons node nodes ih =>
      rw [List.foldlM_cons]
      cases hpass : response.passes node with
      | false =>
          rw [countNode_of_not_passes hpass]
          exact ih hstate ((covered_cons_of_not_passes hpass).1 hcovered)
      | true =>
          obtain ⟨context, hcontext, hrest⟩ := (covered_cons_of_passes hpass).1 hcovered
          by_cases hdata : HasData response methods context
          · obtain ⟨next, hnext, hnone⟩ := meets_countNode_of_hasData window
              hstate hpass hunique hcontext hdata
            rw [hnext]
            exact ih hnone (hrest hdata)
          · obtain ⟨fault, hfault⟩ := countNode_of_not_hasData window state
              hpass hunique hcontext hdata
            rw [hfault]
            exact ⟨fault, rfl⟩

/-- Nodes that are not covered: the loop gets to one without a Context. -/
theorem loop_of_not_covered (hunique : response.unique = true)
    (hfields : response.uniqueFields ≠ []) (hcovered : ¬ Covered response methods nodes)
    {state : Counting (Option α) × List Str} (hstate : none ∉ state.1.contexts) :
    nodes.foldlM (countNode response methods window) state = .error .nullContext := by
  induction nodes generalizing state with
  | nil => exact absurd covered_nil hcovered
  | cons node nodes ih =>
      rw [List.foldlM_cons]
      cases hpass : response.passes node with
      | false =>
          rw [countNode_of_not_passes hpass]
          exact ih (mt (covered_cons_of_not_passes hpass).2 hcovered) hstate
      | true =>
          rw [covered_cons_of_passes hpass] at hcovered
          cases hcontext : node.context with
          | none =>
              rw [countNode_of_null window hpass hunique hfields hcontext]
              rfl
          | some context =>
              have hboth : HasData response methods context ∧ ¬ Covered response methods nodes := by
                by_contra hnot
                exact hcovered ⟨context, hcontext, fun hdata => by_contra fun hrest =>
                  hnot ⟨hdata, hrest⟩⟩
              obtain ⟨next, hnext, hnone⟩ := meets_countNode_of_hasData window
                hstate hpass hunique hcontext hboth.1
              rw [hnext]
              exact ih hboth.2 hnone

/-! ## The Contexts that are sorted -/

/-- With unique fields, every node that passes the filter has data that can be read: `query`
gets to the end of the counting loop. -/
def Readable (response : Response) (methods : Methods α) (nodes : List (ResultNode α)) : Prop :=
  response.unique = true → ∀ node ∈ nodes, response.passes node = true →
    ∀ context, node.context = some context → HasData response methods context

/-- A node passes the filter and is the first with its unique fields. -/
def Takes (response : Response) (methods : Methods α) (before : List (ResultNode α))
    (node : ResultNode α) : Prop :=
  response.passes node = true ∧ (response.unique = true →
    ∀ earlier ∈ before, response.passes earlier = true →
      uniqueKey methods earlier.context response.uniqueFields ≠
        uniqueKey methods node.context response.uniqueFields)

instance (before : List (ResultNode α)) (node : ResultNode α) :
    Decidable (Takes response methods before node) :=
  inferInstanceAs (Decidable (_ ∧ (_ → ∀ earlier ∈ before, _ → _ ≠ _)))

/-- The Contexts of the nodes that are taken, where other nodes come before. -/
def takenAfter (response : Response) (methods : Methods α) :
    List (ResultNode α) → List (ResultNode α) → List α
  | _, [] => []
  | before, node :: nodes =>
      (if Takes response methods before node then node.context.toList else []) ++
        takenAfter response methods (before ++ [node]) nodes

/-- The Contexts of a result that an order puts in order. -/
def taken (response : Response) (methods : Methods α) (nodes : List (ResultNode α)) : List α :=
  takenAfter response methods [] nodes

/-- Where `std::sort` is called, it is called with a strict weak order. -/
def Sortable (response : Response) (methods : Methods α) (nodes : List (ResultNode α)) : Prop :=
  response.sortType = .specific → Readable response methods nodes →
    Ordered (fun lhs rhs => sortCallback methods lhs rhs response.sortFields)
      ((taken response methods nodes).map some)

/-- What the counting loop has collected when it skips nothing and has room. -/
structure Gathered (counting : Counting (Option α)) (contexts : List (Option α)) : Prop where
  skipped : counting.skipped = 0
  included : counting.included = contexts.length
  contexts_eq : counting.contexts = contexts

theorem Gathered.countMatch {counting : Counting (Option α)} {contexts : List (Option α)}
    (h : Gathered counting contexts) (hstart : window.start = 0)
    (hroom : (contexts.length : ℤ) < window.stop) (node : ResultNode α) :
    Gathered (countMatch window counting node) (contexts ++ node.context.toList.map some) := by
  obtain ⟨hskipped, hincluded, hcontexts⟩ := h
  unfold Pointers.countMatch
  simp only [hskipped, hincluded, hstart, lt_irrefl, if_false, add_zero, if_pos hroom]
  cases node.context with
  | none => exact ⟨rfl, by simp, by simpa using hcontexts⟩
  | some context => exact ⟨rfl, by simp, by simp [hcontexts]⟩

/-- The texts that the loop has found are those of the nodes before. -/
def Found (response : Response) (methods : Methods α) (before : List (ResultNode α))
    (uniqueFound : List Str) : Prop :=
  ∀ key, key ∈ uniqueFound ↔ ∃ earlier ∈ before, response.passes earlier = true ∧
    uniqueKey methods earlier.context response.uniqueFields = .ok key

theorem Found.snoc {before : List (ResultNode α)} {uniqueFound found : List Str}
    (h : Found response methods before uniqueFound)
    (hfound : ∀ key, key ∈ found ↔ key ∈ uniqueFound ∨ (response.passes node = true ∧
      uniqueKey methods node.context response.uniqueFields = .ok key)) :
    Found response methods (before ++ [node]) found := by
  intro key
  rw [hfound, h key]
  simp only [List.mem_append, List.mem_singleton, or_and_right, exists_or, exists_eq_left]

theorem countNode_taken {before : List (ResultNode α)} {contexts : List (Option α)}
    {state next : Counting (Option α) × List Str} (hgathered : Gathered state.1 contexts)
    (hstart : window.start = 0) (hroom : (contexts.length : ℤ) < window.stop)
    (hfound : response.unique = true → Found response methods before state.2)
    (h : countNode response methods window state node = .ok next) :
    Gathered next.1 (contexts ++
        (if Takes response methods before node then node.context.toList else []).map some) ∧
      (response.unique = true → Found response methods (before ++ [node]) next.2) := by
  cases hpass : response.passes node with
  | false =>
      rw [countNode_of_not_passes hpass] at h
      obtain rfl := Except.ok.inj h
      have hskips : ¬ Takes response methods before node := fun htakes => by
        simp [htakes.1] at hpass
      refine ⟨by simpa [hskips] using hgathered, fun hunique => (hfound hunique).snoc fun key => ?_⟩
      simp [hpass]
  | true =>
      cases hunique : response.unique with
      | false =>
          unfold countNode at h
          rw [if_pos (by simpa [passes] using hpass), if_neg (by simp [hunique])] at h
          obtain rfl := Except.ok.inj h
          have htakes : Takes response methods before node :=
            ⟨hpass, fun hset => by simp [hset] at hunique⟩
          rw [if_pos htakes]
          exact ⟨hgathered.countMatch window hstart hroom node, fun hset => by cases hset⟩
      | true =>
          have hfound := hfound hunique
          rw [countNode_of_passes hpass hunique, uniqueMatch] at h
          cases hkey : uniqueKey methods node.context response.uniqueFields with
          | error stop => simp [hkey, bind, Except.bind] at h
          | ok key =>
              -- the text is new exactly if no node before has it
              have hnew : key ∉ state.2 ↔ ∀ earlier ∈ before, response.passes earlier = true →
                  uniqueKey methods earlier.context response.uniqueFields ≠ .ok key := by
                rw [hfound key]
                simp only [not_exists, not_and, ne_eq]
              by_cases hseen : key ∈ state.2
              · simp only [hkey, hseen, bind, Except.bind, not_true, if_false, pure, Except.pure,
                  Bool.false_eq_true, Except.ok.injEq] at h
                subst h
                have hskips : ¬ Takes response methods before node := fun htakes =>
                  hnew.2 (hkey ▸ htakes.2 hunique) hseen
                refine ⟨by simpa [hskips] using hgathered, fun _ => hfound.snoc fun found => ?_⟩
                simp only [hpass, hkey, true_and, Except.ok.injEq]
                exact ⟨Or.inl, fun h => h.elim id fun hsame => hsame ▸ hseen⟩
              · simp only [hkey, hseen, bind, Except.bind, not_false_iff, if_true, pure,
                  Except.pure, Except.ok.injEq] at h
                subst h
                have htakes : Takes response methods before node :=
                  ⟨hpass, fun _ => hkey ▸ hnew.1 hseen⟩
                refine ⟨?_, fun _ => hfound.snoc fun found => ?_⟩
                · rw [if_pos htakes]
                  exact hgathered.countMatch window hstart hroom node
                · simp only [hpass, hkey, true_and, Except.ok.injEq, List.mem_cons]
                  rw [or_comm, eq_comm]

theorem loop_taken {before nodes : List (ResultNode α)} {contexts : List (Option α)}
    {state next : Counting (Option α) × List Str} (hgathered : Gathered state.1 contexts)
    (hstart : window.start = 0) (hroom : (contexts.length : ℤ) + nodes.length ≤ window.stop)
    (hfound : response.unique = true → Found response methods before state.2)
    (h : nodes.foldlM (countNode response methods window) state = .ok next) :
    Gathered next.1 (contexts ++ (takenAfter response methods before nodes).map some) := by
  induction nodes generalizing before contexts state with
  | nil =>
      obtain rfl := Except.ok.inj h
      simpa [takenAfter] using hgathered
  | cons node nodes ih =>
      rw [List.foldlM_cons] at h
      rw [List.length_cons] at hroom
      push_cast at hroom
      cases hnode : countNode response methods window state node with
      | error stop => simp [hnode, bind, Except.bind] at h
      | ok middle =>
          rw [hnode] at h
          obtain ⟨hmiddle, hfound'⟩ :=
            countNode_taken window hgathered hstart (by omega) hfound hnode
          have hlength : (if Takes response methods before node then node.context.toList
              else []).length ≤ 1 := by
            split
            · cases node.context <;> simp
            · simp
          rw [takenAfter, List.map_append, ← List.append_assoc]
          refine ih hmiddle ?_ hfound' h
          rw [List.length_append, List.length_map]
          push_cast
          omega

/-- Without filter and unique fields, every Context is taken. -/
theorem takenAfter_plain (hfilter : response.filter = false) (hunique : response.unique = false)
    (before nodes : List (ResultNode α)) :
    takenAfter response methods before nodes = nodes.filterMap ResultNode.context := by
  induction nodes generalizing before with
  | nil => rfl
  | cons node nodes ih =>
      have htakes : Takes response methods before node :=
        ⟨by simp [passes, hfilter], fun hset => by simp [hset] at hunique⟩
      rw [takenAfter, if_pos htakes, ih]
      cases hcontext : node.context with
      | none => simp [hcontext]
      | some context => simp [hcontext]

/-- With an order, the loops collect the Contexts that are taken. -/
theorem collect_taken (hstart : window.start = 0) (hstop : window.stop = nodes.length)
    {collected : ResponseContext (Option α)}
    (h : collect response methods window nodes = .ok collected) :
    collected.contexts = (taken response methods nodes).map some := by
  unfold collect at h
  split at h
  · cases hloop : nodes.foldlM (countNode response methods window) (⟨0, 0, 0, []⟩, []) with
    | error stop => simp [hloop, bind, Except.bind] at h
    | ok next =>
        simp only [hloop, bind, Except.bind, pure, Except.pure, Except.ok.injEq] at h
        subst h
        have hgathered : Gathered (⟨0, 0, 0, []⟩ : Counting (Option α)) [] := ⟨rfl, rfl, rfl⟩
        have hfound : response.unique = true → Found response methods [] [] := fun _ key => by simp
        have hnext := loop_taken window hgathered hstart (by simp [hstop]) hfound hloop
        simpa [taken] using hnext.contexts_eq
  · next hplain =>
    simp only [Bool.or_eq_true, not_or, Bool.not_eq_true] at hplain
    have hrange := plainLoop_pointers (plainLoop_range nodes nodes.length 0 (by omega))
    simp only [hstart, hstop, sub_zero, Int.toNat_natCast] at h
    simp only [Nat.cast_zero, List.drop_zero, List.take_length] at hrange
    simp only [hrange, bind, Except.bind, pure, Except.pure, Except.ok.injEq] at h
    subst h
    rw [taken, takenAfter_plain hplain.1 hplain.2]

/-- If the counting loop gets to its end, all data could be read. -/
theorem readable_of_loop {state next : Counting (Option α) × List Str}
    (h : nodes.foldlM (countNode response methods window) state = .ok next) :
    Readable response methods nodes := by
  intro hunique
  induction nodes generalizing state with
  | nil => exact fun node hmem => by cases hmem
  | cons first nodes ih =>
      rw [List.foldlM_cons] at h
      cases hfirst : countNode response methods window state first with
      | error stop => simp [hfirst, bind, Except.bind] at h
      | ok middle =>
          rw [hfirst] at h
          intro node hmem hpass context hcontext
          rcases List.mem_cons.1 hmem with rfl | hlater
          · by_contra hdata
            obtain ⟨fault, hfault⟩ :=
              countNode_of_not_hasData window state hpass hunique hcontext hdata
            rw [hfault] at hfirst
            cases hfirst
          · exact ih h node hlater hpass context hcontext

/-- Over nodes that are covered, and whose data can be read, the counting loop gets to its
end. -/
theorem loop_ok (hcovered : response.unique = true → Covered response methods nodes)
    (hreadable : Readable response methods nodes) {state : Counting (Option α) × List Str}
    (hstate : none ∉ state.1.contexts) :
    ∃ next, nodes.foldlM (countNode response methods window) state = .ok next := by
  induction nodes generalizing state with
  | nil => exact ⟨state, rfl⟩
  | cons node nodes ih =>
      have hrest : Readable response methods nodes :=
        fun hunique found hmem => hreadable hunique found (List.mem_cons_of_mem _ hmem)
      obtain ⟨middle, hmiddle, hnone, hcovered'⟩ : ∃ middle,
          countNode response methods window state node = .ok middle ∧
            none ∉ middle.1.contexts ∧
            (response.unique = true → Covered response methods nodes) := by
        cases hunique : response.unique with
        | false =>
            have hmeets : Meets (fun _ => False) (fun next => none ∉ next.1.contexts)
                (countNode response methods window state node) :=
              meets_countNode_plain window hstate hunique node
            cases hnode : countNode response methods window state node with
            | error stop => exact (hmeets.allowed_of_error hnode).elim
            | ok middle => exact ⟨middle, rfl, hmeets.of_ok hnode, fun hset => by cases hset⟩
        | true =>
            cases hpass : response.passes node with
            | false =>
                exact ⟨state, countNode_of_not_passes hpass, hstate,
                  fun _ => (covered_cons_of_not_passes hpass).1 (hcovered hunique)⟩
            | true =>
                obtain ⟨context, hcontext, hthen⟩ :=
                  (covered_cons_of_passes hpass).1 (hcovered hunique)
                have hdata := hreadable hunique node (List.mem_cons_self ..) hpass context hcontext
                obtain ⟨middle, hmiddle, hnone⟩ := meets_countNode_of_hasData window hstate hpass
                  hunique hcontext hdata
                exact ⟨middle, hmiddle, hnone, fun _ => hthen hdata⟩
      rw [List.foldlM_cons, hmiddle]
      exact ih hcovered' hrest hnone

theorem collect_ok (hcovered : response.unique = true → Covered response methods nodes)
    (hreadable : Readable response methods nodes) (hstart : window.start = 0)
    (hstop : window.stop = nodes.length) :
    ∃ collected, collect response methods window nodes = .ok collected := by
  unfold collect
  split
  · have hnone : none ∉ ((⟨0, 0, 0, []⟩, []) : Counting (Option α) × List Str).1.contexts :=
      List.not_mem_nil
    obtain ⟨next, hnext⟩ := loop_ok window hcovered hreadable hnone
    rw [hnext]
    exact ⟨_, rfl⟩
  · have hrange := plainLoop_pointers (plainLoop_range nodes nodes.length 0 (by omega))
    simp only [hstart, hstop, sub_zero, Int.toNat_natCast]
    simp only [Nat.cast_zero] at hrange
    rw [hrange]
    exact ⟨_, rfl⟩

/-! ## The whole of `query` -/

theorem meets_collect (hcovered : response.unique = true → Covered response methods nodes) :
    Meets Allowed (fun collected => none ∉ collected.contexts ∧ Readable response methods nodes)
      (collect response methods window nodes) := by
  have hstart : none ∉ (⟨0, 0, 0, []⟩ : Counting (Option α)).contexts := List.not_mem_nil
  unfold collect
  split
  · have hloop : Meets Allowed (fun next => none ∉ next.1.contexts)
        (nodes.foldlM (countNode response methods window) (⟨0, 0, 0, []⟩, [])) := by
      cases hunique : response.unique with
      | true => exact meets_loop_of_covered window hunique hstart (hcovered hunique)
      | false =>
          apply Meets.foldlM
            (Q := fun next : Counting (Option α) × List Str => none ∉ next.1.contexts) hstart
          intro state node _ hstate
          exact meets_countNode_plain window hstate hunique node
    cases hended : nodes.foldlM (countNode response methods window) (⟨0, 0, 0, []⟩, []) with
    | error stop => exact hloop.allowed_of_error hended
    | ok next => exact ⟨hloop.of_ok hended, readable_of_loop window hended⟩
  · next hplain =>
    refine (meets_plainLoop nodes _ _).bind fun contexts hcontexts => meets_pure ⟨hcontexts, ?_⟩
    intro hunique
    simp [hunique] at hplain

/-- With an order, the window is the whole result. -/
theorem window_of_specific (hspecific : response.sortType = .specific) {size : ℤ}
    (h : response.offsets exactly size = .ok window) : window.start = 0 ∧ window.stop = size := by
  obtain ⟨skip, paginate, -, -, rfl⟩ := offsets_eq_ok_iff.1 h
  simp [clamped, hspecific]

theorem meets_query {algorithms : Algorithms α} (hstandard : algorithms.Standard)
    (hcovered : response.unique = true → Covered response methods nodes)
    (hsortable : Sortable response methods nodes) :
    Meets Allowed (fun result => none ∉ result.contexts)
      (query response methods algorithms nodes) := by
  unfold query
  cases hwindow : response.offsets exactly nodes.length with
  | error fault => exact ⟨fault, rfl⟩
  | ok window =>
      change Meets _ _ (collect response methods window nodes >>= _)
      have hmeets := meets_collect window hcovered
      cases hcollect : collect response methods window nodes with
      | error stop => exact hmeets.allowed_of_error hcollect
      | ok collected =>
          obtain ⟨hnone, hreadable⟩ := hmeets.of_ok hcollect
          refine (meets_arrange response methods hstandard hnone fun hspecific => ?_).bind
            fun contexts hcontexts => meets_pure fun hmem => hcontexts (mem_cut hmem)
          obtain ⟨hstart, hstop⟩ := window_of_specific window hspecific hwindow
          rw [collect_taken window hstart hstop hcollect]
          exact hsortable hspecific hreadable

theorem query_of_not_covered {algorithms : Algorithms α} (hfits : response.Fits nodes.length)
    (hunique : response.unique = true) (hfields : response.uniqueFields ≠ [])
    (hcovered : ¬ Covered response methods nodes) :
    query response methods algorithms nodes = .error .nullContext := by
  obtain ⟨window, hwindow⟩ := hfits
  have hcollect : collect response methods window nodes = .error .nullContext := by
    unfold collect
    rw [if_pos (by simp [hunique]),
      loop_of_not_covered window hunique hfields hcovered List.not_mem_nil]
    rfl
  unfold query
  rw [hwindow]
  simp [run, Except.mapError, bind, Except.bind, hcollect]

theorem query_of_not_sortable {algorithms : Algorithms α} (hstandard : algorithms.Standard)
    (hfits : response.Fits nodes.length)
    (hcovered : response.unique = true → Covered response methods nodes)
    (hsortable : ¬ Sortable response methods nodes) :
    query response methods algorithms nodes = .error .unordered := by
  obtain ⟨window, hwindow⟩ := hfits
  unfold Sortable at hsortable
  push Not at hsortable
  obtain ⟨hspecific, hreadable, hordered⟩ := hsortable
  obtain ⟨hstart, hstop⟩ := window_of_specific window hspecific hwindow
  obtain ⟨collected, hcollect⟩ := collect_ok window hcovered hreadable hstart hstop
  have harrange : arrange response methods algorithms collected.contexts = .error .unordered := by
    unfold arrange
    simp only [hspecific, collect_taken window hstart hstop hcollect]
    exact hstandard.unordered _ _ hordered
  unfold query
  rw [hwindow]
  simp [run, Except.mapError, bind, Except.bind, hcollect, harrange]

/-- No null Context is used or listed exactly if every node that passes the filter has a
Context, up to where the data of one cannot be read, and `std::sort`, if it is called, is
called with a strict weak order. -/
theorem query_neverNull_iff (options : Options) (methods : Methods α)
    (algorithms : Algorithms α) (hstandard : algorithms.Standard) (nodes : List (ResultNode α))
    (hfits : (ofOptions options).Fits nodes.length) :
    NeverNull (query (ofOptions options) methods algorithms nodes) ↔
      ((options "unique").isSome → Covered (ofOptions options) methods nodes) ∧
        Sortable (ofOptions options) methods nodes := by
  have hfields : (ofOptions options).unique = true → (ofOptions options).uniqueFields ≠ [] := by
    intro hunique
    obtain ⟨value, hvalue⟩ := Option.isSome_iff_exists.1 hunique
    simp only [ofOptions, hvalue]
    exact split_ne_nil _ _
  constructor
  · intro hnever
    have hcovered : (options "unique").isSome → Covered (ofOptions options) methods nodes := by
      intro hunique
      by_contra hcovered
      exact hnever.called (query_of_not_covered hfits hunique (hfields hunique) hcovered)
    refine ⟨hcovered, ?_⟩
    by_contra hsortable
    exact hnever.sorted (query_of_not_sortable hstandard hfits hcovered hsortable)
  · intro h
    exact neverNull_of_meets (meets_query hstandard h.1 h.2)

/-- Contexts that are their names. -/
def nameMethods : Methods Str where
  getId := fun _ => 0
  getCount := fun _ _ => pure 0
  getData := fun name _ => pure name

/-- Different names only, ordered by name. -/
def uniqueNames : Options := fun option =>
  if option = ("unique" : Str) ∨ option = ("order" : Str) then some ("name" : Str) else none

/-- Elements with a Context each. -/
def namedNodes : List (ResultNode Str) := [⟨[], some "oak"⟩, ⟨[], some "ash"⟩, ⟨[], some "oak"⟩]

theorem query_neverNull_iff_namedNodes :
    NeverNull (query (ofOptions uniqueNames) nameMethods insertionAlgorithms namedNodes) := by
  refine (query_neverNull_iff uniqueNames nameMethods insertionAlgorithms
    insertionAlgorithms_standard namedNodes (by decide)).2 ⟨fun _ => ?_, fun _ _ => .inr ?_⟩
  · intro before node after hnodes _ _
    have hall : ∀ node ∈ namedNodes, node.context.isSome := by decide
    exact hall node (by rw [hnodes]; simp)
  · -- the two names that are left are ordered by a number
    let key : Option Str → ℕ := fun name => if name = some ("ash" : Str) then 0 else 1
    have hkey : ∀ a ∈ (taken (ofOptions uniqueNames) nameMethods namedNodes).map some,
        ∀ b ∈ (taken (ofOptions uniqueNames) nameMethods namedNodes).map some,
        sortCallback nameMethods a b (ofOptions uniqueNames).sortFields =
          .ok (decide (key a < key b)) := by decide +kernel
    refine ⟨_, (LexOrder.weak_key key).isStrictWeakOrder, fun a ha b hb result hresult => ?_⟩
    obtain rfl := Except.ok.inj ((hkey a ha b hb).symm.trans hresult)
    exact decide_eq_true_iff

/-- An attribute, as `/item/@id` finds it: it has no Context. -/
def attributeNode : List (ResultNode Str) := [⟨[.text "1"], none⟩]

/-- The option `order=DESC(id)`. -/
def descendingIds : Options := fun option =>
  if option = ("order" : Str) then some ("DESC(id)" : Str) else none

/-- Seventeen Contexts with the same id. -/
def sameIds : List (ResultNode Str) := List.replicate 17 ⟨[], some "oak"⟩

/-- Unique fields are asked of an attribute, and `std::sort` is given a comparison that puts
Contexts before themselves. -/
theorem query_attributeNode_nullContext :
    query (ofOptions uniqueNames) nameMethods insertionAlgorithms attributeNode =
        .error .nullContext ∧
      query (ofOptions descendingIds) nameMethods insertionAlgorithms sameIds =
        .error .unordered ∧
      ¬ ∀ (options : Options) (methods : Methods Str) (algorithms : Algorithms Str),
        algorithms.Standard → ∀ nodes : List (ResultNode Str),
          (ofOptions options).Fits nodes.length →
            NeverNull (query (ofOptions options) methods algorithms nodes) := by
  have hnull : query (ofOptions uniqueNames) nameMethods insertionAlgorithms attributeNode =
      .error .nullContext := by
    refine query_of_not_covered (by decide) (by decide) (by decide) fun hcovered => ?_
    have hsome := hcovered [] _ [] rfl (by decide) fun earlier hmem => by cases hmem
    cases hsome
  have hunordered : query (ofOptions descendingIds) nameMethods insertionAlgorithms sameIds =
      .error .unordered := by
    refine query_of_not_sortable insertionAlgorithms_standard (by decide)
      (fun hunique => absurd hunique (by decide)) fun hsortable => ?_
    rcases hsortable (by decide) (fun hunique => absurd hunique (by decide)) with
      hshort | ⟨before, horder, hbefore⟩
    · exact absurd hshort (by decide)
    · have hmem : some ("oak" : Str) ∈
          (taken (ofOptions descendingIds) nameMethods sameIds).map some := by decide
      exact horder.irrefl _ ((hbefore _ hmem _ hmem true rfl).1 rfl)
  refine ⟨hnull, hunordered, fun hall => ?_⟩
  exact (hall uniqueNames nameMethods insertionAlgorithms insertionAlgorithms_standard
    attributeNode (by decide)).called hnull

end VaeDb.Response.Pointers
