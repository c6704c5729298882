import VaeDb.Query.SharedCaches
import VaeDb.Response.Options

/-!
# Requests that run side by side

`get` constructs a `Response`, which fetches a query for every Context of its parent, tests
unique fields and compares Contexts with `getData` and `getCount`; `data` reads the data of the
Contexts that a response lists.  All of them use the caches of `Query/SharedCaches.lean`, which
any number of threads share.

`std::sort` is a parameter.  It sees the Contexts only through the comparison that it is handed,
so it is a tree of comparisons (`Comparing`), and a comparison may call `getCount` and `getData`,
wait there, and throw.  The order `RAND()` is left out.

* `ended_expected` : in every interleaving each request is answered as it is by the document
  alone, with the `Response::query` of `Response/Query.lean`.
* `requests_end` : no schedule deadlocks, and each ends with all requests answered.
-/

namespace VaeDb.Response

open Threads Query Query.Shared

/-! ## Comparisons -/

/-- An algorithm that sees its elements through a comparison. -/
inductive Comparing (α β : Type)
  | done (value : β)
  | compare (lhs rhs : α) (next : Bool → Comparing α β)

/-- Run the algorithm with a comparison. -/
def Comparing.run {α β : Type} {m : Type → Type _} [Monad m] (before : α → α → m Bool) :
    Comparing α β → m β
  | .done value => return value
  | .compare lhs rhs next => do
      let comp ← before lhs rhs
      (next comp).run before

section

variable {α : Type} {m : Type → Type _} [Monad m] (getId : α → ℤ) (getCount : α → Str → m ℤ)
  (getData : α → Str → m Str)

/-- `Response::sortCallback`, with calls that may throw. -/
def compareContexts (lhs rhs : α) : List SortField → m Bool
  | [] => return false
  | it :: rest =>
      if it.isId then return it.directed (getId lhs < getId rhs)
      else if it.count then do
        let lcount ← getCount lhs it.field
        let rcount ← getCount rhs it.field
        if lcount = rcount then compareContexts lhs rhs rest
        else return it.directed (lcount < rcount)
      else do
        let ldata ← getData lhs it.field
        let rdata ← getData rhs it.field
        let icomp := strCompareNat ldata rdata
        if icomp = 0 then compareContexts lhs rhs rest
        else return it.directed (icomp > 0)

end

/-- Where no call throws, this is `sortCallback`. -/
theorem compareContexts_eq {α : Type} (contexts : Contexts α) (lhs rhs : α)
    (fields : List SortField) :
    compareContexts contexts.getId (fun context field => (.ok (contexts.getCount context field)))
        (fun context field => (.ok (contexts.getData context field))) lhs rhs fields =
      (.ok (sortCallback contexts lhs rhs fields) : Outcome Bool) := by
  induction fields with
  | nil => rfl
  | cons it rest ih =>
      unfold compareContexts sortCallback
      by_cases hid : it.isId = true
      · rw [if_pos hid, if_pos hid]
        rfl
      · rw [if_neg hid, if_neg hid]
        by_cases hcount : it.count = true
        · rw [if_pos hcount, if_pos hcount]
          simp only [bind, Except.bind]
          split
          · exact ih
          · rfl
        · rw [if_neg hcount, if_neg hcount]
          simp only [bind, Except.bind]
          split
          · exact ih
          · rfl

/-! ## What a request reads -/

/-- A Site with what `Response` uses of the standard library. -/
structure Served (Node : Type) where
  site : Nodes Node ℕ
  rounds : ℕ
  getId : ℕ → ℤ
  sort : List ℕ → Comparing ℕ (List ℕ)
  shuffle : List ℕ → List ℕ

section

variable {Client Node : Type} [DecidableEq Node] (served : Served Node)

omit [DecidableEq Node] in
/-- A node below a result, on so many levels of elements. -/
def Served.xmlNode : ℕ → Node → XmlNode
  | levels, node =>
      match served.site.type node with
      | .element =>
          match levels with
          | 0 => .element []
          | levels + 1 => .element ((served.site.children node).map (xmlNode levels))
      | .text content => .text content
      | .other => .other

omit [DecidableEq Node] in
/-- A node of a result: its children as far as they are looked at, and its Context. -/
def Served.resultNode (node : Node) : ResultNode ℕ where
  children := (served.site.children node).map (served.xmlNode 1)
  context := served.site.document._private node

/-- `Response::query` calls the document itself. -/
def Served.surroundings : Surroundings ℕ where
  getData := documentData served.site served.rounds
  sort fields contexts := (served.sort contexts).run fun lhs rhs =>
    compareContexts served.getId (documentCount served.site served.rounds)
      (documentData served.site served.rounds) lhs rhs fields
  shuffle := served.shuffle

/-- The key of a query below a Context, or below the root. -/
def keyOf (context : Option ℕ) (q : Str) : LRUKey := ⟨context.getD 0, q⟩

/-- What `Response::query` gives for a Context. -/
def Served.answer (response : Response) (context : Option ℕ) (q : Str) :
    Outcome (ResponseContext ℕ) := do
  let p_query ← newQuery served.site served.rounds (keyOf context q)
  response.query served.surroundings (p_query.nodes.map served.resultNode)

/-! ## The code -/

/-- `uniqueKey`, by calls of Contexts. -/
def uniqueKeyCalls (me : Client) (context : ℕ) : List Str → Code Client Node Str
  | [] => return []
  | field :: fields => do
      let data ← getData served.site served.rounds me context field
      let rest ← uniqueKeyCalls me context fields
      return data ++ ("~!~" : Str) ++ rest

/-- `Response::uniqueMatch`. -/
def uniqueMatchCalls (response : Response) (me : Client) (uniqueFound : List Str)
    (node : ResultNode ℕ) : Code Client Node (Bool × List Str) :=
  match node.context with
  | none => throw (.undefined .nullPointer)
  | some context => do
      let val ← uniqueKeyCalls served me context response.uniqueFields
      if val ∉ uniqueFound then return (true, val :: uniqueFound)
      else return (false, uniqueFound)

/-- The body of the counting loop. -/
def countNodeCalls (response : Response) (me : Client) (window : Window)
    (state : Counting ℕ × List Str) (node : ResultNode ℕ) :
    Code Client Node (Counting ℕ × List Str) :=
  if !response.filter || response.filterMatch node then
    if response.unique then do
      let (isNew, uniqueFound) ← uniqueMatchCalls served response me state.2 node
      if isNew then return (countMatch window state.1 node.context, uniqueFound)
      else return (state.1, uniqueFound)
    else return (countMatch window state.1 node.context, state.2)
  else return state

/-- The counting loop. -/
def countNodesCalls (response : Response) (me : Client) (window : Window) :
    List (ResultNode ℕ) → Counting ℕ × List Str → Code Client Node (Counting ℕ × List Str)
  | [], state => return state
  | node :: rest, state => do
      let state ← countNodeCalls served response me window state node
      countNodesCalls response me window rest state

/-- The loops of `Response::query`. -/
def collectCalls (response : Response) (me : Client) (window : Window)
    (nodes : List (ResultNode ℕ)) : Code Client Node (ResponseContext ℕ) :=
  if response.filter || response.unique then do
    let state ← countNodesCalls served response me window nodes (⟨0, 0, 0, []⟩, [])
    return { contexts := state.1.contexts, total := state.1.total }
  else do
    let contexts ← (ExceptT.mk (pure (plainLoop nodes (window.stop - window.start).toNat
      window.start)) : Code Client Node (List ℕ))
    return { contexts, total := nodes.length }

/-- Reverse, shuffle or sort. -/
def arrangeCalls (response : Response) (me : Client) (contexts : List ℕ) :
    Code Client Node (List ℕ) :=
  match response.sortType with
  | .none => return contexts
  | .reverse => return contexts.reverse
  | .shuffle => return served.shuffle contexts
  | .specific => (served.sort contexts).run fun lhs rhs =>
      compareContexts served.getId (getCount served.site served.rounds me)
        (getData served.site served.rounds me) lhs rhs response.sortFields

/-- `Response::query`. -/
def queryCalls (response : Response) (me : Client) (context : Option ℕ) (q : Str) :
    Code Client Node (ResponseContext ℕ) := do
  let p_query ← fetchQuery served.site served.rounds (keyOf context q)
  let nodes := p_query.nodes.map served.resultNode
  let window ← (ExceptT.mk (pure (response.offsets exactly nodes.length)) :
    Code Client Node Window)
  let collected ← collectCalls served response me window nodes
  let contexts ← arrangeCalls served response me collected.contexts
  return { contexts := response.cut window contexts, total := collected.total }

/-- The loop of the constructor of `Response`. -/
def respondCalls (response : Response) (me : Client) (q : Str) :
    List (Option ℕ) → Code Client Node (List (ResponseContext ℕ))
  | [] => return []
  | context :: rest => do
      let _return ← queryCalls served response me context q
      let others ← respondCalls response me q rest
      return _return :: others

/-- The loop of `Response::getData`. -/
def dataCalls (me : Client) : List ℕ → Code Client Node (List (OrderedMap Str Str))
  | [] => return []
  | context :: rest => do
      let data ← getDataMap served.site me context
      let others ← dataCalls me rest
      return data :: others

/-! ## Requests -/

/-- A `get`, with the response that it refers to, or a `data` for a response. -/
inductive Request
  | get (parent : Option (List (ResponseContext ℕ))) (q : Str) (options : Options)
      (ordered : (ofOptions options).sortType ≠ .shuffle)
  | data (contexts : List (ResponseContext ℕ))

/-- What a request is answered with: the contexts of a new response, or maps of data. -/
inductive Reply
  | contexts (contexts : List (ResponseContext ℕ))
  | data (maps : List (OrderedMap Str Str))

/-- The Contexts of a response, in order. -/
def listed (contexts : List (ResponseContext ℕ)) : List ℕ :=
  contexts.flatMap ResponseContext.contexts

/-- The Contexts that `query` is called for. -/
def calledFor (parent : Option (List (ResponseContext ℕ))) : List (Option ℕ) :=
  match parent with
  | some contexts => (listed contexts).map some
  | none => [none]

/-- What a worker does for a request. -/
def serve (me : Client) : Request → Code Client Node Reply
  | .get parent q options _ => do
      let contexts ← respondCalls served (ofOptions options) me q (calledFor parent)
      return .contexts contexts
  | .data contexts => do
      let maps ← dataCalls served me (listed contexts)
      return .data maps

/-- What the document alone determines. -/
def expected : Request → Outcome Reply
  | .get parent q options _ => do
      let contexts ← (calledFor parent).mapM fun context =>
        served.answer (ofOptions options) context q
      return .contexts contexts
  | .data contexts => .ok (.data ((listed contexts).map (documentMap served.site)))

end

/-! ## Requests do what the document determines -/

section

variable {Client Node : Type} [DecidableEq Node] {served : Served Node} {me : Client}

/-- How the threads use the Site that is served. -/
abbrev Served.protocol (served : Served Node) : Protocol Client (SiteMemory Client Node) :=
  Shared.protocol served.site served.rounds

omit [DecidableEq Node] in
theorem comparing_returns {p : Protocol Client (SiteMemory Client Node)} {α β : Type}
    {before : α → α → Code Client Node Bool} {before' : α → α → Outcome Bool}
    (hbefore : ∀ lhs rhs, Returns p me (before lhs rhs) (before' lhs rhs))
    (comparing : Comparing α β) :
    Returns p me (comparing.run before) (comparing.run before') := by
  induction comparing with
  | done value => exact Returns.pure value
  | compare lhs rhs next ih => exact (hbefore lhs rhs).bind fun comp _ => ih comp

theorem compareContexts_returns (lhs rhs : ℕ) (fields : List SortField) :
    Returns served.protocol me
      (compareContexts served.getId (getCount served.site served.rounds me)
        (getData served.site served.rounds me) lhs rhs fields)
      (compareContexts served.getId (documentCount served.site served.rounds)
        (documentData served.site served.rounds) lhs rhs fields) := by
  induction fields with
  | nil => exact Returns.pure false
  | cons it rest ih =>
      unfold compareContexts
      by_cases hid : it.isId = true
      · rw [if_pos hid, if_pos hid]
        exact Returns.pure _
      · rw [if_neg hid, if_neg hid]
        by_cases hcount : it.count = true
        · rw [if_pos hcount, if_pos hcount]
          refine (getCount_returns me lhs it.field).bind fun lcount _ => ?_
          refine (getCount_returns me rhs it.field).bind fun rcount _ => ?_
          split
          · exact ih
          · exact Returns.pure _
        · rw [if_neg hcount, if_neg hcount]
          refine (getData_returns me lhs it.field).bind fun ldata _ => ?_
          refine (getData_returns me rhs it.field).bind fun rdata _ => ?_
          dsimp only
          split
          · exact ih
          · exact Returns.pure _

theorem uniqueKeyCalls_returns (context : ℕ) (fields : List Str) :
    Returns served.protocol me (uniqueKeyCalls served me context fields)
      (uniqueKey served.surroundings context fields) := by
  induction fields with
  | nil => exact Returns.pure []
  | cons field fields ih =>
      refine (getData_returns me context field).bind fun data _ => ?_
      exact ih.bind fun rest _ => Returns.pure _

theorem uniqueMatchCalls_returns (response : Response) (uniqueFound : List Str)
    (node : ResultNode ℕ) :
    Returns served.protocol me (uniqueMatchCalls served response me uniqueFound node)
      (response.uniqueMatch served.surroundings uniqueFound node) := by
  unfold uniqueMatchCalls uniqueMatch
  cases node.context with
  | none => exact Returns.throw _
  | some context =>
      refine (uniqueKeyCalls_returns context response.uniqueFields).bind fun val _ => ?_
      split
      · exact Returns.pure _
      · exact Returns.pure _

theorem countNodeCalls_returns (response : Response) (window : Window)
    (state : Counting ℕ × List Str) (node : ResultNode ℕ) :
    Returns served.protocol me (countNodeCalls served response me window state node)
      (response.countNode served.surroundings window state node) := by
  unfold countNodeCalls countNode
  split
  · split
    · refine (uniqueMatchCalls_returns response state.2 node).bind fun matched _ => ?_
      obtain ⟨isNew, uniqueFound⟩ := matched
      cases isNew with
      | true => exact Returns.pure _
      | false => exact Returns.pure _
    · exact Returns.pure _
  · exact Returns.pure _

theorem countNodesCalls_returns (response : Response) (window : Window)
    (nodes : List (ResultNode ℕ)) (state : Counting ℕ × List Str) :
    Returns served.protocol me (countNodesCalls served response me window nodes state)
      (nodes.foldlM (response.countNode served.surroundings window) state) := by
  induction nodes generalizing state with
  | nil => exact Returns.pure state
  | cons node rest ih =>
      rw [List.foldlM_cons]
      exact (countNodeCalls_returns response window state node).bind fun next _ => ih next

theorem collectCalls_returns (response : Response) (window : Window)
    (nodes : List (ResultNode ℕ)) :
    Returns served.protocol me (collectCalls served response me window nodes)
      (response.collect served.surroundings window nodes) := by
  unfold collectCalls collect
  split
  · refine (countNodesCalls_returns response window nodes _).bind fun state _ => ?_
    exact Returns.pure _
  · exact (Returns.of_outcome _).bind fun contexts _ => Returns.pure _

theorem arrangeCalls_returns (response : Response) (contexts : List ℕ) :
    Returns served.protocol me (arrangeCalls served response me contexts)
      (response.arrange served.surroundings contexts) := by
  unfold arrangeCalls arrange
  cases response.sortType with
  | none => exact Returns.pure _
  | reverse => exact Returns.pure _
  | shuffle => exact Returns.pure _
  | specific =>
      exact comparing_returns (fun lhs rhs => compareContexts_returns lhs rhs response.sortFields)
        (served.sort contexts)

theorem queryCalls_returns (response : Response) (context : Option ℕ) (q : Str) :
    Returns served.protocol me (queryCalls served response me context q)
      (served.answer response context q) := by
  refine (fetchQuery_returns me (keyOf context q)).bind fun p_query _ => ?_
  refine (Returns.of_outcome _).bind fun window _ => ?_
  refine (collectCalls_returns response window _).bind fun collected _ => ?_
  refine (arrangeCalls_returns response collected.contexts).bind fun contexts _ => ?_
  exact Returns.pure _

theorem respondCalls_returns (response : Response) (q : Str) (contexts : List (Option ℕ)) :
    Returns served.protocol me (respondCalls served response me q contexts)
      (contexts.mapM fun context => served.answer response context q) := by
  induction contexts with
  | nil => exact Returns.pure []
  | cons context rest ih =>
      rw [List.mapM_cons]
      refine (queryCalls_returns response context q).bind fun _return _ => ?_
      exact ih.bind fun others _ => Returns.pure _

theorem dataCalls_returns (contexts : List ℕ) :
    Returns served.protocol me (dataCalls served me contexts)
      (.ok (contexts.map (documentMap served.site))) := by
  induction contexts with
  | nil => exact Returns.pure []
  | cons context rest ih =>
      exact Triple.bind (getDataMap_returns me context) (Triple.bind ih (Returns.pure _))

theorem serve_returns (request : Request) :
    Returns served.protocol me (serve served me request) (expected served request) := by
  cases request with
  | get parent q options ordered =>
      refine (respondCalls_returns _ q (calledFor parent)).bind fun contexts _ => ?_
      exact Returns.pure _
  | data contexts => exact Triple.bind (dataCalls_returns (listed contexts)) (Returns.pure _)

/-! ## Interleavings -/

/-- The code of a worker. -/
def code (served : Served Node) (client : Client) (request : Request) :
    Program (SiteMemory Client Node) (Outcome Reply) :=
  (serve served client request).run

theorem code_sound : Sound served.protocol (code served : Client → _) fun request answer =>
    answer = expected served request := by
  intro client request
  exact Protocol.Meets.weaken (serve_returns request) (fun _ _ hfree => hfree)
    fun _ _ _ h => h.symm

variable [DecidableEq Client]

/-- A Site that is loaded, with a `query_cache` of some size, before the first request. -/
abbrev loaded (size : ℕ) : Threads.State Client (SiteMemory Client Node) Request (Outcome Reply) :=
  .initial (.initial size)

theorem inv_run {size : ℕ} {labels : List (Threads.Label Client Request)}
    {final : Threads.State Client (SiteMemory Client Node) Request (Outcome Reply)}
    (hrun : Transition.run (Threads.step (code served)) (loaded size) labels = some final) :
    Threads.Inv served.protocol (fun request answer => answer = expected served request) final :=
  (Threads.inv_initial (Shared.inv_initial size) (Shared.not_owns_initial size)).run code_sound hrun

/-- However the actions of any number of workers interleave, and whatever the caches have
remembered and forgotten, a request ends as the document alone determines. -/
theorem ended_expected (served : Served Node) (size : ℕ)
    {labels : List (Threads.Label Client Request)}
    {final : Threads.State Client (SiteMemory Client Node) Request (Outcome Reply)}
    (hrun : Transition.run (Threads.step (code served)) (loaded size) labels = some final)
    {request : Request} {answer : Outcome Reply} (hended : (request, answer) ∈ final.ended) :
    answer = expected served request :=
  (inv_run hrun).ended request answer hended

/-- The two children with the name `tag`, and an algorithm that sorts nothing. -/
def twoTagsServed : Served ℕ := ⟨twoTags, 1, fun context => context, .done, id⟩

/-- Two workers ask for the data of the root at once: both find it not populated, and one of them
has to wait. -/
def twoReaders : List (Threads.Label Bool Request) :=
  [.start false (.data [⟨[0], 1⟩]), .start true (.data [⟨[0], 1⟩]), .act false, .act true,
    .act false, .act false, .act false, .act false, .act false, .act false, .act true, .act true,
    .act true, .act true, .act false, .act false, .act true]

theorem ended_expected_twoReaders :
    ∃ final, Transition.run (Threads.step (code twoTagsServed)) (loaded 1) twoReaders = some final ∧
      (Request.data [⟨[0], 1⟩], Except.ok (.data [documentMap twoTags 0])) ∈ final.ended := by
  obtain ⟨final, hrun, answer, hended⟩ :
      ∃ final, Transition.run (Threads.step (code twoTagsServed)) (loaded 1) twoReaders =
          some final ∧ ∃ answer, (Request.data [⟨[0], 1⟩], answer) ∈ final.ended :=
    ⟨_, rfl, _, List.mem_cons_self ..⟩
  obtain rfl := ended_expected twoTagsServed 1 hrun hended
  exact ⟨final, hrun, hended⟩

/-- Nobody holds the mutex of a Context. -/
def MutexesFree (memory : SiteMemory Client Node) : Prop :=
  ∀ context, (memory.contexts context).mutex = none

/-- From whatever state requests get to, every schedule leads to an end of all of them: nothing
deadlocks, and nothing goes on forever.  At the end all mutexes are free. -/
theorem requests_end [Finite Client] (served : Served Node) (size : ℕ)
    {labels : List (Threads.Label Client Request)}
    {final : Threads.State Client (SiteMemory Client Node) Request (Outcome Reply)}
    (hrun : Transition.run (Threads.step (code served)) (loaded size) labels = some final) :
    Threads.Ends MutexesFree final := by
  refine (inv_run hrun).ends.imp fun memory hfree context => ?_
  cases hmutex : (memory.contexts context).mutex with
  | none => rfl
  | some client => exact absurd ⟨context, hmutex⟩ (hfree client)

/-- One worker holds the mutex, the other waits for it. -/
theorem requests_end_twoReaders :
    ∃ state, Transition.run (Threads.step (code twoTagsServed)) (loaded 1) (twoReaders.take 5) =
        some state ∧ Threads.act state true = none ∧ Threads.Ends MutexesFree state := by
  obtain ⟨state, hrun, hwaits⟩ :
      ∃ state, Transition.run (Threads.step (code twoTagsServed)) (loaded 1) (twoReaders.take 5) =
          some state ∧ Threads.act state true = none :=
    ⟨_, rfl, rfl⟩
  exact ⟨state, hrun, hwaits, requests_end twoTagsServed 1 hrun⟩

end

end VaeDb.Response
