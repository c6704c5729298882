import VaeDb.Response.Order

/-!
# `Response::query`

From the nodes that a query found to the Contexts that a response lists: filter terms, unique
fields, the order, and the part of the list that `skip`, `paginate`, `page` and `groups` ask
for.  There are three ways through the code: a plain loop over a range of indices, a loop
that counts what it skips and includes, and a cut after sorting.

`int` arithmetic is checked.  The quotient in `ceil((float)a / b)` is a parameter of
`queryBy`; `query` takes the exact one.  `getData`, `std::sort` with `sortCallback`, and
`random_shuffle` are parameters as well.
-/

namespace VaeDb

/-! ## Settings and surroundings -/

open Response in
/-- The settings of a `Response` that `query` reads. -/
structure Response where
  filter : Bool
  filterTerms : List Str
  unique : Bool
  uniqueFields : List Str
  groups : ℤ
  page : ℤ
  paginate : ℤ
  skip : ℤ
  sortType : SortType
  sortFields : List SortField

namespace Response

/-- A node below a result, as far as `filterMatchRecursive` looks at it. -/
inductive XmlNode
  | element (children : List XmlNode)
  | text (content : Str)
  | other

/-- A node of the result: its children, and the Context in `_private`. -/
structure ResultNode (α : Type) where
  children : List XmlNode
  context : Option α

/-- What `query` calls on: `Context::getData`, and the two algorithms that reorder. -/
structure Surroundings (α : Type) where
  getData : α → Str → Outcome Str
  sort : List SortField → List α → Outcome (List α)
  shuffle : List α → List α

/-- `ResponseContext`. -/
structure ResponseContext (α : Type) where
  contexts : List α
  total : ℤ

variable {α : Type}

/-! ## Filter terms -/

/-- `strcasestr(haystack, needle) != NULL`. -/
def strcasestr (haystack needle : Str) : Bool :=
  caseless (cString needle) <:+: caseless (cString haystack)

/-- `filterMatchRecursive`, on the terms that remain; elements are entered on as many levels
as are left. -/
def filterMatchRecursive : ℕ → List XmlNode → List Str → List Str
  | levels, children, terms =>
      children.foldl (fun terms child =>
        match child with
        | .element grandchildren =>
            match levels with
            | 0 => terms
            | levels + 1 => filterMatchRecursive levels grandchildren terms
        | .text content => terms.filter fun term => !strcasestr content term
        | .other => terms) terms

/-- `filterMatch`: no term remains. -/
def filterMatch (response : Response) (node : ResultNode α) : Bool :=
  filterMatchRecursive 1 node.children response.filterTerms = []

/-! ## Unique fields -/

/-- The text that `uniqueMatch` puts together for a Context. -/
def uniqueKey (surroundings : Surroundings α) (context : α) : List Str → Outcome Str
  | [] => pure []
  | field :: fields => do
      let data ← surroundings.getData context field
      let rest ← uniqueKey surroundings context fields
      return data ++ ("~!~" : Str) ++ rest

/-- `uniqueMatch`, and `uniqueFound` after it. -/
def uniqueMatch (response : Response) (surroundings : Surroundings α)
    (uniqueFound : List Str) (node : ResultNode α) : Outcome (Bool × List Str) :=
  match node.context with
  | none => throw (.undefined .nullPointer)
  | some context => do
      let val ← uniqueKey surroundings context response.uniqueFields
      if val ∉ uniqueFound then return (true, val :: uniqueFound)
      else return (false, uniqueFound)

/-! ## Which part of the list -/

/-- An `int` result. -/
def int32 (n : ℤ) : Outcome ℤ :=
  if -2 ^ 31 ≤ n ∧ n < 2 ^ 31 then pure n else throw (.undefined .intOverflow)

/-- The quotient of two `int`s. -/
def exactly (a b : ℤ) : ℚ := a / b

/-- `(int)ceil((float)a / b)`, for what `(float)a / b` is taken to be. -/
def ceilDiv (quotient : ℤ → ℤ → ℚ) (a b : ℤ) : Outcome ℤ :=
  if b = 0 then throw (.undefined .divisionByZero) else int32 (quotient a b).ceil

/-- What is left of the local variables after the clamps. -/
structure Window where
  skip : ℤ
  paginate : ℤ
  start : ℤ
  stop : ℤ

/-- The loop over the groups, for so many more rounds from round `j`. -/
def groupLoop (quotient : ℤ → ℤ → ℚ) (size groups : ℤ) :
    ℕ → ℤ → ℤ → ℤ → Outcome (ℤ × ℤ)
  | 0, _, skip, paginate => pure (skip, paginate)
  | rounds + 1, j, skip, paginate => do
      let skip ← if j > 0 then int32 (skip + paginate) else pure skip
      let left ← int32 (size - skip)
      let groupsLeft ← int32 (groups - j)
      let paginate ← ceilDiv quotient left groupsLeft
      groupLoop quotient size groups rounds (j + 1) skip paginate

/-- `skip_` and `paginate_` for a page or a group, before the clamps. -/
def turnPage (quotient : ℤ → ℤ → ℚ) (response : Response) (size : ℤ) : Outcome (ℤ × ℤ) :=
  if response.groups ≠ 0 then
    let page := if response.page ≤ 0 then 1 else response.page
    groupLoop quotient size response.groups page.toNat 0 response.skip response.paginate
  else do
    let page ←
      if response.page = -1 then do
        let left ← int32 (size - response.skip)
        ceilDiv quotient left response.paginate
      else pure response.page
    let page := if page ≤ 0 then 1 else page
    let pages ← int32 ((page - 1) * response.paginate)
    let skip ← int32 (response.skip + pages)
    return (skip, response.paginate)

/-- `skip_`, `paginate_`, `start` and `end` for a result of some size. -/
def offsets (quotient : ℤ → ℤ → ℚ) (response : Response) (size : ℤ) : Outcome Window := do
  let (skip, paginate) ← response.turnPage quotient size
  let paginate := if paginate < 1 then 1 else paginate
  let skip := if skip < 0 then 0 else skip
  if response.sortType = .none then
    let sum ← int32 (paginate + skip)
    let stop := if sum < size then sum else size
    return { skip, paginate, start := skip, stop := if stop > size then size else stop }
  else return { skip, paginate, start := 0, stop := size }

/-! ## The loops -/

/-- `getNode(i)`. -/
def getNode (nodes : List (ResultNode α)) (i : ℤ) : Outcome (ResultNode α) :=
  match nodes[i.toNat]? with
  | some node => if i < 0 then throw (.undefined .outOfBounds) else pure node
  | none => throw (.undefined .outOfBounds)

/-- The loop without filter and unique fields, for so many more nodes from `i`. -/
def plainLoop (nodes : List (ResultNode α)) : ℕ → ℤ → Outcome (List α)
  | 0, _ => pure []
  | rounds + 1, i => do
      let node ← getNode nodes i
      let rest ← plainLoop nodes rounds (i + 1)
      return node.context.toList ++ rest

/-- The local variables of the counting loop. -/
structure Counting (α : Type) where
  skipped : ℤ
  included : ℤ
  total : ℤ
  contexts : List α

/-- What the counting loop does with a node that matches. -/
def countMatch (window : Window) (counting : Counting α) (context : Option α) : Counting α :=
  let counting := { counting with total := counting.total + 1 }
  if counting.skipped < window.start then { counting with skipped := counting.skipped + 1 }
  else if counting.included + counting.skipped < window.stop then
    match context with
    | some context =>
        { counting with
          contexts := counting.contexts ++ [context]
          included := counting.included + 1 }
    | none => counting
  else counting

/-- The body of the counting loop. -/
def countNode (response : Response) (surroundings : Surroundings α) (window : Window)
    (state : Counting α × List Str) (node : ResultNode α) : Outcome (Counting α × List Str) :=
  if !response.filter || response.filterMatch node then
    if response.unique then do
      let (isNew, uniqueFound) ← response.uniqueMatch surroundings state.2 node
      if isNew then return (countMatch window state.1 node.context, uniqueFound)
      else return (state.1, uniqueFound)
    else return (countMatch window state.1 node.context, state.2)
  else return state

/-! ## `query` -/

/-- The Contexts that the loops collect, and the total. -/
def collect (response : Response) (surroundings : Surroundings α) (window : Window)
    (nodes : List (ResultNode α)) : Outcome (ResponseContext α) :=
  if response.filter || response.unique then do
    let state ← nodes.foldlM (response.countNode surroundings window) (⟨0, 0, 0, []⟩, [])
    return { contexts := state.1.contexts, total := state.1.total }
  else do
    let contexts ← plainLoop nodes (window.stop - window.start).toNat window.start
    return { contexts, total := nodes.length }

/-- Reverse, shuffle or sort. -/
def arrange (response : Response) (surroundings : Surroundings α)
    (contexts : List α) : Outcome (List α) :=
  match response.sortType with
  | .none => pure contexts
  | .reverse => pure contexts.reverse
  | .shuffle => pure (surroundings.shuffle contexts)
  | .specific => surroundings.sort response.sortFields contexts

/-- The cut after sorting. -/
def cut (response : Response) (window : Window) (contexts : List α) : List α :=
  if response.sortType ≠ .none then
    let endOfErase :=
      if (contexts.length : ℤ) > window.skip then window.skip.toNat else contexts.length
    let contexts := contexts.drop endOfErase
    if (contexts.length : ℤ) > window.paginate then contexts.take window.paginate.toNat
    else contexts
  else contexts

/-- `Response::query` on the nodes that the query found. -/
def queryBy (quotient : ℤ → ℤ → ℚ) (response : Response) (surroundings : Surroundings α)
    (nodes : List (ResultNode α)) : Outcome (ResponseContext α) := do
  let window ← response.offsets quotient nodes.length
  let collected ← response.collect surroundings window nodes
  let contexts ← response.arrange surroundings collected.contexts
  return { contexts := response.cut window contexts, total := collected.total }

/-- `Response::query` with exact quotients. -/
def query (response : Response) (surroundings : Surroundings α)
    (nodes : List (ResultNode α)) : Outcome (ResponseContext α) :=
  response.queryBy exactly surroundings nodes

end Response

end VaeDb
