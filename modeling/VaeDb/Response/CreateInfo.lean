import VaeDb.Query.Designs
import VaeDb.Response.Query

/-!
# `Response::createInfo`

The last component of a path is looked up in the design section, below the design node of the
Context that the other components lead to.

```text
/artists          below the root design node
42/albums         below the design node of the Context of node 42
albums            below the design node of the Context that createInfo is called for
```

`getStructureId` reads the structure of a Context, which is null for a Context without type.
A run stops there with `nullStructure`; all other reasons to stop are faults.
-/

namespace VaeDb.Response.Creating

open Xml Query

/-! ## Calls -/

/-- Why a request does not return. -/
inductive Stop
  /-- `getStructureId` is called on a Context whose structure is null -/
  | nullStructure
  | fault (fault : Fault)
  deriving DecidableEq

/-- A run of the code up to where it stops. -/
abbrev Run := Except Stop

/-- What is run without `getStructureId`. -/
def run {α : Type} (x : Outcome α) : Run α := x.mapError Stop.fault

/-- `Context::getStructureId`. -/
def getStructureId (ctxt : Context) : Run ℤ :=
  match ctxt.structure? with
  | some found => pure found.id
  | none => throw .nullStructure

/-! ## The code -/

structure CreateInfo where
  /-- nothing if it is never assigned -/
  structure_id : Option ℤ
  row_id : ℤ
  deriving DecidableEq

section

variable (view : View)

/-- `Query::runDesignQuery`. -/
def runDesignQuery (context : Option Address) (query : Str) : Run (List Found) :=
  match context with
  | some context => do
      let ctxt ← run (view.contextAt context)
      let id ← getStructureId ctxt
      let q := designQuery id
      let nodes ← run (runRawQuery view.evaluate view.site.rootNode none q q)
      let node ← run (Query.getNode nodes 0)
      run (runRawQuery view.evaluate view.site.rootNode (some node) query query)
  | none =>
      run (runRawQuery view.evaluate view.site.rootNode (some (.node view.rootDesignNode))
        query query)

/-- `queryParts.back()`. -/
def lastPart (query : Str) : Str := (split "/" query).getLast (split_ne_nil _ _)

/-- The other `queryParts`. -/
def mainParts (query : Str) : List Str := (split "/" query).dropLast

/-- The Context that `mainQuery` leads to from the one that `createInfo` is called for. -/
def mainContext (rounds : ℕ) (context : Option Address) (query : Str) :
    Outcome (Option Address) :=
  let mainQuery := Query.join characters '/' (mainParts query)
  if mainQuery = [] ∧ lastPart query ≠ [] ∧ (mainParts query).length > 0 then pure none
  else if mainQuery ≠ [] then do
    let p_query ← view.fetchQuery rounds context mainQuery
    if p_query.length > 0 then do
      let node ← Query.getNode p_query 0
      node.context view.site
    else pure context
  else pure context

/-- The loop over the attributes of the design node. -/
def readStructureId : List Xml.Attribute → Option ℤ → Outcome (Option ℤ)
  | [], found => pure found
  | child :: rest, found => do
      let found ← child.assign "id" (fun content => some (atoi content)) found
      readStructureId rest found

/-- `row_id`. -/
def rowId (context : Option Address) : Outcome ℤ :=
  match context with
  | some context => do
      let ctxt ← view.contextAt context
      return ctxt.id
  | none => pure 0

/-- `Response::createInfo`, the entry that it makes. -/
def createInfo (rounds : ℕ) (context : Option Address) (query : Str) : Run CreateInfo := do
  let context ← run (mainContext view rounds context query)
  let row_id ← run (rowId view context)
  if atoi (lastPart query) ≠ 0 then
    run (throw (.vaeDbQueryError
      (("invalid path for creating: '" : Str) ++ query ++ ("'" : Str))))
  else do
    let structureQuery ← runDesignQuery view context (lastPart query)
    if structureQuery.length > 0 then do
      let node ← run (Query.getNode structureQuery 0)
      let properties ← run (node.properties view.site)
      let structure_id ← run (readStructureId properties none)
      return { structure_id, row_id }
    else
      run (throw (.vaeDbQueryError
        (("could not find path for creating: '" : Str) ++ query ++ ("'" : Str))))

/-- The Contexts that `createInfo` is called for: those of the parent, or `NULL`. -/
def callsOf (parent : Option (List (ResponseContext Address))) : List (Option Address) :=
  match parent with
  | some contexts => (contexts.flatMap ResponseContext.contexts).map some
  | none => [none]

/-- The constructor of a `Response` from a query. -/
def createInfos (rounds : ℕ) (parent : Option (List (ResponseContext Address)))
    (query : Str) : Run (List CreateInfo) :=
  (callsOf parent).foldlM (fun infos context => do
    let ci ← createInfo view rounds context query
    return infos ++ [ci]) []

end

/-- A Site is loaded, and a request is answered; the loops of the load get so many `rounds`,
those of the queries so many `steps`. -/
def serve (stagingMode : Bool) (evaluate : XPath) (feed : Tree) (rootNode rootDesignNode : Path)
    (rounds steps : ℕ) (parent : Option (List (ResponseContext Address))) (query : Str) :
    Run (List CreateInfo) := do
  let site ← run (Site.loadXmlDoc (surroundings stagingMode evaluate feed rootNode) rounds
    (some feed))
  createInfos { evaluate, feed, site, rootDesignNode := .feed rootDesignNode } steps parent query

end VaeDb.Response.Creating
