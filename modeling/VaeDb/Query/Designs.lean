import VaeDb.Query.Constructor
import VaeDb.Site.Load

/-!
# Queries on a document

`Query::runRawQuery`, what it finds, and its two callers: `runQuery` on the content, and
`Site::structureFromStructureId` on the design section while the Site is loaded.

libxml2's evaluation of XPath is a parameter, a function of the context node and the
expression.  A load changes the content only, so the queries under `/website/design` find the
same before and after it.  `xpathObj` is the list of the nodes that it has, and `getSize` their
number.
-/

namespace VaeDb.Query

open Xml

/-- A node that a query finds: one of the feed or of its pointer nodes, or an attribute or the
document, which have neither a Context nor attributes. -/
inductive Found
  | node (address : Address)
  | other
  deriving DecidableEq

/-- What `runRawQuery` gets from libxml2. -/
inductive Evaluation
  /-- `xmlXPathNewContext` returns `NULL` -/
  | noContext
  /-- `xmlXPathEvalExpression` returns `NULL` -/
  | failed
  | nodeSet (nodes : List Found)
  /-- an object of another type -/
  | other

/-- The evaluation of an expression at a node, or at `NULL`. -/
abbrev XPath := Option Found → Str → Evaluation

/-- `Query::getNode`. -/
def getNode (nodes : List Found) (i : ℕ) : Outcome Found :=
  match nodes[i]? with
  | some node => pure node
  | none => throw (.undefined .outOfBounds)

/-- `Query::runRawQuery` on a Site with a root node. -/
def runRawQuery (evaluate : XPath) (rootNode : Address) (node : Option Found)
    (q displayQuery : Str) : Outcome (List Found) :=
  match evaluate node (Response.cString q) with
  | .noContext => throw (.vaeDbInternalError "could not create libxml2 XPath Context")
  | .failed =>
      throw (.vaeDbQueryError
        (("could not evaluate XPath expression: '" : Str) ++ displayQuery ++ ("'" : Str)))
  | .other => throw (.vaeDbInternalError "libxml2 returned something other than a nodeset?!")
  | .nodeSet nodes =>
      if nodes.length ≠ 0 then do
        let first ← getNode nodes 0
        if first = .node rootNode then return [] else return nodes
      else return nodes

/-- `"/website/design//*[@id=" << id << "]"`. -/
def designQuery (id : ℤ) : Str :=
  ("/website/design//*[@id=" : Str) ++ (toString id : String) ++ ("]" : Str)

/-- `node->properties` of a node that has been found. -/
def Found.properties (site : Site) : Found → Outcome (List Xml.Attribute)
  | .node address => site.properties address
  | .other => pure []

/-- `node->_private` of a node that has been found. -/
def Found.context (site : Site) : Found → Outcome (Option Address)
  | .node address => do
      site.heap.deref address
      return site.heap._private address
  | .other => pure none

/-- What a load takes from its surroundings.  `getNode(0)` is read without a look at the size;
where there is a node, it is not `NULL`. -/
def surroundings (stagingMode : Bool) (evaluate : XPath) (feed : Tree) (rootNode : Path) :
    Surroundings where
  stagingMode
  designNode id := do
    let q := designQuery id
    let nodes ← runRawQuery evaluate (.feed rootNode) none q q
    let node ← getNode nodes 0
    let properties ← node.properties (Site.parsed feed rootNode)
    return some properties

/-- No element of the design section has an id. -/
def Undesigned (evaluate : XPath) (rootNode : Path) (id : ℤ) : Prop :=
  runRawQuery evaluate (.feed rootNode) none (designQuery id) (designQuery id) = .ok []

/-- The type id of the element with a path, if it is published and has a positive one. -/
def typeId? (stagingMode : Bool) (feed : Tree) (path : Path) : Option ℤ :=
  match readAttrs stagingMode (feed.attributesAt path) ⟨0, 0, none⟩ with
  | .ok (some attrs) => if attrs.structureId > 0 then some attrs.structureId else none
  | _ => none

/-! ## Queries on a Site that has been loaded -/

/-- A Site with its document. -/
structure View where
  evaluate : XPath
  feed : Tree
  site : Site
  rootDesignNode : Address

namespace View

variable (view : View)

/-- The Context at an address. -/
def contextAt (context : Address) : Outcome Context :=
  match view.site.contexts context with
  | some ctxt => pure ctxt
  | none => throw (.undefined .useAfterFree)

/-- What the constructor of `Query` reads of the Site.  A Context has the name of its node. -/
def document : Document Address Address where
  permalinks := view.site.permalinks
  nodes := view.site.nodes
  _private := view.site.heap._private
  getNodeName
    | .feed path =>
        match view.feed.lookup path with
        | some (.element name _ _) => some name
        | _ => none
    | .pointer _ => none

/-- `Query::runQuery`. -/
def runQuery (context : Option Address) (q displayQuery : Str) : Outcome (List Found) :=
  match context with
  | some context => do
      -- `context->node`, which has the address of the Context
      let _ ← view.contextAt context
      runRawQuery view.evaluate view.site.rootNode (some (.node context)) q displayQuery
  | none =>
      runRawQuery view.evaluate view.site.rootNode (some (.node view.site.rootNode)) q
        displayQuery

/-- `Site::fetch_query`.  The cache only saves the constructor. -/
def fetchQuery (rounds : ℕ) (context : Option Address) (q : Str) : Outcome (List Found) := do
  match ← construct view.document rounds context q with
  | .result node => return (node.map Found.node).toList
  | .runQuery context query displayQuery => view.runQuery context query displayQuery

end View

end VaeDb.Query
