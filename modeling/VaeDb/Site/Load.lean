import VaeDb.Site.Feed

/-!
# Loading a feed

`Site::loadXmlDoc` with the constructor of `Context`, `Context::initializeAssociation`, and
`Site::structureFromStructureId`.

libxml2's evaluation of XPath is not modelled: the queries for the nodes under `/website`
are those of `Tree.website`, and `Surroundings.designNode` stands for the queries under
`/website/design`.  The nodes of the feed that these queries read are outside the content,
which is all that loading changes.  A `Context` has the address of its node.
-/

namespace VaeDb

open Xml

/-! ## Attributes -/

/-- What loading takes from its surroundings. -/
structure Surroundings where
  stagingMode : Bool
  /-- `getNode(0)` of the query `/website/design//*[@id=..]`: the attributes of the node, if
  it is not `NULL`. -/
  designNode : ℤ → Outcome (Option (List Attribute))

structure Structure where
  id : ℤ
  name : Str
  type : Str
  permalink : Str
  deriving DecidableEq

structure Context where
  id : ℤ
  permalink : Option Str
  structure? : Option Structure
  type : Str
  pointerNodes : List Address
  deriving DecidableEq

/-- `child->children->content` of an attribute. -/
def Xml.Attribute.read (child : Attribute) : Outcome Str :=
  match child.content with
  | some content => pure content
  | none => throw (.undefined .nullPointer)

/-- `if (!strcmp(child->name, name)) ..` with an assignment of the content. -/
def Xml.Attribute.assign {α : Type} (child : Attribute) (name : Str) (set : Str → α)
    (found : α) : Outcome α :=
  if child.name = name then do
    let content ← child.read
    pure (set content)
  else pure found

/-- The loop of `structureFromStructureId`. -/
def readStructure : List Attribute → Structure → Outcome Structure
  | [], found => return found
  | child :: rest, found => do
      let found ← child.assign "name" (fun content => { found with name := content }) found
      let found ←
        child.assign "permalink" (fun content => { found with permalink := content }) found
      let found ← child.assign "type" (fun content => { found with type := content }) found
      readStructure rest found

/-- `Site::structureFromStructureId`.  The `structures` only save the query. -/
def structureFromStructureId (surroundings : Surroundings) (structureId : ℤ) :
    Outcome (Option Structure) := do
  match ← surroundings.designNode structureId with
  | none => return none
  | some properties =>
      let found ← readStructure properties ⟨structureId, [], [], []⟩
      return some found

/-- What the loop of `populateAttrs` has found. -/
structure Attrs where
  id : ℤ
  structureId : ℤ
  permalink : Option Str

/-- The loop of `populateAttrs`; nothing if it returns `true`. -/
def readAttrs (stagingMode : Bool) : List Attribute → Attrs → Outcome (Option Attrs)
  | [], attrs => return some attrs
  | child :: rest, attrs => do
      let attrs ← child.assign "id" (fun content => { attrs with id := atoi content }) attrs
      let attrs ←
        child.assign "type" (fun content => { attrs with structureId := atoi content }) attrs
      let attrs ←
        child.assign "permalink" (fun content => { attrs with permalink := some content }) attrs
      if !stagingMode && child.name = ("staging" : Str) then return none
      else readAttrs stagingMode rest attrs

/-- `populateAttrs` of a new Context on an attribute list; nothing if it returns `true`. -/
def populateAttrs (surroundings : Surroundings) (properties : List Attribute) :
    Outcome (Option Context) := do
  match ← readAttrs surroundings.stagingMode properties ⟨0, 0, none⟩ with
  | none => return none
  | some attrs =>
      let structure? ←
        if attrs.structureId > 0 then structureFromStructureId surroundings attrs.structureId
        else pure none
      return some {
        id := attrs.id
        permalink := attrs.permalink
        structure?
        type := (structure?.map Structure.type).getD []
        pointerNodes := [] }

/-- Whether a Context's association is to be initialized. -/
def Context.isAssociation (ctxt : Context) : Bool :=
  ctxt.type = ("AssociationItem" : Str) || ctxt.type = ("SingleAssociationItem" : Str)

/-! ## Sites -/

/-- The part of a `Site` that loading works on. -/
structure Site where
  generation : ℤ
  associationsToInitialize : List Address
  heap : Heap Address
  contexts : Address → Option Context
  nodes : ℤ → Option Address
  nodesToClean : List Address
  nodesToClean2 : List Address
  permalinks : Str → Option Address
  rootNode : Address

namespace Site

/-- A `Site` when the content of its feed has been found. -/
def parsed (feed : Tree) (rootNode : Path) : Site where
  generation := -1
  associationsToInitialize := []
  heap := feed.parse
  contexts := fun _ => none
  nodes := fun _ => none
  nodesToClean := []
  nodesToClean2 := []
  permalinks := fun _ => none
  rootNode := .feed rootNode

/-- The attribute list of a node. -/
def properties (site : Site) (node : Address) : Outcome (List Attribute) := do
  site.heap.deref node
  match site.heap.properties node with
  | none => return []
  | some list =>
      match site.heap.attributes list with
      | none => throw (.undefined .useAfterFree)
      | some attributes => return attributes

/-- The loop `for (child = ..; child; child = next)` with `next` read before the body. -/
def forChildren (body : Site → Address → Outcome Site) :
    ℕ → Site → Option Address → Outcome Site
  | _, site, none => pure site
  | 0, _, some _ => throw .unfinished
  | rounds + 1, site, some child => do
      site.heap.deref child
      let next := site.heap.next child
      let site ← body site child
      forChildren body rounds site next

/-- What happens to a child once its Context is there: a Context with `killMe` takes the
child with it. -/
def keepOrKill (rounds : ℕ) (child : Address) : Option Site → Site → Outcome Site
  | none, site => do
      let heap ← site.heap.xmlUnlinkNode child
      let heap ← heap.xmlFreeNode rounds child
      return { site with heap }
  | some constructed, _ =>
      return { constructed with
        heap := { constructed.heap with
          _private := Function.update constructed.heap._private child (some child) } }

/-- The entries of `permalinks` and `nodes` that a Context makes for its node. -/
def register (site : Site) (node : Address) (ctxt : Context) : Site :=
  { site with
    permalinks :=
      match ctxt.permalink with
      | some permalink => Function.update site.permalinks permalink (some node)
      | none => site.permalinks
    nodes := Function.update site.nodes ctxt.id (some node) }

/-- `new Context(site, node)`; nothing if it comes with `killMe`. -/
def newContext (surroundings : Surroundings) : ℕ → Site → Address → Outcome (Option Site)
  | 0, _, _ => throw .unfinished
  | rounds + 1, site, node => do
      let properties ← site.properties node
      match ← populateAttrs surroundings properties with
      | none => return none
      | some ctxt =>
          let site := { site with contexts := Function.update site.contexts node (some ctxt) }
          let site ←
            if ctxt.isAssociation then
              pure { site with
                associationsToInitialize := site.associationsToInitialize ++ [node] }
            else
              forChildren (fun site child => do
                if site.heap.type child = .element then
                  if site.heap._private child = none then do
                    let constructed ← newContext surroundings rounds site child
                    keepOrKill rounds child constructed site
                  else pure site
                else pure site) rounds site (site.heap.children node)
          return some (site.register node ctxt)

/-! ## Associations -/

/-- `Context::getSingleData` of the Context of a node. -/
def getSingleData (heap : Heap Address) (node : Address) : Outcome Str := do
  heap.deref node
  match heap.children node with
  | none => return []
  | some child => do
      heap.deref child
      match heap.type child with
      | .text content => return content
      | _ => return []

/-- The forward association of `initializeAssociation`. -/
def associateForward (rounds : ℕ) (heap : Heap Address) (node associatedNode : Address) :
    Outcome (Heap Address) := do
  heap.deref node
  let heap ← heap.xmlFreePropList (heap.properties node)
  match heap.children node with
  | none => throw (.undefined .nullPointer)
  | some child => do
      heap.deref child
      let heap ← heap.xmlFreeNodeList rounds (heap.next child)
      heap.deref child
      heap.deref associatedNode
      heap.deref node
      let heap := { heap with
        next := Function.update heap.next child (heap.children associatedNode) }
      return { heap with
        properties := Function.update heap.properties node (heap.properties associatedNode)
        last := Function.update heap.last node (heap.last associatedNode)
        _private := Function.update heap._private node (heap._private associatedNode) }

/-- The reverse association: a copy of the item's parent among the children of the
associated node. -/
def associateReverse (heap : Heap Address) (node associatedNode : Address) :
    Outcome (Heap Address) := do
  heap.deref node
  match heap.parent node with
  | none => throw (.vaeDbInternalError "xmlCopyNode returned NULL")
  | some parent => do
      let pointerNode := Address.pointer node
      let heap ← heap.xmlCopyNode parent pointerNode
      let heap := { heap with
        _private := Function.update heap._private pointerNode (heap._private parent)
        children := Function.update heap.children pointerNode (heap.children parent)
        last := Function.update heap.last pointerNode (heap.last parent)
        properties := Function.update heap.properties pointerNode (heap.properties parent) }
      heap.xmlAddChild associatedNode pointerNode

/-- The Context that a node points to. -/
def contextOf (site : Site) (node : Address) : Outcome (Address × Context) :=
  match site.heap._private node with
  | none => throw (.undefined .nullPointer)
  | some address =>
      match site.contexts address with
      | none => throw (.undefined .useAfterFree)
      | some ctxt => pure (address, ctxt)

/-- The loop over `pointerNodes`. -/
def updatePointerNodes (associatedNode : Address) :
    List Address → Heap Address → Outcome (Heap Address)
  | [], heap => pure heap
  | pointerNode :: rest, heap => do
      heap.deref pointerNode
      updatePointerNodes associatedNode rest { heap with
        last := Function.update heap.last pointerNode (heap.last associatedNode) }

/-- `initializeAssociation` once the associated node has been found. -/
def associate (rounds : ℕ) (site : Site) (node associatedNode : Address) : Outcome Site := do
  let heap ← associateForward rounds site.heap node associatedNode
  let heap ← associateReverse heap node associatedNode
  let site := { site with
    heap
    nodesToClean := site.nodesToClean ++ [Address.pointer node]
    nodesToClean2 := site.nodesToClean2 ++ [node] }
  match heap.parent node with
  | none => throw (.undefined .nullPointer)
  | some parent => do
      let (parentAddress, parentContext) ← site.contextOf parent
      let site := { site with
        contexts := Function.update site.contexts parentAddress (some { parentContext with
          pointerNodes := parentContext.pointerNodes ++ [Address.pointer node] }) }
      let (_, associatedContext) ← site.contextOf associatedNode
      let heap ← updatePointerNodes associatedNode associatedContext.pointerNodes site.heap
      return { site with heap, contexts := Function.update site.contexts node none }

/-- The node that `initializeAssociation` finds for an `id`, with `Query::find`. -/
def associatedNode (site : Site) (id : ℤ) : Option Address :=
  if id > 0 then site.nodes id else none

/-- `Context::initializeAssociation` of the Context of a node. -/
def initializeAssociation (rounds : ℕ) (site : Site) (node : Address) : Outcome Site := do
  let data ← getSingleData site.heap node
  match site.associatedNode (atoi data) with
  | some associatedNode => associate rounds site node associatedNode
  | none => do
      let heap ← site.heap.xmlUnlinkNode node
      let heap ← heap.xmlFreeNode rounds node
      return { site with heap, contexts := Function.update site.contexts node none }

/-! ## `loadXmlDoc` -/

/-- The loop of `loadXmlDoc` over the children of the root node. -/
def constructContexts (surroundings : Surroundings) (rounds : ℕ) (site : Site) :
    Outcome Site :=
  forChildren (fun site child => do
    if site.heap.type child = .element then do
      let constructed ← newContext surroundings rounds site child
      keepOrKill rounds child constructed site
    else pure site) rounds site (site.heap.children site.rootNode)

/-- The initialization of all associations. -/
def initializeAssociations (rounds : ℕ) (site : Site) : Outcome Site := do
  let site ← site.associationsToInitialize.foldlM (initializeAssociation rounds) site
  return { site with associationsToInitialize := [] }

/-- `Site::loadXmlDoc` of what libxml2 parses, within a number of rounds for each loop and
recursion. -/
def loadXmlDoc (surroundings : Surroundings) (rounds : ℕ) (doc : Option Tree) :
    Outcome Site :=
  match doc with
  | none => throw (.vaeDbInternalError "Could not open/parse XML file")
  | some feed =>
      match feed.website "content" with
      | [rootNode] =>
          match feed.website "design" with
          | [_] => do
              let site ← constructContexts surroundings rounds (parsed feed rootNode)
              let site ← initializeAssociations rounds site
              match feed.website "generation" with
              | [generationNode] =>
                  return { site with
                    generation := toInt32 (strtol (feed.singleData generationNode)) }
              | _ => throw (.vaeDbInternalError "Could not find feed generation node in XML file")
          | _ => throw (.vaeDbInternalError "Could not find root design node in XML file")
      | _ => throw (.vaeDbInternalError "Could not find root content node in XML file")

end Site

end VaeDb
