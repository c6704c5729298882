import VaeDb.Site.Removal

/-!
# What an association assigns

`initializeAssociation` on an item whose associated node has been found frees the rest of the
item's own child list and then links the two child lists.  `associate_run` names what it goes
through, and `Source.Adopted` says what the linking assigns, field by field.
-/

namespace VaeDb.Source

open Xml Links

/-- The links after an item has got its association, from those after its old children have
been freed.  The node that comes after the item's first child is the first child of the
associated node, and the new pointer node comes after the last one. -/
structure Adopted (heap heap' : Heap Address) (k : ℕ) (path target : Path) : Prop where
  live : ∀ a, heap'.live a = true ↔ heap.live a = true ∨ a = .pointer (kid path k)
  type : ∀ a, heap'.type a =
    if a = .pointer (kid path k) then heap.type (.feed path) else heap.type a
  parent : ∀ a, heap'.parent a =
    if a = .pointer (kid path k) then some (.feed target) else heap.parent a
  children : ∀ a, heap'.children a =
    if a = .pointer (kid path k) then heap.children (.feed path)
    else if a = .feed target then some ((heap.children a).getD (.pointer (kid path k)))
    else heap.children a
  last : ∀ inner, heap'.last (.feed inner) =
    if inner = target then some (.pointer (kid path k))
    else if inner = k :: path then heap.last (.feed target)
    else heap.last (.feed inner)
  next : ∀ a, heap'.next a =
    if heap.lastChild (.feed target) = some a then some (.pointer (kid path k))
    else if a = .pointer (kid path k) then none
    else if a = kid (k :: path) 0 then heap.children (.feed target)
    else heap.next a
  prev : ∀ inner, heap'.prev (.feed inner) = heap.prev (.feed inner)
  properties : ∀ a, heap'.properties a =
    if a = .pointer (kid path k) then heap.properties (.feed path)
    else if a = kid path k then heap.properties (.feed target)
    else heap.properties a
  attributes : heap'.attributes = heap.attributes
  _private : ∀ inner, inner ≠ k :: path →
    heap'._private (.feed inner) = heap._private (.feed inner)
  lastChild_live : ∀ a, heap.lastChild (.feed target) = some a → heap'.live a = true
  lastChild_none : heap.lastChild (.feed target) = none → heap.children (.feed target) = none

variable {source : Source} {heap heap' : Heap Address} {site site' : Site}
  {path target : Path} {k rounds : ℕ}

/-- The loop over `pointerNodes` gives them the last child of the associated node. -/
theorem updatePointerNodes_eq {associatedNode : Address} {pointerNodes : List Address}
    (hout : associatedNode ∉ pointerNodes)
    (h : Site.updatePointerNodes associatedNode pointerNodes heap = .ok heap') :
    heap' = { heap with
      last := fun a => if a ∈ pointerNodes then heap.last associatedNode else heap.last a } := by
  induction pointerNodes generalizing heap with
  | nil =>
      obtain rfl := Outcome.pure_eq_ok.1 h
      simp
  | cons pointerNode rest ih =>
      obtain ⟨_, _, h⟩ := Outcome.bind_eq_ok.1 h
      obtain ⟨hne, hrest⟩ := not_or.1 fun hor => hout (List.mem_cons.2 hor)
      have heq := ih hrest h
      simp only [Function.update_of_ne hne] at heq
      rw [heq]
      congr 1
      funext a
      by_cases ha : a = pointerNode
      · simp [ha]
      · simp [ha]

/-- What the forward association assigns. -/
def linked (heap : Heap Address) (node child associatedNode : Address) : Heap Address :=
  { heap with
    next := Function.update heap.next child (heap.children associatedNode)
    properties := Function.update heap.properties node (heap.properties associatedNode)
    last := Function.update heap.last node (heap.last associatedNode)
    _private := Function.update heap._private node (heap._private associatedNode) }

/-- What the forward association frees before. -/
theorem associateForward_eq {node associatedNode : Address}
    (h : Site.associateForward rounds heap node associatedNode = .ok heap') :
    ∃ child heap1 heap2, heap.xmlFreePropList (heap.properties node) = .ok heap1 ∧
      heap1.children node = some child ∧
      heap1.xmlFreeNodeList rounds (heap1.next child) = .ok heap2 ∧
      heap2.live associatedNode = true ∧
      heap' = linked heap2 node child associatedNode := by
  obtain ⟨_, _, h⟩ := Outcome.bind_eq_ok.1 h
  obtain ⟨heap1, hprops, h⟩ := Outcome.bind_eq_ok.1 h
  cases hchildren : heap1.children node with
  | none => simp [hchildren] at h
  | some child =>
      simp only [hchildren] at h
      obtain ⟨_, _, h⟩ := Outcome.bind_eq_ok.1 h
      obtain ⟨heap2, hfree, h⟩ := Outcome.bind_eq_ok.1 h
      obtain ⟨_, _, h⟩ := Outcome.bind_eq_ok.1 h
      obtain ⟨_, hlive, h⟩ := Outcome.bind_eq_ok.1 h
      obtain ⟨_, _, h⟩ := Outcome.bind_eq_ok.1 h
      exact ⟨child, heap1, heap2, hprops, hchildren, hfree, Heap.deref_eq_ok.1 hlive,
        (Outcome.pure_eq_ok.1 h).symm⟩

/-- A copy of a node that shares its children and its properties. -/
def sharedCopy (heap : Heap Address) (node copy : Address) : Heap Address :=
  { heap with
    live := Function.update heap.live copy true
    type := Function.update heap.type copy (heap.type node)
    parent := Function.update heap.parent copy none
    children := Function.update heap.children copy (heap.children node)
    last := Function.update heap.last copy (heap.last node)
    next := Function.update heap.next copy none
    prev := Function.update heap.prev copy none
    properties := Function.update heap.properties copy (heap.properties node)
    _private := Function.update heap._private copy (heap._private node) }

/-- The reverse association gives the associated node such a copy of the item's parent. -/
theorem associateReverse_eq {node associatedNode parent : Address}
    (hparent : heap.parent node = some parent) (hne : parent ≠ .pointer node)
    (h : Site.associateReverse heap node associatedNode = .ok heap') :
    heap.live parent = true ∧
      (sharedCopy heap parent (.pointer node)).xmlAddChild associatedNode (.pointer node) =
        .ok heap' := by
  obtain ⟨_, _, h⟩ := Outcome.bind_eq_ok.1 h
  simp only [hparent] at h
  obtain ⟨copied, hcopy, h⟩ := Outcome.bind_eq_ok.1 h
  obtain ⟨hlive, rfl⟩ := Heap.xmlCopyNode_eq hcopy
  refine ⟨hlive, Eq.trans ?_ h⟩
  unfold sharedCopy
  simp only [Function.update_idem, Function.update_of_ne hne]

/-- The links of the copy before it is added, after the assignments of the forward
association. -/
theorem adopted_of_addChild (hrun : (sharedCopy
      (linked heap (kid path k) (kid (k :: path) 0) (.feed target)) (.feed path)
      (.pointer (kid path k))).xmlAddChild (.feed target) (.pointer (kid path k)) = .ok heap') :
    Adopted heap heap' k path target := by
  have hpath : Address.feed path ≠ kid path k := by
    intro heq
    injection heq with heq
    exact absurd (congrArg List.length heq) (by simp)
  have hkid : ∀ inner j, kid inner j ≠ .pointer (kid path k) := fun _ _ heq => by cases heq
  obtain ⟨htarget, hlive, hnone, heq⟩ := Heap.xmlAddChild_eq hrun
  have hlast : (sharedCopy (linked heap (kid path k) (kid (k :: path) 0) (.feed target))
      (.feed path) (.pointer (kid path k))).lastChild (.feed target) =
        heap.lastChild (.feed target) := by
    unfold Heap.lastChild sharedCopy linked
    by_cases hself : Address.feed target = kid path k
    · simp [hself, hkid]
    · simp [hself]
  rw [hlast] at hlive hnone heq
  constructor
  case live =>
    intro a
    rw [heq]
    by_cases ha : a = .pointer (kid path k)
    · simp [sharedCopy, ha]
    · simp [sharedCopy, linked, ha]
  case type =>
    intro a
    rw [heq]
    by_cases ha : a = .pointer (kid path k)
    · simp [sharedCopy, linked, ha]
    · simp [sharedCopy, linked, ha]
  case parent =>
    intro a
    rw [heq]
    by_cases ha : a = .pointer (kid path k)
    · simp [ha]
    · simp [sharedCopy, linked, ha]
  case children =>
    intro a
    rw [heq]
    by_cases ha : a = .pointer (kid path k)
    · subst ha
      simp [sharedCopy, linked]
    · by_cases htarget : a = .feed target
      · subst htarget
        simp [sharedCopy, linked]
      · simp [sharedCopy, linked, ha, htarget]
  case last =>
    intro inner
    rw [heq]
    by_cases htarget : inner = target
    · simp [htarget]
    · by_cases hitem : inner = k :: path
      · subst hitem
        simp [sharedCopy, linked, htarget, kid]
      · simp [sharedCopy, linked, htarget, hitem, kid]
  case next =>
    intro a
    rw [heq]
    cases htail : heap.lastChild (.feed target) with
    | none =>
        by_cases ha : a = .pointer (kid path k)
        · simp [sharedCopy, ha]
        · simp [sharedCopy, linked, ha, Function.update_apply]
    | some tail =>
        by_cases hself : a = tail
        · simp [hself]
        · have hself' : tail ≠ a := fun h => hself h.symm
          by_cases ha : a = .pointer (kid path k)
          · subst ha
            simp [sharedCopy, hself, hself']
          · simp [sharedCopy, linked, ha, hself, hself', Function.update_apply]
  case prev =>
    intro inner
    rw [heq]
    by_cases hchildren : (sharedCopy (linked heap (kid path k) (kid (k :: path) 0)
        (.feed target)) (.feed path) (.pointer (kid path k))).children (.feed target) = none
    · simp only [if_pos hchildren]
      simp [sharedCopy, linked]
    · simp only [if_neg hchildren]
      simp [sharedCopy, linked]
  case properties =>
    intro a
    rw [heq]
    by_cases ha : a = .pointer (kid path k)
    · simp [sharedCopy, linked, ha, hpath]
    · simp [sharedCopy, linked, ha, Function.update_apply]
  case attributes => rw [heq]; rfl
  case _private =>
    intro inner hinner
    rw [heq]
    simp [sharedCopy, linked, hinner, kid]
  case lastChild_live =>
    intro a ha
    rw [heq]
    exact hlive a ha
  case lastChild_none =>
    intro htail
    have hchildren := hnone htail
    simpa [sharedCopy, linked] using hchildren

/-- Other last children of pointer nodes make no difference. -/
theorem Adopted.withLast {heap'' : Heap Address} (h : Adopted heap heap' k path target)
    (heq : heap'' = { heap' with last := heap''.last })
    (hlast : ∀ inner, heap''.last (.feed inner) = heap'.last (.feed inner)) :
    Adopted heap heap'' k path target where
  live a := by rw [heq]; exact h.live a
  type a := by rw [heq]; exact h.type a
  parent a := by rw [heq]; exact h.parent a
  children a := by rw [heq]; exact h.children a
  last inner := (hlast inner).trans (h.last inner)
  next a := by rw [heq]; exact h.next a
  prev inner := by rw [heq]; exact h.prev inner
  properties a := by rw [heq]; exact h.properties a
  attributes := by rw [heq]; exact h.attributes
  _private inner hinner := by rw [heq]; exact h._private inner hinner
  lastChild_live a ha := by rw [heq]; exact h.lastChild_live a ha
  lastChild_none := h.lastChild_none

/-- The Context that a node points to. -/
theorem contextOf_eq {node : Address} {found : Address × Context}
    (h : site.contextOf node = .ok found) :
    site.heap._private node = some found.1 ∧ site.contexts found.1 = some found.2 := by
  unfold Site.contextOf at h
  split at h
  · cases h
  · next address hprivate =>
    split at h
    · cases h
    · next ctxt hctxt =>
      obtain rfl := Outcome.pure_eq_ok.1 h
      exact ⟨hprivate, hctxt⟩

/-- What the rest of `initializeAssociation` does to the Site. -/
structure Associated (site site' : Site) (k : ℕ) (path target : Path) (heap : Heap Address) :
    Prop where
  adopted : Adopted heap site'.heap k path target
  nodes : site'.nodes = site.nodes
  permalinks : site'.permalinks = site.permalinks
  rootNode : site'.rootNode = site.rootNode
  pointerNodes : ∀ node ctxt, site'.contexts node = some ctxt →
    ∀ pointerNode ∈ ctxt.pointerNodes, IsPointer (some pointerNode)

/-- The Contexts once one of them has one more pointer node. -/
def pushPointerNode (contexts : Address → Option Context) (node : Address) (ctxt : Context)
    (pointerNode : Address) : Address → Option Context :=
  Function.update contexts node
    (some { ctxt with pointerNodes := ctxt.pointerNodes ++ [pointerNode] })

/-- What `associate` goes through on an item: it frees the item's property list and the
children after the first one, links what is left, and updates the Contexts. -/
structure AssociateRun (rounds : ℕ) (site site' : Site) (k : ℕ) (path target : Path)
    (heap1 heap2 added : Heap Address) (parentAddress associatedAddress : Address)
    (parentContext associatedContext : Context) : Prop where
  properties : site.heap.xmlFreePropList (site.heap.properties (kid path k)) = .ok heap1
  children : heap1.xmlFreeNodeList rounds (heap1.next (kid (k :: path) 0)) = .ok heap2
  live : heap2.live (.feed target) = true
  add : (sharedCopy (linked heap2 (kid path k) (kid (k :: path) 0) (.feed target)) (.feed path)
    (.pointer (kid path k))).xmlAddChild (.feed target) (.pointer (kid path k)) = .ok added
  parent_private : added._private (.feed path) = some parentAddress
  parent_context : site.contexts parentAddress = some parentContext
  target_private : added._private (.feed target) = some associatedAddress
  target_context : pushPointerNode site.contexts parentAddress parentContext
    (.pointer (kid path k)) associatedAddress = some associatedContext
  update : Site.updatePointerNodes (.feed target) associatedContext.pointerNodes added =
    .ok site'.heap
  contexts : site'.contexts = Function.update (pushPointerNode site.contexts parentAddress
    parentContext (.pointer (kid path k))) (kid path k) none
  rest : site' = { site with
    heap := site'.heap
    contexts := site'.contexts
    nodesToClean := site.nodesToClean ++ [.pointer (kid path k)]
    nodesToClean2 := site.nodesToClean2 ++ [kid path k] }

theorem associate_run (hparent : site.heap.parent (kid path k) = some (.feed path))
    (hchildren : site.heap.children (kid path k) = some (kid (k :: path) 0))
    (h : Site.associate rounds site (kid path k) (.feed target) = .ok site') :
    ∃ heap1 heap2 added parentAddress associatedAddress parentContext associatedContext,
      AssociateRun rounds site site' k path target heap1 heap2 added parentAddress
        associatedAddress parentContext associatedContext := by
  obtain ⟨forward, hforward, hrun⟩ := Outcome.bind_eq_ok.1 h
  obtain ⟨child, heap1, heap2, hprops, hchild, hfree, hlive, rfl⟩ := associateForward_eq hforward
  obtain ⟨reverse, hreverse, hlast⟩ := Outcome.bind_eq_ok.1 hrun
  have hall : Heap.Closed (fun _ => True) heap1 := fun _ _ _ _ => trivial
  have hfreed1 : Heap.Freed (fun _ => True) site.heap heap1 := Heap.xmlFreePropList_freed hprops
  have hfreed : Heap.Freed (fun _ => True) site.heap heap2 :=
    hfreed1.trans (Heap.xmlFreeNodeList_freed hall (fun _ _ => trivial) hfree)
  rw [hfreed1.children_eq, hchildren] at hchild
  obtain rfl := Option.some.inj hchild
  have hparent2 : (linked heap2 (kid path k) (kid (k :: path) 0) (.feed target)).parent
      (kid path k) = some (.feed path) := by
    show heap2.parent _ = _
    rw [hfreed.parent_eq]
    exact hparent
  obtain ⟨_, hadd⟩ := associateReverse_eq hparent2 (fun heq => by cases heq) hreverse
  have hadopted : Adopted heap2 reverse k path target := adopted_of_addChild hadd
  have hparent' : reverse.parent (kid path k) = some (.feed path) := by
    rw [hadopted.parent, if_neg (by simp [kid])]
    exact hparent2
  simp only [hparent'] at hlast
  obtain ⟨⟨parentAddress, parentContext⟩, hcontext, hlast⟩ := Outcome.bind_eq_ok.1 hlast
  obtain ⟨⟨_, associatedContext⟩, hassociated, hlast⟩ := Outcome.bind_eq_ok.1 hlast
  obtain ⟨heap', hupdate, hlast⟩ := Outcome.bind_eq_ok.1 hlast
  obtain rfl := Outcome.pure_eq_ok.1 hlast
  obtain ⟨hprivate, hparentContext⟩ := contextOf_eq hcontext
  obtain ⟨hprivate', hassociatedContext⟩ := contextOf_eq hassociated
  exact ⟨heap1, heap2, reverse, parentAddress, _, parentContext, associatedContext, hprops, hfree,
    hlive, hadd, hprivate, hparentContext, hprivate', hassociatedContext, hupdate, rfl, rfl⟩

/-- A Context with one more pointer node still has pointer nodes only. -/
theorem pointerNodes_push {contexts : Address → Option Context} {node : Address}
    {ctxt : Context} (item : Address) (hpointers : ∀ node ctxt, contexts node = some ctxt →
      ∀ pointerNode ∈ ctxt.pointerNodes, IsPointer (some pointerNode))
    (hctxt : contexts node = some ctxt) (other : Address) (found : Context)
    (hfound : pushPointerNode contexts node ctxt (.pointer item) other = some found) :
    ∀ pointerNode ∈ found.pointerNodes, IsPointer (some pointerNode) := by
  intro pointerNode hmem
  unfold pushPointerNode at hfound
  by_cases hnode : other = node
  · rw [hnode, Function.update_self] at hfound
    obtain rfl := Option.some.inj hfound
    rcases List.mem_append.1 hmem with hmem | hmem
    · exact hpointers _ _ hctxt pointerNode hmem
    · exact ⟨_, congrArg some (List.mem_singleton.1 hmem)⟩
  · rw [Function.update_of_ne hnode] at hfound
    exact hpointers other found hfound pointerNode hmem

section

variable {heap1 heap2 added : Heap Address} {parentAddress associatedAddress : Address}
  {parentContext associatedContext : Context}

/-- The last step only changes what pointer nodes have as their last children. -/
theorem AssociateRun.heap_eq (h : AssociateRun rounds site site' k path target heap1 heap2 added
      parentAddress associatedAddress parentContext associatedContext)
    (hpointers : ∀ node ctxt, site.contexts node = some ctxt →
      ∀ pointerNode ∈ ctxt.pointerNodes, IsPointer (some pointerNode)) :
    (∀ pointerNode ∈ associatedContext.pointerNodes, IsPointer (some pointerNode)) ∧
      site'.heap = { added with
        last := fun a =>
          if a ∈ associatedContext.pointerNodes then added.last (.feed target)
          else added.last a } := by
  have hadded := pointerNodes_push (kid path k) hpointers h.parent_context _ _ h.target_context
  refine ⟨hadded, updatePointerNodes_eq (fun hmem => ?_) h.update⟩
  obtain ⟨_, hitem⟩ := hadded _ hmem
  cases hitem

/-- The item's parent has a Context. -/
theorem AssociateRun.parent_ne_none (h : AssociateRun rounds site site' k path target heap1 heap2
      added parentAddress associatedAddress parentContext associatedContext) :
    heap2._private (.feed path) ≠ none := by
  have hpath : path ≠ k :: path := fun heq => absurd (congrArg List.length heq) (by simp)
  rw [← (adopted_of_addChild h.add)._private path hpath, h.parent_private]
  simp

theorem AssociateRun.associated (h : AssociateRun rounds site site' k path target heap1 heap2 added
      parentAddress associatedAddress parentContext associatedContext)
    (hpointers : ∀ node ctxt, site.contexts node = some ctxt →
      ∀ pointerNode ∈ ctxt.pointerNodes, IsPointer (some pointerNode)) :
    Associated site site' k path target heap2 := by
  obtain ⟨hadded, heq⟩ := h.heap_eq hpointers
  constructor
  case adopted =>
    refine (adopted_of_addChild h.add).withLast (by rw [heq]) fun inner => ?_
    rw [heq]
    refine if_neg fun hmem => ?_
    obtain ⟨_, hitem⟩ := hadded _ hmem
    cases hitem
  case nodes => rw [h.rest]
  case permalinks => rw [h.rest]
  case rootNode => rw [h.rest]
  case pointerNodes =>
    intro node ctxt hctxt
    rw [h.contexts] at hctxt
    by_cases hnode : node = kid path k
    · rw [hnode] at hctxt
      simp at hctxt
    · rw [Function.update_of_ne hnode] at hctxt
      exact pointerNodes_push _ hpointers h.parent_context node ctxt hctxt

end

end VaeDb.Source
