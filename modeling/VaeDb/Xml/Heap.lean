import VaeDb.Basic
import VaeDb.Library.Links

/-!
# The nodes of libxml2

The functions of libxml2 that the program calls on nodes, as they are documented, over a
heap of nodes.  The heap has one map for each field of `xmlNode`, so that an assignment to a
field changes one map; `live` says which nodes are allocated, and `attributes` which
property lists are.  Reading or writing a node that is not allocated, and freeing a node or
a property list twice, is undefined behaviour.

* `xmlUnlinkNode_eq`: what unlinking assigns.
* `xmlFreeNodeList_freed`, `xmlFreeNode_freed`: freeing stays within every set of nodes
  that `children` and `next` do not leave.
* `xmlFreeNodeList_carries`: nothing that leads to a property list keeps it.
-/

namespace VaeDb.Xml

open Links

/-- The types of nodes that the program tells apart; a text node has its content. -/
inductive NodeType
  | element
  | text (content : Str)
  | other
  deriving DecidableEq

/-- An attribute: its name, and the content of its first child if it has one. -/
structure Attribute where
  name : Str
  content : Option Str
  deriving DecidableEq

/-- Nodes by their addresses.  A property list has the address of the node that it was
parsed with. -/
structure Heap (A : Type) where
  live : A → Bool
  type : A → NodeType
  parent : A → Option A
  children : A → Option A
  last : A → Option A
  next : A → Option A
  prev : A → Option A
  properties : A → Option A
  attributes : A → Option (List Attribute)
  _private : A → Option A

namespace Heap

variable {A : Type}

/-- Access to a node. -/
def deref (heap : Heap A) (a : A) : Outcome Unit :=
  if heap.live a then pure () else throw (.undefined .useAfterFree)

/-! ## Unlinking and linking -/

section

variable [DecidableEq A]

/-- `xmlUnlinkNode`. -/
def xmlUnlinkNode (heap : Heap A) (cur : A) : Outcome (Heap A) := do
  heap.deref cur
  let next := heap.next cur
  let prev := heap.prev cur
  let heap ← match heap.parent cur with
    | none => pure heap
    | some parent => do
        heap.deref parent
        pure { heap with
          children := Function.update heap.children parent
            (if heap.children parent = some cur then next else heap.children parent)
          last := Function.update heap.last parent
            (if heap.last parent = some cur then prev else heap.last parent)
          parent := Function.update heap.parent cur none }
  let heap ← match next with
    | none => pure heap
    | some next => do
        heap.deref next
        pure { heap with prev := Function.update heap.prev next prev }
  let heap ← match prev with
    | none => pure heap
    | some prev => do
        heap.deref prev
        pure { heap with next := Function.update heap.next prev next }
  return { heap with
    next := Function.update heap.next cur none
    prev := Function.update heap.prev cur none }

/-- `xmlAddChild` of an element that has no parent yet. -/
def xmlAddChild (heap : Heap A) (parent cur : A) : Outcome (Heap A) := do
  heap.deref parent
  let heap := { heap with parent := Function.update heap.parent cur (some parent) }
  match heap.children parent with
  | none =>
      return { heap with
        children := Function.update heap.children parent (some cur)
        last := Function.update heap.last parent (some cur) }
  | some _ =>
      match heap.last parent with
      | none => throw (.undefined .nullPointer)
      | some prev => do
          heap.deref prev
          return { heap with
            next := Function.update heap.next prev (some cur)
            prev := Function.update heap.prev cur (some prev)
            last := Function.update heap.last parent (some cur) }

/-- `xmlCopyNode(node, 0)`: a node of the same type without attributes and without links, at
the address `copy`. -/
def xmlCopyNode (heap : Heap A) (node copy : A) : Outcome (Heap A) := do
  heap.deref node
  return { heap with
    live := Function.update heap.live copy true
    type := Function.update heap.type copy (heap.type node)
    parent := Function.update heap.parent copy none
    children := Function.update heap.children copy none
    last := Function.update heap.last copy none
    next := Function.update heap.next copy none
    prev := Function.update heap.prev copy none
    properties := Function.update heap.properties copy none
    _private := Function.update heap._private copy none }

/-! ## Freeing -/

/-- `xmlFreePropList`. -/
def xmlFreePropList (heap : Heap A) : Option A → Outcome (Heap A)
  | none => pure heap
  | some list =>
      match heap.attributes list with
      | none => throw (.undefined .doubleFree)
      | some _ => pure { heap with attributes := Function.update heap.attributes list none }

/-- `xmlFree` of a node. -/
def xmlFree (heap : Heap A) (cur : A) : Outcome (Heap A) :=
  if heap.live cur then pure { heap with live := Function.update heap.live cur false }
  else throw (.undefined .doubleFree)

/-- `xmlFreeNodeList`: a node, its following siblings, and all their descendants. -/
def xmlFreeNodeList : ℕ → Heap A → Option A → Outcome (Heap A)
  | _, heap, none => pure heap
  | 0, _, some _ => throw .unfinished
  | rounds + 1, heap, some cur => do
      heap.deref cur
      let next := heap.next cur
      let heap ← xmlFreeNodeList rounds heap (heap.children cur)
      let heap ← heap.xmlFreePropList (heap.properties cur)
      let heap ← heap.xmlFree cur
      xmlFreeNodeList rounds heap next

/-- `xmlFreeNode`: a node and all its descendants. -/
def xmlFreeNode (rounds : ℕ) (heap : Heap A) (cur : A) : Outcome (Heap A) := do
  heap.deref cur
  let heap ← xmlFreeNodeList rounds heap (heap.children cur)
  let heap ← heap.xmlFreePropList (heap.properties cur)
  heap.xmlFree cur

end

/-! ## What the calls do -/

theorem deref_eq_ok {heap : Heap A} {a : A} {u : Unit} :
    heap.deref a = .ok u ↔ heap.live a = true := by
  unfold deref
  split <;> simp_all [pure, Except.pure]

/-- What unlinking a node that has a parent assigns. -/
theorem xmlUnlinkNode_eq [DecidableEq A] {heap heap' : Heap A} {cur parent : A}
    (h : heap.xmlUnlinkNode cur = .ok heap') (hparent : heap.parent cur = some parent) :
    heap' = { heap with
      children := Function.update heap.children parent
        (if heap.children parent = some cur then heap.next cur else heap.children parent)
      last := Function.update heap.last parent
        (if heap.last parent = some cur then heap.prev cur else heap.last parent)
      parent := Function.update heap.parent cur none
      next := unlinkNext heap.next heap.prev cur
      prev := unlinkPrev heap.next heap.prev cur } := by
  unfold xmlUnlinkNode at h
  rw [hparent] at h
  unfold unlinkNext unlinkPrev
  cases hnext : heap.next cur with
  | none =>
      cases hprev : heap.prev cur with
      | none =>
          simp only [hnext, hprev, pure_bind, Outcome.bind_eq_ok, Outcome.pure_eq_ok] at h
          obtain ⟨_, _, _, _, rfl⟩ := h
          rfl
      | some prev =>
          simp only [hnext, hprev, pure_bind, Outcome.bind_eq_ok, Outcome.pure_eq_ok] at h
          obtain ⟨_, _, _, _, _, _, rfl⟩ := h
          rfl
  | some next =>
      cases hprev : heap.prev cur with
      | none =>
          simp only [hnext, hprev, pure_bind, Outcome.bind_eq_ok, Outcome.pure_eq_ok] at h
          obtain ⟨_, _, _, _, _, _, rfl⟩ := h
          rfl
      | some prev =>
          simp only [hnext, hprev, pure_bind, Outcome.bind_eq_ok, Outcome.pure_eq_ok] at h
          obtain ⟨_, _, _, _, _, _, _, _, rfl⟩ := h
          rfl

/-- What copying a node assigns. -/
theorem xmlCopyNode_eq [DecidableEq A] {heap heap' : Heap A} {node copy : A}
    (h : heap.xmlCopyNode node copy = .ok heap') :
    heap.live node = true ∧ heap' = { heap with
      live := Function.update heap.live copy true
      type := Function.update heap.type copy (heap.type node)
      parent := Function.update heap.parent copy none
      children := Function.update heap.children copy none
      last := Function.update heap.last copy none
      next := Function.update heap.next copy none
      prev := Function.update heap.prev copy none
      properties := Function.update heap.properties copy none
      _private := Function.update heap._private copy none } := by
  obtain ⟨_, hlive, h⟩ := Outcome.bind_eq_ok.1 h
  exact ⟨deref_eq_ok.1 hlive, (Outcome.pure_eq_ok.1 h).symm⟩

/-- The node that a new child of a node is put after. -/
def lastChild (heap : Heap A) (parent : A) : Option A :=
  match heap.children parent with
  | none => none
  | some _ => heap.last parent

/-- What adding a child assigns. -/
theorem xmlAddChild_eq [DecidableEq A] {heap heap' : Heap A} {parent cur : A}
    (h : heap.xmlAddChild parent cur = .ok heap') :
    heap.live parent = true ∧ (∀ prev, heap.lastChild parent = some prev → heap.live prev = true) ∧
      (heap.lastChild parent = none → heap.children parent = none) ∧
      heap' = { heap with
        parent := Function.update heap.parent cur (some parent)
        children := Function.update heap.children parent
          (some ((heap.children parent).getD cur))
        last := Function.update heap.last parent (some cur)
        next := setAt heap.next (heap.lastChild parent) (some cur)
        prev := if heap.children parent = none then heap.prev
          else Function.update heap.prev cur (heap.lastChild parent) } := by
  obtain ⟨_, hlive, h⟩ := Outcome.bind_eq_ok.1 h
  refine ⟨deref_eq_ok.1 hlive, ?_⟩
  unfold lastChild
  cases hchildren : heap.children parent with
  | none =>
      simp only [hchildren] at h
      obtain rfl := Outcome.pure_eq_ok.1 h
      exact ⟨fun _ hprev => (by cases hprev), fun _ => rfl, rfl⟩
  | some child =>
      have hsame : Function.update heap.children parent (some child) = heap.children := by
        rw [← hchildren, Function.update_eq_self]
      simp only [hchildren] at h
      cases hlast : heap.last parent with
      | none => simp [hlast] at h
      | some prev =>
          simp only [hlast] at h
          obtain ⟨_, hprev, h⟩ := Outcome.bind_eq_ok.1 h
          obtain rfl := Outcome.pure_eq_ok.1 h
          refine ⟨fun other hother => ?_, fun hnone => (by cases hnone), ?_⟩
          · rw [← Option.some.inj hother]
            exact deref_eq_ok.1 hprev
          · simp [hsame]

/-! ## What freeing leaves alone -/

/-- Nodes and property lists are freed, the nodes in a set `R`; nothing else happens. -/
structure Freed (R : A → Prop) (heap heap' : Heap A) : Prop where
  eq : heap' = { heap with live := heap'.live, attributes := heap'.attributes }
  live : ∀ a, heap'.live a = true → heap.live a = true
  kept : ∀ a, ¬ R a → heap'.live a = heap.live a
  attributes : ∀ list, heap'.attributes list = none ∨
    heap'.attributes list = heap.attributes list

/-- `children` and `next` do not leave a set of nodes. -/
def Closed (R : A → Prop) (heap : Heap A) : Prop :=
  ∀ a, R a → ∀ b, heap.children a = some b ∨ heap.next a = some b → R b

variable {R : A → Prop} {heap heap' heap'' : Heap A}

theorem Freed.parent_eq (h : Freed R heap heap') : heap'.parent = heap.parent := by rw [h.eq]

theorem Freed.children_eq (h : Freed R heap heap') : heap'.children = heap.children := by rw [h.eq]

theorem Freed.last_eq (h : Freed R heap heap') : heap'.last = heap.last := by rw [h.eq]

theorem Freed.next_eq (h : Freed R heap heap') : heap'.next = heap.next := by rw [h.eq]

theorem Freed.prev_eq (h : Freed R heap heap') : heap'.prev = heap.prev := by rw [h.eq]

theorem Freed.properties_eq (h : Freed R heap heap') : heap'.properties = heap.properties := by
  rw [h.eq]

theorem Freed.private_eq (h : Freed R heap heap') : heap'._private = heap._private := by rw [h.eq]

theorem Freed.refl : Freed R heap heap :=
  ⟨rfl, fun _ h => h, fun _ _ => rfl, fun _ => Or.inr rfl⟩

theorem Freed.trans (h : Freed R heap heap') (h' : Freed R heap' heap'') :
    Freed R heap heap'' where
  eq := by
    rw [h'.eq, h.eq]
  live a ha := h.live a (h'.live a ha)
  kept a ha := (h'.kept a ha).trans (h.kept a ha)
  attributes list := by
    rcases h'.attributes list with hnone | heq
    · exact Or.inl hnone
    · exact (h.attributes list).imp heq.trans heq.trans

theorem Freed.closed (h : Freed R heap heap') (hclosed : Closed R heap) : Closed R heap' := by
  intro a ha b hb
  rw [h.children_eq, h.next_eq] at hb
  exact hclosed a ha b hb

theorem Freed.dead (h : Freed R heap heap') {a : A} (ha : heap.live a = false) :
    heap'.live a = false := by
  cases hlive : heap'.live a with
  | false => rfl
  | true => exact absurd (h.live a hlive) (by simp [ha])

theorem Freed.attributes_none {list : A} (h : Freed R heap heap')
    (hnone : heap.attributes list = none) : heap'.attributes list = none := by
  rcases h.attributes list with hnone' | heq
  · exact hnone'
  · exact heq.trans hnone

/-- Following `children` and `next` from a node, one gets to a node with a property list, or
to one that is not allocated. -/
inductive Carries (heap : Heap A) (list : A) : A → Prop
  | dead {a : A} (hdead : heap.live a = false) : Carries heap list a
  | properties {a : A} (hlist : heap.properties a = some list) : Carries heap list a
  | children {a b : A} (hchildren : heap.children a = some b) (hb : Carries heap list b) :
      Carries heap list a
  | next {a b : A} (hnext : heap.next a = some b) (hb : Carries heap list b) :
      Carries heap list a

theorem Carries.freed {list a : A} (h : Carries heap list a) (hfreed : Freed R heap heap') :
    Carries heap' list a := by
  induction h with
  | dead hdead => exact .dead (hfreed.dead hdead)
  | properties hlist => exact .properties (hfreed.properties_eq ▸ hlist)
  | children hchildren _ ih => exact .children (hfreed.children_eq ▸ hchildren) ih
  | next hnext _ ih => exact .next (hfreed.next_eq ▸ hnext) ih

/-- A chain of `next` pointers to such a node starts at one. -/
theorem Carries.segment {list z : A} {before start : Option A} {nodes : List A}
    (h : Segment heap.next heap.prev before start nodes (some z)) (hz : Carries heap list z) :
    ∃ a, start = some a ∧ Carries heap list a := by
  induction nodes generalizing before start with
  | nil => exact ⟨z, h, hz⟩
  | cons a rest ih =>
      obtain ⟨hstart, _, hrest⟩ := h
      obtain ⟨b, hnext, hb⟩ := ih hrest
      exact ⟨a, hstart, .next hnext hb⟩

variable [DecidableEq A]

/-! ## What freeing does -/

theorem xmlFreePropList_freed {properties : Option A}
    (h : heap.xmlFreePropList properties = .ok heap') : Freed R heap heap' := by
  cases properties with
  | none =>
      obtain rfl := Outcome.pure_eq_ok.1 h
      exact Freed.refl
  | some list =>
      simp only [xmlFreePropList] at h
      split at h
      · cases h
      · obtain rfl := Outcome.pure_eq_ok.1 h
        refine ⟨rfl, fun _ h => h, fun _ _ => rfl, fun other => ?_⟩
        by_cases hlist : other = list
        · exact Or.inl (by simp [hlist])
        · exact Or.inr (Function.update_of_ne hlist _ _)

theorem xmlFree_eq {cur : A} (h : heap.xmlFree cur = .ok heap') :
    heap.live cur = true ∧ heap' = { heap with live := Function.update heap.live cur false } := by
  unfold xmlFree at h
  split at h
  · next hlive => exact ⟨hlive, (Outcome.pure_eq_ok.1 h).symm⟩
  · cases h

theorem xmlFree_freed {cur : A} (hcur : R cur) (h : heap.xmlFree cur = .ok heap') :
    Freed R heap heap' := by
  obtain ⟨hlive, rfl⟩ := xmlFree_eq h
  refine ⟨rfl, fun a ha => ?_, fun a ha => ?_, fun _ => Or.inr rfl⟩
  · by_cases heq : a = cur
    · exact heq ▸ hlive
    · simpa [heq] using ha
  · exact Function.update_of_ne (fun heq : a = cur => ha (heq ▸ hcur)) _ _

theorem xmlFreeNodeList_freed {rounds : ℕ} {start : Option A} (hclosed : Closed R heap)
    (hstart : ∀ a, start = some a → R a)
    (h : xmlFreeNodeList rounds heap start = .ok heap') : Freed R heap heap' := by
  induction rounds generalizing heap heap' start with
  | zero =>
      cases start with
      | none => exact Outcome.pure_eq_ok.1 h ▸ Freed.refl
      | some cur => cases h
  | succ rounds ih =>
      cases start with
      | none => exact Outcome.pure_eq_ok.1 h ▸ Freed.refl
      | some cur =>
          have hcur : R cur := hstart cur rfl
          obtain ⟨_, _, h⟩ := Outcome.bind_eq_ok.1 h
          obtain ⟨heap1, h1, h⟩ := Outcome.bind_eq_ok.1 h
          obtain ⟨heap2, h2, h⟩ := Outcome.bind_eq_ok.1 h
          obtain ⟨heap3, h3, h⟩ := Outcome.bind_eq_ok.1 h
          have hfreed1 : Freed R heap heap1 :=
            ih hclosed (fun a ha => hclosed cur hcur a (Or.inl ha)) h1
          have hfreed3 : Freed R heap heap3 :=
            (hfreed1.trans (xmlFreePropList_freed h2)).trans (xmlFree_freed hcur h3)
          exact hfreed3.trans
            (ih (hfreed3.closed hclosed) (fun a ha => hclosed cur hcur a (Or.inr ha)) h)

theorem xmlFreeNode_freed {rounds : ℕ} {cur : A} (hclosed : Closed R heap) (hcur : R cur)
    (h : xmlFreeNode rounds heap cur = .ok heap') :
    Freed R heap heap' ∧ heap'.live cur = false := by
  obtain ⟨_, _, h⟩ := Outcome.bind_eq_ok.1 h
  obtain ⟨heap1, h1, h⟩ := Outcome.bind_eq_ok.1 h
  obtain ⟨heap2, h2, h3⟩ := Outcome.bind_eq_ok.1 h
  have hfreed1 : Freed R heap heap1 :=
    xmlFreeNodeList_freed hclosed (fun a ha => hclosed cur hcur a (Or.inl ha)) h1
  refine ⟨(hfreed1.trans (xmlFreePropList_freed h2)).trans (xmlFree_freed hcur h3), ?_⟩
  obtain ⟨_, rfl⟩ := xmlFree_eq h3
  exact Function.update_self ..

/-- Freeing a property list is freeing nothing else. -/
theorem xmlFreePropList_eq {list : A} (h : heap.xmlFreePropList (some list) = .ok heap') :
    heap.attributes list ≠ none ∧
      heap' = { heap with attributes := Function.update heap.attributes list none } := by
  simp only [xmlFreePropList] at h
  split at h
  · cases h
  · next hsome => exact ⟨by simp [hsome], (Outcome.pure_eq_ok.1 h).symm⟩

theorem xmlFreePropList_some {list : A} (h : heap.xmlFreePropList (some list) = .ok heap') :
    heap.attributes list ≠ none ∧ heap'.attributes list = none := by
  obtain ⟨hne, rfl⟩ := xmlFreePropList_eq h
  exact ⟨hne, Function.update_self ..⟩

/-- Freeing nodes that lead to a property list frees the list, so that it must not be free
already. -/
theorem xmlFreeNodeList_carries {rounds : ℕ} {cur list : A} (hcarries : Carries heap list cur)
    (h : xmlFreeNodeList rounds heap (some cur) = .ok heap') :
    heap.attributes list ≠ none ∧ heap'.attributes list = none := by
  induction rounds generalizing heap heap' cur with
  | zero => cases h
  | succ rounds ih =>
      obtain ⟨_, hlive, h⟩ := Outcome.bind_eq_ok.1 h
      obtain ⟨heap1, h1, h⟩ := Outcome.bind_eq_ok.1 h
      obtain ⟨heap2, h2, h⟩ := Outcome.bind_eq_ok.1 h
      obtain ⟨heap3, h3, h⟩ := Outcome.bind_eq_ok.1 h
      have hall : ∀ heap : Heap A, Closed (fun _ => True) heap := fun _ _ _ _ _ => trivial
      have hfreed1 : Freed (fun _ => True) heap heap1 :=
        xmlFreeNodeList_freed (hall _) (fun _ _ => trivial) h1
      have hfreed2 : Freed (fun _ => True) heap1 heap2 := xmlFreePropList_freed h2
      have hfreed3 : Freed (fun _ => True) heap2 heap3 := xmlFree_freed trivial h3
      have hfreed : Freed (fun _ => True) heap3 heap' :=
        xmlFreeNodeList_freed (hall _) (fun _ _ => trivial) h
      have hafter : Freed (fun _ => True) heap1 heap' := hfreed2.trans (hfreed3.trans hfreed)
      cases hcarries with
      | dead hdead => exact absurd (deref_eq_ok.1 hlive) (by simp [hdead])
      | properties hlist =>
          rw [hfreed1.properties_eq, hlist] at h2
          obtain ⟨hsome, hnone⟩ := xmlFreePropList_some h2
          exact ⟨fun hnone => hsome (hfreed1.attributes_none hnone),
            (hfreed3.trans hfreed).attributes_none hnone⟩
      | children hchildren hb =>
          rw [hchildren] at h1
          obtain ⟨hsome, hnone⟩ := ih hb h1
          exact ⟨hsome, hafter.attributes_none hnone⟩
      | next hnext hb =>
          have hbefore : Freed (fun _ => True) heap heap3 :=
            hfreed1.trans (hfreed2.trans hfreed3)
          rw [hnext] at h
          obtain ⟨hsome, hnone⟩ := ih (hb.freed hbefore) h
          exact ⟨fun hnone => hsome (hbefore.attributes_none hnone), hnone⟩

end Heap

end VaeDb.Xml
