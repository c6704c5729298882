import VaeDb.Library.Forests
import VaeDb.Site.Load

/-!
# Tearing a Site down

`Site::~Site` with `Site::freeContexts` and `xmlFreeDoc`.  Two loops clean the pointer nodes
and the association items that `initializeAssociation` has noted, so that the nodes are a tree
again; then the Contexts and the document are freed.

* `cleanUp_eq`: what the two loops assign.
* `freeContextsFrom_ok`: which Contexts are freed.
-/

namespace VaeDb

open Xml Links

namespace Site

/-! ## `~Site` -/

/-- The loop of `~Site` over `nodesToClean`. -/
def cleanNodes : List Address → Heap Address → Outcome (Heap Address)
  | [], heap => pure heap
  | node :: rest, heap => do
      heap.deref node
      cleanNodes rest { heap with
        last := Function.update heap.last node none
        children := Function.update heap.children node none
        properties := Function.update heap.properties node none
        _private := Function.update heap._private node none }

/-- The first child of a node gets no next sibling. -/
def cutNext (heap : Heap Address) (node : Address) : Outcome (Heap Address) :=
  match heap.children node with
  | none => pure heap
  | some child => do
      heap.deref child
      return { heap with next := Function.update heap.next child none }

/-- The loop of `~Site` over `nodesToClean2`. -/
def cleanNodes2 : List Address → Heap Address → Outcome (Heap Address)
  | [], heap => pure heap
  | node :: rest, heap => do
      heap.deref node
      let heap ← cutNext heap node
      cleanNodes2 rest { heap with
        last := Function.update heap.last node (heap.children node)
        properties := Function.update heap.properties node none
        _private := Function.update heap._private node none }

/-- The two loops of `~Site`. -/
def cleanUp (site : Site) : Outcome Site := do
  let heap ← cleanNodes site.nodesToClean site.heap
  let heap ← cleanNodes2 site.nodesToClean2 heap
  return { site with heap, nodesToClean := [], nodesToClean2 := [] }

/-- `delete` of the Context that a node points to. -/
def deleteContext (site : Site) : Option Address → Outcome Site
  | none => pure site
  | some address =>
      match site.contexts address with
      | none => throw (.undefined .doubleFree)
      | some _ => pure { site with contexts := Function.update site.contexts address none }

/-- The loop of `freeContexts` from a child on. -/
def freeContextsFrom : ℕ → Site → Option Address → Outcome Site
  | _, site, none => pure site
  | 0, _, some _ => throw .unfinished
  | rounds + 1, site, some child => do
      site.heap.deref child
      let site ←
        if site.heap.type child = .element then do
          let site ← site.deleteContext (site.heap._private child)
          freeContextsFrom rounds site (site.heap.children child)
        else pure site
      freeContextsFrom rounds site (site.heap.next child)

/-- `Site::freeContexts`. -/
def freeContexts (rounds : ℕ) (site : Site) (node : Address) : Outcome Site := do
  site.heap.deref node
  freeContextsFrom rounds site (site.heap.children node)

/-- `xmlFreeDoc`: the document has the document element as its only child. -/
def xmlFreeDoc (rounds : ℕ) (heap : Heap Address) : Outcome (Heap Address) :=
  heap.xmlFreeNodeList rounds (some (.feed []))

/-- `Site::~Site`, within a number of rounds for each recursion. -/
def destructor (rounds : ℕ) (site : Site) : Outcome Site := do
  let site ← site.cleanUp
  let site ← freeContexts rounds site site.rootNode
  let heap ← xmlFreeDoc rounds site.heap
  return { site with heap, nodes := fun _ => none }

/-! ## What the loops assign -/

variable {heap heap' : Heap Address} {site site' : Site} {nodes nodes2 : List Address}
  {node a : Address} {rounds : ℕ}

/-- The heap after the first loop. -/
def cleaned1 (nodes : List Address) (heap : Heap Address) : Heap Address :=
  { heap with
    last := fun a => if a ∈ nodes then none else heap.last a
    children := fun a => if a ∈ nodes then none else heap.children a
    properties := fun a => if a ∈ nodes then none else heap.properties a
    _private := fun a => if a ∈ nodes then none else heap._private a }

/-- The heap after the second loop. -/
def cleaned2 (nodes : List Address) (heap : Heap Address) : Heap Address :=
  { heap with
    next := fun a => if a ∈ nodes.filterMap heap.children then none else heap.next a
    last := fun a => if a ∈ nodes then heap.children a else heap.last a
    properties := fun a => if a ∈ nodes then none else heap.properties a
    _private := fun a => if a ∈ nodes then none else heap._private a }

/-- Setting values at a node and then at others. -/
theorem ite_update {B : Type} (f g : Address → B) {rest : List Address} (a : Address) :
    (if a ∈ rest then g a else Function.update f node (g node) a) =
      if a ∈ node :: rest then g a else f a := by
  by_cases ha : a = node
  · subst ha
    simp
  · simp [ha]

theorem ite_update_none {f : Address → Option Address} {rest : List Address} (a : Address) :
    (if a ∈ rest then none else Function.update f node none a) =
      if a ∈ node :: rest then none else f a := by
  exact ite_update f (fun _ => none) a

theorem cleanNodes_eq (h : cleanNodes nodes heap = .ok heap') : heap' = cleaned1 nodes heap := by
  induction nodes generalizing heap with
  | nil =>
      obtain rfl := Outcome.pure_eq_ok.1 h
      simp [cleaned1]
  | cons node rest ih =>
      obtain ⟨_, _, h⟩ := Outcome.bind_eq_ok.1 h
      rw [ih h]
      simp only [cleaned1, ite_update_none]

theorem cleanNodes_ok (hlive : ∀ node ∈ nodes, heap.live node = true) :
    ∃ heap', cleanNodes nodes heap = .ok heap' := by
  induction nodes generalizing heap with
  | nil => exact ⟨heap, rfl⟩
  | cons node rest ih =>
      have hnode := (Heap.deref_eq_ok (u := ())).2 (hlive node (List.mem_cons_self ..))
      have hrest : ∀ heap1 : Heap Address, heap1.live = heap.live →
          ∃ heap', cleanNodes rest heap1 = .ok heap' := fun heap1 heq =>
        ih fun other hother => heq ▸ hlive other (List.mem_cons_of_mem _ hother)
      obtain ⟨heap', hrun⟩ := hrest { heap with
        last := Function.update heap.last node none
        children := Function.update heap.children node none
        properties := Function.update heap.properties node none
        _private := Function.update heap._private node none } rfl
      exact ⟨heap', Outcome.bind_eq_ok.2 ⟨(), hnode, hrun⟩⟩

theorem cutNext_eq (h : cutNext heap node = .ok heap') :
    heap' = { heap with next := setAt heap.next (heap.children node) none } := by
  unfold cutNext at h
  cases hchildren : heap.children node with
  | none =>
      simp only [hchildren] at h
      obtain rfl := Outcome.pure_eq_ok.1 h
      rfl
  | some child =>
      simp only [hchildren] at h
      obtain ⟨_, _, h⟩ := Outcome.bind_eq_ok.1 h
      obtain rfl := Outcome.pure_eq_ok.1 h
      rfl

theorem cutNext_ok (hchild : ∀ child, heap.children node = some child → heap.live child = true) :
    ∃ heap', cutNext heap node = .ok heap' := by
  unfold cutNext
  cases hchildren : heap.children node with
  | none => exact ⟨heap, rfl⟩
  | some child =>
      have hderef := (Heap.deref_eq_ok (u := ())).2 (hchild child hchildren)
      exact ⟨_, Outcome.bind_eq_ok.2 ⟨(), hderef, rfl⟩⟩

theorem cleanNodes2_eq (h : cleanNodes2 nodes heap = .ok heap') :
    heap' = cleaned2 nodes heap := by
  induction nodes generalizing heap with
  | nil =>
      obtain rfl := Outcome.pure_eq_ok.1 h
      simp [cleaned2]
  | cons node rest ih =>
      obtain ⟨_, _, h⟩ := Outcome.bind_eq_ok.1 h
      obtain ⟨heap1, hcut, h⟩ := Outcome.bind_eq_ok.1 h
      have hlast : ∀ a, (if a ∈ rest then heap.children a
          else Function.update heap.last node (heap.children node) a) =
            if a ∈ node :: rest then heap.children a else heap.last a := ite_update _ _
      rw [ih h, cutNext_eq hcut]
      cases hchildren : heap.children node with
      | none =>
          rw [hchildren] at hlast
          simp only [cleaned2, hchildren, setAt_none, ite_update_none, hlast,
            List.filterMap_cons]
      | some child =>
          rw [hchildren] at hlast
          simp only [cleaned2, hchildren, setAt_some, ite_update_none, hlast,
            List.filterMap_cons]

theorem cleanNodes2_ok (hlive : ∀ node ∈ nodes, heap.live node = true ∧
      ∀ child, heap.children node = some child → heap.live child = true) :
    ∃ heap', cleanNodes2 nodes heap = .ok heap' := by
  induction nodes generalizing heap with
  | nil => exact ⟨heap, rfl⟩
  | cons node rest ih =>
      obtain ⟨hnode, hchild⟩ := hlive node (List.mem_cons_self ..)
      obtain ⟨heap1, hcut⟩ := cutNext_ok hchild
      have hrest : ∀ heap1 : Heap Address, heap1.live = heap.live →
          heap1.children = heap.children → ∃ heap', cleanNodes2 rest heap1 = .ok heap' := by
        intro heap1 heq hchildren
        refine ih fun other hother => ?_
        rw [heq, hchildren]
        exact hlive other (List.mem_cons_of_mem _ hother)
      have hnext := cutNext_eq hcut
      obtain ⟨heap', hrun⟩ := hrest { heap1 with
        last := Function.update heap1.last node (heap1.children node)
        properties := Function.update heap1.properties node none
        _private := Function.update heap1._private node none } (by rw [hnext]) (by rw [hnext])
      exact ⟨heap', Outcome.bind_eq_ok.2 ⟨(), Heap.deref_eq_ok.2 hnode,
        Outcome.bind_eq_ok.2 ⟨heap1, hcut, hrun⟩⟩⟩

/-- The heap after both loops. -/
def cleanHeap (site : Site) : Heap Address :=
  cleaned2 site.nodesToClean2 (cleaned1 site.nodesToClean site.heap)

/-- A Site after both loops. -/
def cleaned (site : Site) : Site :=
  { site with heap := site.cleanHeap, nodesToClean := [], nodesToClean2 := [] }

theorem cleanUp_eq (h : site.cleanUp = .ok site') : site' = site.cleaned := by
  obtain ⟨heap1, h1, h⟩ := Outcome.bind_eq_ok.1 h
  obtain ⟨heap2, h2, h⟩ := Outcome.bind_eq_ok.1 h
  obtain rfl := Outcome.pure_eq_ok.1 h
  rw [cleanNodes2_eq h2, cleanNodes_eq h1, cleaned, cleanHeap]

/-! ## Which Contexts are freed -/

/-- A Site after some Contexts have been deleted. -/
def withoutContexts (site : Site) (list : List Address) : Site :=
  { site with contexts := fun address => if address ∈ list then none else site.contexts address }

theorem withoutContexts_nil : site.withoutContexts [] = site := by
  simp [withoutContexts]

theorem withoutContexts_append (list list' : List Address) :
    (site.withoutContexts list).withoutContexts list' = site.withoutContexts (list ++ list') := by
  unfold withoutContexts
  congr 1
  funext address
  by_cases h : address ∈ list
  · simp [h]
  · simp [h]

theorem deleteContext_heap {at? : Option Address}
    (h : site.deleteContext at? = .ok site') : site'.heap = site.heap := by
  cases at? with
  | none =>
      obtain rfl := Outcome.pure_eq_ok.1 h
      rfl
  | some address =>
      cases hcontext : site.contexts address with
      | none => simp [deleteContext, hcontext] at h
      | some ctxt =>
          simp only [deleteContext, hcontext] at h
          obtain rfl := Outcome.pure_eq_ok.1 h
          rfl

/-- `freeContexts` leaves the nodes alone. -/
theorem freeContextsFrom_heap {start : Option Address}
    (h : freeContextsFrom rounds site start = .ok site') : site'.heap = site.heap := by
  induction rounds generalizing site start site' with
  | zero =>
      cases start with
      | none =>
          obtain rfl := Outcome.pure_eq_ok.1 h
          rfl
      | some child => cases h
  | succ rounds ih =>
      cases start with
      | none =>
          obtain rfl := Outcome.pure_eq_ok.1 h
          rfl
      | some child =>
          obtain ⟨_, _, h⟩ := Outcome.bind_eq_ok.1 h
          dsimp only at h
          by_cases helement : site.heap.type child = .element
          · rw [if_pos helement] at h
            obtain ⟨site1, hdelete, h⟩ := Outcome.bind_eq_ok.1 h
            obtain ⟨site2, hbelow, h⟩ := Outcome.bind_eq_ok.1 h
            rw [ih h, ih hbelow, deleteContext_heap hdelete]
          · rw [if_neg helement] at h
            obtain ⟨site1, hsame, h⟩ := Outcome.bind_eq_ok.1 h
            obtain rfl := Outcome.pure_eq_ok.1 hsame
            exact ih h

/-- A Context that is there can be deleted. -/
theorem deleteContext_ok {at? : Option Address}
    (h : ∀ address ∈ at?.toList, site.contexts address ≠ none) :
    site.deleteContext at? = .ok (site.withoutContexts at?.toList) := by
  cases at? with
  | none => rw [Option.toList_none, withoutContexts_nil]; rfl
  | some address =>
      obtain ⟨ctxt, hctxt⟩ := Option.ne_none_iff_exists'.1 (h address (by simp))
      simp only [deleteContext, hctxt, withoutContexts]
      refine congrArg Except.ok ?_
      congr 1
      funext other
      simp [Function.update_apply]

/-- `freeContexts` deletes the Contexts of all elements of a forest. -/
theorem freeContextsFrom_ok {start : Option Address}
    (hforest : Forest heap.children heap.next start nodes) (hheap : site.heap = heap)
    (hlive : ∀ a ∈ nodes, heap.live a = true)
    (hleaf : ∀ a ∈ nodes, heap.type a ≠ .element →
      heap.children a = none ∧ heap._private a = none)
    (hnodup : (nodes.filterMap heap._private).Nodup)
    (hcontexts : ∀ address ∈ nodes.filterMap heap._private, site.contexts address ≠ none)
    (hrounds : nodes.length ≤ rounds) :
    freeContextsFrom rounds site start =
      .ok (site.withoutContexts (nodes.filterMap heap._private)) := by
  induction hforest generalizing site rounds with
  | nil =>
      rw [List.filterMap_nil, withoutContexts_nil]
      cases rounds with
      | zero => rfl
      | succ rounds => rfl
  | @cons cur inner rest hinner hrest ihinner ihrest =>
      have hsplit : (cur :: (inner ++ rest)).filterMap heap._private =
          (heap._private cur).toList ++ (inner.filterMap heap._private ++
            rest.filterMap heap._private) := by
        rw [List.filterMap_cons, List.filterMap_append]
        cases heap._private cur <;> rfl
      rw [hsplit] at hnodup hcontexts ⊢
      obtain ⟨_, hnodup', hdisjoint⟩ := List.nodup_append'.1 hnodup
      obtain ⟨hnodupInner, hnodupRest, hdisjoint'⟩ := List.nodup_append'.1 hnodup'
      cases rounds with
      | zero => simp at hrounds
      | succ rounds =>
          rw [List.length_cons, List.length_append] at hrounds
          -- the Context of the node, those below it, and those of its next siblings
          have hnode : freeContextsFrom rounds
              (site.withoutContexts (heap._private cur).toList) (heap.children cur) =
                .ok (site.withoutContexts ((heap._private cur).toList ++
                  inner.filterMap heap._private)) := by
            rw [← withoutContexts_append]
            refine ihinner hheap (fun a ha => hlive a (by simp [ha]))
              (fun a ha => hleaf a (by simp [ha])) hnodupInner (fun address haddress => ?_)
              (show inner.length ≤ rounds by omega)
            have hout : address ∉ (heap._private cur).toList := fun hmem =>
              hdisjoint hmem (List.mem_append_left _ haddress)
            simp only [withoutContexts, if_neg hout]
            exact hcontexts address (by simp [haddress])
          have hlater : freeContextsFrom rounds (site.withoutContexts
              ((heap._private cur).toList ++ inner.filterMap heap._private)) (heap.next cur) =
                .ok (site.withoutContexts ((heap._private cur).toList ++
                  (inner.filterMap heap._private ++ rest.filterMap heap._private))) := by
            rw [← List.append_assoc,
              ← withoutContexts_append (_ ++ _) (rest.filterMap heap._private)]
            refine ihrest hheap (fun a ha => hlive a (by simp [ha]))
              (fun a ha => hleaf a (by simp [ha])) hnodupRest (fun address haddress => ?_)
              (show rest.length ≤ rounds by omega)
            have hout : address ∉ (heap._private cur).toList ++ inner.filterMap heap._private := by
              intro hmem
              rcases List.mem_append.1 hmem with hmem | hmem
              · exact hdisjoint hmem (List.mem_append_right _ haddress)
              · exact hdisjoint' hmem haddress
            simp only [withoutContexts, if_neg hout]
            exact hcontexts address (by simp [haddress])
          have hcur : site.heap.deref cur = .ok () :=
            Heap.deref_eq_ok.2 (hheap ▸ hlive cur (List.mem_cons_self ..))
          refine Outcome.bind_eq_ok.2 ⟨(), hcur, ?_⟩
          simp only [hheap]
          by_cases helement : heap.type cur = .element
          · rw [if_pos helement]
            have hdelete : site.deleteContext (heap._private cur) =
                .ok (site.withoutContexts (heap._private cur).toList) :=
              deleteContext_ok fun address haddress =>
                hcontexts address (List.mem_append_left _ haddress)
            subst hheap
            exact Outcome.bind_eq_ok.2 ⟨_, hdelete, Outcome.bind_eq_ok.2 ⟨_, hnode, hlater⟩⟩
          · obtain ⟨hchildren, hprivate⟩ := hleaf cur (List.mem_cons_self ..) helement
            rw [if_neg helement]
            rw [hchildren] at hinner
            cases hinner
            rw [hprivate, Option.toList_none, List.filterMap_nil, List.nil_append,
              withoutContexts_nil] at hlater
            subst hheap
            rw [hprivate]
            exact Outcome.bind_eq_ok.2 ⟨_, rfl, hlater⟩

end Site

end VaeDb
