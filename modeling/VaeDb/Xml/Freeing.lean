import VaeDb.Library.Forests
import VaeDb.Xml.Heap

/-!
# What is freed

`xmlFreeNodeList` frees the nodes that the links lead to, with their property lists, and
nothing else (`xmlFreeNodeList_released`).  It returns if the links are those of a forest in
which no two nodes share a property list (`xmlFreeNodeList_ok`).
-/

namespace VaeDb.Xml.Heap

open Links

variable {A : Type} {heap heap' heap'' : Heap A} {R R' : A → Prop}

/-- The nodes in a set are freed, and their property lists; nothing else happens. -/
structure Released (R : A → Prop) (heap heap' : Heap A) : Prop where
  eq : heap' = { heap with live := heap'.live, attributes := heap'.attributes }
  live : ∀ a, heap'.live a = true ↔ heap.live a = true ∧ ¬ R a
  freed : ∀ a list, R a → heap.properties a = some list → heap'.attributes list = none
  kept : ∀ list, (∀ a, R a → heap.properties a ≠ some list) →
    heap'.attributes list = heap.attributes list

namespace Released

theorem children_eq (h : Released R heap heap') : heap'.children = heap.children := by rw [h.eq]

theorem next_eq (h : Released R heap heap') : heap'.next = heap.next := by rw [h.eq]

theorem properties_eq (h : Released R heap heap') : heap'.properties = heap.properties := by
  rw [h.eq]

theorem refl (hR : ∀ a, ¬ R a) : Released R heap heap :=
  ⟨rfl, fun a => by simp [hR a], fun a _ ha => absurd ha (hR a), fun _ _ => rfl⟩

theorem congr (h : Released R heap heap') (hR : ∀ a, R' a ↔ R a) : Released R' heap heap' := by
  obtain rfl : R' = R := funext fun a => propext (hR a)
  exact h

theorem trans (h : Released R heap heap') (h' : Released R' heap' heap'') :
    Released (fun a => R a ∨ R' a) heap heap'' where
  eq := by
    rw [h'.eq, h.eq]
  live a := by rw [h'.live, h.live, not_or, and_assoc]
  freed a list ha hlist := by
    by_cases hlater : ∃ b, R' b ∧ heap.properties b = some list
    · obtain ⟨b, hb, hlist'⟩ := hlater
      exact h'.freed b list hb (by rw [h.properties_eq, hlist'])
    · rcases ha with ha | ha
      · rw [h'.kept list fun b hb hlist' => hlater ⟨b, hb, by rwa [h.properties_eq] at hlist'⟩]
        exact h.freed a list ha hlist
      · exact absurd ⟨a, ha, hlist⟩ hlater
  kept list hlist := by
    rw [h'.kept list fun b hb => by
      rw [h.properties_eq]
      exact hlist b (Or.inr hb)]
    exact h.kept list fun b hb => hlist b (Or.inl hb)

/-- A property list is freed or left alone. -/
theorem attributes (h : Released R heap heap') (list : A) :
    heap'.attributes list = none ∨ heap'.attributes list = heap.attributes list := by
  by_cases hlist : ∃ a, R a ∧ heap.properties a = some list
  · obtain ⟨a, ha, hlist⟩ := hlist
    exact Or.inl (h.freed a list ha hlist)
  · exact Or.inr (h.kept list fun a ha heq => hlist ⟨a, ha, heq⟩)

/-- What is free stays free. -/
theorem attributes_none (h : Released R heap heap') {list : A}
    (hnone : heap.attributes list = none) : heap'.attributes list = none := by
  rcases h.attributes list with hfreed | hsame
  · exact hfreed
  · exact hsame.trans hnone

end Released

variable [DecidableEq A] {start : Option A} {cur : A} {rounds : ℕ} {nodes : List A}

/-- Freeing one node with its property list. -/
theorem released_node (hprops : heap.xmlFreePropList (heap.properties cur) = .ok heap')
    (hfree : heap'.xmlFree cur = .ok heap'') : Released (· = cur) heap heap'' := by
  obtain ⟨_, rfl⟩ := xmlFree_eq hfree
  have hlive : ∀ live : A → Bool, ∀ a,
      Function.update live cur false a = true ↔ live a = true ∧ ¬ a = cur := by
    intro live a
    by_cases ha : a = cur
    · simp [ha]
    · simp [ha]
  cases hlist : heap.properties cur with
  | none =>
      rw [hlist] at hprops
      obtain rfl := Outcome.pure_eq_ok.1 hprops
      refine ⟨rfl, hlive heap.live, fun a list ha hsome => ?_, fun _ _ => rfl⟩
      rw [ha, hlist] at hsome
      cases hsome
  | some list =>
      rw [hlist, xmlFreePropList] at hprops
      split at hprops
      · cases hprops
      · obtain rfl := Outcome.pure_eq_ok.1 hprops
        refine ⟨rfl, hlive heap.live, fun a other ha hsome => ?_, fun other hother => ?_⟩
        · rw [ha, hlist] at hsome
          obtain rfl := Option.some.inj hsome
          exact Function.update_self ..
        · refine Function.update_of_ne (fun heq => hother cur rfl ?_) _ _
          rw [heq, hlist]

/-- `xmlFreeNodeList` frees what the links lead to. -/
theorem xmlFreeNodeList_released (h : xmlFreeNodeList rounds heap start = .ok heap') :
    Released (Reach heap.children heap.next start) heap heap' := by
  induction rounds generalizing heap heap' start with
  | zero =>
      cases start with
      | none =>
          obtain rfl := Outcome.pure_eq_ok.1 h
          exact Released.refl fun a => not_reach_none
      | some cur => cases h
  | succ rounds ih =>
      cases start with
      | none =>
          obtain rfl := Outcome.pure_eq_ok.1 h
          exact Released.refl fun a => not_reach_none
      | some cur =>
          obtain ⟨_, _, h⟩ := Outcome.bind_eq_ok.1 h
          obtain ⟨heap1, h1, h⟩ := Outcome.bind_eq_ok.1 h
          obtain ⟨heap2, h2, h⟩ := Outcome.bind_eq_ok.1 h
          obtain ⟨heap3, h3, h⟩ := Outcome.bind_eq_ok.1 h
          have hinner := ih h1
          have hnode := hinner.trans (released_node h2 h3)
          have hrest := ih h
          rw [hnode.children_eq, hnode.next_eq] at hrest
          refine (hnode.trans hrest).congr fun a => ?_
          rw [reach_some]
          tauto

/-- `xmlFreeNode` frees the node and what the links lead to from its first child. -/
theorem xmlFreeNode_released (h : xmlFreeNode rounds heap cur = .ok heap') :
    Released (fun a => Reach heap.children heap.next (heap.children cur) a ∨ a = cur)
      heap heap' := by
  obtain ⟨_, _, h⟩ := Outcome.bind_eq_ok.1 h
  obtain ⟨heap1, h1, h⟩ := Outcome.bind_eq_ok.1 h
  obtain ⟨heap2, h2, h3⟩ := Outcome.bind_eq_ok.1 h
  exact (xmlFreeNodeList_released h1).trans (released_node h2 h3)

/-! ## Freeing a forest -/

/-- What must be allocated so that some nodes can be freed. -/
def Allocates (heap : Heap A) (nodes : List A) : Prop :=
  ∀ a ∈ nodes, heap.live a = true ∧
    ∀ list, heap.properties a = some list → heap.attributes list ≠ none

/-- No two of some nodes have the same property list. -/
def OwnLists (properties : A → Option A) (nodes : List A) : Prop :=
  ∀ a ∈ nodes, ∀ b ∈ nodes, ∀ list, properties a = some list → properties b = some list → a = b

omit [DecidableEq A] in
/-- What has been freed was other nodes, with other property lists. -/
theorem Allocates.released {others : List A} (h : Allocates heap others)
    (hfreed : Released R heap heap') (hlists : OwnLists heap.properties nodes)
    (hR : ∀ a, R a → a ∈ nodes ∧ a ∉ others) (hothers : ∀ a ∈ others, a ∈ nodes) :
    Allocates heap' others := by
  intro a ha
  obtain ⟨hlive, hattributes⟩ := h a ha
  refine ⟨(hfreed.live a).2 ⟨hlive, fun hRa => (hR a hRa).2 ha⟩, fun list hlist => ?_⟩
  rw [hfreed.properties_eq] at hlist
  rw [hfreed.kept list fun b hb hlist' => ?_]
  · exact hattributes list hlist
  · obtain rfl := hlists a (hothers a ha) b (hR b hb).1 list hlist hlist'
    exact (hR a hb).2 ha

/-- Freeing an allocated node. -/
theorem free_node_ok (h : Allocates heap [cur]) :
    ∃ heap1 heap2, heap.xmlFreePropList (heap.properties cur) = .ok heap1 ∧
      heap1.xmlFree cur = .ok heap2 := by
  obtain ⟨hlive, hattributes⟩ := h cur (List.mem_singleton_self cur)
  cases hlist : heap.properties cur with
  | none => exact ⟨heap, _, rfl, if_pos hlive⟩
  | some list =>
      obtain ⟨attributes, hsome⟩ := Option.ne_none_iff_exists'.1 (hattributes list hlist)
      refine ⟨{ heap with attributes := Function.update heap.attributes list none }, _, ?_,
        if_pos hlive⟩
      simp only [xmlFreePropList, hsome]
      rfl

/-- The node itself is still there once other nodes, with other property lists, are freed. -/
theorem free_node_after_ok (hfreed : Released R heap heap') (hR : ∀ a, R a → a ∈ nodes)
    (hcur : cur ∉ nodes) (hlists : OwnLists heap.properties (cur :: nodes))
    (halloc : Allocates heap (cur :: nodes)) :
    ∃ heap1 heap2, heap'.xmlFreePropList (heap'.properties cur) = .ok heap1 ∧
      heap1.xmlFree cur = .ok heap2 := by
  have hself : Allocates heap [cur] := fun a ha =>
    halloc a (List.mem_singleton.1 ha ▸ List.mem_cons_self ..)
  apply free_node_ok
  refine hself.released hfreed hlists (fun a ha => ?_) fun a ha => ?_
  · have hmem := hR a ha
    exact ⟨List.mem_cons_of_mem _ hmem, fun heq => hcur (List.mem_singleton.1 heq ▸ hmem)⟩
  · exact List.mem_singleton.1 ha ▸ List.mem_cons_self ..

/-- `xmlFreeNodeList` returns from a forest in which no two nodes share a property list. -/
theorem xmlFreeNodeList_ok {children next properties : A → Option A}
    (hforest : Forest children next start nodes) (hchildren : heap.children = children)
    (hnext : heap.next = next) (hproperties : heap.properties = properties)
    (hnodup : nodes.Nodup) (hlists : OwnLists properties nodes)
    (halloc : Allocates heap nodes) (hrounds : nodes.length ≤ rounds) :
    ∃ heap', xmlFreeNodeList rounds heap start = .ok heap' := by
  induction hforest generalizing heap rounds with
  | nil =>
      cases rounds with
      | zero => exact ⟨heap, rfl⟩
      | succ rounds => exact ⟨heap, rfl⟩
  | @cons cur inner rest hinner hrest ihinner ihrest =>
      obtain ⟨hcur, hnodup⟩ := List.nodup_cons.1 hnodup
      obtain ⟨hnodupInner, hnodupRest, hdisjoint⟩ := List.nodup_append'.1 hnodup
      have hsubInner : ∀ a ∈ inner, a ∈ cur :: (inner ++ rest) := fun a ha => by simp [ha]
      have hsubRest : ∀ a ∈ rest, a ∈ cur :: (inner ++ rest) := fun a ha => by simp [ha]
      have hsubCur : ∀ a ∈ cur :: inner, a ∈ cur :: (inner ++ rest) := fun a ha => by
        rcases List.mem_cons.1 ha with rfl | ha
        · exact List.mem_cons_self ..
        · exact hsubInner a ha
      have hpart : ∀ part, (∀ a ∈ part, a ∈ cur :: (inner ++ rest)) →
          Allocates heap part ∧ OwnLists properties part := fun part hsub =>
        ⟨fun a ha => halloc a (hsub a ha),
          fun a ha b hb => hlists a (hsub a ha) b (hsub b hb)⟩
      cases rounds with
      | zero => simp at hrounds
      | succ rounds =>
          rw [List.length_cons, List.length_append] at hrounds
          obtain ⟨heap1, h1⟩ := ihinner hchildren hnext hproperties hnodupInner
            (hpart inner hsubInner).2 (hpart inner hsubInner).1
            (show inner.length ≤ rounds by omega)
          have hfreed1 := xmlFreeNodeList_released h1
          rw [hchildren, hnext] at hfreed1
          obtain ⟨heap2, heap3, h2, h3⟩ := free_node_after_ok hfreed1
            (fun a ha => hinner.mem_iff.2 ha) (fun hmem => hcur (List.mem_append_left _ hmem))
            (hproperties ▸ (hpart (cur :: inner) hsubCur).2) (hpart (cur :: inner) hsubCur).1
          have hfreed3 := hfreed1.trans (released_node h2 h3)
          obtain ⟨heap4, h4⟩ : ∃ heap4, xmlFreeNodeList rounds heap3 (next cur) = .ok heap4 := by
            refine ihrest (by rw [hfreed3.children_eq, hchildren])
              (by rw [hfreed3.next_eq, hnext]) (by rw [hfreed3.properties_eq, hproperties])
              hnodupRest (hpart rest hsubRest).2 ?_ (by omega)
            refine (hpart rest hsubRest).1.released hfreed3 (hproperties ▸ hlists)
              (fun a ha => ?_) hsubRest
            rcases ha with ha | rfl
            · have hmem := hinner.mem_iff.2 ha
              exact ⟨hsubInner a hmem, fun hmem' => hdisjoint hmem hmem'⟩
            · exact ⟨List.mem_cons_self .., fun hmem => hcur (List.mem_append_right _ hmem)⟩
          refine ⟨heap4, Outcome.bind_eq_ok.2 ⟨(), ?_, ?_⟩⟩
          · exact deref_eq_ok.2 (halloc cur (List.mem_cons_self ..)).1
          · rw [hchildren, hnext]
            exact Outcome.bind_eq_ok.2 ⟨heap1, h1, Outcome.bind_eq_ok.2 ⟨heap2, h2,
              Outcome.bind_eq_ok.2 ⟨heap3, h3, h4⟩⟩⟩

/-- `xmlFreeNode` returns from a tree in which no two nodes share a property list. -/
theorem xmlFreeNode_ok (hforest : Forest heap.children heap.next (heap.children cur) nodes)
    (hnodup : (cur :: nodes).Nodup) (hlists : OwnLists heap.properties (cur :: nodes))
    (halloc : Allocates heap (cur :: nodes)) (hrounds : nodes.length ≤ rounds) :
    ∃ heap', heap.xmlFreeNode rounds cur = .ok heap' := by
  obtain ⟨hcur, hnodup⟩ := List.nodup_cons.1 hnodup
  have hsub : ∀ a ∈ nodes, a ∈ cur :: nodes := fun a ha => List.mem_cons_of_mem _ ha
  obtain ⟨heap1, h1⟩ := xmlFreeNodeList_ok hforest rfl rfl rfl hnodup
    (fun a ha b hb => hlists a (hsub a ha) b (hsub b hb)) (fun a ha => halloc a (hsub a ha)) hrounds
  obtain ⟨heap2, heap3, h2, h3⟩ := free_node_after_ok (xmlFreeNodeList_released h1)
    (fun a ha => hforest.mem_iff.2 ha) hcur hlists halloc
  refine ⟨heap3, Outcome.bind_eq_ok.2 ⟨(), ?_, ?_⟩⟩
  · exact deref_eq_ok.2 (halloc cur (List.mem_cons_self ..)).1
  · exact Outcome.bind_eq_ok.2 ⟨heap1, h1, Outcome.bind_eq_ok.2 ⟨heap2, h2, h3⟩⟩

end VaeDb.Xml.Heap
