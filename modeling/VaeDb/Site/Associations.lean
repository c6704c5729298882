import VaeDb.Site.Adoption
import VaeDb.Site.Construction

/-!
# The initialization of all associations

The items are taken in turn.  An item whose `target?` is an element gets its association, any
other is removed, and what has become of an item is known from whether its turn has come:
`removedAt` and `enteredAt` say so by the items whose turn is still to come.
`Associating.step` is one call of `initializeAssociation`, `loadXmlDoc_associated` the load.
-/

namespace VaeDb.Source

open Xml Links

variable {source : Source} {site site' : Site} {heap heap1 heap' : Heap Address}
  {removed entered : Path → Prop} {path target other : Path} {k rounds : ℕ} {todo : List Path}

/-! ## The children that an item loses -/

/-- What is below an item, except its first child. -/
def Later (source : Source) (item : Path) (a : Address) : Prop :=
  ∃ path, a = .feed path ∧ item <:+ path ∧ path ≠ item ∧ path ≠ 0 :: item ∧
    (source.feed.lookup path).isSome

theorem later_cons {item inner : Path} {j : ℕ} (hinner : item <:+ inner)
    (hother : inner ≠ item ∨ j ≠ 0) (hexists : (source.feed.lookup (j :: inner)).isSome) :
    source.Later item (kid inner j) := by
  refine ⟨j :: inner, rfl, hinner.trans (List.suffix_cons ..), fun heq => ?_, fun heq => ?_,
    hexists⟩
  · have hlength := hinner.length_le
    rw [← heq, List.length_cons] at hlength
    omega
  · injection heq with hj hpath
    exact hother.elim (fun hne => hne hpath) fun hne => hne hj

/-- Children and next pointers do not leave what is below an item after its first child. -/
theorem Shape.closed_later (hshape : source.Shape heap removed entered)
    (hitem : source.Item path) (hnot : ¬ entered path)
    (hlast : ¬ IsPointer (heap.last (.feed path))) : heap.Closed (source.Later path) := by
  rintro a ⟨inner, rfl, hinner, hne, hfirst, hlookup⟩ b (hb | hb)
  · obtain ⟨j, rfl, hj⟩ := hshape.children_below hitem.shut hnot hlast hinner hb
    exact later_cons hinner (Or.inl hne) hj
  · cases inner with
    | nil => exact absurd (List.suffix_nil.1 hinner).symm hne
    | cons i inner =>
        have hinner' : path <:+ inner :=
          (List.suffix_cons_iff.1 hinner).resolve_left fun heq => hne heq.symm
        obtain ⟨j, hlt, rfl, hj⟩ := hshape.next_below hitem.shut hnot hlast hinner' hlookup hb
        exact later_cons hinner' (Or.inr (by omega)) hj

/-- What comes after the first child of an item. -/
theorem Shape.later_next (hshape : source.Shape heap removed entered)
    (hitem : source.Item path) (hnot : ¬ entered path)
    (hlast : ¬ IsPointer (heap.last (.feed path))) (hexists : 0 < source.feed.width path)
    {a : Address} (ha : heap.next (kid path 0) = some a) : source.Later path a := by
  obtain ⟨j, hlt, rfl, hj⟩ := hshape.next_below hitem.shut hnot hlast List.suffix_rfl
    (Tree.lookup_cons_isSome.2 hexists) ha
  exact later_cons List.suffix_rfl (Or.inr (by omega)) hj

/-- Freeing the children of an item after the first one frees nothing else. -/
theorem Shape.freed_later (hshape : source.Shape heap removed entered)
    (hitem : source.Item path) (hnot : ¬ entered path)
    (hlast : ¬ IsPointer (heap.last (.feed path)))
    (hexists : 0 < source.feed.width path)
    (hprops : heap.xmlFreePropList (heap.properties (.feed path)) = .ok heap1)
    (hfree : heap1.xmlFreeNodeList rounds (heap1.next (kid path 0)) = .ok heap') :
    heap.Freed (source.Later path) heap' := by
  have hfreed : heap.Freed (source.Later path) heap1 := Heap.xmlFreePropList_freed hprops
  have hshape1 := hshape.freed hfreed
  have hlast1 : ¬ IsPointer (heap1.last (.feed path)) := by
    rw [hfreed.last_eq]
    exact hlast
  refine hfreed.trans (Heap.xmlFreeNodeList_freed (hshape1.closed_later hitem hnot hlast1)
    (fun a ha => ?_) hfree)
  exact hshape1.later_next hitem hnot hlast1 hexists ha

/-- What is allocated once the item has got its association. -/
theorem Allocated.adopt (hallocated : source.Allocated heap removed entered)
    (hfreed : heap.Freed (source.Later (k :: path)) heap1)
    (hadopted : Adopted heap1 heap' k path target) :
    source.Allocated heap' removed (andEntered entered (k :: path)) where
  live := by
    intro inner hexists hgone
    have hlater : ¬ source.Later (k :: path) (.feed inner) := by
      rintro ⟨_, heq, hbelow, hne, hfirst, _⟩
      injection heq with heq
      subst heq
      exact hgone (Or.inr ⟨k :: path, Or.inr rfl, hbelow, hne, hfirst⟩)
    have hold : ¬ Gone removed entered inner := by
      rintro (hremoved | ⟨item, hitem, hbelow⟩)
      · exact hgone (Or.inl hremoved)
      · exact hgone (Or.inr ⟨item, Or.inl hitem, hbelow⟩)
    refine (hadopted.live _).2 (Or.inl ?_)
    rw [hfreed.kept _ hlater]
    exact hallocated.live inner hexists hold
  dead := by
    intro inner hremoved
    cases hlive : heap'.live (.feed inner) with
    | false => rfl
    | true =>
        rcases (hadopted.live _).1 hlive with hlive1 | hpointer
        · have hdead := hfreed.dead (hallocated.dead inner hremoved)
          exact absurd (hlive1.symm.trans hdead) (by simp)
        · cases hpointer
  pointer := by
    intro node hnode
    rcases (hadopted.live _).1 hnode with hlive | hpointer
    · obtain ⟨item, rfl, hitem⟩ := hallocated.pointer node (hfreed.live _ hlive)
      exact ⟨item, rfl, Or.inl hitem⟩
    · injection hpointer with hpointer
      exact ⟨k :: path, hpointer, Or.inr rfl⟩

/-! ## The items in turn -/

/-- The children that have been removed when the turn of some items is still to come. -/
def removedAt (source : Source) (todo : List Path) (path : Path) : Prop :=
  source.Pruned path ∨ source.Item path ∧ path ∉ todo ∧ source.target? path = none

/-- The items that have got their association then. -/
def enteredAt (source : Source) (todo : List Path) (path : Path) : Prop :=
  source.Item path ∧ path ∉ todo ∧ source.target? path ≠ none

/-- A Site whose associations are being initialized. -/
structure Associating (source : Source) (site : Site) (todo : List Path) : Prop where
  shape : source.Shape site.heap (source.removedAt todo) (source.enteredAt todo)
  allocated : source.Allocated site.heap (source.removedAt todo) (source.enteredAt todo)
  items : ∀ item ∈ todo, source.Item item
  settled : ∀ path, source.Child path → source.Pruned path ∨ source.Visited path
  pointerNodes : ∀ node ctxt, site.contexts node = some ctxt →
    ∀ pointerNode ∈ ctxt.pointerNodes, IsPointer (some pointerNode)
  nodes : ∀ id, site.nodes id = (source.lastWithId id).map Address.feed
  permalinks : ∀ permalink,
    site.permalinks permalink = (source.lastWithPermalink permalink).map Address.feed
  rootNode : site.rootNode = .feed source.root

theorem removedAt_cons {item : Path} (htodo : item ∉ todo) (hitem : source.Item item)
    (htarget : source.target? item = none) :
    source.removedAt todo = andRemoved (source.removedAt (item :: todo)) item := by
  funext path
  refine propext ⟨?_, ?_⟩
  · rintro (hpruned | ⟨hpath, hout, hnone⟩)
    · exact Or.inl (Or.inl hpruned)
    · by_cases heq : path = item
      · exact Or.inr heq
      · exact Or.inl (Or.inr ⟨hpath, by simp [heq, hout], hnone⟩)
  · rintro ((hpruned | ⟨hpath, hout, hnone⟩) | rfl)
    · exact Or.inl hpruned
    · exact Or.inr ⟨hpath, fun hmem => hout (List.mem_cons_of_mem _ hmem), hnone⟩
    · exact Or.inr ⟨hitem, htodo, htarget⟩

theorem removedAt_cons_of_some {item : Path} (htarget : source.target? item ≠ none) :
    source.removedAt todo = source.removedAt (item :: todo) := by
  funext path
  refine propext ⟨?_, ?_⟩
  · rintro (hpruned | ⟨hpath, hout, hnone⟩)
    · exact Or.inl hpruned
    · have hne : path ≠ item := fun heq => htarget (heq ▸ hnone)
      exact Or.inr ⟨hpath, by simp [hne, hout], hnone⟩
  · rintro (hpruned | ⟨hpath, hout, hnone⟩)
    · exact Or.inl hpruned
    · exact Or.inr ⟨hpath, fun hmem => hout (List.mem_cons_of_mem _ hmem), hnone⟩

theorem enteredAt_cons {item : Path} (htodo : item ∉ todo) (hitem : source.Item item)
    (htarget : source.target? item ≠ none) :
    source.enteredAt todo = andEntered (source.enteredAt (item :: todo)) item := by
  funext path
  refine propext ⟨?_, ?_⟩
  · rintro ⟨hpath, hout, hsome⟩
    by_cases heq : path = item
    · exact Or.inr heq
    · exact Or.inl ⟨hpath, by simp [heq, hout], hsome⟩
  · rintro (⟨hpath, hout, hsome⟩ | rfl)
    · exact ⟨hpath, fun hmem => hout (List.mem_cons_of_mem _ hmem), hsome⟩
    · exact ⟨hitem, htodo, htarget⟩

/-- An item is not associated before its turn. -/
theorem not_enteredAt {item : Path} : ¬ source.enteredAt (item :: todo) item :=
  fun hentered => hentered.2.1 (List.mem_cons_self ..)

theorem enteredAt_cons_of_none {item : Path} (htarget : source.target? item = none) :
    source.enteredAt todo = source.enteredAt (item :: todo) := by
  funext path
  refine propext ⟨?_, ?_⟩
  · rintro ⟨hpath, hout, hsome⟩
    have hne : path ≠ item := fun heq => hsome (heq ▸ htarget)
    exact ⟨hpath, by simp [hne, hout], hsome⟩
  · rintro ⟨hpath, hout, hsome⟩
    exact ⟨hpath, fun hmem => hout (List.mem_cons_of_mem _ hmem), hsome⟩

/-- What is known of a run of `associate` on the item whose turn it is. -/
structure Adopting (source : Source) (rounds : ℕ) (site site' : Site) (todo : List Path) (k : ℕ)
    (path target : Path) (heap1 heap2 added : Heap Address)
    (parentAddress associatedAddress : Address) (parentContext associatedContext : Context) :
    Prop where
  run : AssociateRun rounds site site' k path target heap1 heap2 added parentAddress
    associatedAddress parentContext associatedContext
  notPointer : ¬ IsPointer (site.heap.last (.feed (k :: path)))
  freed : site.heap.Freed (source.Later (k :: path)) heap2
  associated : Associated site site' k path target heap2
  adoption : source.Adoption heap2 site'.heap (source.removedAt ((k :: path) :: todo))
    (source.enteredAt ((k :: path) :: todo)) k path target

/-- What every turn keeps holds once all items have had theirs. -/
theorem turns_ok {P : List Path → List Path → Site → Prop}
    (hstep : ∀ done item todo site site', P done (item :: todo) site →
      Site.initializeAssociation rounds site (.feed item) = .ok site' →
      P (done ++ [item]) todo site')
    (done : List Path) (h : P done todo site)
    (hrun : (todo.map Address.feed).foldlM (Site.initializeAssociation rounds) site =
      .ok site') : P (done ++ todo) [] site' := by
  rw [List.foldlM_map] at hrun
  exact Outcome.foldlM_ok hstep done h hrun

/-- What `initializeAssociation` does with an item: it gets its association, or it is removed. -/
inductive Turn (source : Source) (rounds : ℕ) (site : Site) : Path → Site → Prop
  | adopt {k : ℕ} {path target : Path} {site' : Site}
      (htarget : source.target? (k :: path) = some target)
      (hrun : Site.associate rounds site (kid path k) (.feed target) = .ok site') :
      Turn source rounds site (k :: path) site'
  | remove {k : ℕ} {path : Path} {heap1 heap' : Heap Address}
      (htarget : source.target? (k :: path) = none)
      (hunlink : site.heap.xmlUnlinkNode (kid path k) = .ok heap1)
      (hfree : heap1.xmlFreeNode rounds (kid path k) = .ok heap') :
      Turn source rounds site (k :: path)
        { site with heap := heap', contexts := Function.update site.contexts (kid path k) none }

namespace Associating

/-- The node that `Query::find` finds for an item. -/
theorem associatedNode_eq (h : source.Associating site todo) (item : Path) :
    site.associatedNode (atoi (source.feed.singleData item)) =
      (source.target? item).map Address.feed := by
  unfold Site.associatedNode target?
  split
  · exact h.nodes _
  · rfl

theorem item_turn {item : Path} (h : source.Associating site (item :: todo)) :
    source.Item item :=
  h.items _ (List.mem_cons_self ..)

theorem not_removedAt (h : source.Associating site ((k :: path) :: todo)) :
    ¬ source.removedAt ((k :: path) :: todo) (k :: path) := by
  rintro (hpruned | ⟨_, hout, _⟩)
  · exact (h.item_turn).visited.not_pruned hpruned
  · exact hout (List.mem_cons_self ..)

theorem parent_turn (h : source.Associating site ((k :: path) :: todo)) :
    site.heap.parent (kid path k) = some (.feed path) :=
  h.shape.parent k path h.item_turn.1 h.not_removedAt

/-- An item that stands for no element is removed. -/
theorem remove (h : source.Associating site ((k :: path) :: todo)) (htodo : k :: path ∉ todo)
    (htarget : source.target? (k :: path) = none)
    (hunlink : site.heap.xmlUnlinkNode (kid path k) = .ok heap1)
    (hfree : heap1.xmlFreeNode rounds (kid path k) = .ok heap') :
    source.Associating { site with
      heap := heap', contexts := Function.update site.contexts (kid path k) none } todo := by
  have hitem : source.Item (k :: path) := h.item_turn
  have hnew := h.not_removedAt
  have hnot : ¬ source.enteredAt ((k :: path) :: todo) (k :: path) := not_enteredAt
  have hlast := h.shape.not_pointer_of_remove h.allocated hitem hnew hnot hunlink hfree
  obtain ⟨hshape, hallocated, _⟩ :=
    h.shape.remove h.allocated hitem.shut hnew hnot hlast hunlink hfree
  rw [← removedAt_cons htodo hitem htarget, ← enteredAt_cons_of_none htarget]
    at hshape hallocated
  refine ⟨hshape, hallocated, fun item hmem => h.items item (List.mem_cons_of_mem _ hmem),
    h.settled, fun node ctxt hctxt => ?_, h.nodes, h.permalinks, h.rootNode⟩
  by_cases hnode : node = kid path k
  · rw [hnode] at hctxt
    simp at hctxt
  · refine h.pointerNodes node ctxt (Eq.trans ?_ hctxt)
    exact (Function.update_of_ne hnode _ _).symm

/-- The run of `associate` on an item that stands for an element. -/
theorem adopting (h : source.Associating site ((k :: path) :: todo))
    (htarget : source.target? (k :: path) = some target)
    (hrun : Site.associate rounds site (kid path k) (.feed target) = .ok site') :
    ∃ heap1 heap2 added parentAddress associatedAddress parentContext associatedContext,
      source.Adopting rounds site site' todo k path target heap1 heap2 added parentAddress
        associatedAddress parentContext associatedContext := by
  have hitem : source.Item (k :: path) := h.item_turn
  have hnew := h.not_removedAt
  have hnot : ¬ source.enteredAt ((k :: path) :: todo) (k :: path) := not_enteredAt
  obtain ⟨hvisited, hattributes⟩ := target?_spec htarget
  obtain ⟨content, htext⟩ := text_of_target? htarget
  have hwidth := width_pos_of_text htext
  have hchildren := h.shape.children_item hitem hnot hwidth
  obtain ⟨heap1, heap2, added, _, _, _, _, hrun⟩ :=
    associate_run h.parent_turn hchildren hrun
  have hlast :=
    h.shape.not_pointer_of_free h.allocated hitem hnot hchildren hrun.properties hrun.children
  have hfreed := h.shape.freed_later hitem hnot hlast hwidth hrun.properties hrun.children
  have hassociated := hrun.associated h.pointerNodes
  refine ⟨heap1, heap2, added, _, _, _, _, hrun, hlast, hfreed, hassociated, ?_⟩
  refine ⟨h.shape.freed hfreed, fun inner hremoved =>
    hfreed.dead (h.allocated.dead inner hremoved), hitem, hnew, hnot, ?_, ⟨content, htext⟩, ?_,
    hvisited, hattributes, ?_, hassociated.adopted⟩
  · rw [hfreed.last_eq]
    exact hlast
  · -- the Context of the item's parent is used, and the root node has none
    rintro rfl
    have hprivate := hrun.parent_ne_none
    rw [hfreed.private_eq] at hprivate
    exact hprivate h.shape.rootPrivate
  · intro hremoved
    have hdead := hfreed.dead (h.allocated.dead target hremoved)
    exact absurd (hrun.live.symm.trans hdead) (by simp)

/-- An item that stands for an element gets its association. -/
theorem adopt (h : source.Associating site ((k :: path) :: todo)) (htodo : k :: path ∉ todo)
    (htarget : source.target? (k :: path) = some target)
    (hrun : Site.associate rounds site (kid path k) (.feed target) = .ok site') :
    source.Associating site' todo := by
  have hitem : source.Item (k :: path) := h.item_turn
  have hsome : source.target? (k :: path) ≠ none := by simp [htarget]
  obtain ⟨_, _, _, _, _, _, _, hadopting⟩ := h.adopting htarget hrun
  have hassociated := hadopting.associated
  have hshape := hadopting.adoption.shape'
  have hallocated := h.allocated.adopt hadopting.freed hassociated.adopted
  rw [← removedAt_cons_of_some hsome, ← enteredAt_cons htodo hitem hsome] at hshape hallocated
  refine ⟨hshape, hallocated, fun item hmem => h.items item (List.mem_cons_of_mem _ hmem),
    h.settled, hassociated.pointerNodes, fun id => ?_, fun permalink => ?_, ?_⟩
  · rw [hassociated.nodes]
    exact h.nodes id
  · rw [hassociated.permalinks]
    exact h.permalinks permalink
  · rw [hassociated.rootNode]
    exact h.rootNode

/-- `initializeAssociation` goes by the target that the item has in the feed. -/
theorem initializeAssociation_eq (h : source.Associating site ((k :: path) :: todo))
    (hrun : Site.initializeAssociation rounds site (kid path k) = .ok site') :
    (match (source.target? (k :: path)).map Address.feed with
      | some associatedNode => Site.associate rounds site (kid path k) associatedNode
      | none => do
          let heap ← site.heap.xmlUnlinkNode (kid path k)
          let heap ← heap.xmlFreeNode rounds (kid path k)
          return { site with
            heap, contexts := Function.update site.contexts (kid path k) none }) = .ok site' := by
  have hitem : source.Item (k :: path) := h.item_turn
  have hnot : ¬ source.enteredAt ((k :: path) :: todo) (k :: path) := not_enteredAt
  obtain ⟨data, hdata, hrun⟩ := Outcome.bind_eq_ok.1 hrun
  obtain rfl := h.shape.getSingleData_eq hitem hnot hdata
  rw [h.associatedNode_eq] at hrun
  exact hrun

/-- The turn of an item is one of the two. -/
theorem turn {item : Path} (h : source.Associating site (item :: todo))
    (hrun : Site.initializeAssociation rounds site (.feed item) = .ok site') :
    source.Turn rounds site item site' := by
  cases item with
  | nil => exact (h.item_turn).1.elim
  | cons k path =>
      have hrun := h.initializeAssociation_eq hrun
      cases htarget : source.target? (k :: path) with
      | some target =>
          simp only [htarget, Option.map_some] at hrun
          exact .adopt htarget hrun
      | none =>
          simp only [htarget, Option.map_none] at hrun
          obtain ⟨heap1, hunlink, hrun⟩ := Outcome.bind_eq_ok.1 hrun
          obtain ⟨heap', hfree, hrun⟩ := Outcome.bind_eq_ok.1 hrun
          obtain rfl := Outcome.pure_eq_ok.1 hrun
          exact .remove htarget hunlink hfree

/-- `initializeAssociation` of the item whose turn it is. -/
theorem step {item : Path} (h : source.Associating site (item :: todo)) (htodo : item ∉ todo)
    (hrun : Site.initializeAssociation rounds site (.feed item) = .ok site') :
    source.Associating site' todo := by
  cases h.turn hrun with
  | adopt htarget hrun => exact h.adopt htodo htarget hrun
  | remove htarget hunlink hfree => exact h.remove htodo htarget hunlink hfree

/-- All of them, in the order of the list. -/
theorem foldlM (h : source.Associating site todo) (hnodup : todo.Nodup)
    (hrun : (todo.map Address.feed).foldlM (Site.initializeAssociation rounds) site =
      .ok site') : source.Associating site' [] := by
  have hall := turns_ok
    (P := fun _ todo site => source.Associating site todo ∧ todo.Nodup)
    (fun _ item todo _ _ hold hnext => ?_) [] ⟨h, hnodup⟩ hrun
  · exact hall.1
  · obtain ⟨hitem, hrest⟩ := List.nodup_cons.1 hold.2
    exact ⟨hold.1.step hitem hnext, hrest⟩

end Associating

/-! ## The whole load -/

/-- The association items, in the order of their turns. -/
def items (source : Source) : List Path := source.visited.filter source.isItem

theorem mem_items {item : Path} : item ∈ source.items ↔ source.Item item := by
  constructor
  · intro hmem
    obtain ⟨hvisited, hassociation⟩ := List.mem_filter.1 hmem
    obtain ⟨hchild, ctxt, hctxt⟩ := mem_visited.1 hvisited
    unfold isItem at hassociation
    rw [context?_eq hctxt] at hassociation
    exact ⟨hchild, ctxt, hctxt, hassociation⟩
  · rintro ⟨hchild, ctxt, hctxt, hassociation⟩
    refine List.mem_filter.2 ⟨mem_visited.2 ⟨hchild, ctxt, hctxt⟩, ?_⟩
    unfold isItem
    rw [context?_eq hctxt]
    exact hassociation

theorem nodup_items : source.items.Nodup := nodup_visited.filter _

/-- After the construction of the Contexts all items are still to come. -/
theorem Built.removed_eq (h : source.Built site removed) :
    removed = source.removedAt source.items := by
  funext path
  refine propext ⟨fun hremoved => Or.inl (h.constructing.pruned path hremoved), ?_⟩
  rintro (hpruned | ⟨hitem, hout, _⟩)
  · refine (h.settled path hpruned.1).resolve_right fun hvisited => ?_
    exact hvisited.not_pruned hpruned
  · exact absurd (mem_items.2 hitem) hout

theorem enteredAt_items : (fun _ => False) = source.enteredAt source.items := by
  funext path
  exact propext ⟨False.elim, fun hitem => hitem.2.1 (mem_items.2 hitem.1)⟩

theorem Built.associating (h : source.Built site removed) :
    source.Associating site source.items := by
  refine ⟨?_, ?_, fun item hmem => mem_items.1 hmem, fun path hchild => ?_,
    fun node ctxt hctxt => ?_, h.nodes, h.permalinks, h.rootNode⟩
  · rw [← h.removed_eq, ← enteredAt_items]
    exact h.constructing.shape
  · rw [← h.removed_eq, ← enteredAt_items]
    exact h.constructing.allocated
  · exact (h.settled path hchild).imp_left (h.constructing.pruned path)
  · intro pointerNode hmem
    rw [h.constructing.contexts node ctxt hctxt] at hmem
    cases hmem

/-- Every load that returns is the load of a `Source`: its root is the only content node. -/
theorem source_of_loadXmlDoc {surroundings : Surroundings} {feed : Tree}
    (hload : Site.loadXmlDoc surroundings rounds (some feed) = .ok site) :
    ∃ source : Source, source.surroundings = surroundings ∧ source.feed = feed ∧
      feed.website "content" = [source.root] := by
  unfold Site.loadXmlDoc at hload
  simp only at hload
  split at hload
  · next root hroot =>
    have hmem : root ∈ feed.website "content" := by rw [hroot]; exact List.mem_singleton_self _
    obtain ⟨_, _, helement⟩ := Tree.website_eq hmem
    exact ⟨⟨surroundings, feed, root, helement⟩, rfl, rfl, hroot⟩
  · cases hload

/-- What a load that returns goes through. -/
theorem loadXmlDoc_run (hroot : source.feed.website "content" = [source.root])
    (hload : Site.loadXmlDoc source.surroundings rounds (some source.feed) = .ok site) :
    ∃ built initialized generation,
      Site.constructContexts source.surroundings rounds (Site.parsed source.feed source.root) =
        .ok built ∧
      built.associationsToInitialize.foldlM (Site.initializeAssociation rounds) built =
        .ok initialized ∧
      site = { initialized with associationsToInitialize := [], generation } := by
  unfold Site.loadXmlDoc at hload
  simp only [hroot] at hload
  split at hload
  · obtain ⟨built, hbuilt, hload⟩ := Outcome.bind_eq_ok.1 hload
    obtain ⟨associated, hassociated, hload⟩ := Outcome.bind_eq_ok.1 hload
    obtain ⟨initialized, hinitialized, hassociated⟩ := Outcome.bind_eq_ok.1 hassociated
    obtain rfl := Outcome.pure_eq_ok.1 hassociated
    split at hload
    · obtain rfl := Outcome.pure_eq_ok.1 hload
      exact ⟨built, initialized, _, hbuilt, hinitialized, rfl⟩
    · cases hload
  · cases hload

/-- A load that returns has initialized all associations. -/
theorem loadXmlDoc_associated (hroot : source.feed.website "content" = [source.root])
    (hload : Site.loadXmlDoc source.surroundings rounds (some source.feed) = .ok site) :
    source.Associating site [] := by
  obtain ⟨built, initialized, generation, hbuilt, hinitialized, rfl⟩ := loadXmlDoc_run hroot hload
  obtain ⟨removed, hbuilt⟩ := constructContexts_built hbuilt
  rw [hbuilt.associations] at hinitialized
  have h := hbuilt.associating.foldlM nodup_items hinitialized
  exact ⟨h.shape, h.allocated, h.items, h.settled, h.pointerNodes, h.nodes, h.permalinks,
    h.rootNode⟩

end VaeDb.Source
