import VaeDb.Site.Published

/-!
# Entries of nodes that are gone

The constructor of `Context` makes the entries of an association item like those of any other
element, and `initializeAssociation` frees an item whose target is missing without a look at
the entries.  All entries of a load are elements that are still linked exactly if no such
item has one (`loadXmlDoc_linked_iff`).
-/

namespace VaeDb

open Xml Links

/-- A node is linked in the document at or below a node: its parent is, and has it in its
child list. -/
inductive Linked (heap : Heap Address) (root : Address) : Address → Prop
  | root : Linked heap root root
  | child {parent a : Address} (hparent : Linked heap root parent)
      (hlink : heap.parent a = some parent)
      (hlist : Leads heap.next (heap.children parent) a) : Linked heap root a

/-- What an entry of `nodes` or `permalinks` should be. -/
structure LinkedElement (site : Site) (node : Address) : Prop where
  live : site.heap.live node = true
  element : site.heap.type node = .element
  linked : Linked site.heap site.rootNode node

namespace Source

variable {source : Source} {site : Site} {path : Path} {node : Address} {rounds : ℕ}

/-- An association item whose target is missing: its text is not the id of an element. -/
def Missing (source : Source) (path : Path) : Prop :=
  source.Item path ∧ source.target? path = none

namespace Associating

variable (h : source.Associating site [])

include h

/-- Nothing is freed at or above an element that keeps its Context, if it is not removed. -/
theorem live_of_visited (hvisited : source.Visited path)
    (hkept : ¬ source.removedAt [] path) : site.heap.live (.feed path) = true := by
  refine h.allocated.live path hvisited.exists ?_
  rintro (⟨outer, hremoved, houter⟩ | ⟨item, hentered, hbelow, hne, _⟩)
  · have hshut := h.shape.removed_shut outer hremoved
    exact hkept (hshut.eq_of_suffix hvisited.1 houter ▸ hremoved)
  · exact hne (hentered.1.shut.eq_of_suffix hvisited.1 hbelow).symm

/-- A child that is not removed is in the list of its parent. -/
theorem linked_child {k : ℕ} (hchild : source.Child (k :: path))
    (hkept : ¬ source.removedAt [] (k :: path))
    (hparent : Linked site.heap site.rootNode (.feed path)) :
    Linked site.heap site.rootNode (.feed (k :: path)) := by
  obtain ⟨kids, stop, hlisted, _⟩ := h.shape.list hchild.1
  have hmem : k ∈ kids := (hlisted.mem k).2 ⟨hchild.lt_width, hkept⟩
  exact .child hparent (h.shape.parent k path hchild hkept)
    (hlisted.segment.leads (List.mem_map_of_mem hmem))

/-- Opened elements are not removed, so all of them are linked. -/
theorem linked_of_opened (hopened : source.Opened path) :
    Linked site.heap site.rootNode (.feed path) := by
  induction hopened with
  | root =>
      rw [h.rootNode]
      exact .root
  | @child i path ctxt hparent helement hctxt hopen ih =>
      refine h.linked_child ⟨hparent, helement⟩ (fun hremoved => ?_) ih
      have hshut := h.shape.removed_shut _ hremoved
      exact hshut.2 (.child hparent helement hctxt hopen)

theorem linkedElement_of_visited (hvisited : source.Visited path)
    (hkept : ¬ source.removedAt [] path) : LinkedElement site (.feed path) := by
  refine ⟨h.live_of_visited hvisited hkept, ?_, ?_⟩
  · exact (h.shape.type path).trans hvisited.1.element
  · cases path with
    | nil => exact hvisited.1.elim
    | cons k path =>
        exact h.linked_child hvisited.1 hkept (h.linked_of_opened hvisited.1.1)

/-- An element with an entry is as it should be unless it is an item that was removed. -/
theorem linkedElement_iff (hvisited : source.Visited path) :
    LinkedElement site (.feed path) ↔ ¬ source.Missing path := by
  constructor
  · intro hlinked hmissing
    refine h.kept_of_live hlinked.live (Or.inr ?_)
    exact ⟨hmissing.1, List.not_mem_nil, hmissing.2⟩
  · intro hnot
    refine h.linkedElement_of_visited hvisited ?_
    rintro (hpruned | ⟨hitem, _, hnone⟩)
    · exact hvisited.not_pruned hpruned
    · exact hnot ⟨hitem, hnone⟩

end Associating

/-- After a load, all entries of `nodes` and `permalinks` are elements that are still linked
in the document if and only if no item whose target is missing is the last element with its
id, or the last one with its permalink. -/
theorem loadXmlDoc_linked_iff (hroot : source.feed.website "content" = [source.root])
    (hload : Site.loadXmlDoc source.surroundings rounds (some source.feed) = .ok site) :
    ((∀ id node, site.nodes id = some node → LinkedElement site node) ∧
      ∀ permalink node, site.permalinks permalink = some node → LinkedElement site node) ↔
    ∀ item, source.Missing item → (∀ id, source.lastWithId id ≠ some item) ∧
      ∀ permalink, source.lastWithPermalink permalink ≠ some item := by
  have h := loadXmlDoc_associated hroot hload
  constructor
  · intro hentries item hmissing
    have hnot : ¬ LinkedElement site (.feed item) := fun hlinked =>
      (h.linkedElement_iff hmissing.1.visited).1 hlinked hmissing
    refine ⟨fun id hid => hnot (hentries.1 id _ ?_),
      fun permalink hpermalink => hnot (hentries.2 permalink _ ?_)⟩
    · rw [h.nodes, hid]
      rfl
    · rw [h.permalinks, hpermalink]
      rfl
  · intro hnone
    constructor
    · intro id node hnode
      obtain ⟨path, rfl, hlast, hvisited⟩ := h.visited_of_nodes hnode
      exact (h.linkedElement_iff hvisited).2 fun hmissing => (hnone path hmissing).1 id hlast
    · intro permalink node hnode
      obtain ⟨path, rfl, hlast, hvisited⟩ := h.visited_of_permalinks hnode
      exact (h.linkedElement_iff hvisited).2 fun hmissing =>
        (hnone path hmissing).2 permalink hlast

end Source

/-- The items of the two authors are the only ones with entries, and neither target is
missing. -/
theorem loadXmlDoc_linked_articles :
    ∃ site, Site.loadXmlDoc articles.surroundings 9 (some articles.feed) = .ok site ∧
      (∀ id node, site.nodes id = some node → LinkedElement site node) ∧
      ∀ permalink node, site.permalinks permalink = some node → LinkedElement site node := by
  have hresolved : articles.visited.all (fun item =>
      !articles.isItem item || (articles.target? item).isSome) = true := rfl
  have hpresent : ∀ item ∈ articles.visited, ¬ articles.Missing item := by
    intro item hmem hmissing
    obtain ⟨⟨_, ctxt, hctxt, hassociation⟩, hnone⟩ := hmissing
    have hitem : articles.isItem item = true := by
      unfold Source.isItem
      rw [Source.context?_eq hctxt]
      exact hassociation
    have hsome := List.all_eq_true.1 hresolved item hmem
    rw [hitem, hnone] at hsome
    cases hsome
  refine ⟨_, rfl, (Source.loadXmlDoc_linked_iff rfl
    (show Site.loadXmlDoc articles.surroundings 9 _ = _ from rfl)).2 fun item hmissing => ?_⟩
  refine ⟨fun id hid => hpresent item ?_ hmissing,
    fun permalink hpermalink => hpresent item ?_ hmissing⟩
  · exact List.mem_reverse.1 (List.mem_of_find?_eq_some hid)
  · exact List.mem_reverse.1 (List.mem_of_find?_eq_some hpermalink)

/-- An author whose item, with an id of its own, stands for an article that is not there. -/
def noArticle : Source where
  surroundings := production
  feed := website [withId "author" "2"
    [.element "item" [⟨"id", some "7"⟩, ⟨"type", some "9"⟩] [.text "1"]]]
  root := [0]
  root_element := rfl

theorem loadXmlDoc_dangling :
    ∃ site, Site.loadXmlDoc noArticle.surroundings 9 (some noArticle.feed) = .ok site ∧
      site.nodes 7 = some (.feed [0, 0, 0]) ∧ site.heap.live (.feed [0, 0, 0]) = false := by
  have hrun : (fun site : Site => (site.nodes 7, site.heap.live (.feed [0, 0, 0]))) <$>
      Site.loadXmlDoc noArticle.surroundings 9 (some noArticle.feed) =
        .ok (some (.feed [0, 0, 0]), false) := by decide +kernel
  obtain ⟨site, hload, hsite⟩ := Outcome.map_eq_ok.1 hrun
  exact ⟨site, hload, congrArg Prod.fst hsite, congrArg Prod.snd hsite⟩

end VaeDb
