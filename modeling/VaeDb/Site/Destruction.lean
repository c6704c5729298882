import VaeDb.Site.Liveness
import VaeDb.Site.Orphans
import VaeDb.Site.Restoration

/-!
# The destruction of a Site

After a load the nodes are a graph with shared and cyclic child lists.  `~Site` gets a tree
back and frees every Context, node and property list once exactly if no item stands for an item
(`loadXmlDoc_tornDown_iff`).  Otherwise a pointer node is left that nothing leads to.
-/

namespace VaeDb

open Xml Links

/-- A node has a link to another one. -/
def Refers (heap : Heap Address) (a b : Address) : Prop :=
  heap.parent a = some b ∨ heap.children a = some b ∨ heap.last a = some b ∨
    heap.next a = some b ∨ heap.prev a = some b

/-- What a Site should be after the two loops of `~Site`. -/
structure Restored (site : Site) : Prop where
  single : ∀ a parent other, site.heap.live parent = true → site.heap.live other = true →
    Leads site.heap.next (site.heap.children parent) a →
    Leads site.heap.next (site.heap.children other) a → parent = other
  nodes : ∀ a b, site.heap.live a = true → Refers site.heap a b → site.heap.live b = true
  properties : ∀ a list, site.heap.live a = true → site.heap.properties a = some list →
    site.heap.attributes list ≠ none
  contexts : ∀ address ctxt, site.contexts address = some ctxt →
    ∃! node, LinkedElement site node ∧ node ≠ site.rootNode ∧
      site.heap._private node = some address

/-- What a Site should be after `~Site`. -/
structure Emptied (site : Site) : Prop where
  contexts : ∀ address, site.contexts address = none
  nodes : ∀ a, site.heap.live a = false
  properties : ∀ list, site.heap.attributes list = none

/-- `~Site` gets a tree back, and then frees every Context, node and property list once. -/
structure TornDown (site : Site) : Prop where
  restored : ∃ cleaned, site.cleanUp = .ok cleaned ∧ Restored cleaned
  emptied : ∃ rounds destroyed, site.destructor rounds = .ok destroyed ∧ Emptied destroyed

namespace Source

variable {source : Source} {site destroyed : Site} {path item : Path} {a b : Address}
  {rounds : ℕ} {done : List Path}

/-! ## With a tree -/

namespace Tied

variable (h : source.Tied site done [])

include h

theorem cleanUp_ok : ∃ cleaned, site.cleanUp = .ok cleaned := by
  have hrecorded := h.arranged.recorded
  obtain ⟨heap1, h1⟩ : ∃ heap1, Site.cleanNodes site.nodesToClean site.heap = .ok heap1 := by
    refine Site.cleanNodes_ok fun node hnode => ?_
    obtain ⟨item, hitem, rfl⟩ := hrecorded.mem_nodesToClean.1 hnode
    exact hrecorded.pointer_live item hitem
  obtain rfl := Site.cleanNodes_eq h1
  obtain ⟨heap2, h2⟩ : ∃ heap2, Site.cleanNodes2 site.nodesToClean2
      (Site.cleaned1 site.nodesToClean site.heap) = .ok heap2 := by
    refine Site.cleanNodes2_ok fun node hnode => ?_
    obtain ⟨item, hitem, rfl⟩ := hrecorded.mem_nodesToClean2.1 hnode
    have hfirst := hrecorded.live_first hitem
    refine ⟨hrecorded.live_parent hfirst, fun child hchild => ?_⟩
    have hsame : site.heap.children (.feed item) = some child :=
      (hrecorded.clean_children item).symm.trans hchild
    rw [(hrecorded.associating.shape.items item hitem).children] at hsame
    exact Option.some.inj hsame ▸ hfirst
  exact ⟨_, Outcome.bind_eq_ok.2 ⟨_, h1, Outcome.bind_eq_ok.2 ⟨_, h2, rfl⟩⟩⟩

/-- The child list of an opened element has the opened elements in it. -/
theorem leads_opened {i : ℕ} (hopened : source.Opened path)
    (hchild : source.Opened (i :: path)) :
    Leads site.cleanHeap.next (site.cleanHeap.children (.feed path)) (kid path i) ∧
      site.cleanHeap.parent (kid path i) = some (.feed path) := by
  have hrecorded := h.arranged.recorded
  have hlive := hrecorded.live_opened hopened
  have hmem : kid path i ∈ source.cleanList done (.feed path) := by
    rw [cleanList_other fun hentered => hentered.1.shut.2 hopened]
    refine kid_mem_childList.2 ⟨rfl, mem_keptKids.2 ⟨?_, fun hremoved => ?_⟩⟩
    · exact Tree.lookup_cons_isSome.1 (Tree.lookup_isSome_of_element hchild.element)
    · exact (hrecorded.associating.shape.removed_shut _ hremoved).2 hchild
  exact ⟨(h.childLists.segment _ hlive).leads hmem, h.parent_of_mem hlive hmem⟩

/-- Opened elements are linked below the root node. -/
theorem linked_opened (hopened : source.Opened path) :
    Linked site.cleanHeap (.feed source.root) (.feed path) := by
  induction hopened with
  | root => exact .root
  | child hparent helement hctxt hopen ih =>
      obtain ⟨hleads, hback⟩ := h.leads_opened hparent (.child hparent helement hctxt hopen)
      exact .child ih hback hleads

theorem reach_opened (hopened : source.Opened path) (hne : path ≠ source.root) :
    Reach site.cleanHeap.children site.cleanHeap.next
      (site.cleanHeap.children (.feed source.root)) (.feed path) := by
  induction hopened with
  | root => exact absurd rfl hne
  | @child i path ctxt hparent helement hctxt hopen ih =>
      have hleads : Reach site.cleanHeap.children site.cleanHeap.next
          (site.cleanHeap.children (.feed path)) (kid path i) :=
        (h.leads_opened hparent (.child hparent helement hctxt hopen)).1.reach
      by_cases hroot : path = source.root
      · exact hroot ▸ hleads
      · exact (ih hroot).below hleads

/-- The two loops give a tree back. -/
theorem restored : Restored site.cleaned := by
  have hrecorded := h.arranged.recorded
  constructor
  case single =>
    intro a parent other hparent hother hleads hleads'
    exact h.childLists.owner_unique hparent hother
      ((h.childLists.segment parent hparent).mem_of_leads hleads)
      ((h.childLists.segment other hother).mem_of_leads hleads')
  case nodes =>
    intro a b ha hrefers
    obtain ⟨hparent, _, hprev⟩ := hrecorded.accounted.document
    rcases hrefers with hb | hb
    · obtain ⟨parent, hlive, hmem⟩ := h.exists_parent ha fun heq => by
        have hdocument : site.heap.parent a = some b := hb
        rw [heq, hparent] at hdocument
        cases hdocument
      exact Option.some.inj ((h.parent_of_mem hlive hmem).symm.trans hb) ▸ hlive
    · exact h.nested.owner_of_link ha hprev hb
  case properties =>
    intro a list ha hlist
    exact h.listing.allocated a list ha hlist
  case contexts =>
    intro address ctxt hctxt
    obtain ⟨path, rfl, hopened, hne⟩ := h.context_opened hctxt
    have hroot : site.rootNode = .feed source.root := hrecorded.associating.rootNode
    refine ⟨.feed path, ⟨⟨hrecorded.live_opened hopened, ?_, ?_⟩, ?_, ?_⟩, ?_⟩
    · exact (hrecorded.associating.shape.type path).trans hopened.element
    · show Linked _ site.rootNode _
      rw [hroot]
      exact h.linked_opened hopened
    · show _ ≠ site.rootNode
      rw [hroot]
      exact fun heq => hne (by injection heq)
    · exact h.private_opened hopened hne
    · rintro node ⟨hlinked, _, hprivate⟩
      exact (h.private_eq hlinked.live hprivate).1.symm

/-- `freeContexts` deletes all Contexts. -/
theorem freeContexts_ok : ∃ bound, ∀ rounds, bound ≤ rounds → ∃ freed,
    Site.freeContexts rounds site.cleaned site.rootNode = .ok freed ∧
      freed.heap = site.cleanHeap ∧ ∀ address, freed.contexts address = none := by
  have hrecorded := h.arranged.recorded
  have hshape := hrecorded.associating.shape
  have hroot : site.rootNode = .feed source.root := hrecorded.associating.rootNode
  have hlive : site.heap.live (.feed source.root) = true := hrecorded.live_opened .root
  obtain ⟨nodes, hforest, hnodup, hmem⟩ := h.nested.forest_below hlive
  have hleaf : ∀ a ∈ nodes, site.cleanHeap.type a ≠ .element →
      site.cleanHeap.children a = none ∧ site.cleanHeap._private a = none := by
    intro a ha htype
    rcases hrecorded.live_cases (hmem a ha) with ⟨path, rfl, _⟩ | ⟨item, rfl, hitem⟩
    · have hother : ¬ source.Element path := fun helement =>
        htype ((hshape.type path).trans helement)
      refine ⟨(hrecorded.clean_children path).trans (hshape.leaf path hother), ?_⟩
      rw [hrecorded.clean_private fun hentered => hother hentered.1.1.element]
      exact hrecorded.no_context path fun hvisited => hother hvisited.1.element
    · have hpointer := hrecorded.clean_pointer hitem
      exact ⟨hpointer.1, hpointer.2.2.2⟩
  have hone : (nodes.filterMap site.cleanHeap._private).Nodup := by
    refine List.pairwise_filterMap.2 (hnodup.imp_of_mem fun ha hb hne address haddress other
      hother heq => hne ?_)
    rw [← (h.private_eq (hmem _ ha) haddress).1, ← (h.private_eq (hmem _ hb) hother).1, heq]
  have hcontexts : ∀ address ∈ nodes.filterMap site.cleanHeap._private,
      site.contexts address ≠ none := by
    intro address haddress
    obtain ⟨a, ha, hsome⟩ := List.mem_filterMap.1 haddress
    obtain ⟨rfl, path, rfl, hopened, hne⟩ := h.private_eq (hmem a ha) hsome
    obtain ⟨ctxt, hctxt, _⟩ := hrecorded.contexts path hopened hne
    rw [hctxt]
    simp
  refine ⟨nodes.length, fun rounds hrounds => ?_⟩
  have hrun : Site.freeContextsFrom rounds site.cleaned
      (site.cleanHeap.children (.feed source.root)) =
        .ok (site.cleaned.withoutContexts (nodes.filterMap site.cleanHeap._private)) :=
    Site.freeContextsFrom_ok hforest rfl hmem hleaf hone hcontexts hrounds
  refine ⟨site.cleaned.withoutContexts (nodes.filterMap site.cleanHeap._private), ?_, rfl,
    fun address => ?_⟩
  · rw [hroot]
    exact Outcome.bind_eq_ok.2 ⟨(), Heap.deref_eq_ok.2 hlive, hrun⟩
  · refine Option.eq_none_iff_forall_ne_some.2 fun ctxt hctxt => ?_
    have hnot : address ∉ nodes.filterMap site.cleanHeap._private := by
      intro hmem'
      have hnone : (site.cleaned.withoutContexts
        (nodes.filterMap site.cleanHeap._private)).contexts address = none := if_pos hmem'
      rw [hnone] at hctxt
      cases hctxt
    have hold : site.contexts address = some ctxt := (if_neg hnot).symm.trans hctxt
    obtain ⟨path, rfl, hopened, hne⟩ := h.context_opened hold
    refine hnot (List.mem_filterMap.2 ⟨.feed path, ?_, h.private_opened hopened hne⟩)
    exact hforest.mem_iff.2 (h.reach_opened hopened hne)

/-- `~Site` frees everything once. -/
theorem destructor_ok : ∃ rounds destroyed, site.destructor rounds = .ok destroyed ∧
    Emptied destroyed := by
  obtain ⟨cleaned, hclean⟩ := h.cleanUp_ok
  obtain rfl := Site.cleanUp_eq hclean
  obtain ⟨bound, hcontexts⟩ := h.freeContexts_ok
  obtain ⟨bound', hnodes⟩ := h.nested.xmlFreeNodeList_ok h.listing
  obtain ⟨freed, hfree, hheap, hnone⟩ := hcontexts (max bound bound') (Nat.le_max_left ..)
  obtain ⟨heap', hdoc, hdead, hlists⟩ := hnodes (max bound bound') (Nat.le_max_right ..)
  refine ⟨max bound bound', { freed with heap := heap', nodes := fun _ => none }, ?_,
    ⟨hnone, hdead, hlists⟩⟩
  refine Outcome.bind_eq_ok.2 ⟨_, hclean, Outcome.bind_eq_ok.2 ⟨freed, hfree, ?_⟩⟩
  rw [hheap]
  exact Outcome.bind_eq_ok.2 ⟨heap', hdoc, rfl⟩

theorem tornDown : TornDown site where
  restored := by
    obtain ⟨cleaned, hclean⟩ := h.cleanUp_ok
    obtain rfl := Site.cleanUp_eq hclean
    exact ⟨_, hclean, h.restored⟩
  emptied := h.destructor_ok

end Tied

/-! ## With an orphan -/

/-- Nothing leads to the orphan when the document is freed. -/
theorem Orphaned.not_tornDown (h : source.Orphaned site [] item)
    (hrecorded : source.Recorded site done []) : ¬ TornDown site := by
  rintro ⟨_, rounds, destroyed, hrun, hempty⟩
  obtain ⟨cleaned, hclean, hrun⟩ := Outcome.bind_eq_ok.1 hrun
  obtain rfl := Site.cleanUp_eq hclean
  obtain ⟨freed, hfree, hrun⟩ := Outcome.bind_eq_ok.1 hrun
  obtain ⟨heap', hdoc, hrun⟩ := Outcome.bind_eq_ok.1 hrun
  obtain rfl := Outcome.pure_eq_ok.1 hrun
  obtain ⟨_, _, hfrom⟩ := Outcome.bind_eq_ok.1 hfree
  have hheap : freed.heap = site.cleanHeap := Site.freeContextsFrom_heap hfrom
  have hreleased := Heap.xmlFreeNodeList_released hdoc
  rw [hheap] at hreleased
  have hlive : heap'.live (.pointer (.feed item)) = true := by
    refine (hreleased.live _).2 ⟨hrecorded.pointer_live item h.entered, fun hreach => ?_⟩
    refine hreach.closed (G := fun a => a ≠ .pointer (.feed item))
      (fun a ha => by rw [← Option.some.inj ha]; simp) (fun a b _ hedge heq => ?_) rfl
    subst heq
    rcases hedge with hb | hb
    · -- the clean-up sets no first child
      by_cases hmem : a ∈ site.nodesToClean
      · have hnone : site.cleanHeap.children a = none := if_pos hmem
        rw [hnone] at hb
        cases hb
      · exact h.children a ((if_neg hmem).symm.trans hb)
    · -- and takes the next siblings from the first children of items
      by_cases hfirst : ∃ other, source.enteredAt [] other ∧ a = kid other 0
      · obtain ⟨other, hother, rfl⟩ := hfirst
        rw [hrecorded.clean_next_first hother] at hb
        cases hb
      · have hsame := hrecorded.clean_next fun other hother heq => hfirst ⟨other, hother, heq⟩
        exact hfirst (h.next a (hsame.symm.trans hb))
  exact absurd (hlive.symm.trans (hempty.nodes _)) (by simp)

/-! ## After a load -/

/-- What is known of a Site does not depend on its generation and on the associations that are
to be initialized. -/
theorem Recorded.reset (h : source.Recorded site done []) (generation : ℤ) :
    source.Recorded { site with associationsToInitialize := [], generation } done [] where
  associating := ⟨h.associating.shape, h.associating.allocated, h.associating.items,
    h.associating.settled, h.associating.pointerNodes, h.associating.nodes,
    h.associating.permalinks, h.associating.rootNode⟩
  items := h.items
  accounted := h.accounted
  pointer_live := h.pointer_live
  own_context := h.own_context
  no_context := h.no_context
  contexts := h.contexts
  context_visited := h.context_visited
  nodesToClean := h.nodesToClean
  nodesToClean2 := h.nodesToClean2

theorem Tied.reset (h : source.Tied site done []) (generation : ℤ) :
    source.Tied { site with associationsToInitialize := [], generation } done [] where
  arranged := ⟨h.arranged.recorded.reset generation, h.arranged.opened, h.arranged.childLists⟩
  parent := h.parent
  first := h.first
  children := h.children
  next := h.next
  last := h.last

section load

variable (hroot : source.feed.website "content" = [source.root])
  (hload : Site.loadXmlDoc source.surroundings rounds (some source.feed) = .ok site)

include hroot hload

theorem tornDown_of_load (hnone : ∀ item target, source.Item item →
    source.target? item = some target → ¬ source.Item target) : TornDown site := by
  obtain ⟨built, initialized, generation, hbuilt, hrun, rfl⟩ := loadXmlDoc_run hroot hload
  obtain ⟨removed, hshaped, hnoted⟩ := constructContexts_noted hbuilt
  rw [hshaped.associations] at hrun
  have hopened : ∀ item ∈ source.items, ∀ target, source.target? item = some target →
      source.Opened target := fun item hitem target htarget =>
    opened_of_target? hnone (mem_items.1 hitem) htarget
  exact (((tied_built hshaped hnoted).foldlM hopened hrun).reset generation).tornDown

theorem not_tornDown_of_load {target : Path} (hitem : source.Item item)
    (htarget : source.target? item = some target) (htargetItem : source.Item target) :
    ¬ TornDown site := by
  obtain ⟨built, initialized, generation, hbuilt, hrun, rfl⟩ := loadXmlDoc_run hroot hload
  obtain ⟨removed, hshaped, hnoted⟩ := constructContexts_noted hbuilt
  rw [hshaped.associations] at hrun
  have htied := tied_built hshaped hnoted
  obtain ⟨other, horphan⟩ :=
    htied.exists_orphan ⟨item, mem_items.2 hitem, target, htarget, htargetItem⟩ hrun
  have hrecorded := (htied.arranged.recorded.foldlM hrun).reset generation
  have horphan' : source.Orphaned
      { initialized with associationsToInitialize := [], generation } [] other :=
    ⟨horphan.entered, horphan.children, horphan.next⟩
  exact horphan'.not_tornDown hrecorded

end load

/-- `~Site` takes down what a load has made if and only if no item stands for an item. -/
theorem loadXmlDoc_tornDown_iff (hroot : source.feed.website "content" = [source.root])
    (hload : Site.loadXmlDoc source.surroundings rounds (some source.feed) = .ok site) :
    TornDown site ↔ ∀ item target, source.Item item → source.target? item = some target →
      ¬ source.Item target := by
  constructor
  · intro htorn item target hitem htarget htargetItem
    exact not_tornDown_of_load hroot hload hitem htarget htargetItem htorn
  · exact tornDown_of_load hroot hload

end Source

/-- The items of the two authors stand for an article. -/
theorem loadXmlDoc_tornDown_articles :
    ∃ site, Site.loadXmlDoc articles.surroundings 9 (some articles.feed) = .ok site ∧
      TornDown site :=
  ⟨_, rfl, (Source.loadXmlDoc_tornDown_iff rfl
    (show Site.loadXmlDoc articles.surroundings 9 _ = _ from rfl)).2
      fun _ _ => articles_target_not_item⟩

/-- An author whose item, with an id of its own, stands for an article, and another author whose
item stands for this item. -/
def secondHand : Source where
  surroundings := production
  feed := website [withId "article" "1" [.text "a"],
    withId "author" "2" [.element "item" [⟨"id", some "7"⟩, ⟨"type", some "9"⟩] [.text "1"]],
    withId "author" "3" [itemFor "7"]]
  root := [0]
  root_element := rfl

theorem loadXmlDoc_secondHand :
    ∃ site, Site.loadXmlDoc secondHand.surroundings 9 (some secondHand.feed) = .ok site ∧
      ¬ TornDown site := by
  have hrun : (fun _ => ()) <$>
      Site.loadXmlDoc secondHand.surroundings 9 (some secondHand.feed) = .ok () := by
    decide +kernel
  obtain ⟨site, hload, _⟩ := Outcome.map_eq_ok.1 hrun
  have hitems : secondHand.items = [[0, 1, 0], [0, 2, 0]] := by decide +kernel
  have hfirst : secondHand.Item [0, 1, 0] := Source.mem_items.1 (by rw [hitems]; simp)
  have hsecond : secondHand.Item [0, 2, 0] := Source.mem_items.1 (by rw [hitems]; simp)
  have htarget : secondHand.target? [0, 2, 0] = some [0, 1, 0] := by decide +kernel
  exact ⟨site, hload, Source.not_tornDown_of_load rfl hload hsecond htarget hfirst⟩

end VaeDb
