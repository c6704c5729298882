import VaeDb.Site.TearDown
import VaeDb.Site.Ties
import VaeDb.Xml.Trees

/-!
# The document after the clean-up

If no item stands for an item, then the two loops of `~Site` turn the linked nodes back into a
tree: an element has the children that it has kept and its pointer nodes, an item with an
association has its first child only, and a pointer node has none (`Source.cleanList`).  The
tree has all allocated nodes (`Tied.nested`), each property list belongs to one of them
(`Tied.listing`), and each Context to the opened element that it was made for.
-/

namespace VaeDb.Source

open Xml Links

variable {source : Source} {site : Site} {heap : Heap Address} {removed entered : Path → Prop}
  {path other target item : Path} {j k : ℕ} {a b : Address} {done todo : List Path}

/-! ## What has been allocated -/

/-- What is above a node that is not gone is not gone. -/
theorem gone_cons (h : Gone removed entered path) : Gone removed entered (j :: path) := by
  rcases h with ⟨outer, hremoved, houter⟩ | ⟨item, hentered, hitem, hne, hfirst⟩
  · exact Or.inl ⟨outer, hremoved, houter.trans (List.suffix_cons ..)⟩
  · refine Or.inr ⟨item, hentered, hitem.trans (List.suffix_cons ..), fun heq => ?_, fun heq => ?_⟩
    · have hlength := hitem.length_le
      rw [← heq, List.length_cons] at hlength
      omega
    · exact hne (List.cons.inj heq).2

/-- The nodes of the feed that are allocated. -/
theorem Recorded.live_iff (h : source.Recorded site done todo) :
    site.heap.live (.feed path) = true ↔ (source.feed.lookup path).isSome ∧
      ¬ Gone (source.removedAt todo) (source.enteredAt todo) path := by
  constructor
  · intro hlive
    refine ⟨h.accounted.found path hlive, fun hgone => ?_⟩
    rw [h.accounted.dead path hgone] at hlive
    cases hlive
  · rintro ⟨hexists, hgone⟩
    exact h.associating.allocated.live path hexists hgone

/-! ## The heap after the two loops -/

namespace Recorded

variable (h : source.Recorded site done [])

include h

theorem mem_nodesToClean :
    a ∈ site.nodesToClean ↔ ∃ item, source.enteredAt [] item ∧ a = .pointer (.feed item) := by
  rw [h.nodesToClean, List.mem_map]
  refine exists_congr fun item => ?_
  rw [h.entered_iff, List.mem_filter, Option.isSome_iff_ne_none]
  exact and_congr_right fun _ => eq_comm

theorem mem_nodesToClean2 :
    a ∈ site.nodesToClean2 ↔ ∃ item, source.enteredAt [] item ∧ a = .feed item := by
  rw [h.nodesToClean2, List.mem_map]
  refine exists_congr fun item => ?_
  rw [h.entered_iff, List.mem_filter, Option.isSome_iff_ne_none]
  exact and_congr_right fun _ => eq_comm

theorem feed_mem_nodesToClean2 : .feed path ∈ site.nodesToClean2 ↔ source.enteredAt [] path := by
  rw [h.mem_nodesToClean2]
  constructor
  · rintro ⟨item, hitem, heq⟩
    injection heq with heq
    exact heq ▸ hitem
  · intro hpath
    exact ⟨path, hpath, rfl⟩

theorem feed_not_mem_nodesToClean : .feed path ∉ site.nodesToClean := by
  rw [h.mem_nodesToClean]
  rintro ⟨item, _, heq⟩
  cases heq

theorem pointer_mem_nodesToClean (hitem : source.enteredAt [] item) :
    .pointer (.feed item) ∈ site.nodesToClean :=
  h.mem_nodesToClean.2 ⟨item, hitem, rfl⟩

theorem pointer_not_mem_nodesToClean2 : .pointer a ∉ site.nodesToClean2 := by
  rw [h.mem_nodesToClean2]
  rintro ⟨item, _, heq⟩
  cases heq

/-- Nodes of the feed keep their children. -/
theorem clean_children (path : Path) :
    site.cleanHeap.children (.feed path) = site.heap.children (.feed path) :=
  if_neg h.feed_not_mem_nodesToClean

theorem clean_last (hpath : ¬ source.enteredAt [] path) :
    site.cleanHeap.last (.feed path) = site.heap.last (.feed path) := by
  unfold Site.cleanHeap Site.cleaned2 Site.cleaned1
  simp only [if_neg (mt h.feed_mem_nodesToClean2.1 hpath), if_neg h.feed_not_mem_nodesToClean]

theorem clean_properties (hpath : ¬ source.enteredAt [] path) :
    site.cleanHeap.properties (.feed path) = site.heap.properties (.feed path) := by
  unfold Site.cleanHeap Site.cleaned2 Site.cleaned1
  simp only [if_neg (mt h.feed_mem_nodesToClean2.1 hpath), if_neg h.feed_not_mem_nodesToClean]

theorem clean_private (hpath : ¬ source.enteredAt [] path) :
    site.cleanHeap._private (.feed path) = site.heap._private (.feed path) := by
  unfold Site.cleanHeap Site.cleaned2 Site.cleaned1
  simp only [if_neg (mt h.feed_mem_nodesToClean2.1 hpath), if_neg h.feed_not_mem_nodesToClean]

/-- An item with an association has neither properties nor a Context. -/
theorem clean_item (hpath : source.enteredAt [] path) :
    site.cleanHeap.last (.feed path) = site.cleanHeap.children (.feed path) ∧
      site.cleanHeap.properties (.feed path) = none ∧
      site.cleanHeap._private (.feed path) = none :=
  ⟨if_pos (h.feed_mem_nodesToClean2.2 hpath), if_pos (h.feed_mem_nodesToClean2.2 hpath),
    if_pos (h.feed_mem_nodesToClean2.2 hpath)⟩

/-- A pointer node has nothing. -/
theorem clean_pointer (hitem : source.enteredAt [] item) :
    site.cleanHeap.children (.pointer (.feed item)) = none ∧
      site.cleanHeap.last (.pointer (.feed item)) = none ∧
      site.cleanHeap.properties (.pointer (.feed item)) = none ∧
      site.cleanHeap._private (.pointer (.feed item)) = none := by
  have hmem := h.pointer_mem_nodesToClean hitem
  unfold Site.cleanHeap Site.cleaned2 Site.cleaned1
  simp only [if_pos hmem, if_neg h.pointer_not_mem_nodesToClean2, and_self]

theorem mem_cut : a ∈ site.nodesToClean2.filterMap
      (Site.cleaned1 site.nodesToClean site.heap).children ↔
    ∃ item, source.enteredAt [] item ∧ a = kid item 0 := by
  rw [List.mem_filterMap]
  constructor
  · rintro ⟨b, hb, hchildren⟩
    obtain ⟨item, hitem, rfl⟩ := h.mem_nodesToClean2.1 hb
    have hfirst : site.cleanHeap.children (.feed item) = some (kid item 0) :=
      (h.clean_children item).trans (h.associating.shape.items item hitem).children
    exact ⟨item, hitem, Option.some.inj (hchildren.symm.trans hfirst)⟩
  · rintro ⟨item, hitem, rfl⟩
    refine ⟨.feed item, h.feed_mem_nodesToClean2.2 hitem, ?_⟩
    exact (h.clean_children item).trans (h.associating.shape.items item hitem).children

/-- The first children of such items have no next siblings. -/
theorem clean_next_first (hitem : source.enteredAt [] item) :
    site.cleanHeap.next (kid item 0) = none :=
  if_pos (h.mem_cut.2 ⟨item, hitem, rfl⟩)

theorem clean_next (ha : ∀ item, source.enteredAt [] item → a ≠ kid item 0) :
    site.cleanHeap.next a = site.heap.next a :=
  if_neg fun hmem => by
    obtain ⟨item, hitem, heq⟩ := h.mem_cut.1 hmem
    exact ha item hitem heq

/-- The allocated nodes. -/
theorem live_cases (hlive : site.heap.live a = true) :
    (∃ path, a = .feed path ∧ (source.feed.lookup path).isSome ∧
      ¬ Gone (source.removedAt []) (source.enteredAt []) path) ∨
      ∃ item, a = .pointer (.feed item) ∧ source.enteredAt [] item := by
  cases a with
  | feed path => exact Or.inl ⟨path, rfl, h.live_iff.1 hlive⟩
  | pointer node =>
      obtain ⟨item, rfl, hitem⟩ := h.associating.allocated.pointer node hlive
      exact Or.inr ⟨item, rfl, hitem⟩

/-- The first child of an item with an association is allocated. -/
theorem live_first (hitem : source.enteredAt [] item) :
    site.heap.live (kid item 0) = true := by
  obtain ⟨content, htext⟩ := (h.associating.shape.items item hitem).text
  refine h.live_iff.2 ⟨Tree.lookup_cons_isSome.2 (width_pos_of_text htext), ?_⟩
  have hne : ∀ inner, source.Shut inner → inner <:+ 0 :: item → inner = item := by
    intro inner hinner hsuffix
    rcases List.suffix_cons_iff.1 hsuffix with rfl | hsuffix
    · rw [hinner.1.element] at htext
      cases htext
    · exact hinner.eq_of_suffix hitem.1.1 hsuffix
  rintro (⟨outer, hremoved, houter⟩ | ⟨other, hother, hbelow, _, hfirst⟩)
  · obtain rfl := hne outer (h.associating.shape.removed_shut outer hremoved) houter
    exact (h.associating.shape.entered_item _ hitem).2 hremoved
  · obtain rfl := hne other hother.1.shut hbelow
    exact hfirst rfl

/-- The other children that have been kept are allocated. -/
theorem live_kid (hlive : site.heap.live (.feed path) = true)
    (hpath : ¬ source.enteredAt [] path) (hj : j ∈ source.keptKids (source.removedAt []) path) :
    site.heap.live (kid path j) = true := by
  obtain ⟨hwidth, hkept⟩ := mem_keptKids.1 hj
  obtain ⟨_, hgone⟩ := h.live_iff.1 hlive
  refine h.live_iff.2 ⟨Tree.lookup_cons_isSome.2 hwidth, ?_⟩
  rintro (⟨outer, hremoved, houter⟩ | ⟨item, hitem, hbelow, hne, _⟩)
  · rcases List.suffix_cons_iff.1 houter with rfl | houter
    · exact hkept hremoved
    · exact hgone (Or.inl ⟨outer, hremoved, houter⟩)
  · have hbelow := (List.suffix_cons_iff.1 hbelow).resolve_left fun heq => hne heq.symm
    refine hgone (Or.inr ⟨item, hitem, hbelow, fun heq => hpath (heq ▸ hitem), ?_⟩)
    rintro rfl
    -- the first child of an item is text
    obtain ⟨content, htext⟩ := (h.associating.shape.items item hitem).text
    rw [Tree.width_eq_zero (by rw [htext]; simp)] at hwidth
    exact absurd hwidth (Nat.not_lt_zero j)

/-- The parents of allocated nodes are allocated. -/
theorem live_parent (hlive : site.heap.live (kid path j) = true) :
    site.heap.live (.feed path) = true := by
  obtain ⟨hexists, hgone⟩ := h.live_iff.1 hlive
  exact h.live_iff.2 ⟨Tree.lookup_isSome_of_cons hexists, fun hpath => hgone (gone_cons hpath)⟩

theorem live_opened (hopened : source.Opened path) : site.heap.live (.feed path) = true := by
  refine h.live_iff.2 ⟨Tree.lookup_isSome_of_element hopened.element, ?_⟩
  rintro (⟨outer, hremoved, houter⟩ | ⟨item, hitem, hbelow, _⟩)
  · exact (h.associating.shape.removed_shut outer hremoved).not_opened houter hopened
  · exact hitem.1.shut.not_opened hbelow hopened

end Recorded

/-! ## The child lists after the two loops -/

open Classical in
/-- The children of each node. -/
noncomputable def cleanList (source : Source) (done : List Path) : Address → List Address
  | .feed path =>
      if source.enteredAt [] path then [kid path 0]
      else source.childList done (source.removedAt []) (.feed path)
  | .pointer _ => []

theorem cleanList_item (hpath : source.enteredAt [] path) :
    source.cleanList done (.feed path) = [kid path 0] := if_pos hpath

theorem cleanList_other (hpath : ¬ source.enteredAt [] path) :
    source.cleanList done (.feed path) = source.childList done (source.removedAt []) (.feed path) :=
  if_neg hpath

theorem childList_of_not_element (hdone : ∀ item ∈ done, ∀ target,
      source.target? item = some target → source.Opened target) (hpath : ¬ source.Element path) :
    source.childList done removed (.feed path) = [] := by
  refine List.eq_nil_iff_forall_not_mem.2 fun a ha => ?_
  rcases mem_childList ha with ⟨j, hj, _⟩ | ⟨item, hitem, htarget, _⟩
  · have hwidth := (mem_keptKids.1 hj).1
    rw [Tree.width_eq_zero hpath] at hwidth
    exact absurd hwidth (Nat.not_lt_zero j)
  · exact hpath (hdone item hitem _ htarget).element

namespace Tied

variable (h : source.Tied site done [])

include h

/-- The nodes in a list. -/
theorem mem_cleanList (hb : b ∈ source.cleanList done a) :
    (∃ path j, a = .feed path ∧ b = kid path j ∧ (source.enteredAt [] path ∧ j = 0 ∨
      ¬ source.enteredAt [] path ∧ j ∈ source.keptKids (source.removedAt []) path)) ∨
      ∃ path item, a = .feed path ∧ b = .pointer (.feed item) ∧ source.enteredAt [] item ∧
        source.target? item = some path := by
  cases a with
  | pointer node => cases hb
  | feed path =>
      by_cases hpath : source.enteredAt [] path
      · rw [cleanList_item hpath] at hb
        exact Or.inl ⟨path, 0, rfl, List.mem_singleton.1 hb, Or.inl ⟨hpath, rfl⟩⟩
      · rw [cleanList_other hpath] at hb
        rcases mem_childList hb with ⟨j, hj, rfl⟩ | ⟨item, hitem, htarget, rfl⟩
        · exact Or.inl ⟨path, j, rfl, rfl, Or.inr ⟨hpath, hj⟩⟩
        · refine Or.inr ⟨path, item, rfl, rfl, ?_, htarget⟩
          exact h.arranged.recorded.entered_iff.2 ⟨hitem, by simp [htarget]⟩

theorem live_of_mem (ha : site.heap.live a = true) (hb : b ∈ source.cleanList done a) :
    site.heap.live b = true := by
  have hrecorded := h.arranged.recorded
  rcases h.mem_cleanList hb with ⟨path, j, rfl, rfl, ⟨hpath, rfl⟩ | ⟨hpath, hj⟩⟩ |
    ⟨path, item, rfl, rfl, hitem, _⟩
  · exact hrecorded.live_first hpath
  · exact hrecorded.live_kid ha hpath hj
  · exact hrecorded.pointer_live item hitem

/-- The parent of a node is the one whose list it is in. -/
theorem parent_of_mem (ha : site.heap.live a = true) (hb : b ∈ source.cleanList done a) :
    site.heap.parent b = some a := by
  have hrecorded := h.arranged.recorded
  have hlive := h.live_of_mem ha hb
  rcases h.mem_cleanList hb with ⟨path, j, rfl, rfl, _⟩ | ⟨path, item, rfl, rfl, hitem, htarget⟩
  · refine hrecorded.accounted.parent j path fun hremoved => ?_
    have hdead := hrecorded.associating.allocated.dead _ hremoved
    exact absurd (hlive.symm.trans hdead) (by simp)
  · exact h.parent item path hitem htarget

/-- All allocated nodes but the document element are in a list. -/
theorem exists_parent (ha : site.heap.live a = true) (hne : a ≠ .feed []) :
    ∃ parent, site.heap.live parent = true ∧ a ∈ source.cleanList done parent := by
  have hrecorded := h.arranged.recorded
  rcases hrecorded.live_cases ha with ⟨path, rfl, hexists, hgone⟩ | ⟨item, rfl, hitem⟩
  · cases path with
    | nil => exact absurd rfl hne
    | cons j path =>
        refine ⟨.feed path, hrecorded.live_parent ha, ?_⟩
        by_cases hpath : source.enteredAt [] path
        · rw [cleanList_item hpath, List.mem_singleton]
          by_contra hother
          refine hgone (Or.inr ⟨path, hpath, List.suffix_cons .., by simp, fun heq => hother ?_⟩)
          exact congrArg Address.feed heq
        · rw [cleanList_other hpath]
          refine kid_mem_childList.2 ⟨rfl, mem_keptKids.2 ⟨?_, fun hremoved => ?_⟩⟩
          · exact Tree.lookup_cons_isSome.1 hexists
          · exact hgone (Or.inl ⟨_, hremoved, List.suffix_rfl⟩)
  · obtain ⟨hdone, hsome⟩ := hrecorded.entered_iff.1 hitem
    obtain ⟨target, htarget⟩ := Option.ne_none_iff_exists'.1 hsome
    have hopened := h.arranged.opened item hdone target htarget
    refine ⟨.feed target, hrecorded.live_opened hopened, ?_⟩
    rw [cleanList_other fun hentered => hentered.1.shut.2 hopened]
    exact pointer_mem_childList.2 ⟨hdone, htarget⟩

/-- The links after the two loops are those of the lists. -/
theorem childLists : site.cleanHeap.ChildLists (fun a => site.heap.live a = true)
    (source.cleanList done) := by
  have hrecorded := h.arranged.recorded
  have hshape := hrecorded.associating.shape
  -- a list that has not been touched
  have hlinks : ∀ path, source.Element path → ¬ source.enteredAt [] path →
      Segment site.cleanHeap.next site.cleanHeap.prev none
        (site.cleanHeap.children (.feed path)) (source.cleanList done (.feed path)) none := by
    intro path helement hpath
    rw [hrecorded.clean_children, cleanList_other hpath]
    refine (h.arranged.childLists.segment _ ⟨path, rfl, helement, hpath⟩).congr
      (fun b hb => hrecorded.clean_next fun item hitem heq => ?_) fun _ _ => rfl
    rw [heq] at hb
    exact hpath ((kid_mem_childList.1 hb).1 ▸ hitem)
  constructor
  case segment =>
    intro a ha
    rcases hrecorded.live_cases ha with ⟨path, rfl, _⟩ | ⟨item, rfl, hitem⟩
    · by_cases hpath : source.enteredAt [] path
      · rw [hrecorded.clean_children, cleanList_item hpath]
        exact ⟨(hshape.items path hpath).children, h.first path hpath,
          hrecorded.clean_next_first hpath⟩
      · by_cases helement : source.Element path
        · exact hlinks path helement hpath
        · rw [hrecorded.clean_children, cleanList_other hpath,
            childList_of_not_element h.arranged.opened helement]
          exact hshape.leaf path helement
    · exact (hrecorded.clean_pointer hitem).1
  case last =>
    intro a ha
    rcases hrecorded.live_cases ha with ⟨path, rfl, _⟩ | ⟨item, rfl, hitem⟩
    · by_cases hpath : source.enteredAt [] path
      · rw [(hrecorded.clean_item hpath).1, hrecorded.clean_children, cleanList_item hpath]
        exact (hshape.items path hpath).children
      · rw [hrecorded.clean_last hpath, cleanList_other hpath]
        by_cases helement : source.Element path
        · exact h.arranged.childLists.last _ ⟨path, rfl, helement, hpath⟩
        · rw [childList_of_not_element h.arranged.opened helement]
          exact hrecorded.accounted.leaf path helement
    · exact (hrecorded.clean_pointer hitem).2.1
  case nodup =>
    intro a ha
    rcases hrecorded.live_cases ha with ⟨path, rfl, _⟩ | ⟨item, rfl, hitem⟩
    · by_cases hpath : source.enteredAt [] path
      · rw [cleanList_item hpath]
        exact List.nodup_singleton _
      · rw [cleanList_other hpath]
        by_cases helement : source.Element path
        · exact h.arranged.childLists.nodup _ ⟨path, rfl, helement, hpath⟩
        · rw [childList_of_not_element h.arranged.opened helement]
          exact List.nodup_nil
    · exact List.nodup_nil
  case disjoint =>
    intro a b ha hb hne c hca hcb
    have hparent := h.parent_of_mem ha hca
    rw [h.parent_of_mem hb hcb] at hparent
    exact hne (Option.some.inj hparent).symm

/-! ## The tree -/

/-- How much there is below a node. -/
noncomputable def height (source : Source) : Address → ℕ
  | .feed path => sizeOf (source.feed.lookup path)
  | .pointer _ => 0

omit h in
theorem height_kid (hexists : (source.feed.lookup (j :: path)).isSome) :
    height source (kid path j) < height source (.feed path) := by
  have hlookup : source.feed.lookup (j :: path) =
      (source.feed.lookup path).bind fun parent => parent.children[j]? := rfl
  show sizeOf (source.feed.lookup (j :: path)) < sizeOf (source.feed.lookup path)
  rw [hlookup] at hexists ⊢
  cases hpath : source.feed.lookup path with
  | none => simp [hpath] at hexists
  | some node =>
      cases node with
      | text content => simp [hpath, Tree.children] at hexists
      | other => simp [hpath, Tree.children] at hexists
      | element name attributes children =>
          rw [hpath] at hexists
          obtain ⟨child, hchild⟩ := Option.isSome_iff_exists.1 hexists
          have hsome : children[j]? = some child := hchild
          have hlt := List.sizeOf_lt_of_mem (List.mem_of_getElem? hsome)
          show sizeOf children[j]? < _
          rw [hsome]
          simp only [Option.some.sizeOf_spec, Tree.element.sizeOf_spec]
          omega

/-- How far a node is from the document element. -/
def depth (source : Source) : Address → ℕ
  | .feed path => path.length
  | .pointer (.feed item) => (source.target? item).elim 0 fun target => target.length + 1
  | .pointer (.pointer _) => 0

/-- After the two loops the allocated nodes are a tree. -/
theorem nested : site.cleanHeap.Nested (fun a => site.heap.live a = true)
    (source.cleanList done) (.feed []) where
  lists := h.childLists
  top := by
    refine h.arranged.recorded.live_iff.2 ⟨rfl, ?_⟩
    rintro (⟨outer, hremoved, houter⟩ | ⟨item, hitem, hbelow, _⟩)
    · have hshut := h.arranged.recorded.associating.shape.removed_shut outer hremoved
      rw [List.suffix_nil.1 houter] at hshut
      exact hshut.1
    · rw [List.suffix_nil.1 hbelow] at hitem
      exact hitem.1.1
  ends := by
    rw [h.arranged.recorded.clean_next fun item _ heq => by simp [kid] at heq]
    exact h.arranged.recorded.accounted.document.2.1
  child a ha b hb := h.live_of_mem ha hb
  parent a ha hne := h.exists_parent ha hne
  height := by
    refine ⟨height source, fun a ha b hb => ?_⟩
    have hlive := h.live_of_mem ha hb
    rcases h.mem_cleanList hb with ⟨path, j, rfl, rfl, _⟩ | ⟨path, item, rfl, rfl, _⟩
    · exact height_kid (h.arranged.recorded.live_iff.1 hlive).1
    · show 0 < sizeOf (source.feed.lookup path)
      cases source.feed.lookup path with
      | none => simp
      | some node => simp only [Option.some.sizeOf_spec]; omega
  depth := by
    refine ⟨depth source, fun a ha b hb => ?_⟩
    rcases h.mem_cleanList hb with ⟨path, j, rfl, rfl, _⟩ | ⟨path, item, rfl, rfl, _, htarget⟩
    · exact Nat.lt_succ_self path.length
    · simp [depth, htarget]

/-- A node has its own properties or none. -/
theorem properties_eq {list : Address} (ha : site.heap.live a = true)
    (hlist : site.cleanHeap.properties a = some list) :
    list = a ∧ ∃ path, a = .feed path ∧ ¬ source.enteredAt [] path ∧
      source.feed.attributesAt path ≠ [] := by
  have hrecorded := h.arranged.recorded
  rcases hrecorded.live_cases ha with ⟨path, rfl, _⟩ | ⟨item, rfl, hitem⟩
  · by_cases hpath : source.enteredAt [] path
    · rw [(hrecorded.clean_item hpath).2.1] at hlist
      cases hlist
    · rw [hrecorded.clean_properties hpath,
        hrecorded.associating.shape.properties path hpath] at hlist
      refine ⟨parse_properties_eq hlist, path, rfl, hpath, fun hnil => ?_⟩
      have hnone : source.feed.parse.properties (.feed path) = none := if_pos hnil
      rw [hnone] at hlist
      cases hlist
  · rw [(hrecorded.clean_pointer hitem).2.2.1] at hlist
    cases hlist

/-- The allocated property lists are those of the allocated nodes. -/
theorem listing : site.cleanHeap.Listing where
  own a b list ha hb hlist hlist' :=
    (h.properties_eq ha hlist).1.symm.trans (h.properties_eq hb hlist').1
  allocated a list ha hlist := by
    obtain ⟨rfl, path, rfl, hpath, hne⟩ := h.properties_eq ha hlist
    have hkept : site.heap.attributes (.feed path) = _ :=
      h.arranged.recorded.accounted.kept path (h.arranged.recorded.live_iff.1 ha).2 hpath
    have hsome : source.feed.parse.attributes (.feed path) = some _ := if_neg hne
    show site.heap.attributes _ ≠ none
    rw [hkept, hsome]
    simp
  owned list hlist := by
    have hrecorded := h.arranged.recorded
    have hattributes : site.heap.attributes list ≠ none := hlist
    cases list with
    | pointer node => exact absurd (hrecorded.accounted.pointer node) hattributes
    | feed path =>
        have hgone : ¬ Gone (source.removedAt []) (source.enteredAt []) path := fun hgone =>
          hattributes (hrecorded.accounted.freed path (Or.inl hgone))
        have hpath : ¬ source.enteredAt [] path := fun hpath =>
          hattributes (hrecorded.accounted.freed path (Or.inr hpath))
        rw [hrecorded.accounted.kept path hgone hpath] at hattributes
        have hne : source.feed.attributesAt path ≠ [] := fun hnil =>
          hattributes (parse_attributes_eq_none hnil)
        refine ⟨.feed path, hrecorded.live_iff.2 ⟨exists_of_attributes hne, hgone⟩, ?_⟩
        rw [hrecorded.clean_properties hpath,
          hrecorded.associating.shape.properties path hpath, parse_properties hne]

/-! ## The Contexts -/

/-- The nodes that point to Contexts are the opened elements below the root node. -/
theorem private_eq (ha : site.heap.live a = true)
    (hb : site.cleanHeap._private a = some b) :
    b = a ∧ ∃ path, a = .feed path ∧ source.Opened path ∧ path ≠ source.root := by
  have hrecorded := h.arranged.recorded
  rcases hrecorded.live_cases ha with ⟨path, rfl, _, hgone⟩ | ⟨item, rfl, hitem⟩
  · by_cases hpath : source.enteredAt [] path
    · rw [(hrecorded.clean_item hpath).2.2] at hb
      cases hb
    · rw [hrecorded.clean_private hpath] at hb
      by_cases hvisited : source.Visited path
      · rw [hrecorded.own_context path hvisited hpath] at hb
        refine ⟨(Option.some.inj hb).symm, path, rfl, ?_, hvisited.1.ne_root⟩
        refine hvisited.opened_or_item.resolve_right fun hitem => ?_
        -- an item without association has been removed
        have htarget : source.target? path = none := by
          by_contra hsome
          exact hpath ⟨hitem, List.not_mem_nil, hsome⟩
        exact hgone (Or.inl ⟨path, Or.inr ⟨hitem, List.not_mem_nil, htarget⟩, List.suffix_rfl⟩)
      · rw [hrecorded.no_context path hvisited] at hb
        cases hb
  · rw [(hrecorded.clean_pointer hitem).2.2.2] at hb
    cases hb

theorem private_opened (hopened : source.Opened path) (hne : path ≠ source.root) :
    site.cleanHeap._private (.feed path) = some (.feed path) := by
  have hrecorded := h.arranged.recorded
  rw [hrecorded.clean_private fun hentered => hentered.1.shut.2 hopened]
  exact hrecorded.own_opened hopened hne

/-- The Contexts that are left are theirs. -/
theorem context_opened {ctxt : Context} (hctxt : site.contexts a = some ctxt) :
    ∃ path, a = .feed path ∧ source.Opened path ∧ path ≠ source.root := by
  obtain ⟨path, rfl, hvisited, htodo⟩ := h.arranged.recorded.context_visited a ctxt hctxt
  refine ⟨path, rfl, hvisited.opened_or_item.resolve_right fun hitem => ?_, hvisited.1.ne_root⟩
  exact absurd (htodo hitem) List.not_mem_nil

end Tied

end VaeDb.Source
