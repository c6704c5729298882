import Mathlib.Data.List.Sort
import VaeDb.Site.Records
import VaeDb.Xml.ChildLists

/-!
# The child lists while associations are initialized

As long as no item is associated with another item, the child list of every element without an
association is known exactly: its children in the feed that have not been removed, and then the
pointer nodes of the items that stand for it, in the order of their turns
(`Source.childList`).  `Arranged.step` proves it for the turn of one item.
-/

namespace VaeDb.Source

open Xml Links

variable {source : Source} {site site' : Site} {heap heap' : Heap Address}
  {removed entered : Path → Prop} {path other target item : Path} {j k rounds : ℕ}
  {done todo : List Path} {kids : List ℕ} {stop : Option Address}

/-! ## The lists -/

open Classical in
/-- The children of an element that have not been removed. -/
noncomputable def keptKids (source : Source) (removed : Path → Prop) (path : Path) : List ℕ :=
  (List.range (source.feed.width path)).filter fun k => ¬ removed (k :: path)

/-- The pointer nodes of the items that stand for an element. -/
def pointersTo (source : Source) (done : List Path) (path : Path) : List Address :=
  (done.filter fun item => source.target? item = some path).map fun item => .pointer (.feed item)

/-- The children of the elements that have not got an association. -/
noncomputable def childList (source : Source) (done : List Path) (removed : Path → Prop) :
    Address → List Address
  | .feed path => (source.keptKids removed path).map (kid path) ++ source.pointersTo done path
  | .pointer _ => []

/-- The elements that have not got an association. -/
def Owner (source : Source) (entered : Path → Prop) (a : Address) : Prop :=
  ∃ path, a = .feed path ∧ source.Element path ∧ ¬ entered path

theorem mem_keptKids :
    k ∈ source.keptKids removed path ↔ k < source.feed.width path ∧ ¬ removed (k :: path) := by
  simp [keptKids]

theorem keptKids_sorted : (source.keptKids removed path).Pairwise (· < ·) :=
  List.pairwise_lt_range.filter _

theorem Listed.kids_eq (h : source.Listed heap removed path kids stop) :
    kids = source.keptKids removed path :=
  h.sorted.eq_of_mem_iff keptKids_sorted fun k => (h.mem k).trans mem_keptKids.symm

theorem keptKids_remove :
    source.keptKids (andRemoved removed (k :: path)) path =
      (source.keptKids removed path).erase k := by
  have hnodup : (source.keptKids removed path).Nodup :=
    keptKids_sorted.imp fun hlt => Nat.ne_of_lt hlt
  refine keptKids_sorted.eq_of_mem_iff (keptKids_sorted.sublist List.erase_sublist) fun j => ?_
  rw [hnodup.mem_erase_iff, mem_keptKids, mem_keptKids]
  unfold andRemoved
  simp only [List.cons.injEq, and_true, not_or]
  tauto

theorem keptKids_remove_other (hne : other ≠ path) :
    source.keptKids (andRemoved removed (k :: path)) other = source.keptKids removed other := by
  refine keptKids_sorted.eq_of_mem_iff keptKids_sorted fun j => ?_
  rw [mem_keptKids, mem_keptKids]
  unfold andRemoved
  simp [hne]

theorem mem_pointersTo {a : Address} :
    a ∈ source.pointersTo done path ↔
      ∃ item ∈ done, source.target? item = some path ∧ a = .pointer (.feed item) := by
  unfold pointersTo
  simp only [List.mem_map, List.mem_filter, decide_eq_true_eq, and_assoc]
  exact exists_congr fun item => and_congr_right fun _ => and_congr_right fun _ => eq_comm

theorem pointersTo_append :
    source.pointersTo (done ++ [item]) path = source.pointersTo done path ++
      if source.target? item = some path then [.pointer (.feed item)] else [] := by
  unfold pointersTo
  rw [List.filter_append, List.map_append]
  by_cases h : source.target? item = some path
  · simp [h]
  · simp [h]

theorem kid_mem_childList :
    kid path j ∈ source.childList done removed (.feed other) ↔
      other = path ∧ j ∈ source.keptKids removed path := by
  rw [childList, List.mem_append, List.mem_map]
  constructor
  · rintro (⟨i, hi, heq⟩ | hpointer)
    · obtain ⟨rfl, rfl⟩ : i = j ∧ other = path := by simpa [kid] using heq
      exact ⟨rfl, hi⟩
    · obtain ⟨_, _, _, heq⟩ := mem_pointersTo.1 hpointer
      cases heq
  · rintro ⟨rfl, hj⟩
    exact Or.inl ⟨j, hj, rfl⟩

theorem pointer_mem_childList :
    .pointer (.feed item) ∈ source.childList done removed (.feed other) ↔
      item ∈ done ∧ source.target? item = some other := by
  rw [childList, List.mem_append, mem_pointersTo]
  constructor
  · rintro (hkid | ⟨inner, hdone, htarget, heq⟩)
    · obtain ⟨_, _, heq⟩ := List.mem_map.1 hkid
      cases heq
    · injection heq with heq
      injection heq with heq
      exact heq ▸ ⟨hdone, htarget⟩
  · rintro ⟨hdone, htarget⟩
    exact Or.inr ⟨item, hdone, htarget, rfl⟩

/-- The children are children of the feed or pointer nodes. -/
theorem mem_childList {a : Address} (h : a ∈ source.childList done removed (.feed path)) :
    (∃ j ∈ source.keptKids removed path, a = kid path j) ∨
      ∃ item ∈ done, source.target? item = some path ∧ a = .pointer (.feed item) := by
  rcases List.mem_append.1 h with h | h
  · obtain ⟨j, hj, rfl⟩ := List.mem_map.1 h
    exact Or.inl ⟨j, hj, rfl⟩
  · exact Or.inr (mem_pointersTo.1 h)

/-! ## Before the first turn -/

theorem Constructing.childLists (h : source.Constructing site removed) :
    site.heap.ChildLists (source.Owner fun _ => False) (source.childList [] removed) := by
  have hlist : ∀ path, source.childList [] removed (.feed path) =
      (source.keptKids removed path).map (kid path) := fun path => List.append_nil _
  constructor
  case segment =>
    rintro _ ⟨path, rfl, helement, _⟩
    obtain ⟨kids, hlisted⟩ := h.listed helement
    rw [hlist, ← hlisted.kids_eq]
    exact hlisted.segment
  case last =>
    rintro _ ⟨path, rfl, helement, _⟩
    obtain ⟨kids, hlisted⟩ := h.listed helement
    rw [hlist, ← hlisted.kids_eq]
    rcases hlisted.ending with ⟨_, hlast⟩ | ⟨⟨_, hstop⟩, _⟩
    · exact hlast
    · cases hstop
  case nodup =>
    rintro _ ⟨path, rfl, helement, _⟩
    obtain ⟨kids, hlisted⟩ := h.listed helement
    rw [hlist, ← hlisted.kids_eq]
    exact hlisted.nodup
  case disjoint =>
    rintro _ _ ⟨path, rfl, _⟩ ⟨other, rfl, _⟩ hne a ha hb
    rw [hlist] at ha
    obtain ⟨j, _, rfl⟩ := List.mem_map.1 ha
    exact hne (congrArg Address.feed (kid_mem_childList.1 hb).1.symm)

/-! ## The arrangement -/

/-- Associated nodes are opened elements if no item is one. -/
theorem opened_of_target? (hnone : ∀ item target, source.Item item →
      source.target? item = some target → ¬ source.Item target)
    (hitem : source.Item item) (htarget : source.target? item = some target) :
    source.Opened target :=
  (target?_spec htarget).1.opened_or_item.resolve_right (hnone item target hitem htarget)

/-- A Site whose child lists are known. -/
structure Arranged (source : Source) (site : Site) (done todo : List Path) : Prop where
  recorded : source.Recorded site done todo
  opened : ∀ item ∈ done, ∀ target, source.target? item = some target → source.Opened target
  childLists : site.heap.ChildLists (source.Owner (source.enteredAt todo))
    (source.childList done (source.removedAt todo))

theorem arranged_built (h : source.Built site removed)
    (hnoted : source.Noted (Beneath source.root) (Beneath source.root)
      (Site.parsed source.feed source.root) site (fun _ => False) removed) :
    source.Arranged site [] source.items where
  recorded := recorded_built h hnoted
  opened item hitem := by cases hitem
  childLists := by
    rw [← h.removed_eq, ← enteredAt_items]
    exact h.constructing.childLists

theorem owner_of_opened (hopened : source.Opened path) :
    source.Owner (source.enteredAt todo) (.feed path) :=
  ⟨path, rfl, hopened.element, fun hentered => hentered.1.shut.2 hopened⟩

/-- Nothing frees a child of an opened element but its own removal. -/
theorem Shape.not_gone_kid (hshape : source.Shape heap removed entered)
    (hopened : source.Opened path) (hkept : ¬ removed (k :: path)) :
    ¬ Gone removed entered (k :: path) := by
  rintro (⟨outer, hremoved, houter⟩ | ⟨item, hentered, hitem, hne, _⟩)
  · rcases List.suffix_cons_iff.1 houter with rfl | houter
    · exact hkept hremoved
    · exact (hshape.removed_shut outer hremoved).not_opened houter hopened
  · have hbelow := (List.suffix_cons_iff.1 hitem).resolve_left fun heq => hne heq.symm
    exact (hshape.entered_item item hentered).1.shut.not_opened hbelow hopened

namespace Arranged

/-- The children of an opened element are allocated. -/
theorem live_of_mem (h : source.Arranged site done todo) (hopened : source.Opened path)
    {a : Address} (ha : a ∈ source.childList done (source.removedAt todo) (.feed path)) :
    site.heap.live a = true := by
  have hassociating := h.recorded.associating
  rcases mem_childList ha with ⟨j, hj, rfl⟩ | ⟨item, hdone, htarget, rfl⟩
  · obtain ⟨hwidth, hkept⟩ := mem_keptKids.1 hj
    exact hassociating.allocated.live _ (Tree.lookup_cons_isSome.2 hwidth)
      (hassociating.shape.not_gone_kid hopened hkept)
  · exact h.recorded.pointer_live item (h.recorded.entered_iff.2 ⟨hdone, by simp [htarget]⟩)

/-- The turn of an item that stands for no element. -/
theorem remove {heap1 heap' : Heap Address}
    (h : source.Arranged site done ((k :: path) :: todo))
    (htarget : source.target? (k :: path) = none)
    (hunlink : site.heap.xmlUnlinkNode (kid path k) = .ok heap1)
    (hfree : heap1.xmlFreeNode rounds (kid path k) = .ok heap') :
    source.Arranged { site with
      heap := heap', contexts := Function.update site.contexts (kid path k) none }
      (done ++ [k :: path]) todo := by
  have hassociating := h.recorded.associating
  have hitem : source.Item (k :: path) := hassociating.item_turn
  have hnew := hassociating.not_removedAt
  have hout := h.recorded.not_mem
  have hparent := hassociating.parent_turn
  have hreleased := Heap.xmlFreeNode_released hfree
  refine ⟨h.recorded.remove htarget hunlink hfree, ?_, ?_⟩
  · intro item hmem target hitem'
    rcases List.mem_append.1 hmem with hmem | hmem
    · exact h.opened item hmem target hitem'
    · rw [List.mem_singleton.1 hmem, htarget] at hitem'
      cases hitem'
  · have hself : kid path k ∈
        source.childList done (source.removedAt ((k :: path) :: todo)) (.feed path) :=
      kid_mem_childList.2 ⟨rfl, mem_keptKids.2 ⟨hitem.1.lt_width, hnew⟩⟩
    have hunlinked := h.childLists.unlink (owner_of_opened hitem.1.1) hself hparent hunlink
    rw [enteredAt_cons_of_none htarget]
    refine hunlinked.congr (fun _ ha => ha) ?_ (fun a _ => congrFun hreleased.children_eq a)
      (fun a _ => ?_) (fun a _ b _ => congrFun hreleased.next_eq b) fun a _ b _ => ?_
    · -- the list of the item's parent loses the item
      rintro _ ⟨other, rfl, _⟩
      have hpointers : source.pointersTo (done ++ [k :: path]) other =
          source.pointersTo done other := by
        rw [pointersTo_append, if_neg (by simp [htarget]), List.append_nil]
      rw [removedAt_cons hout.2 hitem htarget]
      by_cases hother : other = path
      · subst hother
        rw [Function.update_self, childList, childList, hpointers, keptKids_remove,
          List.erase_append_left _ (List.mem_map_of_mem
            (mem_keptKids.2 ⟨hitem.1.lt_width, hnew⟩)),
          List.map_erase (kid_injective other)]
      · rw [Function.update_of_ne fun heq => hother (by injection heq), childList, childList,
          hpointers, keptKids_remove_other hother]
    · rw [hreleased.eq]
    · rw [hreleased.eq]

/-- The turn of an item that stands for an element that is no item. -/
theorem adopt (h : source.Arranged site done ((k :: path) :: todo))
    (htarget : source.target? (k :: path) = some target) (hopened : source.Opened target)
    (hrun : Site.associate rounds site (kid path k) (.feed target) = .ok site') :
    source.Arranged site' (done ++ [k :: path]) todo := by
  have hassociating := h.recorded.associating
  have hitem : source.Item (k :: path) := hassociating.item_turn
  have hout := h.recorded.not_mem
  have hsome : source.target? (k :: path) ≠ none := by simp [htarget]
  obtain ⟨heap1, heap2, added, _, _, _, _, hadopting⟩ := hassociating.adopting htarget hrun
  obtain ⟨hpointers, hlast⟩ := hadopting.run.heap_eq hassociating.pointerNodes
  have hfreed := hadopting.freed
  refine ⟨h.recorded.adopt htarget hrun, ?_, ?_⟩
  · intro item hmem other hother
    rcases List.mem_append.1 hmem with hmem | hmem
    · exact h.opened item hmem other hother
    · rw [List.mem_singleton.1 hmem, htarget] at hother
      exact Option.some.inj hother ▸ hopened
  · rw [enteredAt_cons hout.2 hitem hsome, removedAt_cons_of_some hsome]
    -- neither the item's first child nor the new pointer node is in one of the lists
    have hoff : ∀ a,
        source.Owner (andEntered (source.enteredAt ((k :: path) :: todo)) (k :: path)) a →
        ∀ b ∈ source.childList done (source.removedAt ((k :: path) :: todo)) a,
          b ≠ kid (k :: path) 0 ∧ b ≠ .pointer (kid path k) := by
      rintro _ ⟨other, rfl, _, hnot⟩ b hb
      refine ⟨?_, ?_⟩
      · rintro rfl
        exact hnot (Or.inr (kid_mem_childList.1 hb).1)
      · rintro rfl
        exact hout.1 (pointer_mem_childList.1 hb).1
    have hlinked : (sharedCopy (linked heap2 (kid path k) (kid (k :: path) 0) (.feed target))
        (.feed path) (.pointer (kid path k))).ChildLists
          (source.Owner (andEntered (source.enteredAt ((k :: path) :: todo)) (k :: path)))
          (source.childList done (source.removedAt ((k :: path) :: todo))) := by
      refine h.childLists.congr ?_ (fun _ _ => rfl) ?_ ?_ (fun a ha b hb => ?_) fun a ha b hb => ?_
      · rintro a ⟨other, rfl, helement, hnot⟩
        exact ⟨other, rfl, helement, fun hentered => hnot (Or.inl hentered)⟩
      · rintro _ ⟨other, rfl, _⟩
        simp [sharedCopy, linked, hfreed.children_eq]
      · rintro _ ⟨other, rfl, _, hnot⟩
        have hne : other ≠ k :: path := fun heq => hnot (Or.inr heq)
        simp [sharedCopy, linked, hfreed.last_eq, kid, hne]
      · obtain ⟨hfirst, hpointer⟩ := hoff a ha b hb
        simp [sharedCopy, linked, hfreed.next_eq, hfirst, hpointer]
      · obtain ⟨_, hpointer⟩ := hoff a ha b hb
        simp [sharedCopy, linked, hfreed.prev_eq, hpointer]
    have howner : source.Owner (andEntered (source.enteredAt ((k :: path) :: todo)) (k :: path))
        (.feed target) := by
      refine ⟨target, rfl, hopened.element, ?_⟩
      rintro (hentered | rfl)
      · exact hentered.1.shut.2 hopened
      · exact hitem.shut.2 hopened
    have hadded := hlinked.addChild howner (fun a ha hmem => (hoff a ha _ hmem).2 rfl)
      (by simp [sharedCopy]) (by simp [sharedCopy]) hadopting.run.add
    refine hadded.congr (fun _ ha => ha) ?_ ?_ ?_ ?_ ?_
    · rintro _ ⟨other, rfl, _⟩
      by_cases hother : other = target
      · subst hother
        rw [Function.update_self, childList, childList, pointersTo_append, if_pos htarget,
          ← List.append_assoc]
        rfl
      · have hne : source.target? (k :: path) ≠ some other := by
          rw [htarget]
          exact fun heq => hother (Option.some.inj heq).symm
        rw [Function.update_of_ne fun heq => hother (by injection heq), childList, childList,
          pointersTo_append, if_neg hne, List.append_nil]
    · intro a _
      rw [hlast]
    · rintro _ ⟨other, rfl, _⟩
      rw [hlast]
      refine if_neg fun hmem => ?_
      obtain ⟨_, heq⟩ := hpointers _ hmem
      cases heq
    · intro a _ b _
      rw [hlast]
    · intro a _ b _
      rw [hlast]

end Arranged

end VaeDb.Source
