import VaeDb.Site.Entries
import VaeDb.Site.Removal

/-!
# Items whose association is pending

What `initializeAssociation` reads on an item, and what it may run into.

* `Shape.getSingleData_eq`: the data is the text that the feed has there, so that the feed
  alone says which node is looked up (`Source.target?`).
* `Shape.not_pointer_of_free`, `Shape.not_pointer_of_remove`: an item that other items have
  been associated with before its turn is the end of the load.  Its child list then leads
  into a pointer node, and from there to an item that shares its property list, so that
  freeing the list frees the properties twice.
-/

namespace VaeDb.Source

open Xml Links

variable {source : Source} {heap heap1 heap' : Heap Address} {removed entered : Path → Prop}
  {path : Path} {kids : List ℕ} {k rounds : ℕ} {stop : Option Address} {list : Address}

/-- The path of the element that an association item stands for. -/
def target? (source : Source) (item : Path) : Option Path :=
  if atoi (source.feed.singleData item) > 0 then
    source.lastWithId (atoi (source.feed.singleData item))
  else none

/-! ## Attributes -/

/-- An element without attributes. -/
theorem context_of_nil (h : source.feed.attributesAt path = []) :
    source.context path = .ok (some ⟨0, none, none, [], []⟩) := by
  unfold context
  rw [h]
  rfl

theorem Item.attributes_ne_nil (h : source.Item path) : source.feed.attributesAt path ≠ [] := by
  intro hnil
  obtain ⟨_, ctxt, hctxt, hitem⟩ := h
  rw [context_of_nil hnil] at hctxt
  injection hctxt with hctxt
  injection hctxt with hctxt
  subst hctxt
  cases hitem

theorem attributes_ne_nil_of_id {id : ℤ} (h : source.id? path = some id) (hid : id > 0) :
    source.feed.attributesAt path ≠ [] := by
  intro hnil
  unfold id? at h
  rw [context?_eq (context_of_nil hnil)] at h
  obtain rfl := Option.some.inj h
  exact absurd hid (by decide)

theorem parse_properties (h : source.feed.attributesAt path ≠ []) :
    source.feed.parse.properties (.feed path) = some (.feed path) :=
  if_neg h

/-- The property list of a pending item is its own. -/
theorem Shape.properties_item (hshape : source.Shape heap removed entered)
    (hitem : source.Item path) (hnot : ¬ entered path) :
    heap.properties (.feed path) = some (.feed path) :=
  (hshape.properties path hnot).trans (parse_properties hitem.attributes_ne_nil)

/-- The element that an item stands for. -/
theorem target?_spec {item target : Path} (h : source.target? item = some target) :
    source.Visited target ∧ source.feed.attributesAt target ≠ [] := by
  unfold target? at h
  split at h
  · next hid =>
    have hmem := List.mem_of_find?_eq_some h
    have hkey := List.find?_some h
    rw [List.mem_reverse, mem_visited] at hmem
    exact ⟨hmem, attributes_ne_nil_of_id (by simpa using hkey) hid⟩
  · cases h

/-- An item that stands for an element has text. -/
theorem text_of_target? {item target : Path} (h : source.target? item = some target) :
    ∃ content, source.feed.typeAt (0 :: item) = .text content := by
  by_contra hnone
  have hdata := Tree.singleData_of_not_text fun content hcontent => hnone ⟨content, hcontent⟩
  unfold target? at h
  rw [hdata] at h
  cases h

/-! ## What an item reads -/

/-- No child of an item is removed by itself. -/
theorem Shape.kids_kept (hshape : source.Shape heap removed entered) (hitem : source.Item path)
    (j : ℕ) : ¬ removed (j :: path) :=
  fun hremoved => hitem.shut.2 (hshape.removed_shut _ hremoved).1.1

/-- The first child of an item that stands for an element. -/
theorem Shape.children_item (hshape : source.Shape heap removed entered)
    (hitem : source.Item path) (hnot : ¬ entered path) (hexists : 0 < source.feed.width path) :
    heap.children (.feed path) = some (kid path 0) := by
  obtain ⟨kids, stop, hlisted, _⟩ := hshape.lists path hitem.1.element hnot
  rw [hlisted.children_eq, hlisted.head?_eq (hshape.kids_kept hitem), if_pos hexists]
  rfl

theorem width_pos_of_text {content : Str}
    (h : source.feed.typeAt (0 :: path) = .text content) : 0 < source.feed.width path := by
  refine Tree.lookup_cons_isSome.1 ?_
  unfold Tree.typeAt at h
  cases hlookup : source.feed.lookup (0 :: path) with
  | none => simp [hlookup] at h
  | some node => rfl

/-- `getSingleData` of a pending item. -/
theorem Shape.getSingleData_eq (hshape : source.Shape heap removed entered)
    (hitem : source.Item path) (hnot : ¬ entered path) {data : Str}
    (h : Site.getSingleData heap (.feed path) = .ok data) :
    data = source.feed.singleData path := by
  obtain ⟨_, _, h⟩ := Outcome.bind_eq_ok.1 h
  obtain ⟨kids, stop, hlisted, hstops⟩ := hshape.lists path hitem.1.element hnot
  have hchildren := hlisted.children_eq
  rw [hlisted.head?_eq (hshape.kids_kept hitem)] at hchildren
  by_cases hwidth : 0 < source.feed.width path
  · rw [if_pos hwidth] at hchildren
    have hchild : heap.children (.feed path) = some (kid path 0) := hchildren
    simp only [hchild] at h
    obtain ⟨_, _, h⟩ := Outcome.bind_eq_ok.1 h
    have htype : heap.type (kid path 0) = source.feed.typeAt (0 :: path) := hshape.type _
    rw [htype] at h
    cases hcontent : source.feed.typeAt (0 :: path) with
    | text content =>
        simp only [hcontent] at h
        rw [Tree.singleData_of_text hcontent]
        exact (Outcome.pure_eq_ok.1 h).symm
    | element =>
        simp only [hcontent] at h
        rw [Tree.singleData_of_not_text (by simp [hcontent])]
        exact (Outcome.pure_eq_ok.1 h).symm
    | other =>
        simp only [hcontent] at h
        rw [Tree.singleData_of_not_text (by simp [hcontent])]
        exact (Outcome.pure_eq_ok.1 h).symm
  · -- without children of its own the item has no text
    have hdata : source.feed.singleData path = [] :=
      Tree.singleData_of_not_text fun _ hcontent => hwidth (width_pos_of_text hcontent)
    rw [hdata]
    rw [if_neg hwidth] at hchildren
    rcases hlisted.ending with ⟨rfl, _⟩ | ⟨⟨node, rfl⟩, _⟩
    · have hnone : heap.children (.feed path) = none := hchildren
      simp only [hnone] at h
      exact (Outcome.pure_eq_ok.1 h).symm
    · obtain ⟨item, rfl, hentered, _⟩ := hstops node rfl
      obtain ⟨_, _, _, _, _, _, _, _, htype⟩ := (hshape.items item hentered).pointer
      have hsome : heap.children (.feed path) = some (.pointer (.feed item)) := hchildren
      simp only [hsome] at h
      obtain ⟨_, _, h⟩ := Outcome.bind_eq_ok.1 h
      rw [htype] at h
      exact (Outcome.pure_eq_ok.1 h).symm

/-! ## Lists that lead to a property list -/

/-- From a child to a later one in the same list. -/
theorem Listed.carries {b j : ℕ} (h : source.Listed heap removed path kids stop) (hj : j ∈ kids)
    (hb : b ∈ kids) (hle : j ≤ b) (hcarries : heap.Carries list (kid path b)) :
    heap.Carries list (kid path j) := by
  induction hn : b - j using Nat.strongRecOn generalizing j with
  | ind n ih =>
      rcases h.next_eq hj with ⟨_, hmax⟩ | ⟨i, hi, hlt, hmin, hnext⟩
      · obtain rfl : b = j := Nat.le_antisymm (hmax b hb) hle
        exact hcarries
      · rcases Nat.eq_or_lt_of_le hle with rfl | hjb
        · exact hcarries
        · have hib : i ≤ b := hmin b hb hjb
          exact .next hnext (ih (b - i) (by omega) hi hib rfl)

/-- The lists of a heap in which pointer nodes lead back to their items. -/
structure Returning (source : Source) (heap : Heap Address) (removed entered : Path → Prop)
    (list : Address) : Prop where
  lists : ∀ path, source.Element path → ¬ entered path →
    ∃ kids stop, source.Listed heap removed path kids stop ∧ source.Stops heap entered path stop
  entered_item : ∀ item, entered item → source.Item item ∧ ¬ removed item
  removed : ∀ path, removed path → heap.Carries list (.feed path)
  pointer : ∀ item, entered item → ∃ b path j, item = b :: path ∧ j ≤ b ∧
    heap.children (.pointer (.feed item)) = some (kid path j)

/-- A pointer node leads to the property list of its item. -/
theorem Returning.carries (h : source.Returning heap removed entered list) {item : Path}
    (hentered : entered item) (hlist : heap.properties (.feed item) = some list) :
    heap.Carries list (.pointer (.feed item)) := by
  obtain ⟨b, path, j, rfl, hle, hchildren⟩ := h.pointer item hentered
  obtain ⟨hitem, hkept⟩ := h.entered_item _ hentered
  have hopened : source.Opened path := hitem.1.1
  have hnot : ¬ entered path := fun hpath => (h.entered_item path hpath).1.shut.2 hopened
  obtain ⟨kids, stop, hlisted, _⟩ := h.lists path hopened.element hnot
  refine .children hchildren ?_
  by_cases hremoved : removed (j :: path)
  · exact h.removed _ hremoved
  · have hwidth : b < source.feed.width path := hitem.1.lt_width
    have hb : b ∈ kids := (hlisted.mem b).2 ⟨hwidth, hkept⟩
    have hj : j ∈ kids := (hlisted.mem j).2 ⟨by omega, hremoved⟩
    exact hlisted.carries hj hb hle (.properties hlist)

/-- So does what comes after the children of an item. -/
theorem Returning.carries_stop (h : source.Returning heap removed entered (.feed path))
    (hitem : source.Item path) (hstops : source.Stops heap entered path stop)
    (hpointer : IsPointer stop) : ∃ z, stop = some z ∧ heap.Carries (.feed path) z := by
  obtain ⟨node, rfl⟩ := hpointer
  obtain ⟨item, rfl, hentered, hopened | ⟨_, hlist⟩⟩ := hstops node rfl
  · exact absurd hopened hitem.shut.2
  · exact ⟨_, rfl, h.carries hentered hlist⟩

theorem Shape.returning (hshape : source.Shape heap removed entered)
    (hallocated : source.Allocated heap removed entered) :
    source.Returning heap removed entered list where
  lists := hshape.lists
  entered_item := hshape.entered_item
  removed := fun path hremoved => .dead (hallocated.dead path hremoved)
  pointer := by
    intro item hentered
    obtain ⟨b, path, j, hitem, _, hle, hchildren, _⟩ := (hshape.items item hentered).pointer
    exact ⟨b, path, j, hitem, hle, hchildren⟩

/-! ## Freeing such a list -/

section

variable (hshape : source.Shape heap removed entered)
  (hallocated : source.Allocated heap removed entered)

include hshape hallocated

/-- An item that is associated has had no pointer node before. -/
theorem Shape.not_pointer_of_free (hitem : source.Item path) (hnot : ¬ entered path)
    (hchildren : heap.children (.feed path) = some (kid path 0))
    (hprops : heap.xmlFreePropList (heap.properties (.feed path)) = .ok heap1)
    (hfree : heap1.xmlFreeNodeList rounds (heap1.next (kid path 0)) = .ok heap') :
    ¬ IsPointer (heap.last (.feed path)) := by
  intro hlast
  obtain ⟨kids, stop, hlisted, hstops⟩ := hshape.lists path hitem.1.element hnot
  obtain ⟨z, rfl, hz⟩ := (hshape.returning hallocated).carries_stop hitem hstops
    (hlisted.pointer_stop hlast)
  have hsegment := hlisted.segment
  rw [hchildren] at hsegment
  cases kids with
  | nil =>
      have hstop : some (kid path 0) = some z := hsegment
      exact absurd hstop.symm (hlisted.stop_ne_kid path 0)
  | cons j kids =>
      obtain ⟨hhead, _, hrest⟩ := hsegment
      rw [← Option.some.inj hhead] at hrest
      obtain ⟨a, hnext, ha⟩ := Heap.Carries.segment hrest hz
      have hfreed : Heap.Freed (fun _ => True) heap heap1 := Heap.xmlFreePropList_freed hprops
      rw [hfreed.next_eq, hnext] at hfree
      obtain ⟨hsome, _⟩ := Heap.xmlFreeNodeList_carries (ha.freed hfreed) hfree
      -- but the property list has just been freed
      rw [hshape.properties_item hitem hnot] at hprops
      exact hsome (Heap.xmlFreePropList_some hprops).2

/-- An item that is removed has had no pointer node before. -/
theorem Shape.not_pointer_of_remove (hitem : source.Item (k :: path))
    (hnew : ¬ removed (k :: path)) (hnot : ¬ entered (k :: path))
    (hunlink : heap.xmlUnlinkNode (kid path k) = .ok heap1)
    (hfree : heap1.xmlFreeNode rounds (kid path k) = .ok heap') :
    ¬ IsPointer (heap.last (kid path k)) := by
  intro hlast
  have hparent := hshape.parent k path hitem.1 hnew
  have heq := Heap.xmlUnlinkNode_eq hunlink hparent
  have hproperties : heap1.properties (.feed (k :: path)) = some (.feed (k :: path)) := by
    rw [heq]
    exact hshape.properties_item hitem hnot
  have hreturning : source.Returning heap1 (andRemoved removed (k :: path)) entered
      (.feed (k :: path)) := by
    refine ⟨hshape.lists_unlink hitem.shut hnew hunlink, fun item hentered => ?_,
      fun other hremoved => ?_, fun item hentered => ?_⟩
    · obtain ⟨hitem', hkept⟩ := hshape.entered_item item hentered
      refine ⟨hitem', ?_⟩
      rintro (hremoved | rfl)
      · exact hkept hremoved
      · exact hnot hentered
    · rcases hremoved with hremoved | rfl
      · refine .dead ?_
        rw [heq]
        exact hallocated.dead other hremoved
      · exact .properties hproperties
    · obtain ⟨b, other, j, hb, _, hle, hchildren, _⟩ := (hshape.items item hentered).pointer
      refine ⟨b, other, j, hb, hle, ?_⟩
      rw [unlink_children hparent hunlink (by simp)]
      exact hchildren
  obtain ⟨kids, stop, hlisted, hstops⟩ := hreturning.lists (k :: path) hitem.1.element hnot
  have hlast1 : IsPointer (heap1.last (.feed (k :: path))) := by
    have hkept := unlink_last_pointer hparent hunlink hlast
    exact hkept.symm ▸ hlast
  obtain ⟨z, rfl, hz⟩ := hreturning.carries_stop hitem hstops (hlisted.pointer_stop hlast1)
  obtain ⟨a, hchildren, ha⟩ := Heap.Carries.segment hlisted.segment hz
  obtain ⟨_, _, hfree⟩ := Outcome.bind_eq_ok.1 hfree
  obtain ⟨heap2, hlistFree, hfree⟩ := Outcome.bind_eq_ok.1 hfree
  obtain ⟨heap3, hprops, _⟩ := Outcome.bind_eq_ok.1 hfree
  have hchildren' : heap1.children (kid path k) = some a := hchildren
  rw [hchildren'] at hlistFree
  obtain ⟨_, hnone⟩ := Heap.xmlFreeNodeList_carries ha hlistFree
  -- the properties of the item are freed once more
  have hfreed : Heap.Freed (fun _ => True) heap1 heap2 :=
    Heap.xmlFreeNodeList_freed (fun _ _ _ _ => trivial) (fun _ _ => trivial) hlistFree
  have hproperties' : heap2.properties (kid path k) = some (.feed (k :: path)) := by
    rw [hfreed.properties_eq]
    exact hproperties
  rw [hproperties'] at hprops
  exact (Heap.xmlFreePropList_some hprops).1 hnone

end

end VaeDb.Source
