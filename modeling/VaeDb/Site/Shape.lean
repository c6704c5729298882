import VaeDb.Site.Load

/-!
# The shape of the heap while a feed is loaded

A load goes through the elements of the feed from the root node down.  It *opens* an element
to go through its children; it does not open one that it removes as unpublished, nor an
association item.  `Source.Opened`, `Source.Pruned` and `Source.Item` say this about the feed
alone.

`Source.Shape` describes the heap at any moment, by the set of the children that have been
removed and the set of the items that have got their association.  Two things about the
child lists are behind all that follows:

* the list of an element is the list of its children in the feed without those that have been
  removed, and then perhaps pointer nodes;
* when there are pointer nodes after the children of an item without association yet, then
  the first of them leads back to an item that shares its property list.
-/

namespace VaeDb

open Xml Links

/-- What a load works on and does not change. -/
structure Source where
  surroundings : Surroundings
  feed : Tree
  root : Path
  root_element : feed.typeAt root = .element

namespace Source

/-! ## The elements that a load opens -/

section

variable (source : Source)

/-- What `populateAttrs` makes of the node with a path. -/
def context (path : Path) : Outcome (Option Context) :=
  populateAttrs source.surroundings (source.feed.attributesAt path)

/-- The node with a path is an element. -/
def Element (path : Path) : Prop := source.feed.typeAt path = .element

/-- The elements whose children are gone through. -/
inductive Opened : Path → Prop
  | root : Opened source.root
  | child {i : ℕ} {path : Path} {ctxt : Context} (hparent : Opened path)
      (helement : source.Element (i :: path))
      (hctxt : source.context (i :: path) = .ok (some ctxt))
      (hopen : ctxt.isAssociation = false) : Opened (i :: path)

/-- The elements that are gone through. -/
def Child : Path → Prop
  | [] => False
  | i :: path => source.Opened path ∧ source.Element (i :: path)

/-- The elements that keep their Contexts. -/
def Visited (path : Path) : Prop :=
  source.Child path ∧ ∃ ctxt, source.context path = .ok (some ctxt)

/-- The association items. -/
def Item (path : Path) : Prop :=
  source.Child path ∧ ∃ ctxt, source.context path = .ok (some ctxt) ∧ ctxt.isAssociation = true

/-- The elements whose Contexts come with `killMe`. -/
def Pruned (path : Path) : Prop :=
  source.Child path ∧ source.context path = .ok none

end

variable {source : Source} {path outer : Path}

theorem Opened.suffix (h : source.Opened path) : source.root <:+ path := by
  induction h with
  | root => exact List.suffix_rfl
  | child _ _ _ _ ih => exact ih.trans (List.suffix_cons ..)

theorem Child.suffix (h : source.Child path) : source.root <:+ path := by
  cases path with
  | nil => exact h.elim
  | cons i path => exact h.1.suffix.trans (List.suffix_cons ..)

theorem Child.element (h : source.Child path) : source.Element path := by
  cases path with
  | nil => exact h.elim
  | cons i path => exact h.2

theorem Child.ne_root (h : source.Child path) : path ≠ source.root := by
  cases path with
  | nil => exact h.elim
  | cons i path =>
      intro heq
      have hlength := h.1.suffix.length_le
      rw [← heq, List.length_cons] at hlength
      omega

/-- What is between the root node and an opened element is opened. -/
theorem Opened.between (h : source.Opened path) (hroot : source.root <:+ outer)
    (houter : outer <:+ path) : source.Opened outer := by
  induction h with
  | root => exact (List.IsSuffix.eq_of_length_le hroot houter.length_le) ▸ .root
  | child hparent helement hctxt hopen ih =>
      rcases List.suffix_cons_iff.1 houter with rfl | houter
      · exact .child hparent helement hctxt hopen
      · exact ih houter

/-- The opened elements below the root node. -/
theorem Opened.ctxt (h : source.Opened path) (hne : path ≠ source.root) :
    source.Child path ∧
      ∃ ctxt, source.context path = .ok (some ctxt) ∧ ctxt.isAssociation = false := by
  cases h with
  | root => exact absurd rfl hne
  | child hparent helement hctxt hopen => exact ⟨⟨hparent, helement⟩, _, hctxt, hopen⟩

theorem Opened.visited (h : source.Opened path) (hne : path ≠ source.root) :
    source.Visited path := by
  obtain ⟨hchild, ctxt, hctxt, _⟩ := h.ctxt hne
  exact ⟨hchild, ctxt, hctxt⟩

theorem Opened.element (h : source.Opened path) : source.Element path := by
  by_cases hroot : path = source.root
  · exact hroot ▸ source.root_element
  · exact (h.ctxt hroot).1.element

theorem Item.visited (h : source.Item path) : source.Visited path := by
  obtain ⟨hchild, ctxt, hctxt, _⟩ := h
  exact ⟨hchild, ctxt, hctxt⟩

theorem Visited.opened_or_item (h : source.Visited path) :
    source.Opened path ∨ source.Item path := by
  obtain ⟨hchild, ctxt, hctxt⟩ := h
  cases hopen : ctxt.isAssociation with
  | true => exact Or.inr ⟨hchild, ctxt, hctxt, hopen⟩
  | false =>
      cases path with
      | nil => exact hchild.elim
      | cons i path => exact Or.inl (.child hchild.1 hchild.2 hctxt hopen)

/-- No element both keeps its Context and is unpublished. -/
theorem Visited.not_pruned (h : source.Visited path) : ¬ source.Pruned path := by
  intro hpruned
  obtain ⟨ctxt, hctxt⟩ := h.2
  rw [hpruned.2] at hctxt
  cases hctxt

/-- A child of an opened element that is not opened itself. -/
def Shut (source : Source) (path : Path) : Prop := source.Child path ∧ ¬ source.Opened path

theorem Pruned.shut (h : source.Pruned path) : source.Shut path := by
  refine ⟨h.1, fun hopened => ?_⟩
  obtain ⟨_, ctxt, hctxt, _⟩ := hopened.ctxt h.1.ne_root
  exact absurd (h.2.symm.trans hctxt) (by simp)

theorem Item.shut (h : source.Item path) : source.Shut path := by
  refine ⟨h.1, fun hopened => ?_⟩
  obtain ⟨_, ctxt, hctxt, hopen⟩ := hopened.ctxt h.1.ne_root
  obtain ⟨_, ctxt', hctxt', hitem⟩ := h
  obtain rfl : ctxt = ctxt' := by
    rw [hctxt] at hctxt'
    injection hctxt' with h
    injection h
  rw [hopen] at hitem
  cases hitem

/-- Nothing at or below an element that is shut is opened. -/
theorem Shut.not_opened (h : source.Shut outer) (houter : outer <:+ path) :
    ¬ source.Opened path :=
  fun hopened => h.2 (hopened.between h.1.suffix houter)

/-- Of two elements that are shut, neither is below the other. -/
theorem Shut.eq_of_suffix (h : source.Shut outer) (hpath : source.Child path)
    (houter : outer <:+ path) : outer = path := by
  cases path with
  | nil => exact hpath.elim
  | cons i path =>
      rcases List.suffix_cons_iff.1 houter with heq | houter
      · exact heq
      · exact absurd hpath.1 (h.not_opened houter)

/-! ## The shape -/

/-- The address of a child. -/
def kid (path : Path) (k : ℕ) : Address := .feed (k :: path)

theorem kid_injective (path : Path) : Function.Injective (kid path) := by
  intro a b h
  simpa [kid] using h

/-- A pointer node. -/
def IsPointer (at? : Option Address) : Prop := ∃ item, at? = some (.pointer item)

/-- The child list of an element: `kids` are the children that have not been removed; what
comes after them starts at `stop`, and is nothing or a pointer node. -/
structure Listed (source : Source) (heap : Heap Address) (removed : Path → Prop) (path : Path)
    (kids : List ℕ) (stop : Option Address) : Prop where
  sorted : kids.Pairwise (· < ·)
  mem : ∀ k, k ∈ kids ↔ k < source.feed.width path ∧ ¬ removed (k :: path)
  segment : Segment heap.next heap.prev none (heap.children (.feed path))
    (kids.map (kid path)) stop
  ending : stop = none ∧ heap.last (.feed path) = (kids.map (kid path)).getLast? ∨
    IsPointer stop ∧ IsPointer (heap.last (.feed path))

/-- After the children of an opened element there may be the pointer nodes of all items that
have got their association; after those of an item without association only the pointer nodes
of items that share its property list. -/
def Stops (source : Source) (heap : Heap Address) (entered : Path → Prop) (path : Path)
    (stop : Option Address) : Prop :=
  ∀ node, stop = some (.pointer node) → ∃ item, node = .feed item ∧ entered item ∧
    (source.Opened path ∨
      source.Item path ∧ heap.properties (.feed item) = some (.feed path))

/-- A node that an item can have been associated with: if it is itself an item, it has got its
association or it has pointer nodes. -/
def Held (source : Source) (heap : Heap Address) (removed entered : Path → Prop)
    (path : Path) : Prop :=
  source.Item path →
    ¬ removed path ∧ (entered path ∨ IsPointer (heap.last (.feed path)))

/-- What is known of an item that has got its association. -/
structure Entered (source : Source) (heap : Heap Address) (removed entered : Path → Prop)
    (item : Path) : Prop where
  children : heap.children (.feed item) = some (kid item 0)
  text : ∃ content, source.feed.typeAt (0 :: item) = .text content
  next : heap.next (kid item 0) = none ∨ IsPointer (heap.next (kid item 0)) ∨
    ∃ k path, heap.next (kid item 0) = some (kid path k) ∧ k < source.feed.width path ∧
      (source.Opened path ∨
        k = 0 ∧ source.Item path ∧ source.Held heap removed entered path)
  pointer : ∃ b path j, item = b :: path ∧ path ≠ source.root ∧ j ≤ b ∧
    heap.children (.pointer (.feed item)) = some (kid path j) ∧
    heap.properties (.pointer (.feed item)) = source.feed.parse.properties (.feed path) ∧
    heap.type (.pointer (.feed item)) = .element
  properties : ∃ target, heap.properties (.feed item) = some (.feed target) ∧
    source.Visited target ∧ source.Held heap removed entered target
  last : heap.last (.feed item) = none ∨ IsPointer (heap.last (.feed item)) ∨
    ∃ k path, heap.last (.feed item) = some (kid path k) ∧
      IsPointer (heap.last (.feed path)) ∧
      k < source.feed.width path ∧
      (∀ other < source.feed.width path, ¬ removed (other :: path) → other ≤ k) ∧
      (source.Opened path ∨ source.Item path ∧ ¬ entered path ∧ ¬ removed path ∧
        heap.properties (.feed item) = some (.feed path))

/-- The links of the heap, given which children have been removed and which items have got
their association. -/
structure Shape (source : Source) (heap : Heap Address) (removed entered : Path → Prop) :
    Prop where
  removed_shut : ∀ path, removed path → source.Shut path
  entered_item : ∀ path, entered path → source.Item path ∧ ¬ removed path
  type : ∀ path, heap.type (.feed path) = source.feed.typeAt path
  parent : ∀ i path, source.Child (i :: path) → ¬ removed (i :: path) →
    heap.parent (kid path i) = some (.feed path)
  leaf : ∀ path, ¬ source.Element path → heap.children (.feed path) = none
  lists : ∀ path, source.Element path → ¬ entered path →
    ∃ kids stop, source.Listed heap removed path kids stop ∧
      source.Stops heap entered path stop
  properties : ∀ path, ¬ entered path →
    heap.properties (.feed path) = source.feed.parse.properties (.feed path)
  attributes : ∀ path list, heap.attributes (.feed path) = some list →
    list = source.feed.attributesAt path
  items : ∀ item, entered item → source.Entered heap removed entered item
  pointerNext : ∀ node, heap.next (.pointer node) = none ∨
    IsPointer (heap.next (.pointer node))
  rootPrivate : heap._private (.feed source.root) = none

/-- What is at or below a removed child, or below an item that has got its association
except its first child. -/
def Gone (removed entered : Path → Prop) (path : Path) : Prop :=
  (∃ outer, removed outer ∧ outer <:+ path) ∨
    ∃ item, entered item ∧ item <:+ path ∧ path ≠ item ∧ path ≠ 0 :: item

/-- Which nodes are allocated. -/
structure Allocated (source : Source) (heap : Heap Address) (removed entered : Path → Prop) :
    Prop where
  live : ∀ path, (source.feed.lookup path).isSome → ¬ Gone removed entered path →
    heap.live (.feed path) = true
  dead : ∀ path, removed path → heap.live (.feed path) = false
  pointer : ∀ node, heap.live (.pointer node) = true → ∃ item, node = .feed item ∧ entered item

end Source

end VaeDb
