import VaeDb.Site.Association
import VaeDb.Site.Pending

/-!
# An association keeps the shape of the heap

`Adoption` collects what is known when an item gets its association.  The heap then has the
same shape with one more item that has got its association (`Adoption.shape'`).

One child list gets a new pointer node at its end: the list that the last child of the
associated node is in.  That is the node's own list, or, if the node is an item that shares
the children of another one, possibly the list of that one (`Adoption.tail`).
-/

namespace VaeDb.Source

open Xml Links

variable {source : Source} {heap heap' : Heap Address} {removed entered : Path → Prop}
  {path target other : Path} {kids : List ℕ} {j k : ℕ} {stop : Option Address}

/-- One more item has got its association. -/
def andEntered (entered : Path → Prop) (item : Path) (path : Path) : Prop :=
  entered path ∨ path = item

theorem lastChild_eq_some {A : Type} {heap : Heap A} {a b : A} :
    heap.lastChild a = some b ↔ heap.children a ≠ none ∧ heap.last a = some b := by
  unfold Heap.lastChild
  cases heap.children a with
  | none => simp
  | some child => simp

/-- The last of some indices is the largest. -/
theorem getLast?_eq_some_iff (h : kids.Pairwise (· < ·)) :
    kids.getLast? = some j ↔ j ∈ kids ∧ ∀ i ∈ kids, i ≤ j := by
  constructor
  · intro hlast
    obtain ⟨first, rfl⟩ := List.getLast?_eq_some_iff.1 hlast
    refine ⟨by simp, fun i hi => ?_⟩
    rcases List.mem_append.1 hi with hi | hi
    · exact Nat.le_of_lt ((List.pairwise_append.1 h).2.2 i hi j (by simp))
    · exact Nat.le_of_eq (List.mem_singleton.1 hi)
  · rintro ⟨hj, hmax⟩
    obtain ⟨first, rest, rfl⟩ := List.append_of_mem hj
    cases rest with
    | nil => simp
    | cons i rest =>
        have hsorted := (List.pairwise_append.1 h).2.1
        have hlt : j < i := (List.pairwise_cons.1 hsorted).1 i (List.mem_cons_self ..)
        have hle := hmax i (by simp)
        omega

/-- The last child is the one with the largest index. -/
theorem Listed.getLast?_eq (h : source.Listed heap removed path kids stop) (hj : j ∈ kids)
    (hmax : ∀ i ∈ kids, i ≤ j) : (kids.map (kid path)).getLast? = some (kid path j) := by
  rw [List.getLast?_map, (getLast?_eq_some_iff h.sorted).2 ⟨hj, hmax⟩]
  rfl

theorem Listed.le_of_getLast? (h : source.Listed heap removed path kids stop)
    (hlast : (kids.map (kid path)).getLast? = some (kid path j)) :
    j ∈ kids ∧ ∀ i ∈ kids, i ≤ j := by
  rw [List.getLast?_map, Option.map_eq_some_iff] at hlast
  obtain ⟨last, hlast, hkid⟩ := hlast
  obtain rfl := kid_injective path hkid
  exact (getLast?_eq_some_iff h.sorted).1 hlast

/-- An item gets its association with the element at `target`; its own children after the
first one have been freed. -/
structure Adoption (source : Source) (heap heap' : Heap Address) (removed entered : Path → Prop)
    (k : ℕ) (path target : Path) : Prop where
  shape : source.Shape heap removed entered
  dead : ∀ path, removed path → heap.live (.feed path) = false
  item : source.Item (k :: path)
  kept : ¬ removed (k :: path)
  notEntered : ¬ entered (k :: path)
  notPointer : ¬ IsPointer (heap.last (.feed (k :: path)))
  text : ∃ content, source.feed.typeAt (0 :: k :: path) = .text content
  ne_root : path ≠ source.root
  visited : source.Visited target
  attributes : source.feed.attributesAt target ≠ []
  targetKept : ¬ removed target
  adopted : Adopted heap heap' k path target

namespace Adoption

variable (h : source.Adoption heap heap' removed entered k path target)

include h

theorem ne_of_entered (hother : entered other) : other ≠ k :: path :=
  fun heq => h.notEntered (heq ▸ hother)

theorem ne_of_pointer (hother : IsPointer (heap.last (.feed other))) : other ≠ k :: path :=
  fun heq => h.notPointer (heq ▸ hother)

/-- Pointer nodes stay last children. -/
theorem last_pointer (hother : IsPointer (heap.last (.feed other))) :
    IsPointer (heap'.last (.feed other)) := by
  rw [h.adopted.last]
  split
  · exact ⟨_, rfl⟩
  · rw [if_neg (h.ne_of_pointer hother)]
    exact hother

theorem last_target : heap'.last (.feed target) = some (.pointer (kid path k)) := by
  rw [h.adopted.last, if_pos rfl]

theorem held (hother : source.Held heap removed entered other) :
    source.Held heap' removed (andEntered entered (k :: path)) other := by
  intro hitem
  obtain ⟨hkept, hcase⟩ := hother hitem
  exact ⟨hkept, hcase.imp Or.inl h.last_pointer⟩

theorem held_target : source.Held heap' removed (andEntered entered (k :: path)) target :=
  fun _ => ⟨h.targetKept, Or.inr ⟨_, h.last_target⟩⟩

theorem properties_item :
    heap'.properties (.feed (k :: path)) = heap.properties (.feed target) := by
  rw [h.adopted.properties, if_neg (by simp)]
  exact if_pos rfl

theorem properties_other (hne : other ≠ k :: path) :
    heap'.properties (.feed other) = heap.properties (.feed other) := by
  rw [h.adopted.properties, if_neg (by simp), if_neg]
  intro heq
  injection heq with heq
  exact hne heq

/-! ## The associated node -/

theorem properties_self (hnot : ¬ entered target) :
    heap.properties (.feed target) = some (.feed target) :=
  (h.shape.properties target hnot).trans (parse_properties h.attributes)

theorem properties_target :
    ∃ other, heap.properties (.feed target) = some (.feed other) ∧ source.Visited other ∧
      source.Held heap' removed (andEntered entered (k :: path)) other := by
  by_cases htarget : entered target
  · obtain ⟨other, hother, hvisited, hheld⟩ := (h.shape.items target htarget).properties
    exact ⟨other, hother, hvisited, h.held hheld⟩
  · exact ⟨target, h.properties_self htarget, h.visited, h.held_target⟩

/-- The first child of the associated node. -/
theorem children_target : heap.children (.feed target) = none ∨
    IsPointer (heap.children (.feed target)) ∨
    ∃ j other, heap.children (.feed target) = some (kid other j) ∧
      j < source.feed.width other ∧ (source.Opened other ∨ j = 0 ∧ source.Item other ∧
        source.Held heap' removed (andEntered entered (k :: path)) other) := by
  by_cases htarget : entered target
  · have hentered := h.shape.items target htarget
    obtain ⟨_, htext⟩ := hentered.text
    exact Or.inr (Or.inr ⟨0, target, hentered.children, width_pos_of_text htext,
      Or.inr ⟨rfl, (h.shape.entered_item target htarget).1, h.held_target⟩⟩)
  · obtain ⟨kids, stop, hlisted, _⟩ := h.shape.lists target h.visited.1.element htarget
    rw [hlisted.children_eq]
    cases hkids : kids.head? with
    | none =>
        rcases hlisted.ending with ⟨hnone, _⟩ | ⟨hpointer, _⟩
        · exact Or.inl hnone
        · exact Or.inr (Or.inl hpointer)
    | some j =>
        have hj := ((hlisted.mem j).1 (List.mem_of_mem_head? hkids)).1
        refine Or.inr (Or.inr ⟨j, target, rfl, hj, ?_⟩)
        rcases h.visited.opened_or_item with hopened | hitem
        · exact Or.inl hopened
        · rw [hlisted.head?_eq (h.shape.kids_kept hitem)] at hkids
          split at hkids
          · exact Or.inr ⟨(Option.some.inj hkids).symm, hitem, h.held_target⟩
          · cases hkids

/-- The last child of the associated node, as the item gets it. -/
theorem last_item (hne : target ≠ k :: path) : heap.last (.feed target) = none ∨
    IsPointer (heap.last (.feed target)) ∨
    ∃ j other, heap.last (.feed target) = some (kid other j) ∧
      IsPointer (heap'.last (.feed other)) ∧ j < source.feed.width other ∧
      (∀ i < source.feed.width other, ¬ removed (i :: other) → i ≤ j) ∧
      (source.Opened other ∨ source.Item other ∧ ¬ andEntered entered (k :: path) other ∧
        ¬ removed other ∧ heap.properties (.feed target) = some (.feed other)) := by
  by_cases htarget : entered target
  · refine (h.shape.items target htarget).last.imp_right (Or.imp_right ?_)
    rintro ⟨j, other, hlast, hpointer, hj, hmax, hcase⟩
    refine ⟨j, other, hlast, h.last_pointer hpointer, hj, hmax, hcase.imp_right ?_⟩
    rintro ⟨hitem, hnot, hkept, hproperties⟩
    exact ⟨hitem, not_or.2 ⟨hnot, h.ne_of_pointer hpointer⟩, hkept, hproperties⟩
  · obtain ⟨kids, stop, hlisted, _⟩ := h.shape.lists target h.visited.1.element htarget
    rcases hlisted.ending with ⟨_, hlast⟩ | ⟨_, hpointer⟩
    · rw [hlast]
      cases hkids : (kids.map (kid target)).getLast? with
      | none => exact Or.inl rfl
      | some a =>
          obtain ⟨j, _, rfl⟩ := List.mem_map.1 (List.mem_of_getLast? hkids)
          obtain ⟨hj, hmax⟩ := hlisted.le_of_getLast? hkids
          refine Or.inr (Or.inr ⟨j, target, rfl, ⟨_, h.last_target⟩, ((hlisted.mem j).1 hj).1,
            fun i hi hkept => hmax i ((hlisted.mem i).2 ⟨hi, hkept⟩), ?_⟩)
          refine h.visited.opened_or_item.imp_right fun hitem => ?_
          exact ⟨hitem, not_or.2 ⟨htarget, hne⟩, h.targetKept, h.properties_self htarget⟩
    · exact Or.inr (Or.inl hpointer)

/-! ## The lists -/

/-- The list that the new pointer node is put at the end of, if there was a child before it:
the child is the last one, and the pointer node leads back to an item with the list's
properties. -/
theorem tail (htail : heap.lastChild (.feed target) = some (kid other j))
    (hlisted : source.Listed heap removed other kids stop) (hnot : ¬ entered other) :
    (kids.map (kid other)).getLast? = some (kid other j) ∧
      IsPointer (heap'.last (.feed other)) ∧
      (source.Opened other ∨
        source.Item other ∧ heap.properties (.feed target) = some (.feed other)) := by
  obtain ⟨_, hlast⟩ := lastChild_eq_some.1 htail
  by_cases htarget : entered target
  · rcases (h.shape.items target htarget).last with hnone | hpointer | hkid
    · rw [hnone] at hlast
      cases hlast
    · exact absurd hlast (hpointer.ne_kid other j)
    · obtain ⟨i, inner, hinner, hpointer, hi, hmax, hcase⟩ := hkid
      rw [hlast] at hinner
      obtain ⟨rfl, rfl⟩ : j = i ∧ other = inner := by simpa [kid] using hinner
      -- the child is allocated, so it has not been removed
      have hlive := (h.adopted.live _).1 (h.adopted.lastChild_live _ htail)
      have hkept : ¬ removed (j :: other) := by
        intro hremoved
        rcases hlive with hlive | hpointer
        · exact absurd (hlive.symm.trans (h.dead _ hremoved)) (by simp)
        · cases hpointer
      have hj : j ∈ kids := (hlisted.mem j).2 ⟨hi, hkept⟩
      refine ⟨hlisted.getLast?_eq hj fun i hi => ?_, h.last_pointer hpointer,
        hcase.imp_right fun hitem => ⟨hitem.1, hitem.2.2.2⟩⟩
      obtain ⟨hwidth, hkept⟩ := (hlisted.mem i).1 hi
      exact hmax i hwidth hkept
  · obtain ⟨kids', stop', hlisted', _⟩ := h.shape.lists target h.visited.1.element htarget
    rcases hlisted'.ending with ⟨_, hlast'⟩ | ⟨_, hpointer⟩
    · rw [hlast] at hlast'
      obtain ⟨i, _, hi⟩ := List.mem_map.1 (List.mem_of_getLast? hlast'.symm)
      obtain ⟨rfl, rfl⟩ : i = j ∧ target = other := by simpa [kid] using hi
      obtain ⟨hmem, hmax⟩ := hlisted'.le_of_getLast? hlast'.symm
      have hsame : ∀ m, m ∈ kids ↔ m ∈ kids' := fun m =>
        (hlisted.mem m).trans (hlisted'.mem m).symm
      refine ⟨hlisted.getLast?_eq ((hsame i).2 hmem) fun m hm => hmax m ((hsame m).1 hm),
        ⟨_, h.last_target⟩, ?_⟩
      exact h.visited.opened_or_item.imp_right fun hitem => ⟨hitem, h.properties_self htarget⟩
    · exact absurd hlast (hpointer.ne_kid other j)

/-- Pointer nodes that were there still lead back. -/
theorem stops (hstops : source.Stops heap entered other stop) :
    source.Stops heap' (andEntered entered (k :: path)) other stop := by
  intro node hnode
  obtain ⟨item, rfl, hentered, hcase⟩ := hstops node hnode
  refine ⟨item, rfl, Or.inl hentered, hcase.imp_right fun hitem => ⟨hitem.1, ?_⟩⟩
  exact (h.properties_other (h.ne_of_entered hentered)).trans hitem.2

/-- So does the new one. -/
theorem stops_new (hcase : source.Opened other ∨
      source.Item other ∧ heap.properties (.feed target) = some (.feed other)) :
    source.Stops heap' (andEntered entered (k :: path)) other
      (some (.pointer (kid path k))) := by
  intro node hnode
  injection hnode with hnode
  injection hnode with hnode
  refine ⟨k :: path, hnode.symm, Or.inr rfl, hcase.imp_right fun hitem => ⟨hitem.1, ?_⟩⟩
  exact h.properties_item.trans hitem.2

/-- The first child of an element that has one. -/
theorem children_kept {a : Address} (hother : heap.children (.feed other) = some a) :
    heap'.children (.feed other) = some a := by
  rw [h.adopted.children, if_neg (by simp), hother]
  split
  · rfl
  · rfl

theorem children_other (hne : other ≠ target) :
    heap'.children (.feed other) = heap.children (.feed other) := by
  rw [h.adopted.children, if_neg (by simp), if_neg]
  intro heq
  injection heq with heq
  exact hne heq

/-- The first child of the item is in no other list, so only the last child of the associated
node gets another next pointer. -/
theorem next_kid (hne : other ≠ k :: path)
    (htail : heap.lastChild (.feed target) ≠ some (kid other j)) :
    heap'.next (kid other j) = heap.next (kid other j) := by
  have hkid : kid other j ≠ kid (k :: path) 0 := by
    intro heq
    injection heq with heq
    injection heq with _ heq
    exact hne heq
  rw [h.adopted.next, if_neg htail, if_neg (by simp [kid]), if_neg hkid]

theorem prev_kids : ∀ a ∈ kids.map (kid other), heap'.prev a = heap.prev a := by
  intro a ha
  obtain ⟨i, _, rfl⟩ := List.mem_map.1 ha
  exact h.adopted.prev _

/-- The list that the last child of the associated node is in: the pointer node comes after
it. -/
theorem listed_tail (hne : other ≠ k :: path)
    (htail : heap.lastChild (.feed target) = some (kid other j))
    (hlisted : source.Listed heap removed other kids stop)
    (hgetLast : (kids.map (kid other)).getLast? = some (kid other j))
    (hpointer : IsPointer (heap'.last (.feed other))) :
    source.Listed heap' removed other kids (some (.pointer (kid path k))) := by
  refine ⟨hlisted.sorted, hlisted.mem, ?_, Or.inr ⟨⟨_, rfl⟩, hpointer⟩⟩
  have hchildren : heap'.children (.feed other) = heap.children (.feed other) := by
    cases hstart : heap.children (.feed other) with
    | none =>
        rw [hlisted.children_eq] at hstart
        cases kids with
        | nil => cases hgetLast
        | cons i kids => cases hstart
    | some a => exact h.children_kept hstart
  rw [hchildren]
  refine (hlisted.segment.retarget hlisted.nodup hgetLast).congr (fun a ha => ?_) h.prev_kids
  obtain ⟨i, _, rfl⟩ := List.mem_map.1 ha
  by_cases hij : i = j
  · subst hij
    rw [Function.update_self, h.adopted.next, if_pos htail]
  · rw [Function.update_of_ne fun heq => hij (kid_injective other heq)]
    refine h.next_kid hne fun heq => hij ?_
    rw [htail] at heq
    exact (kid_injective other (Option.some.inj heq)).symm

/-- The other lists keep their links. -/
theorem segment_kept (hne : other ≠ k :: path)
    (htail : ∀ i, heap.lastChild (.feed target) ≠ some (kid other i))
    (hlisted : source.Listed heap removed other kids stop) :
    Segment heap'.next heap'.prev none (heap.children (.feed other)) (kids.map (kid other))
      stop := by
  refine hlisted.segment.congr (fun a ha => ?_) h.prev_kids
  obtain ⟨i, _, rfl⟩ := List.mem_map.1 ha
  exact h.next_kid hne (htail i)

/-- The list of the associated node, if it is empty: the pointer node is the only child. -/
theorem listed_only (hnone : heap.children (.feed target) = none)
    (hlisted : source.Listed heap removed target kids stop) :
    source.Listed heap' removed target [] (some (.pointer (kid path k))) := by
  have hempty : kids = [] := by
    have heq := hlisted.children_eq
    rw [hnone] at heq
    cases kids with
    | nil => rfl
    | cons i kids => cases heq
  subst hempty
  refine ⟨hlisted.sorted, hlisted.mem, ?_, Or.inr ⟨⟨_, rfl⟩, ⟨_, h.last_target⟩⟩⟩
  show heap'.children (.feed target) = _
  rw [h.adopted.children, if_neg (by simp), if_pos rfl, hnone]
  rfl

omit h in
/-- A list that is not empty and does not end with a child ends with pointer nodes. -/
theorem pointer_of_not_kid (hchildren : heap.children (.feed target) ≠ none)
    (htail : ∀ i, heap.lastChild (.feed target) ≠ some (kid target i))
    (hlisted : source.Listed heap removed target kids stop) : IsPointer stop := by
  rcases hlisted.ending with ⟨rfl, hlast⟩ | ⟨hpointer, _⟩
  · cases hkids : (kids.map (kid target)).getLast? with
    | none =>
        have hsegment := hlisted.segment
        rw [List.getLast?_eq_none_iff.1 hkids] at hsegment
        exact absurd hsegment hchildren
    | some a =>
        obtain ⟨j, _, rfl⟩ := List.mem_map.1 (List.mem_of_getLast? hkids)
        exact absurd (lastChild_eq_some.2 ⟨hchildren, hlast.trans hkids⟩) (htail j)
  · exact hpointer

/-- The list of the associated node, if it ends with pointer nodes: it is left alone. -/
theorem listed_pointers (hne : target ≠ k :: path)
    (hchildren : heap.children (.feed target) ≠ none)
    (htail : ∀ i, heap.lastChild (.feed target) ≠ some (kid target i))
    (hlisted : source.Listed heap removed target kids stop) :
    source.Listed heap' removed target kids stop := by
  have hpointer := pointer_of_not_kid hchildren htail hlisted
  refine ⟨hlisted.sorted, hlisted.mem, ?_, Or.inr ⟨hpointer, ⟨_, h.last_target⟩⟩⟩
  obtain ⟨child, hchild⟩ := Option.ne_none_iff_exists'.1 hchildren
  rw [h.children_kept hchild, ← hchild]
  exact h.segment_kept hne htail hlisted

/-- A list that neither is the associated node's nor has its last child. -/
theorem listed_other (hne : other ≠ k :: path) (htarget : other ≠ target)
    (htail : ∀ i, heap.lastChild (.feed target) ≠ some (kid other i))
    (hlisted : source.Listed heap removed other kids stop) :
    source.Listed heap' removed other kids stop := by
  refine ⟨hlisted.sorted, hlisted.mem, ?_, ?_⟩
  · rw [h.children_other htarget]
    exact h.segment_kept hne htail hlisted
  · rw [h.adopted.last, if_neg htarget, if_neg hne]
    exact hlisted.ending

/-- The list of an element that has not got an association. -/
theorem lists (helement : source.Element other)
    (hnot : ¬ andEntered entered (k :: path) other) :
    ∃ kids stop, source.Listed heap' removed other kids stop ∧
      source.Stops heap' (andEntered entered (k :: path)) other stop := by
  obtain ⟨hnotEntered, hne⟩ := not_or.1 hnot
  obtain ⟨kids, stop, hlisted, hstops⟩ := h.shape.lists other helement hnotEntered
  by_cases htail : ∃ j, heap.lastChild (.feed target) = some (kid other j)
  · obtain ⟨j, htail⟩ := htail
    obtain ⟨hgetLast, hpointer, hcase⟩ := h.tail htail hlisted hnotEntered
    exact ⟨kids, _, h.listed_tail hne htail hlisted hgetLast hpointer, h.stops_new hcase⟩
  · have htail' : ∀ i, heap.lastChild (.feed target) ≠ some (kid other i) :=
      not_exists.1 htail
    by_cases htarget : other = target
    · subst htarget
      by_cases hnone : heap.children (.feed other) = none
      · refine ⟨[], _, h.listed_only hnone hlisted, h.stops_new ?_⟩
        exact h.visited.opened_or_item.imp_right fun hitem =>
          ⟨hitem, h.properties_self hnotEntered⟩
      · exact ⟨kids, stop, h.listed_pointers hne hnone htail' hlisted, h.stops hstops⟩
    · exact ⟨kids, stop, h.listed_other hne htarget htail' hlisted, h.stops hstops⟩

/-! ## The items -/

/-- The item that gets its association. -/
theorem entered_item :
    source.Entered heap' removed (andEntered entered (k :: path)) (k :: path) := by
  obtain ⟨content, htext⟩ := h.text
  have hself : heap.children (.feed (k :: path)) = some (kid (k :: path) 0) :=
    h.shape.children_item h.item h.notEntered (width_pos_of_text htext)
  have hopened : source.Opened path := h.item.1.1
  constructor
  case children => exact h.children_kept hself
  case text => exact ⟨content, htext⟩
  case next =>
    rw [h.adopted.next]
    split
    · exact Or.inr (Or.inl ⟨_, rfl⟩)
    · rw [if_neg (by simp [kid]), if_pos rfl]
      exact h.children_target
  case pointer =>
    -- the item is in the list of its parent, so that list starts at or before it
    obtain ⟨kids, stop, hlisted, _⟩ := h.shape.list hopened
    have hk : k ∈ kids := (hlisted.mem k).2 ⟨h.item.1.lt_width, h.kept⟩
    cases kids with
    | nil => cases hk
    | cons j kids =>
        have hle : j ≤ k := by
          rcases List.mem_cons.1 hk with rfl | hk
          · exact Nat.le_refl _
          · exact Nat.le_of_lt ((List.pairwise_cons.1 hlisted.sorted).1 k hk)
        refine ⟨k, path, j, rfl, h.ne_root, hle, ?_, ?_, ?_⟩
        · rw [h.adopted.children]
          exact (if_pos rfl).trans hlisted.children_eq
        · rw [h.adopted.properties]
          exact (if_pos rfl).trans (h.shape.properties path (h.shape.not_entered hopened))
        · rw [h.adopted.type]
          exact (if_pos rfl).trans ((h.shape.type path).trans hopened.element)
  case properties =>
    rw [h.properties_item]
    exact h.properties_target
  case last =>
    by_cases htarget : target = k :: path
    · rw [← htarget, h.last_target]
      exact Or.inr (Or.inl ⟨_, rfl⟩)
    · rw [h.adopted.last, if_neg fun heq => htarget heq.symm, if_pos rfl, h.properties_item]
      exact h.last_item htarget

/-- An item that got its association before. -/
theorem items (hother : entered other) :
    source.Entered heap' removed (andEntered entered (k :: path)) other := by
  have hentered := h.shape.items other hother
  have hne := h.ne_of_entered hother
  have hpointer : Address.pointer (.feed other) ≠ .pointer (kid path k) := by
    intro heq
    injection heq with heq
    injection heq with heq
    exact hne heq
  constructor
  case children => exact h.children_kept hentered.children
  case text => exact hentered.text
  case next =>
    rw [h.adopted.next]
    split
    · exact Or.inr (Or.inl ⟨_, rfl⟩)
    · have hkid : kid other 0 ≠ kid (k :: path) 0 := by
        intro heq
        injection heq with heq
        injection heq with _ heq
        exact hne heq
      rw [if_neg (by simp [kid]), if_neg hkid]
      refine hentered.next.imp_right (Or.imp_right ?_)
      rintro ⟨j, inner, hnext, hj, hcase⟩
      refine ⟨j, inner, hnext, hj, hcase.imp_right ?_⟩
      rintro ⟨hzero, hitem, hheld⟩
      exact ⟨hzero, hitem, h.held hheld⟩
  case pointer =>
    rw [h.adopted.children, h.adopted.properties, h.adopted.type, if_neg hpointer,
      if_neg (by simp), if_neg hpointer, if_neg (by simp [kid]), if_neg hpointer]
    exact hentered.pointer
  case properties =>
    rw [h.properties_other hne]
    obtain ⟨inner, hinner, hvisited, hheld⟩ := hentered.properties
    exact ⟨inner, hinner, hvisited, h.held hheld⟩
  case last =>
    rw [h.adopted.last, if_neg hne, h.properties_other hne]
    split
    · exact Or.inr (Or.inl ⟨_, rfl⟩)
    · refine hentered.last.imp_right (Or.imp_right ?_)
      rintro ⟨j, inner, hlast, hinner, hj, hmax, hcase⟩
      refine ⟨j, inner, hlast, h.last_pointer hinner, hj, hmax, hcase.imp_right ?_⟩
      rintro ⟨hitem, hnot, hkept, hproperties⟩
      exact ⟨hitem, not_or.2 ⟨hnot, h.ne_of_pointer hinner⟩, hkept, hproperties⟩

/-! ## The shape -/

theorem shape' : source.Shape heap' removed (andEntered entered (k :: path)) := by
  constructor
  case removed_shut => exact h.shape.removed_shut
  case entered_item =>
    rintro other (hother | rfl)
    · exact h.shape.entered_item other hother
    · exact ⟨h.item, h.kept⟩
  case type =>
    intro other
    rw [h.adopted.type, if_neg (by simp)]
    exact h.shape.type other
  case parent =>
    intro i other hchild hremoved
    rw [h.adopted.parent, if_neg (by simp [kid])]
    exact h.shape.parent i other hchild hremoved
  case leaf =>
    intro other hother
    have hne : Address.feed other ≠ .feed target := by
      intro heq
      injection heq with heq
      exact hother (heq ▸ h.visited.1.element)
    rw [h.adopted.children, if_neg (by simp), if_neg hne]
    exact h.shape.leaf other hother
  case lists =>
    intro other helement hnot
    exact h.lists helement hnot
  case properties =>
    intro other hother
    obtain ⟨hnot, hne⟩ := not_or.1 hother
    rw [h.properties_other hne]
    exact h.shape.properties other hnot
  case attributes =>
    intro other list hlist
    rw [h.adopted.attributes] at hlist
    exact h.shape.attributes other list hlist
  case items =>
    rintro other (hother | rfl)
    · exact h.items hother
    · exact h.entered_item
  case pointerNext =>
    intro node
    rw [h.adopted.next]
    split
    · exact Or.inr ⟨_, rfl⟩
    · split
      · exact Or.inl rfl
      · rw [if_neg (by simp [kid])]
        exact h.shape.pointerNext node
  case rootPrivate =>
    rw [h.adopted._private _ fun heq => h.item.1.ne_root heq.symm]
    exact h.shape.rootPrivate

end Adoption

end VaeDb.Source
