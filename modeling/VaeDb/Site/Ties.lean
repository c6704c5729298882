import VaeDb.Site.Arrangement

/-!
# What leads to a pointer node

As long as no item is associated with another item, a pointer node is the next sibling of the
node that its `prev` points to, and of nothing else but first children of items.  The last child
that an item has taken from its associated node is this node, until it is freed
(`Source.Tied`).
-/

namespace VaeDb.Source

open Xml Links

variable {source : Source} {site site' built : Site} {heap1 heap2 heap' added : Heap Address}
  {removed entered : Path → Prop} {path target item inner : Path} {k rounds : ℕ}
  {done todo : List Path} {parentAddress associatedAddress a : Address}
  {parentContext associatedContext : Context}

/-- Where the new pointer node is put. -/
theorem prev_adopted (hrun : AssociateRun rounds site site' k path target heap1 heap2 added
      parentAddress associatedAddress parentContext associatedContext)
    (hpointers : ∀ node ctxt, site.contexts node = some ctxt →
      ∀ pointerNode ∈ ctxt.pointerNodes, IsPointer (some pointerNode)) (a : Address) :
    site'.heap.prev a =
      if a = .pointer (kid path k) then heap2.lastChild (.feed target) else heap2.prev a := by
  obtain ⟨_, _, _, hadded⟩ := Heap.xmlAddChild_eq hrun.add
  have hlast : (sharedCopy (linked heap2 (kid path k) (kid (k :: path) 0) (.feed target))
      (.feed path) (.pointer (kid path k))).lastChild (.feed target) =
        heap2.lastChild (.feed target) := by
    unfold Heap.lastChild sharedCopy linked
    by_cases hself : Address.feed target = kid path k
    · simp [hself, kid]
    · simp [hself]
  have hchildren : (sharedCopy (linked heap2 (kid path k) (kid (k :: path) 0) (.feed target))
      (.feed path) (.pointer (kid path k))).children (.feed target) =
        heap2.children (.feed target) := by
    simp [sharedCopy, linked]
  rw [(hrun.heap_eq hpointers).2]
  show added.prev a = _
  rw [hadded, hlast, hchildren]
  by_cases hnone : heap2.children (.feed target) = none
  · have hlastNone : heap2.lastChild (.feed target) = none := by
      unfold Heap.lastChild
      rw [hnone]
    by_cases ha : a = .pointer (kid path k)
    · simp [hnone, hlastNone, ha, sharedCopy]
    · simp [hnone, ha, sharedCopy, linked]
  · by_cases ha : a = .pointer (kid path k)
    · simp [hnone, ha]
    · simp [hnone, ha, sharedCopy, linked]

/-- The pointer nodes that there are. -/
def Named (entered : Path → Prop) (node : Address) : Prop :=
  ∃ item, node = .feed item ∧ entered item

/-- A first child of an item is text. -/
theorem Shape.first_ne {heap : Heap Address} (hshape : source.Shape heap removed entered)
    (hentered : entered item) (helement : source.Element inner) :
    Address.feed inner ≠ kid item 0 := by
  intro heq
  injection heq with heq
  obtain ⟨content, htext⟩ := (hshape.items item hentered).text
  have htype : source.feed.typeAt (0 :: item) = .element := heq ▸ helement
  rw [htype] at htext
  cases htext

/-- A Site in which it is known what leads to each pointer node. -/
structure Tied (source : Source) (site : Site) (done todo : List Path) : Prop where
  arranged : source.Arranged site done todo
  parent : ∀ item target, source.enteredAt todo item → source.target? item = some target →
    site.heap.parent (.pointer (.feed item)) = some (.feed target)
  first : ∀ item, source.enteredAt todo item → site.heap.prev (kid item 0) = none
  children : ∀ a node, site.heap.children a = some (.pointer node) →
    Named (source.enteredAt todo) node ∧ site.heap.prev (.pointer node) = none
  next : ∀ a node, site.heap.next a = some (.pointer node) →
    Named (source.enteredAt todo) node ∧ (site.heap.prev (.pointer node) = some a ∨
      ∃ other, source.enteredAt todo other ∧ a = kid other 0)
  last : ∀ item a, source.enteredAt todo item → site.heap.last (.feed item) = some a →
    (∀ node, a = .pointer node → Named (source.enteredAt todo) node) ∧
      (site.heap.live a = true → site.heap.prev (.pointer (.feed item)) = some a)

/-- Before the first turn there are no pointer nodes. -/
theorem tied_built (h : source.Built built removed)
    (hnoted : source.Noted (Beneath source.root) (Beneath source.root)
      (Site.parsed source.feed source.root) built (fun _ => False) removed) :
    source.Tied built [] source.items := by
  have hnone : ∀ path, ¬ source.enteredAt source.items path := by
    intro path hentered
    rw [← enteredAt_items] at hentered
    exact hentered
  have hunpointed := hnoted.unpointed ⟨fun a node hchildren => ?_, fun a node hnext => ?_⟩
  · exact ⟨arranged_built h hnoted, fun item target hitem => absurd hitem (hnone _),
      fun item hitem => absurd hitem (hnone _),
      fun a node hchildren => absurd hchildren (hunpointed.children a node),
      fun a node hnext => absurd hnext (hunpointed.next a node),
      fun item a hitem => absurd hitem (hnone _)⟩
  · cases a with
    | feed path =>
        have hparse : (if 0 < source.feed.width path then some (Address.feed (0 :: path))
          else none) = some (.pointer node) := hchildren
        split at hparse <;> cases hparse
    | pointer item => cases hchildren
  · cases a with
    | feed path =>
        cases path with
        | nil => cases hnext
        | cons i path =>
            have hparse : (if i + 1 < source.feed.width path then
              some (Address.feed ((i + 1) :: path)) else none) = some (.pointer node) := hnext
            split at hparse <;> cases hparse
    | pointer item => cases hnext

namespace Tied

/-! ### A turn that removes -/

section

variable (h : source.Tied site done ((k :: path) :: todo))
  (hunlink : site.heap.xmlUnlinkNode (kid path k) = .ok heap1)
  (hfree : heap1.xmlFreeNode rounds (kid path k) = .ok heap')

include h

theorem not_first_turn {other : Path} (hother : source.enteredAt ((k :: path) :: todo) other) :
    kid path k ≠ kid other 0 := by
  have hassociating := h.arranged.recorded.associating
  exact hassociating.shape.first_ne hother hassociating.item_turn.1.element

/-- A pointer node that comes after the item has it before itself. -/
theorem prev_after_turn {node : Address}
    (hnext : site.heap.next (kid path k) = some (.pointer node)) :
    Named (source.enteredAt ((k :: path) :: todo)) node ∧
      site.heap.prev (.pointer node) = some (kid path k) := by
  obtain ⟨hnamed, hprev⟩ := h.next _ node hnext
  refine ⟨hnamed, hprev.resolve_right ?_⟩
  rintro ⟨other, hother, hfirst⟩
  exact h.not_first_turn hother hfirst

include hunlink hfree

theorem prev_remove (ha : a ≠ kid path k) :
    heap'.prev a = if site.heap.next (kid path k) = some a then site.heap.prev (kid path k)
      else site.heap.prev a := by
  have hparent := h.arranged.recorded.associating.parent_turn
  rw [(Heap.xmlFreeNode_released hfree).eq, Heap.xmlUnlinkNode_eq hunlink hparent]
  show unlinkPrev _ _ _ _ = _
  rw [unlinkPrev_eq, if_neg ha]

theorem prev_remove_pointer {node : Address}
    (hne : site.heap.prev (.pointer node) ≠ some (kid path k)) :
    heap'.prev (.pointer node) = site.heap.prev (.pointer node) := by
  rw [h.prev_remove hunlink hfree (by simp [kid]), if_neg]
  exact fun hnext => hne (h.prev_after_turn hnext).2

theorem first_remove {other : Path} (hother : source.enteredAt ((k :: path) :: todo) other) :
    heap'.prev (kid other 0) = none := by
  have hassociating := h.arranged.recorded.associating
  have hopened : source.Opened path := hassociating.item_turn.1.1
  have hself : kid path k ∈
      source.childList done (source.removedAt ((k :: path) :: todo)) (.feed path) :=
    kid_mem_childList.2 ⟨rfl, mem_keptKids.2
      ⟨hassociating.item_turn.1.lt_width, hassociating.not_removedAt⟩⟩
  rw [h.prev_remove hunlink hfree (h.not_first_turn hother).symm, if_neg fun hnext => ?_]
  · exact h.first other hother
  · -- what comes after the item is in the list of an opened element
    have hmem := h.arranged.childLists.next_mem (owner_of_opened hopened) hself hnext
    exact hother.1.shut.2 ((kid_mem_childList.1 hmem).1 ▸ hopened)

theorem children_remove {node : Address} (hchildren : heap'.children a = some (.pointer node)) :
    Named (source.enteredAt ((k :: path) :: todo)) node ∧ heap'.prev (.pointer node) = none := by
  have heq := Heap.xmlUnlinkNode_eq hunlink h.arranged.recorded.associating.parent_turn
  have howner : source.Owner (source.enteredAt ((k :: path) :: todo)) (.feed path) :=
    owner_of_opened h.arranged.recorded.associating.item_turn.1.1
  rw [(Heap.xmlFreeNode_released hfree).children_eq] at hchildren
  by_cases hcase : a = .feed path ∧ site.heap.children (.feed path) = some (kid path k)
  · -- the pointer node takes the place of the item
    obtain ⟨rfl, hfirst⟩ := hcase
    rw [heq] at hchildren
    simp only [Function.update_self, if_pos hfirst] at hchildren
    refine ⟨(h.prev_after_turn hchildren).1, ?_⟩
    rw [h.prev_remove hunlink hfree (by simp [kid]), if_pos hchildren]
    exact h.arranged.childLists.prev_of_children howner hfirst
  · have hold : site.heap.children a = some (.pointer node) := by
      rw [← hchildren, heq]
      by_cases ha : a = .feed path
      · subst ha
        simp only [Function.update_self, if_neg fun hfirst => hcase ⟨rfl, hfirst⟩]
      · simp only [Function.update_of_ne ha]
    obtain ⟨hnamed, hnone⟩ := h.children a node hold
    rw [h.prev_remove_pointer hunlink hfree (by rw [hnone]; simp)]
    exact ⟨hnamed, hnone⟩

theorem next_remove {node : Address} (hnext : heap'.next a = some (.pointer node)) :
    Named (source.enteredAt ((k :: path) :: todo)) node ∧
      (heap'.prev (.pointer node) = some a ∨
        ∃ other, source.enteredAt ((k :: path) :: todo) other ∧ a = kid other 0) := by
  have hheap : heap1.next = unlinkNext site.heap.next site.heap.prev (kid path k) := by
    rw [Heap.xmlUnlinkNode_eq hunlink h.arranged.recorded.associating.parent_turn]
  rw [(Heap.xmlFreeNode_released hfree).next_eq, hheap, unlinkNext_eq] at hnext
  split at hnext
  · cases hnext
  · next hne =>
    split at hnext
    · next hbefore =>
      refine ⟨(h.prev_after_turn hnext).1, Or.inl ?_⟩
      rw [h.prev_remove hunlink hfree (by simp [kid]), if_pos hnext, hbefore]
    · obtain ⟨hnamed, hcase⟩ := h.next a node hnext
      refine ⟨hnamed, hcase.imp_left fun hbefore => ?_⟩
      rw [h.prev_remove_pointer hunlink hfree, hbefore]
      rw [hbefore]
      exact fun hself => hne (Option.some.inj hself)

theorem last_remove {other : Path} (hother : source.enteredAt ((k :: path) :: todo) other)
    (hlast : heap'.last (.feed other) = some a) :
    (∀ node, a = .pointer node → Named (source.enteredAt ((k :: path) :: todo)) node) ∧
      (heap'.live a = true → heap'.prev (.pointer (.feed other)) = some a) := by
  have hreleased := Heap.xmlFreeNode_released hfree
  have hne : Address.feed other ≠ .feed path := by
    intro hfeed
    injection hfeed with hfeed
    exact hother.1.shut.2 (hfeed ▸ h.arranged.recorded.associating.item_turn.1.1)
  have hold : site.heap.last (.feed other) = some a := by
    have hparent := h.arranged.recorded.associating.parent_turn
    rw [← hlast, ← unlink_last hparent hunlink hne, hreleased.eq]
  obtain ⟨hnamed, hbefore⟩ := h.last other a hother hold
  refine ⟨hnamed, fun hlive => ?_⟩
  obtain ⟨hlive1, hnot⟩ := (hreleased.live a).1 hlive
  rw [Heap.xmlUnlinkNode_eq hunlink h.arranged.recorded.associating.parent_turn] at hlive1
  rw [h.prev_remove_pointer hunlink hfree, hbefore hlive1]
  rw [hbefore hlive1]
  exact fun hself => hnot (Or.inr (Option.some.inj hself))

/-- The turn of an item that stands for no element. -/
theorem remove (htarget : source.target? (k :: path) = none) :
    source.Tied { site with
      heap := heap', contexts := Function.update site.contexts (kid path k) none }
      (done ++ [k :: path]) todo := by
  have hentered : source.enteredAt todo = source.enteredAt ((k :: path) :: todo) :=
    enteredAt_cons_of_none htarget
  constructor
  case arranged => exact h.arranged.remove htarget hunlink hfree
  case parent =>
    intro other target' hother hsome
    rw [hentered] at hother
    refine Eq.trans ?_ (h.parent other target' hother hsome)
    show heap'.parent _ = _
    have hparent := h.arranged.recorded.associating.parent_turn
    rw [(Heap.xmlFreeNode_released hfree).eq, Heap.xmlUnlinkNode_eq hunlink hparent]
    have hne : Address.pointer (.feed other) ≠ kid path k := by simp [kid]
    exact Function.update_of_ne hne none site.heap.parent
  case first =>
    rw [hentered]
    exact fun other hother => h.first_remove hunlink hfree hother
  case children =>
    rw [hentered]
    exact fun a node hchildren => h.children_remove hunlink hfree hchildren
  case next =>
    rw [hentered]
    exact fun a node hnext => h.next_remove hunlink hfree hnext
  case last =>
    rw [hentered]
    exact fun other a hother hlast => h.last_remove hunlink hfree hother hlast

end

/-! ### A turn that adopts -/

section

variable (h : source.Tied site done ((k :: path) :: todo))
  (htarget : source.target? (k :: path) = some target) (hopened : source.Opened target)
  (hadopting : source.Adopting rounds site site' todo k path target heap1 heap2 added
    parentAddress associatedAddress parentContext associatedContext)

include h htarget

theorem named_turn : Named (source.enteredAt todo) (kid path k) := by
  rw [h.arranged.recorded.entered_turn htarget]
  exact ⟨k :: path, rfl, Or.inr rfl⟩

/-- The pointer nodes that there have been stay, and the new one is none of them. -/
theorem named_kept {node : Address} (hnamed : Named (source.enteredAt ((k :: path) :: todo)) node) :
    Named (source.enteredAt todo) node ∧ Address.pointer node ≠ .pointer (kid path k) := by
  obtain ⟨other, rfl, hother⟩ := hnamed
  rw [h.arranged.recorded.entered_turn htarget]
  refine ⟨⟨other, rfl, Or.inl hother⟩, fun heq => ?_⟩
  injection heq with heq
  injection heq with heq
  exact not_enteredAt (heq ▸ hother)

omit htarget
include hadopting

theorem prev_kept (ha : a ≠ .pointer (kid path k)) : site'.heap.prev a = site.heap.prev a := by
  rw [prev_adopted hadopting.run h.arranged.recorded.associating.pointerNodes, if_neg ha,
    hadopting.freed.prev_eq]

theorem prev_new :
    site'.heap.prev (.pointer (kid path k)) = heap2.lastChild (.feed target) := by
  rw [prev_adopted hadopting.run h.arranged.recorded.associating.pointerNodes, if_pos rfl]

include htarget

theorem parent_adopt {other target' : Path} (hother : source.enteredAt todo other)
    (hsome : source.target? other = some target') :
    site'.heap.parent (.pointer (.feed other)) = some (.feed target') := by
  rw [hadopting.adoption.adopted.parent]
  by_cases hnew : other = k :: path
  · subst hnew
    have hself : Address.pointer (.feed (k :: path)) = .pointer (kid path k) := rfl
    obtain rfl := Option.some.inj (htarget.symm.trans hsome)
    exact if_pos hself
  · have hne : Address.pointer (.feed other) ≠ .pointer (kid path k) := by
      simpa [kid] using hnew
    rw [h.arranged.recorded.entered_turn htarget] at hother
    rw [if_neg hne, hadopting.freed.parent_eq]
    exact h.parent other target' (hother.resolve_right hnew) hsome

theorem first_adopt {other : Path} (hother : source.enteredAt todo other) :
    site'.heap.prev (kid other 0) = none := by
  rw [h.prev_kept hadopting (by simp [kid])]
  rw [h.arranged.recorded.entered_turn htarget] at hother
  rcases hother with hother | rfl
  · exact h.first other hother
  · -- until now the first child was the first one in the item's own list
    have hassociating := h.arranged.recorded.associating
    have howner : source.Owner (source.enteredAt ((k :: path) :: todo)) (.feed (k :: path)) :=
      ⟨_, rfl, hassociating.item_turn.1.element, not_enteredAt⟩
    obtain ⟨content, htext⟩ := hadopting.adoption.text
    exact h.arranged.childLists.prev_of_children howner
      (hassociating.shape.children_item hassociating.item_turn not_enteredAt
        (width_pos_of_text htext))

/-- A pointer node that was the first in some list. -/
theorem children_kept {node : Address} (hchildren : heap2.children a = some (.pointer node)) :
    Named (source.enteredAt todo) node ∧ site'.heap.prev (.pointer node) = none := by
  rw [hadopting.freed.children_eq] at hchildren
  obtain ⟨hnamed, hnone⟩ := h.children a node hchildren
  obtain ⟨hnamed', hne⟩ := h.named_kept htarget hnamed
  rw [h.prev_kept hadopting hne]
  exact ⟨hnamed', hnone⟩

theorem children_adopt {node : Address} (hchildren : site'.heap.children a = some (.pointer node)) :
    Named (source.enteredAt todo) node ∧ site'.heap.prev (.pointer node) = none := by
  rw [hadopting.adoption.adopted.children] at hchildren
  split at hchildren
  · exact h.children_kept htarget hadopting hchildren
  · split at hchildren
    · next ha =>
      subst ha
      cases hempty : heap2.children (.feed target) with
      | none =>
          rw [hempty] at hchildren
          obtain rfl : kid path k = node := by simpa using hchildren
          refine ⟨h.named_turn htarget, ?_⟩
          rw [h.prev_new hadopting]
          unfold Heap.lastChild
          rw [hempty]
      | some b =>
          rw [hempty] at hchildren
          exact h.children_kept htarget hadopting (hempty.trans hchildren)
    · exact h.children_kept htarget hadopting hchildren

theorem next_adopt {node : Address} (hnext : site'.heap.next a = some (.pointer node)) :
    Named (source.enteredAt todo) node ∧ (site'.heap.prev (.pointer node) = some a ∨
      ∃ other, source.enteredAt todo other ∧ a = kid other 0) := by
  have hentered := h.arranged.recorded.entered_turn htarget
  rw [hadopting.adoption.adopted.next] at hnext
  split at hnext
  · next hlast =>
    obtain rfl : kid path k = node := by simpa using hnext
    rw [h.prev_new hadopting]
    exact ⟨h.named_turn htarget, Or.inl hlast⟩
  · split at hnext
    · cases hnext
    · split at hnext
      · next ha =>
        refine ⟨(h.children_kept htarget hadopting hnext).1, Or.inr ⟨k :: path, ?_, ha⟩⟩
        rw [hentered]
        exact Or.inr rfl
      · rw [hadopting.freed.next_eq] at hnext
        obtain ⟨hnamed, hcase⟩ := h.next a node hnext
        obtain ⟨hnamed', hne⟩ := h.named_kept htarget hnamed
        refine ⟨hnamed', hcase.imp (fun hbefore => ?_) ?_⟩
        · rw [h.prev_kept hadopting hne]
          exact hbefore
        · rintro ⟨other, hother, ha⟩
          rw [hentered]
          exact ⟨other, Or.inl hother, ha⟩

include hopened

/-- The item takes the last node from the list of its associated node. -/
theorem last_turn (hlast : site.heap.last (.feed target) = some a) :
    (∀ node, a = .pointer node → Named (source.enteredAt todo) node) ∧
      site'.heap.prev (.pointer (kid path k)) = some a := by
  have howner : source.Owner (source.enteredAt ((k :: path) :: todo)) (.feed target) :=
    owner_of_opened hopened
  have hlists := h.arranged.childLists.last _ howner
  constructor
  · rintro node rfl
    rw [hlists] at hlast
    rcases mem_childList (List.mem_of_getLast? hlast) with ⟨j, _, heq⟩ |
      ⟨item, hdone, hsome, heq⟩
    · cases heq
    · injection heq with heq
      subst heq
      refine (h.named_kept htarget ⟨item, rfl, ?_⟩).1
      exact h.arranged.recorded.entered_iff.2 ⟨hdone, by simp [hsome]⟩
  · calc site'.heap.prev (.pointer (kid path k))
        = heap2.lastChild (.feed target) := h.prev_new hadopting
      _ = site.heap.lastChild (.feed target) := by rw [hadopting.freed.eq]; rfl
      _ = site.heap.last (.feed target) := by
          rw [h.arranged.childLists.lastChild_eq howner, hlists]
      _ = some a := hlast

theorem last_adopt {other : Path} (hother : source.enteredAt todo other)
    (hlast : site'.heap.last (.feed other) = some a) :
    (∀ node, a = .pointer node → Named (source.enteredAt todo) node) ∧
      (site'.heap.live a = true → site'.heap.prev (.pointer (.feed other)) = some a) := by
  have hne : other ≠ target := fun heq => hother.1.shut.2 (heq ▸ hopened)
  rw [hadopting.adoption.adopted.last, if_neg hne, hadopting.freed.last_eq] at hlast
  split at hlast
  · next hnew =>
    subst hnew
    obtain ⟨hnamed, hprev⟩ := h.last_turn htarget hopened hadopting hlast
    exact ⟨hnamed, fun _ => hprev⟩
  · next hnew =>
    rw [h.arranged.recorded.entered_turn htarget] at hother
    obtain ⟨hnamed, hbefore⟩ := h.last other a (hother.resolve_right hnew) hlast
    refine ⟨fun node ha => (h.named_kept htarget (hnamed node ha)).1, fun hlive => ?_⟩
    rw [h.prev_kept hadopting (by simpa [kid] using hnew)]
    refine hbefore ?_
    rcases (hadopting.adoption.adopted.live a).1 hlive with hlive | ha
    · exact hadopting.freed.live a hlive
    · exact absurd rfl (h.named_kept htarget (hnamed _ ha)).2

omit hadopting

/-- The turn of an item that stands for an element that is no item. -/
theorem adopt (hrun : Site.associate rounds site (kid path k) (.feed target) = .ok site') :
    source.Tied site' (done ++ [k :: path]) todo := by
  obtain ⟨heap1, heap2, added, _, _, _, _, hadopting⟩ :=
    h.arranged.recorded.associating.adopting htarget hrun
  constructor
  case arranged => exact h.arranged.adopt htarget hopened hrun
  case parent => exact fun _ _ hother hsome => h.parent_adopt htarget hadopting hother hsome
  case first => exact fun _ hother => h.first_adopt htarget hadopting hother
  case children => exact fun _ _ hchildren => h.children_adopt htarget hadopting hchildren
  case next => exact fun _ _ hnext => h.next_adopt htarget hadopting hnext
  case last => exact fun _ _ hother hlast => h.last_adopt htarget hopened hadopting hother hlast

end

/-- `initializeAssociation` of the item whose turn it is. -/
theorem step (h : source.Tied site done (item :: todo))
    (hopened : ∀ target, source.target? item = some target → source.Opened target)
    (hrun : Site.initializeAssociation rounds site (.feed item) = .ok site') :
    source.Tied site' (done ++ [item]) todo := by
  cases h.arranged.recorded.associating.turn hrun with
  | adopt htarget hrun => exact h.adopt htarget (hopened _ htarget) hrun
  | remove htarget hunlink hfree => exact h.remove hunlink hfree htarget

theorem foldlM (h : source.Tied site done todo)
    (hopened : ∀ item ∈ todo, ∀ target, source.target? item = some target → source.Opened target)
    (hrun : (todo.map Address.feed).foldlM (Site.initializeAssociation rounds) site =
      .ok site') : source.Tied site' (done ++ todo) [] := by
  have hall := turns_ok
    (P := fun done todo site => source.Tied site done todo ∧
      ∀ item ∈ todo, ∀ target, source.target? item = some target → source.Opened target)
    (fun _ _ _ _ _ hold hnext => ?_) done ⟨h, hopened⟩ hrun
  · exact hall.1
  · exact ⟨hold.1.step (hold.2 _ (List.mem_cons_self ..)) hnext,
      fun other hmem => hold.2 other (List.mem_cons_of_mem _ hmem)⟩

end Tied

end VaeDb.Source
