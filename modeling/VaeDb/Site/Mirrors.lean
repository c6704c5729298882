import VaeDb.Site.Arrangement
import VaeDb.Site.Liveness

/-!
# Copies of an element

A pointer node is made as a copy of the parent of an association item, and shares the child list
of the parent.  `initializeAssociation` gives earlier copies of a node its new last child when it
adds a child to it, but not when it unlinks its last child.  All copies mirror their originals
exactly if this happens to no element that has copies and gets no child later
(`initializeAssociations_mirrors_iff`).
-/

namespace VaeDb

open Xml Links

/-- A copy has the children and properties of a node, and both have the same last child. -/
structure Mirrors (heap : Heap Address) (copy node : Address) : Prop where
  children : heap.children copy = heap.children node
  last : heap.last copy = heap.last node
  properties : heap.properties copy = heap.properties node
  live : ∃ a, heap.last copy = some a ∧ heap.live a = true

namespace Source

variable {source : Source} {site site' built : Site} {heap heap' : Heap Address}
  {removed : Path → Prop} {path target item : Path} {j k rounds : ℕ} {done todo : List Path}

/-- The last child of an element that is not unpublished. -/
structure LastKid (source : Source) (path : Path) (j : ℕ) : Prop where
  width : j < source.feed.width path
  kept : ¬ source.Pruned (j :: path)
  last : ∀ i, j < i → i < source.feed.width path → source.Pruned (i :: path)

theorem LastKid.unique (h : source.LastKid path j) (h' : source.LastKid path k) : j = k := by
  rcases Nat.lt_trichotomy j k with hlt | heq | hlt
  · exact absurd (h.last k hlt h'.width) h'.kept
  · exact heq
  · exact absurd (h'.last j hlt h.width) h.kept

/-- The last child of an element that is published is an item whose target is missing, while
another item there stands for an element, and no item stands for the element itself. -/
structure LastMissing (source : Source) (path : Path) : Prop where
  last : ∃ j, source.LastKid path j ∧ source.Missing (j :: path)
  item : ∃ k, source.Item (k :: path) ∧ source.target? (k :: path) ≠ none
  none : ∀ item, source.Item item → source.target? item ≠ some path

/-! ## The order of the turns -/

theorem pairwise_items : source.items.Pairwise Before := pairwise_visited.filter _

namespace Recorded

/-- Items whose turns are done come before those that are still to come. -/
theorem before (h : source.Recorded site done ((k :: path) :: todo)) (hj : j :: path ∈ done) :
    j < k := by
  have hpairwise : source.items.Pairwise Before := pairwise_items
  rw [← h.items] at hpairwise
  exact (List.pairwise_append.1 hpairwise).2.2 _ hj _ (List.mem_cons_self ..) j k path rfl rfl

/-- The last child that is left when the turn of a sibling of it comes. -/
theorem lastKid (h : source.Recorded site done ((k :: path) :: todo))
    (hlast : (source.keptKids (source.removedAt ((k :: path) :: todo)) path).getLast? = some j) :
    source.LastKid path j := by
  have hitem := h.associating.item_turn
  obtain ⟨hj, hmax⟩ := (getLast?_eq_some_iff keptKids_sorted).1 hlast
  obtain ⟨hwidth, hkept⟩ := mem_keptKids.1 hj
  have hle : k ≤ j := hmax k (mem_keptKids.2 ⟨hitem.1.lt_width, h.associating.not_removedAt⟩)
  refine ⟨hwidth, fun hpruned => hkept (Or.inl hpruned), fun i hlt hi => ?_⟩
  have hremoved : source.removedAt ((k :: path) :: todo) (i :: path) := by
    by_contra hnot
    have hle := hmax i (mem_keptKids.2 ⟨hi, hnot⟩)
    omega
  rcases hremoved with hpruned | ⟨hitem', hout, _⟩
  · exact hpruned
  · -- an item that was removed comes before the one whose turn it is
    have hmem : i :: path ∈ done ++ (k :: path) :: todo := by
      rw [h.items]
      exact mem_items.2 hitem'
    have hlt' := h.before ((List.mem_append.1 hmem).resolve_right hout)
    omega

end Recorded

/-! ## The copies -/

/-- A Site whose copies are known.  As long as no pointer node is added to an element, its copies
have the last child that it had in the beginning, and then the one that it has. -/
structure Mirroring (source : Source) (site : Site) (done todo : List Path) : Prop where
  arranged : source.Arranged site done todo
  children : ∀ k path, source.enteredAt todo (k :: path) →
    site.heap.children (.pointer (kid path k)) = site.heap.children (.feed path)
  last_pointer : ∀ k path, source.enteredAt todo (k :: path) →
    source.pointersTo done path ≠ [] →
      site.heap.last (.pointer (kid path k)) = site.heap.last (.feed path)
  last_kid : ∀ k path, source.enteredAt todo (k :: path) → source.pointersTo done path = [] →
    ∃ j, source.LastKid path j ∧ site.heap.last (.pointer (kid path k)) = some (kid path j)

/-- Taking a number out of a sorted list that has a smaller one leaves the first one. -/
theorem head?_erase {kids : List ℕ} (h : kids.Pairwise (· < ·)) (hj : j ∈ kids) (hlt : j < k) :
    (kids.erase k).head? = kids.head? := by
  cases kids with
  | nil => rfl
  | cons i rest =>
      have hle : i ≤ j := by
        rcases List.mem_cons.1 hj with rfl | hj
        · exact Nat.le_refl j
        · exact Nat.le_of_lt ((List.pairwise_cons.1 h).1 j hj)
      rw [List.erase_cons_tail (by simp; omega)]
      rfl

namespace Mirroring

/-- The turn of an item that stands for no element. -/
theorem remove {heap1 heap' : Heap Address}
    (h : source.Mirroring site done ((k :: path) :: todo))
    (htarget : source.target? (k :: path) = none)
    (hunlink : site.heap.xmlUnlinkNode (kid path k) = .ok heap1)
    (hfree : heap1.xmlFreeNode rounds (kid path k) = .ok heap') :
    source.Mirroring { site with
      heap := heap', contexts := Function.update site.contexts (kid path k) none }
      (done ++ [k :: path]) todo := by
  have harranged := h.arranged.remove htarget hunlink hfree
  have hassociating := h.arranged.recorded.associating
  have hitem : source.Item (k :: path) := hassociating.item_turn
  have hout := h.arranged.recorded.not_mem
  have hparent := hassociating.parent_turn
  have hreleased := Heap.xmlFreeNode_released hfree
  have hpointers : ∀ other, source.pointersTo (done ++ [k :: path]) other =
      source.pointersTo done other := by
    intro other
    rw [pointersTo_append, if_neg (by simp [htarget]), List.append_nil]
  have hchildren : ∀ a, a ≠ .feed path → heap'.children a = site.heap.children a := by
    intro a ha
    rw [hreleased.children_eq, unlink_children hparent hunlink ha]
  have hlast : ∀ a, a ≠ .feed path → heap'.last a = site.heap.last a := by
    intro a ha
    rw [hreleased.eq]
    exact unlink_last hparent hunlink ha
  constructor
  case arranged => exact harranged
  case children =>
    intro j other hentered
    rw [enteredAt_cons_of_none htarget] at hentered
    show heap'.children _ = heap'.children _
    rw [hchildren _ (by simp), h.children j other hentered]
    by_cases hother : other = path
    · -- the first child is at or before an item that has a copy, and stays
      subst hother
      have hdone := (h.arranged.recorded.entered_iff.1 hentered).1
      have hj : j ∈ source.keptKids (source.removedAt ((k :: other) :: todo)) other :=
        mem_keptKids.2 ⟨hentered.1.1.lt_width, (hassociating.shape.entered_item _ hentered).2⟩
      have hopened := hitem.1.1
      have hhead := head?_erase keptKids_sorted hj (h.arranged.recorded.before hdone)
      have hafter : heap'.children (.feed other) = _ :=
        harranged.childLists.children_eq (owner_of_opened hopened)
      rw [h.arranged.childLists.children_eq (owner_of_opened hopened), hafter]
      simp only [childList, hpointers, List.head?_append, List.head?_map]
      rw [removedAt_cons hout.2 hitem htarget, keptKids_remove, hhead]
    · rw [hchildren _ fun heq => hother (by injection heq)]
  case last_pointer =>
    intro j other hentered hne
    rw [enteredAt_cons_of_none htarget] at hentered
    rw [hpointers] at hne
    show heap'.last _ = heap'.last _
    rw [hlast _ (by simp), h.last_pointer j other hentered hne]
    by_cases hother : other = path
    · subst hother
      have hopened := hitem.1.1
      have hafter : heap'.last (.feed other) = _ :=
        harranged.childLists.last _ (owner_of_opened hopened)
      rw [h.arranged.childLists.last _ (owner_of_opened hopened), hafter]
      simp only [childList, hpointers, List.getLast?_append_of_ne_nil _ hne]
    · rw [hlast _ fun heq => hother (by injection heq)]
  case last_kid =>
    intro j other hentered hnil
    rw [enteredAt_cons_of_none htarget] at hentered
    rw [hpointers] at hnil
    obtain ⟨i, hi, heq⟩ := h.last_kid j other hentered hnil
    exact ⟨i, hi, (hlast _ (by simp)).trans heq⟩

/-- The last child of a pointer node once an item has got its association. -/
theorem last_adopted {heap1 heap2 added : Heap Address}
    {parentAddress associatedAddress node : Address}
    {parentContext associatedContext : Context}
    (hrun : AssociateRun rounds site site' k path target heap1 heap2 added parentAddress
      associatedAddress parentContext associatedContext)
    (hpointers : ∀ node ctxt, site.contexts node = some ctxt →
      ∀ pointerNode ∈ ctxt.pointerNodes, IsPointer (some pointerNode)) :
    site'.heap.last (.pointer node) =
      if .pointer node ∈ associatedContext.pointerNodes then some (.pointer (kid path k))
      else if node = kid path k then heap2.last (.feed path)
      else heap2.last (.pointer node) := by
  have hpath : path ≠ k :: path := fun heq => absurd (congrArg List.length heq) (by simp)
  obtain ⟨_, _, _, hadded⟩ := Heap.xmlAddChild_eq hrun.add
  rw [(hrun.heap_eq hpointers).2]
  simp only [hadded, Function.update_self]
  split
  · rfl
  · by_cases hnode : node = kid path k
    · have hnode' : node = .feed (k :: path) := hnode
      simp [sharedCopy, linked, hnode', kid, hpath]
    · have hnode' : node ≠ .feed (k :: path) := hnode
      simp [sharedCopy, linked, hnode', kid]

section

variable {heap1 heap2 added : Heap Address} {parentAddress associatedAddress : Address}
  {parentContext associatedContext : Context}
  (h : source.Mirroring site done ((k :: path) :: todo))
  (htarget : source.target? (k :: path) = some target) (hopened : source.Opened target)
  (hadopting : source.Adopting rounds site site' todo k path target heap1 heap2 added
    parentAddress associatedAddress parentContext associatedContext)
  (hafter : source.Recorded site' (done ++ [k :: path]) todo)

include h

include htarget

omit h in
/-- Only the associated node gets a pointer node. -/
theorem pointersTo_turn {other : Path} (hne : other ≠ target) :
    source.pointersTo (done ++ [k :: path]) other = source.pointersTo done other := by
  rw [pointersTo_append, if_neg, List.append_nil]
  rw [htarget]
  exact fun heq => hne (Option.some.inj heq).symm

/-- The list of an element with an item that has an association is not empty: the item is in
it. -/
theorem exists_children_turn {j : ℕ} {other : Path} (hother : source.enteredAt todo (j :: other)) :
    ∃ a, site.heap.children (.feed other) = some a := by
  have hassociating := h.arranged.recorded.associating
  have hkept : ¬ source.removedAt ((k :: path) :: todo) (j :: other) := by
    rw [h.arranged.recorded.entered_turn htarget] at hother
    rcases hother with hother | heq
    · exact (hassociating.shape.entered_item _ hother).2
    · rw [heq]
      exact hassociating.not_removedAt
  have hj := mem_keptKids.2 ⟨hother.1.1.lt_width, hkept⟩
  rw [h.arranged.childLists.children_eq (owner_of_opened hother.1.1.1)]
  exact ⟨_, List.head?_eq_some_head (List.ne_nil_of_mem (kid_mem_childList.2 ⟨rfl, hj⟩))⟩

include hadopting

theorem children_adopt {j : ℕ} {other : Path} (hother : source.enteredAt todo (j :: other)) :
    site'.heap.children (.pointer (kid other j)) = site'.heap.children (.feed other) := by
  have hfreed := hadopting.freed
  obtain ⟨a, ha⟩ := h.exists_children_turn htarget hother
  have ha2 : heap2.children (.feed other) = some a := by rw [hfreed.children_eq, ha]
  rw [hadopting.adoption.children_kept ha2, hadopting.adoption.adopted.children]
  rw [h.arranged.recorded.entered_turn htarget] at hother
  rcases hother with hother | heq
  · have hne : kid other j ≠ kid path k := by
      intro heq
      injection heq with heq
      exact hother.2.1 (heq ▸ List.mem_cons_self ..)
    rw [if_neg fun heq => hne (by injection heq), if_neg (by simp), hfreed.children_eq,
      h.children j other hother, ha]
  · obtain ⟨rfl, rfl⟩ : j = k ∧ other = path := by simpa using heq
    rw [if_pos rfl, ha2]

omit htarget in
theorem last_opened_turn {other : Path} (hother : source.Opened other) :
    site'.heap.last (.feed other) =
      if other = target then some (.pointer (kid path k)) else site.heap.last (.feed other) := by
  have hitem := h.arranged.recorded.associating.item_turn
  have hne : other ≠ k :: path := fun heq => hitem.shut.2 (heq ▸ hother)
  rw [hadopting.adoption.adopted.last, if_neg hne, hadopting.freed.last_eq]

include hopened hafter

/-- The pointer nodes that get a new last child are the copies of the associated node. -/
theorem copies_turn {j : ℕ} {other : Path} (hother : source.enteredAt todo (j :: other)) :
    Address.pointer (kid other j) ∈ associatedContext.pointerNodes ↔ other = target := by
  have hrecorded := h.arranged.recorded
  have hitem := hrecorded.associating.item_turn
  have hne : target ≠ k :: path := fun heq => hitem.shut.2 (heq ▸ hopened)
  have hroot := hadopting.adoption.visited.1.ne_root
  have hprivate := hadopting.run.target_private
  rw [(adopted_of_addChild hadopting.run.add)._private target hne, hadopting.freed.private_eq,
    hrecorded.own_opened hopened hroot] at hprivate
  obtain ⟨ctxt, hctxt, hnodes⟩ := hafter.contexts target hopened hroot
  rw [hadopting.run.contexts, Function.update_of_ne fun heq => hne (by injection heq),
    Option.some.inj hprivate, hadopting.run.target_context] at hctxt
  obtain rfl := Option.some.inj hctxt
  rw [hnodes]
  constructor
  · rintro ⟨i, _, heq⟩
    injection heq with heq
    injection heq with heq
    exact (List.cons.inj heq).2
  · rintro rfl
    exact ⟨j, hother, rfl⟩

/-- The last child of a copy of the associated node. -/
theorem last_copy {j : ℕ} (hother : source.enteredAt todo (j :: target)) :
    site'.heap.last (.pointer (kid target j)) = some (.pointer (kid path k)) := by
  rw [last_adopted hadopting.run h.arranged.recorded.associating.pointerNodes,
    if_pos ((h.copies_turn htarget hopened hadopting hafter hother).2 rfl)]

/-- The last child of another pointer node. -/
theorem last_other {j : ℕ} {other : Path} (hother : source.enteredAt todo (j :: other))
    (hne : other ≠ target) :
    site'.heap.last (.pointer (kid other j)) =
      if j :: other = k :: path then site.heap.last (.feed path)
      else site.heap.last (.pointer (kid other j)) := by
  rw [last_adopted hadopting.run h.arranged.recorded.associating.pointerNodes,
    if_neg fun hmem => hne ((h.copies_turn htarget hopened hadopting hafter hother).1 hmem),
    hadopting.freed.last_eq]
  simp [kid]

theorem last_pointer_adopt {j : ℕ} {other : Path} (hother : source.enteredAt todo (j :: other))
    (hne : source.pointersTo (done ++ [k :: path]) other ≠ []) :
    site'.heap.last (.pointer (kid other j)) = site'.heap.last (.feed other) := by
  rw [h.last_opened_turn hadopting hother.1.1.1]
  by_cases heq : other = target
  · subst heq
    rw [if_pos rfl, h.last_copy htarget hopened hadopting hafter hother]
  · rw [pointersTo_turn htarget heq] at hne
    rw [if_neg heq, h.last_other htarget hopened hadopting hafter hother heq]
    rw [h.arranged.recorded.entered_turn htarget] at hother
    rcases hother with hother | hself
    · have hself : j :: other ≠ k :: path :=
        fun hself => hother.2.1 (hself ▸ List.mem_cons_self ..)
      rw [if_neg hself, h.last_pointer j other hother hne]
    · rw [if_pos hself, (List.cons.inj hself).2]

theorem last_kid_adopt {j : ℕ} {other : Path} (hother : source.enteredAt todo (j :: other))
    (hnil : source.pointersTo (done ++ [k :: path]) other = []) :
    ∃ i, source.LastKid other i ∧
      site'.heap.last (.pointer (kid other j)) = some (kid other i) := by
  have heq : other ≠ target := by
    rintro rfl
    rw [pointersTo_append, if_pos htarget] at hnil
    simp at hnil
  rw [pointersTo_turn htarget heq] at hnil
  rw [h.last_other htarget hopened hadopting hafter hother heq]
  have hopenedOther := hother.1.1.1
  rw [h.arranged.recorded.entered_turn htarget] at hother
  rcases hother with hother | hself
  · have hself : j :: other ≠ k :: path :=
      fun hself => hother.2.1 (hself ▸ List.mem_cons_self ..)
    rw [if_neg hself]
    exact h.last_kid j other hother hnil
  · obtain ⟨rfl, rfl⟩ : j = k ∧ other = path := by simpa using hself
    have hassociating := h.arranged.recorded.associating
    have hj := mem_keptKids.2 ⟨hassociating.item_turn.1.lt_width, hassociating.not_removedAt⟩
    obtain ⟨i, hi⟩ := Option.isSome_iff_exists.1
      (List.getLast?_isSome.2 (List.ne_nil_of_mem hj))
    refine ⟨i, h.arranged.recorded.lastKid hi, ?_⟩
    rw [if_pos rfl, h.arranged.childLists.last _ (owner_of_opened hopenedOther), childList,
      hnil, List.append_nil, List.getLast?_map, hi]
    rfl

omit hadopting hafter

/-- The turn of an item that stands for an element that is no item. -/
theorem adopt (hrun : Site.associate rounds site (kid path k) (.feed target) = .ok site') :
    source.Mirroring site' (done ++ [k :: path]) todo := by
  obtain ⟨heap1, heap2, added, _, _, _, _, hadopting⟩ :=
    h.arranged.recorded.associating.adopting htarget hrun
  have harranged := h.arranged.adopt htarget hopened hrun
  have hafter := harranged.recorded
  constructor
  case arranged => exact harranged
  case children => exact fun _ _ hother => h.children_adopt htarget hadopting hother
  case last_pointer =>
    exact fun _ _ hother hne => h.last_pointer_adopt htarget hopened hadopting hafter hother hne
  case last_kid =>
    exact fun _ _ hother hnil => h.last_kid_adopt htarget hopened hadopting hafter hother hnil

end

/-- `initializeAssociation` of the item whose turn it is. -/
theorem step (h : source.Mirroring site done (item :: todo))
    (hopened : ∀ target, source.target? item = some target → source.Opened target)
    (hrun : Site.initializeAssociation rounds site (.feed item) = .ok site') :
    source.Mirroring site' (done ++ [item]) todo := by
  cases h.arranged.recorded.associating.turn hrun with
  | adopt htarget hrun => exact h.adopt htarget (hopened _ htarget) hrun
  | remove htarget hunlink hfree => exact h.remove htarget hunlink hfree

theorem foldlM (h : source.Mirroring site done todo)
    (hopened : ∀ item ∈ todo, ∀ target, source.target? item = some target → source.Opened target)
    (hrun : (todo.map Address.feed).foldlM (Site.initializeAssociation rounds) site =
      .ok site') : source.Mirroring site' (done ++ todo) [] := by
  have hall := turns_ok
    (P := fun done todo site => source.Mirroring site done todo ∧
      ∀ item ∈ todo, ∀ target, source.target? item = some target → source.Opened target)
    (fun _ _ _ _ _ hold hnext => ?_) done ⟨h, hopened⟩ hrun
  · exact hall.1
  · exact ⟨hold.1.step (hold.2 _ (List.mem_cons_self ..)) hnext,
      fun other hmem => hold.2 other (List.mem_cons_of_mem _ hmem)⟩

/-! ## Once all associations are initialized -/

/-- The copies whose originals have lost their last child do not mirror them; all others do. -/
theorem mirrors_iff (h : source.Mirroring site source.items [])
    (hentered : source.enteredAt [] (k :: path)) :
    Mirrors site.heap (.pointer (kid path k)) (.feed path) ↔
      source.pointersTo source.items path ≠ [] ∨
        ∃ j, source.LastKid path j ∧ ¬ source.removedAt [] (j :: path) := by
  have hshape := h.arranged.recorded.associating.shape
  have hopened := hentered.1.1.1
  have hlast : site.heap.last (.feed path) =
      (source.childList source.items (source.removedAt []) (.feed path)).getLast? :=
    h.arranged.childLists.last _ (owner_of_opened hopened)
  constructor
  · intro hmirrors
    by_cases hnil : source.pointersTo source.items path = []
    · obtain ⟨j, hj, heq⟩ := h.last_kid k path hentered hnil
      refine Or.inr ⟨j, hj, fun hremoved => ?_⟩
      have hsame := hmirrors.last
      rw [heq, hlast] at hsame
      have hmem := kid_mem_childList.1 (List.mem_of_getLast? hsame.symm)
      exact (mem_keptKids.1 hmem.2).2 hremoved
    · exact Or.inl hnil
  · intro hcase
    have hsame : site.heap.last (.pointer (kid path k)) = site.heap.last (.feed path) := by
      by_cases hnil : source.pointersTo source.items path = []
      · obtain ⟨j, hj, hkept⟩ := hcase.resolve_left fun hne => hne hnil
        obtain ⟨i, hi, heq⟩ := h.last_kid k path hentered hnil
        obtain rfl := hi.unique hj
        have hmax : (source.keptKids (source.removedAt []) path).getLast? = some i := by
          refine (getLast?_eq_some_iff keptKids_sorted).2
            ⟨mem_keptKids.2 ⟨hj.width, hkept⟩, fun other hother => ?_⟩
          obtain ⟨hwidth, hkept'⟩ := mem_keptKids.1 hother
          by_contra hlt
          exact hkept' (Or.inl (hj.last other (by omega) hwidth))
        rw [heq, hlast, childList, hnil, List.append_nil, List.getLast?_map, hmax]
        rfl
      · exact h.last_pointer k path hentered hnil
    constructor
    case children => exact h.children k path hentered
    case last => exact hsame
    case properties =>
      obtain ⟨b, other, j, heq, _, _, _, hproperties, _⟩ := (hshape.items _ hentered).pointer
      obtain ⟨rfl, rfl⟩ : k = b ∧ path = other := by simpa using heq
      exact hproperties.trans (hshape.properties path (hshape.not_entered hopened)).symm
    case live =>
      have hk : kid path k ∈ source.childList source.items (source.removedAt []) (.feed path) :=
        kid_mem_childList.2 ⟨rfl, mem_keptKids.2
          ⟨hentered.1.1.lt_width, (hshape.entered_item _ hentered).2⟩⟩
      obtain ⟨a, ha⟩ := Option.isSome_iff_exists.1
        (List.getLast?_isSome.2 (List.ne_nil_of_mem hk))
      rw [hsame, hlast, ha]
      exact ⟨a, rfl, h.arranged.live_of_mem hopened (List.mem_of_getLast? ha)⟩

end Mirroring

/-- Before the first turn there are no copies. -/
theorem mirroring_built (h : source.Built site removed)
    (hnoted : source.Noted (Beneath source.root) (Beneath source.root)
      (Site.parsed source.feed source.root) site (fun _ => False) removed) :
    source.Mirroring site [] source.items := by
  have hnone : ∀ path, ¬ source.enteredAt source.items path := by
    intro path hentered
    rw [← enteredAt_items] at hentered
    exact hentered
  exact ⟨arranged_built h hnoted, fun k path hentered => absurd hentered (hnone _),
    fun k path hentered => absurd hentered (hnone _),
    fun k path hentered => absurd hentered (hnone _)⟩

/-- Once all associations are initialized, all pointer nodes mirror the element that they were
copied from if and only if no element has lost its last child to `xmlUnlinkNode` after it was
copied, without getting another one. -/
theorem initializeAssociations_mirrors_iff
    (hnone : ∀ item target, source.Item item → source.target? item = some target →
      ¬ source.Item target)
    (hbuilt : Site.constructContexts source.surroundings rounds
      (Site.parsed source.feed source.root) = .ok built)
    (hrun : Site.initializeAssociations rounds built = .ok site) :
    (∀ item node, site.heap.live (.pointer item) = true → site.heap.parent item = some node →
      Mirrors site.heap (.pointer item) node) ↔
    ∀ path, ¬ source.LastMissing path := by
  obtain ⟨removed, hshaped, hnoted⟩ := constructContexts_noted hbuilt
  obtain ⟨initialized, hfold, hsite⟩ := Outcome.bind_eq_ok.1 hrun
  obtain rfl := Outcome.pure_eq_ok.1 hsite
  rw [hshaped.associations] at hfold
  have h : source.Mirroring initialized source.items [] :=
    (mirroring_built hshaped hnoted).foldlM
      (fun item hmem target htarget => opened_of_target? hnone (mem_items.1 hmem) htarget) hfold
  have hassociating := h.arranged.recorded.associating
  have hmissing : ∀ path, source.removedAt [] path → ¬ source.Pruned path →
      source.Missing path := fun path hremoved hkept =>
    ⟨(hremoved.resolve_left hkept).1, (hremoved.resolve_left hkept).2.2⟩
  constructor
  · intro hall path hlast
    obtain ⟨j, hj, hitem, htarget⟩ := hlast.last
    obtain ⟨k, hk, hsome⟩ := hlast.item
    have hentered : source.enteredAt [] (k :: path) := ⟨hk, List.not_mem_nil, hsome⟩
    have hparent := hassociating.shape.parent k path hk.1
      (hassociating.shape.entered_item _ hentered).2
    have hmirrors := hall (kid path k) (.feed path)
      (h.arranged.recorded.pointer_live _ hentered) hparent
    rcases (h.mirrors_iff hentered).1 hmirrors with hne | ⟨i, hi, hkept⟩
    · obtain ⟨a, ha⟩ := List.exists_mem_of_ne_nil _ hne
      obtain ⟨item, hmem, htarget', _⟩ := mem_pointersTo.1 ha
      exact hlast.none item (mem_items.1 hmem) htarget'
    · obtain rfl := hi.unique hj
      exact hkept (Or.inr ⟨hitem, List.not_mem_nil, htarget⟩)
  · intro hnot item node hlive hparent
    obtain ⟨path, rfl, hentered⟩ := hassociating.allocated.pointer item hlive
    cases path with
    | nil => exact hentered.1.1.elim
    | cons k path =>
        have heq : initialized.heap.parent (kid path k) = some (.feed path) :=
          hassociating.shape.parent k path hentered.1.1
            (hassociating.shape.entered_item _ hentered).2
        obtain rfl := Option.some.inj (heq.symm.trans hparent)
        refine (h.mirrors_iff hentered).2 (or_iff_not_imp_left.2 fun hnil => ?_)
        rw [not_not] at hnil
        obtain ⟨j, hj, _⟩ := h.last_kid k path hentered hnil
        refine ⟨j, hj, fun hremoved => hnot path ⟨⟨j, hj, hmissing _ hremoved hj.kept⟩,
          ⟨k, hentered.1, hentered.2.2⟩, fun item hitem htarget => ?_⟩⟩
        have hmem := mem_pointersTo.2 ⟨item, mem_items.2 hitem, htarget, rfl⟩
        rw [hnil] at hmem
        cases hmem

end Source

/-- The two authors of an article have no other children than its items. -/
theorem initializeAssociations_mirrors_articles :
    ∃ built site, Site.constructContexts articles.surroundings 9
        (Site.parsed articles.feed articles.root) = .ok built ∧
      Site.initializeAssociations 9 built = .ok site ∧
      site.heap.live (.pointer (.feed [0, 1, 0])) = true ∧
      ∀ item node, site.heap.live (.pointer item) = true →
        site.heap.parent item = some node → Mirrors site.heap (.pointer item) node := by
  have hitems : articles.items.all (fun item => articles.target? item == some [0, 0]) = true := rfl
  have htarget : ∀ item, articles.Item item → articles.target? item = some [0, 0] :=
    fun item hitem => eq_of_beq (List.all_eq_true.1 hitems item (Source.mem_items.2 hitem))
  refine ⟨_, _, rfl, rfl, rfl, ?_⟩
  refine (Source.initializeAssociations_mirrors_iff (fun _ _ => articles_target_not_item)
    (show Site.constructContexts articles.surroundings 9 _ = _ from rfl)
    (show Site.initializeAssociations 9 _ = _ from rfl)).2 fun path hlast => ?_
  obtain ⟨j, _, hitem, hnone⟩ := hlast.last
  rw [htarget _ hitem] at hnone
  cases hnone

/-- An author with two items, the second of which stands for an article that is not there. -/
def halfAuthor : Source where
  surroundings := production
  feed := website [withId "article" "1" [], withId "author" "2" [itemFor "1", itemFor "99"]]
  root := [0]
  root_element := rfl

/-- The copy of the author still has the item that was freed as its last child. -/
theorem initializeAssociations_halfAuthor :
    (∀ item target, halfAuthor.Item item → halfAuthor.target? item = some target →
      ¬ halfAuthor.Item target) ∧
    (∀ k, ¬ halfAuthor.Item [k, 0]) ∧
    ∃ built site, Site.constructContexts halfAuthor.surroundings 9
        (Site.parsed halfAuthor.feed halfAuthor.root) = .ok built ∧
      Site.initializeAssociations 9 built = .ok site ∧
      site.heap.live (.pointer (.feed [0, 1, 0])) = true ∧
      site.heap.parent (.feed [0, 1, 0]) = some (.feed [1, 0]) ∧
      ¬ Mirrors site.heap (.pointer (.feed [0, 1, 0])) (.feed [1, 0]) := by
  have hitems : halfAuthor.items = [[0, 1, 0], [1, 1, 0]] := by decide +kernel
  have htargets : halfAuthor.items.all (fun item =>
      (halfAuthor.target? item).all (· ∉ halfAuthor.items)) = true := by decide +kernel
  refine ⟨fun item target hitem hsome hother => ?_, fun k hitem => ?_, ?_⟩
  · have hall := List.all_eq_true.1 htargets item (Source.mem_items.2 hitem)
    rw [hsome] at hall
    exact of_decide_eq_true hall (Source.mem_items.2 hother)
  · have hmem := Source.mem_items.2 hitem
    rw [hitems] at hmem
    simp at hmem
  · have hrun : (fun site : Site => (site.heap.live (.pointer (.feed [0, 1, 0])),
        site.heap.parent (.feed [0, 1, 0]), site.heap.last (.pointer (.feed [0, 1, 0])),
        site.heap.last (.feed [1, 0]))) <$>
          (Site.constructContexts halfAuthor.surroundings 9
            (Site.parsed halfAuthor.feed halfAuthor.root) >>= Site.initializeAssociations 9) =
        .ok (true, some (.feed [1, 0]), some (.feed [1, 1, 0]), some (.feed [0, 1, 0])) := by
      decide +kernel
    obtain ⟨site, hload, hsite⟩ := Outcome.map_eq_ok.1 hrun
    obtain ⟨built, hbuilt, hinitialized⟩ := Outcome.bind_eq_ok.1 hload
    simp only [Prod.mk.injEq] at hsite
    obtain ⟨hlive, hparent, hcopy, hlast⟩ := hsite
    refine ⟨built, site, hbuilt, hinitialized, hlive, hparent, fun hmirrors => ?_⟩
    have hsame := hmirrors.last
    rw [hcopy, hlast] at hsame
    simp at hsame

end VaeDb
