import VaeDb.Site.Pending
import VaeDb.Xml.Freeing

/-!
# What has been freed so far

`Source.Accounted` says exactly which nodes of the feed and which of their property lists are
allocated while a feed is loaded: all but those that are gone, and the property lists of the
items that have got their association.  Removing a child keeps it (`Accounted.remove`), because
freeing the child frees all that is at or below it (`Shape.reach_below`).
-/

namespace VaeDb.Source

open Xml Links

variable {source : Source} {heap heap1 heap' : Heap Address} {removed entered : Path → Prop}
  {path outer inner : Path} {k rounds : ℕ}

/-- The nodes of the feed that are allocated, and their parents and property lists. -/
structure Accounted (source : Source) (heap : Heap Address) (removed entered : Path → Prop) :
    Prop where
  parent : ∀ i path, ¬ removed (i :: path) → heap.parent (kid path i) = some (.feed path)
  leaf : ∀ path, ¬ source.Element path → heap.last (.feed path) = none
  found : ∀ path, heap.live (.feed path) = true → (source.feed.lookup path).isSome
  dead : ∀ path, Gone removed entered path → heap.live (.feed path) = false
  freed : ∀ path, Gone removed entered path ∨ entered path →
    heap.attributes (.feed path) = none
  kept : ∀ path, ¬ Gone removed entered path → ¬ entered path →
    heap.attributes (.feed path) = source.feed.parse.attributes (.feed path)
  pointer : ∀ node, heap.attributes (.pointer node) = none
  document : heap.parent (.feed []) = none ∧ heap.next (.feed []) = none ∧
    heap.prev (.feed []) = none

theorem accounted_parse :
    source.Accounted source.feed.parse (fun _ => False) fun _ => False where
  parent _ _ _ := rfl
  leaf path h := if_neg (by rw [Tree.width_eq_zero h]; exact Nat.lt_irrefl 0)
  found _ h := h
  dead path h := by
    rcases h with ⟨_, hremoved, _⟩ | ⟨_, hentered, _⟩
    · exact hremoved.elim
    · exact hentered.elim
  freed path h := by
    rcases h with (⟨_, hremoved, _⟩ | ⟨_, hentered, _⟩) | hentered
    · exact hremoved.elim
    · exact hentered.elim
    · exact hentered.elim
  kept _ _ _ := rfl
  pointer _ := rfl
  document := ⟨rfl, rfl, rfl⟩

theorem parse_attributes_eq_none (h : source.feed.attributesAt path = []) :
    source.feed.parse.attributes (.feed path) = none :=
  if_pos h

theorem parse_properties_eq {list : Address}
    (h : source.feed.parse.properties (.feed path) = some list) : list = .feed path := by
  have h' : (if source.feed.attributesAt path = [] then none else some (.feed path)) = some list :=
    h
  split at h'
  · cases h'
  · exact (Option.some.inj h').symm

theorem parse_attributes_ne_none {list : Address}
    (h : source.feed.parse.properties (.feed path) = some list) :
    source.feed.parse.attributes (.feed path) ≠ none := by
  have h' : (if source.feed.attributesAt path = [] then none else some (.feed path)) = some list :=
    h
  intro hnone
  have hnone' : (if source.feed.attributesAt path = [] then none
    else some (source.feed.attributesAt path)) = none := hnone
  split at h'
  · cases h'
  · next hne =>
      rw [if_neg hne] at hnone'
      cases hnone'

theorem exists_of_attributes (h : source.feed.attributesAt path ≠ []) :
    (source.feed.lookup path).isSome := by
  unfold Tree.attributesAt at h
  cases hlookup : source.feed.lookup path with
  | none => simp [hlookup] at h
  | some node => rfl

/-! ## What freeing a child reaches -/

section below

variable (hshape : source.Shape heap removed entered) (hshut : source.Shut outer)
  (hnot : ¬ entered outer) (hlast : ¬ IsPointer (heap.last (.feed outer)))

include hshape hshut hnot hlast

/-- The child list of a node leads to what is below it in the feed. -/
theorem Shape.leads_below {i : ℕ} (houter : outer <:+ path)
    (hexists : (source.feed.lookup (i :: path)).isSome) :
    Leads heap.next (heap.children (.feed path)) (kid path i) := by
  have hwidth : i < source.feed.width path := Tree.lookup_cons_isSome.1 hexists
  have helement : source.Element path := by
    by_contra hother
    rw [Tree.width_eq_zero hother] at hwidth
    exact absurd hwidth (Nat.not_lt_zero i)
  obtain ⟨kids, hlisted⟩ := hshape.list_below hshut hnot hlast houter helement
  have hmem : i ∈ kids := by
    refine (hlisted.mem i).2 ⟨hwidth, fun hremoved => ?_⟩
    have heq := hshut.eq_of_suffix (hshape.removed_shut _ hremoved).1
      (houter.trans (List.suffix_cons ..))
    have hlength := houter.length_le
    rw [heq, List.length_cons] at hlength
    omega
  exact hlisted.segment.leads (List.mem_map_of_mem hmem)

/-- Freeing the children of a node that is shut reaches all that is below it. -/
theorem Shape.reach_below (houter : outer <:+ inner) (hne : inner ≠ outer)
    (hexists : (source.feed.lookup inner).isSome) :
    Reach heap.children heap.next (heap.children (.feed outer)) (.feed inner) := by
  induction inner with
  | nil => exact absurd (List.suffix_nil.1 houter).symm hne
  | cons i inner ih =>
      have houter' : outer <:+ inner :=
        (List.suffix_cons_iff.1 houter).resolve_left fun heq => hne heq.symm
      have hleads : Reach heap.children heap.next (heap.children (.feed inner)) (kid inner i) :=
        (hshape.leads_below hshut hnot hlast houter' hexists).reach
      by_cases hself : inner = outer
      · exact hself ▸ hleads
      · exact (ih houter' hself (Tree.lookup_isSome_of_cons hexists)).below hleads

end below

/-! ## Property lists -/

section released

variable {R : Address → Prop} {S : Path → Prop} (hreleased : heap1.Released R heap')
  (hR : ∀ a, R a ↔ ∃ inner, a = .feed inner ∧ S inner ∧ (source.feed.lookup inner).isSome)
  (hproperties : ∀ inner, S inner →
    heap1.properties (.feed inner) = source.feed.parse.properties (.feed inner))

include hreleased hR hproperties

/-- Nodes that are freed take their property lists with them. -/
theorem attributes_released (hinner : S inner)
    (hattributes : heap1.attributes (.feed inner) = none ∨
      heap1.attributes (.feed inner) = source.feed.parse.attributes (.feed inner)) :
    heap'.attributes (.feed inner) = none := by
  by_cases hnil : source.feed.attributesAt inner = []
  · have hnone : heap1.attributes (.feed inner) = none :=
      hattributes.elim id fun hsame => hsame.trans (parse_attributes_eq_none hnil)
    rcases hreleased.attributes (.feed inner) with hnone' | hsame
    · exact hnone'
    · exact hsame.trans hnone
  · have hself : R (.feed inner) := (hR _).2 ⟨inner, rfl, hinner, exists_of_attributes hnil⟩
    refine hreleased.freed (.feed inner) _ hself ?_
    rw [hproperties inner hinner, parse_properties hnil]

/-- The other property lists stay. -/
theorem attributes_kept (hinner : ¬ S inner) :
    heap'.attributes (.feed inner) = heap1.attributes (.feed inner) := by
  refine hreleased.kept _ fun a ha hlist => ?_
  obtain ⟨other, rfl, hother, _⟩ := (hR a).1 ha
  rw [hproperties other hother] at hlist
  have hsame := parse_properties_eq hlist
  injection hsame with hsame
  exact hinner (hsame ▸ hother)

end released

/-- Where a property list has been before. -/
theorem Accounted.attributes (h : source.Accounted heap removed entered) (path : Path) :
    heap.attributes (.feed path) = none ∨
      heap.attributes (.feed path) = source.feed.parse.attributes (.feed path) := by
  by_cases hgone : Gone removed entered path ∨ entered path
  · exact Or.inl (h.freed path hgone)
  · obtain ⟨hgone, hentered⟩ := not_or.1 hgone
    exact Or.inr (h.kept path hgone hentered)

/-! ## Removing a child -/

theorem gone_andRemoved {child : Path} :
    Gone (andRemoved removed child) entered path ↔
      Gone removed entered path ∨ child <:+ path := by
  constructor
  · rintro (⟨outer, hremoved | rfl, houter⟩ | hitem)
    · exact Or.inl (Or.inl ⟨outer, hremoved, houter⟩)
    · exact Or.inr houter
    · exact Or.inl (Or.inr hitem)
  · rintro ((⟨outer, hremoved, houter⟩ | hitem) | hchild)
    · exact Or.inl ⟨outer, Or.inl hremoved, houter⟩
    · exact Or.inr hitem
    · exact Or.inl ⟨child, Or.inr rfl, hchild⟩

/-- What unlinking and freeing a child frees is what is at or below the child. -/
theorem Shape.released_remove (hshape : source.Shape heap removed entered)
    (hshut : source.Shut (k :: path)) (hnew : ¬ removed (k :: path))
    (hnot : ¬ entered (k :: path)) (hlast : ¬ IsPointer (heap.last (kid path k)))
    (hunlink : heap.xmlUnlinkNode (kid path k) = .ok heap1)
    (hfree : heap1.xmlFreeNode rounds (kid path k) = .ok heap') :
    heap1.Released (source.Below (k :: path)) heap' := by
  have hparent := hshape.parent k path hshut.1 hnew
  have hshape1 := hshape.unlink hshut hnew hunlink hnot hlast
  have hlast1 : ¬ IsPointer (heap1.last (.feed (k :: path))) := by
    have heq := unlink_last_self hparent hunlink
    exact heq.symm ▸ hlast
  have hclosed := hshape.closed_unlink hshut hnew hnot hlast hunlink
  refine (Heap.xmlFreeNode_released hfree).congr fun a => ⟨?_, ?_⟩
  · rintro ⟨inner, rfl, hinner, hexists⟩
    by_cases heq : inner = k :: path
    · exact Or.inr (heq ▸ rfl)
    · exact Or.inl (hshape1.reach_below hshut hnot hlast1 hinner heq hexists)
  · rintro (hreach | rfl)
    · exact hreach.closed (fun b hb => hclosed _ hshut.below b (Or.inl hb))
        fun b c hb hedge => hclosed b hb c hedge
    · exact hshut.below

theorem Accounted.remove (h : source.Accounted heap removed entered)
    (hshape : source.Shape heap removed entered)
    (hshut : source.Shut (k :: path)) (hnew : ¬ removed (k :: path))
    (hnot : ¬ entered (k :: path)) (hlast : ¬ IsPointer (heap.last (kid path k)))
    (hunlink : heap.xmlUnlinkNode (kid path k) = .ok heap1)
    (hfree : heap1.xmlFreeNode rounds (kid path k) = .ok heap') :
    source.Accounted heap' (andRemoved removed (k :: path)) entered := by
  have hparent := hshape.parent k path hshut.1 hnew
  have heq := Heap.xmlUnlinkNode_eq hunlink hparent
  have hreleased := hshape.released_remove hshut hnew hnot hlast hunlink hfree
  have hlive : heap1.live = heap.live := by rw [heq]
  have hattributes : heap1.attributes = heap.attributes := by rw [heq]
  -- the property lists below the child are those of the feed
  have hproperties : ∀ inner, k :: path <:+ inner → heap1.properties (.feed inner) =
      source.feed.parse.properties (.feed inner) := by
    intro inner hinner
    rw [heq]
    refine hshape.properties inner fun hentered => hnot ?_
    exact hshut.eq_of_suffix (hshape.entered_item inner hentered).1.1 hinner ▸ hentered
  constructor
  case parent =>
    intro i other hkept
    obtain ⟨hold, hne⟩ := not_or.1 hkept
    rw [hreleased.eq, heq]
    refine (Function.update_of_ne ?_ _ _).trans (h.parent i other hold)
    simpa [kid] using hne
  case leaf =>
    intro other hother
    have hne : Address.feed other ≠ .feed path := by
      intro hfeed
      injection hfeed with hfeed
      exact hother (hfeed ▸ hshut.1.1.element)
    rw [hreleased.eq]
    exact (unlink_last hparent hunlink hne).trans (h.leaf other hother)
  case found =>
    intro inner hinner
    refine h.found inner ?_
    rw [← hlive]
    exact ((hreleased.live _).1 hinner).1
  case dead =>
    intro inner hgone
    refine Bool.eq_false_iff.2 fun hinner => ?_
    obtain ⟨hlive1, hnotBelow⟩ := (hreleased.live _).1 hinner
    rw [hlive] at hlive1
    rcases gone_andRemoved.1 hgone with hgone | hbelow
    · exact absurd (hlive1.symm.trans (h.dead inner hgone)) (by simp)
    · exact hnotBelow ⟨inner, rfl, hbelow, h.found inner hlive1⟩
  case freed =>
    have hold : ∀ inner, heap.attributes (.feed inner) = none →
        heap'.attributes (.feed inner) = none := by
      intro inner hnone
      exact hreleased.attributes_none (by rw [hattributes, hnone])
    intro inner hgone
    rcases hgone with hgone | hentered
    · rcases gone_andRemoved.1 hgone with hgone | hbelow
      · exact hold inner (h.freed inner (Or.inl hgone))
      · refine attributes_released hreleased (fun _ => Iff.rfl) hproperties hbelow ?_
        rw [hattributes]
        exact h.attributes inner
    · exact hold inner (h.freed inner (Or.inr hentered))
  case kept =>
    intro inner hgone hentered
    obtain ⟨hgone, hbelow⟩ := not_or.1 fun hor => hgone (gone_andRemoved.2 hor)
    rw [attributes_kept hreleased (fun _ => Iff.rfl) hproperties hbelow, hattributes]
    exact h.kept inner hgone hentered
  case pointer =>
    intro node
    exact hreleased.attributes_none (by rw [hattributes, h.pointer node])
  case document =>
    obtain ⟨kids, stop, hlisted, _⟩ := hshape.list hshut.1.1
    have hk : k ∈ kids := (hlisted.mem k).2 ⟨hshut.1.lt_width, hnew⟩
    have hkid : ∀ j, Address.feed [] ≠ kid path j := fun j hkid => by simp [kid] at hkid
    have hstop : stop ≠ some (.feed []) := by
      intro hstop
      rcases hlisted.ending with ⟨hnone, _⟩ | ⟨⟨_, hpointer⟩, _⟩
      · rw [hnone] at hstop
        cases hstop
      · rw [hpointer] at hstop
        cases hstop
    have hnext := unlink_next hk hlisted hparent hunlink hkid
    have hprev := unlink_prev hk hlisted hparent hunlink hkid hstop
    have hfeed : heap1.parent (.feed []) = heap.parent (.feed []) := by
      rw [heq]
      exact Function.update_of_ne (hkid k) none heap.parent
    rw [hreleased.eq]
    exact ⟨hfeed.trans h.document.1, hnext.trans h.document.2.1, hprev.trans h.document.2.2⟩

/-- It does not depend on the child lists. -/
theorem Accounted.congr (h : source.Accounted heap removed entered)
    (hparent : heap'.parent = heap.parent) (hlast : heap'.last = heap.last)
    (hlive : heap'.live = heap.live) (hattributes : heap'.attributes = heap.attributes)
    (hnext : heap'.next = heap.next) (hprev : heap'.prev = heap.prev) :
    source.Accounted heap' removed entered := by
  constructor
  case parent => rw [hparent]; exact h.parent
  case leaf => rw [hlast]; exact h.leaf
  case found => rw [hlive]; exact h.found
  case dead => rw [hlive]; exact h.dead
  case freed => rw [hattributes]; exact h.freed
  case kept => rw [hattributes]; exact h.kept
  case pointer => rw [hattributes]; exact h.pointer
  case document => rw [hparent, hnext, hprev]; exact h.document

end VaeDb.Source
