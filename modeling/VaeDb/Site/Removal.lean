import VaeDb.Site.Shape

/-!
# Removing a child

`xmlUnlinkNode` and `xmlFreeNode` on a child of an opened element keep the shape of the heap,
with one more child removed (`Shape.unlink`, `Allocated.free`): unlinking takes the child out
of one list and leaves the others alone, and freeing does not leave what is at or below the
child, because there no list ends in pointer nodes.
-/

namespace VaeDb.Source

open Xml Links

variable {source : Source} {heap heap' : Heap Address} {removed entered : Path → Prop}
  {path other : Path} {kids : List ℕ} {k : ℕ} {stop : Option Address}

/-- One more child is removed. -/
def andRemoved (removed : Path → Prop) (child : Path) (path : Path) : Prop :=
  removed path ∨ path = child

theorem IsPointer.ne_kid (h : IsPointer stop) (path : Path) (k : ℕ) :
    stop ≠ some (kid path k) := by
  obtain ⟨node, rfl⟩ := h
  simp [kid]

theorem Listed.nodup (h : source.Listed heap removed path kids stop) :
    (kids.map (kid path)).Nodup :=
  (h.sorted.imp fun hlt => Nat.ne_of_lt hlt).map _ fun _ _ hne heq =>
    hne (kid_injective path heq)

theorem Listed.stop_ne_kid (h : source.Listed heap removed path kids stop) (other : Path)
    (k : ℕ) : stop ≠ some (kid other k) := by
  rcases h.ending with ⟨hnone, _⟩ | ⟨hpointer, _⟩
  · simp [hnone]
  · exact hpointer.ne_kid other k

theorem Listed.pointer_stop (h : source.Listed heap removed path kids stop)
    (hlast : IsPointer (heap.last (.feed path))) : IsPointer stop := by
  rcases h.ending with ⟨_, hkids⟩ | ⟨hpointer, _⟩
  · obtain ⟨node, hnode⟩ := hlast
    rw [hnode] at hkids
    obtain ⟨j, _, hj⟩ := List.mem_map.1 (List.mem_of_getLast? hkids.symm)
    cases hj
  · exact hpointer

/-- The first child, if no child has been removed. -/
theorem Listed.head?_eq (h : source.Listed heap removed path kids stop)
    (hnone : ∀ j, ¬ removed (j :: path)) :
    kids.head? = if 0 < source.feed.width path then some 0 else none := by
  by_cases hwidth : 0 < source.feed.width path
  · rw [if_pos hwidth]
    have hzero : 0 ∈ kids := (h.mem 0).2 ⟨hwidth, hnone 0⟩
    cases kids with
    | nil => cases hzero
    | cons j kids =>
        rcases List.mem_cons.1 hzero with rfl | hzero
        · rfl
        · exact absurd ((List.pairwise_cons.1 h.sorted).1 0 hzero) (Nat.not_lt_zero j)
  · rw [if_neg hwidth]
    cases kids with
    | nil => rfl
    | cons j kids =>
        have hj := ((h.mem j).1 (List.mem_cons_self ..)).1
        omega

theorem Listed.children_eq (h : source.Listed heap removed path kids stop) :
    heap.children (.feed path) = (kids.head?.map (kid path)).or stop := by
  rw [h.segment.start_eq, List.head?_map]

/-- What is linked to a child: its siblings, and what comes after the list. -/
theorem Listed.next_eq (h : source.Listed heap removed path kids stop) (hk : k ∈ kids) :
    (heap.next (kid path k) = stop ∧ ∀ j ∈ kids, j ≤ k) ∨
      ∃ j ∈ kids, k < j ∧ (∀ i ∈ kids, k < i → j ≤ i) ∧
        heap.next (kid path k) = some (kid path j) := by
  obtain ⟨first, rest, rfl⟩ := List.append_of_mem hk
  have hsegment := h.segment
  rw [List.map_append, List.map_cons] at hsegment
  have hnext := hsegment.next_eq
  obtain ⟨_, hsorted, hbetween⟩ := List.pairwise_append.1 h.sorted
  obtain ⟨hbelow, hrest⟩ := List.pairwise_cons.1 hsorted
  cases rest with
  | nil =>
      refine Or.inl ⟨hnext, fun j hj => ?_⟩
      rcases List.mem_append.1 hj with hj | hj
      · exact Nat.le_of_lt (hbetween j hj k (List.mem_cons_self ..))
      · exact Nat.le_of_eq (List.mem_singleton.1 hj)
  | cons j rest =>
      refine Or.inr ⟨j, by simp, hbelow j (List.mem_cons_self ..), fun i hi hlt => ?_, hnext⟩
      rcases List.mem_append.1 hi with hi | hi
      · exact absurd (hbetween i hi k (List.mem_cons_self ..)) (by omega)
      · rcases List.mem_cons.1 hi with rfl | hi
        · exact absurd hlt (Nat.lt_irrefl _)
        · rcases List.mem_cons.1 hi with rfl | hi
          · exact Nat.le_refl _
          · exact Nat.le_of_lt ((List.pairwise_cons.1 hrest).1 i hi)

theorem Listed.prev_eq (h : source.Listed heap removed path kids stop) (hk : k ∈ kids) :
    heap.prev (kid path k) = none ∨ ∃ j, heap.prev (kid path k) = some (kid path j) := by
  obtain ⟨first, rest, rfl⟩ := List.append_of_mem hk
  have hsegment := h.segment
  rw [List.map_append, List.map_cons] at hsegment
  have hprev := hsegment.prev_eq
  rw [List.getLast?_map, Option.or_none] at hprev
  cases hlast : first.getLast? with
  | none => exact Or.inl (by rw [hprev, hlast]; rfl)
  | some j => exact Or.inr ⟨j, by rw [hprev, hlast]; rfl⟩

/-! ## Unlinking -/

section unlink

variable (hk : k ∈ kids) (hlisted : source.Listed heap removed path kids stop)
  (hparent : heap.parent (kid path k) = some (.feed path))
  (h : heap.xmlUnlinkNode (kid path k) = .ok heap')

include hparent h

theorem unlink_children {a : Address} (ha : a ≠ .feed path) :
    heap'.children a = heap.children a := by
  rw [Heap.xmlUnlinkNode_eq h hparent]
  exact Function.update_of_ne ha _ _

theorem unlink_last {a : Address} (ha : a ≠ .feed path) : heap'.last a = heap.last a := by
  rw [Heap.xmlUnlinkNode_eq h hparent]
  exact Function.update_of_ne ha _ _

/-- What is unlinked keeps its own last child. -/
theorem unlink_last_self : heap'.last (kid path k) = heap.last (kid path k) := by
  refine unlink_last hparent h fun hkid => ?_
  injection hkid with hkid
  exact absurd (congrArg List.length hkid) (by simp)

/-- A pointer node stays the last child. -/
theorem unlink_last_pointer {a : Address} (ha : IsPointer (heap.last a)) :
    heap'.last a = heap.last a := by
  by_cases hpath : a = .feed path
  · subst hpath
    rw [Heap.xmlUnlinkNode_eq h hparent]
    simp only [Function.update_self]
    rw [if_neg (ha.ne_kid path k)]
  · exact unlink_last hparent h hpath

include hk hlisted

/-- The next pointers of nodes outside the list are left alone. -/
theorem unlink_next {a : Address} (ha : ∀ j, a ≠ kid path j) : heap'.next a = heap.next a := by
  rw [Heap.xmlUnlinkNode_eq h hparent]
  refine unlinkNext_of_ne (ha k) ?_
  rcases hlisted.prev_eq hk with hprev | ⟨j, hprev⟩
  · simp [hprev]
  · rw [hprev]
    exact fun heq => ha j (Option.some.inj heq).symm

theorem unlink_prev {a : Address} (ha : ∀ j, a ≠ kid path j) (hstop : stop ≠ some a) :
    heap'.prev a = heap.prev a := by
  rw [Heap.xmlUnlinkNode_eq h hparent]
  refine unlinkPrev_of_ne (ha k) ?_
  rcases hlisted.next_eq hk with ⟨hnext, _⟩ | ⟨j, _, _, _, hnext⟩
  · rw [hnext]
    exact hstop
  · rw [hnext]
    exact fun heq => ha j (Option.some.inj heq).symm

/-- The child is taken out of its list. -/
theorem listed_unlink :
    source.Listed heap' (andRemoved removed (k :: path)) path (kids.erase k) stop := by
  have hnodup : kids.Nodup := hlisted.sorted.imp fun hlt => Nat.ne_of_lt hlt
  have hmem : ∀ j, j ∈ kids.erase k ↔ j ∈ kids ∧ j ≠ k := by
    intro j
    rw [hnodup.mem_erase_iff, and_comm]
  refine ⟨hlisted.sorted.sublist List.erase_sublist, fun j => ?_, ?_, ?_⟩
  · rw [hmem, hlisted.mem j]
    unfold andRemoved
    simp only [List.cons.injEq, and_true, not_or, and_assoc]
  all_goals
    obtain ⟨first, rest, rfl⟩ := List.append_of_mem hk
    have hfirst : k ∉ first := fun hmem =>
      List.disjoint_of_nodup_append hnodup hmem (List.mem_cons_self ..)
    rw [List.erase_append_right _ hfirst, List.erase_cons_head, List.map_append]
    have hsegment := hlisted.segment
    rw [List.map_append, List.map_cons] at hsegment
    rw [Heap.xmlUnlinkNode_eq h hparent]
    simp only [Function.update_self]
  · have hnodup' := hlisted.nodup
    rw [List.map_append, List.map_cons] at hnodup'
    refine hsegment.unlink hnodup' fun b hb hmem => ?_
    obtain ⟨j, _, rfl⟩ := List.mem_map.1 hmem
    exact hlisted.stop_ne_kid path j hb
  · refine hlisted.ending.imp (fun hend => ⟨hend.1, ?_⟩) fun hend => ⟨hend.1, ?_⟩
    · have hlast := hend.2
      rw [List.map_append, List.map_cons] at hlast
      have hprev := hsegment.prev_eq
      rw [Option.or_none] at hprev
      cases rest with
      | nil =>
          rw [List.map_nil, List.getLast?_append_cons, List.getLast?_singleton] at hlast
          rw [if_pos hlast, hprev, List.map_nil, List.append_nil]
      | cons j rest =>
          have hne : heap.last (.feed path) ≠ some (kid path k) := by
            intro heq
            rw [hlast, List.getLast?_append_cons, List.map_cons, List.getLast?_cons_cons,
              ← List.map_cons] at heq
            obtain ⟨i, hi, hik⟩ := List.mem_map.1 (List.mem_of_getLast? heq)
            obtain rfl := kid_injective path hik
            exact (List.nodup_cons.1 (List.nodup_append'.1 hnodup).2.1).1 hi
          rw [if_neg hne, hlast, List.map_cons, List.getLast?_append_cons,
            List.getLast?_append_cons, List.getLast?_cons_cons]
    · rw [if_neg (hend.2.ne_kid path k)]
      exact hend.2

/-- The other lists are left alone. -/
theorem listed_unlink_other {kids' : List ℕ} {stop' : Option Address} (hne : other ≠ path)
    (hother : source.Listed heap removed other kids' stop') :
    source.Listed heap' (andRemoved removed (k :: path)) other kids' stop' := by
  have hkid : ∀ i j, kid other i ≠ kid path j := by
    intro i j heq
    exact hne (by simpa [kid] using heq : i = j ∧ other = path).2
  have hfeed : Address.feed other ≠ .feed path := fun heq => hne (by simpa using heq)
  refine ⟨hother.sorted, fun j => ?_, ?_, ?_⟩
  · rw [hother.mem j]
    unfold andRemoved
    simp [hne]
  · rw [unlink_children hparent h hfeed]
    refine hother.segment.congr (fun a ha => ?_) fun a ha => ?_
    all_goals obtain ⟨i, _, rfl⟩ := List.mem_map.1 ha
    · exact unlink_next hk hlisted hparent h (hkid i)
    · exact unlink_prev hk hlisted hparent h (hkid i) (hlisted.stop_ne_kid other i)
  · rw [unlink_last hparent h hfeed]
    exact hother.ending

end unlink

/-! ## The shape after unlinking -/

theorem Child.lt_width (h : source.Child (k :: path)) : k < source.feed.width path :=
  Tree.lookup_cons_isSome.1 (Tree.lookup_isSome_of_element h.2)

theorem Shape.not_entered (hshape : source.Shape heap removed entered)
    (hopened : source.Opened path) : ¬ entered path :=
  fun hentered => (hshape.entered_item path hentered).1.shut.2 hopened

theorem Shape.ne_of_entered (hshape : source.Shape heap removed entered)
    (hopened : source.Opened path) {item : Path} (hentered : entered item) : item ≠ path := by
  intro heq
  exact hshape.not_entered hopened (heq ▸ hentered)

theorem Shape.list (hshape : source.Shape heap removed entered) (hopened : source.Opened path) :
    ∃ kids stop, source.Listed heap removed path kids stop ∧
      source.Stops heap entered path stop :=
  hshape.lists path hopened.element (hshape.not_entered hopened)

section

variable (hshape : source.Shape heap removed entered) (hshut : source.Shut (k :: path))
  (hnew : ¬ removed (k :: path)) (h : heap.xmlUnlinkNode (kid path k) = .ok heap')

include hshape hshut hnew h

theorem Shape.lists_unlink :
    ∀ other, source.Element other → ¬ entered other →
      ∃ kids stop, source.Listed heap' (andRemoved removed (k :: path)) other kids stop ∧
        source.Stops heap' entered other stop := by
  intro other helement hentered
  have hparent := hshape.parent k path hshut.1 hnew
  obtain ⟨kids, stop, hlisted, hstops⟩ := hshape.list hshut.1.1
  have hk : k ∈ kids := (hlisted.mem k).2 ⟨hshut.1.lt_width, hnew⟩
  have hproperties : heap'.properties = heap.properties := by
    rw [Heap.xmlUnlinkNode_eq h hparent]
  unfold Stops
  rw [hproperties]
  by_cases hother : other = path
  · subst hother
    exact ⟨_, stop, listed_unlink hk hlisted hparent h, hstops⟩
  · obtain ⟨kids', stop', hlisted', hstops'⟩ := hshape.lists other helement hentered
    exact ⟨kids', stop', listed_unlink_other hk hlisted hparent h hother hlisted', hstops'⟩

/-- An item in the place of an associated node stays there. -/
theorem Shape.held_unlink (hnot : ¬ entered (k :: path))
    (hlast : ¬ IsPointer (heap.last (kid path k))) {target : Path}
    (hheld : source.Held heap removed entered target) :
    source.Held heap' (andRemoved removed (k :: path)) entered target := by
  intro hitem
  have hparent := hshape.parent k path hshut.1 hnew
  obtain ⟨hremoved, hcase⟩ := hheld hitem
  refine ⟨?_, hcase.imp_right fun hlast' =>
    (unlink_last_pointer hparent h hlast').symm ▸ hlast'⟩
  rintro (hold | rfl)
  · exact hremoved hold
  · exact hcase.elim hnot hlast

/-- What is known of the items that have got their association. -/
theorem Shape.entered_unlink (hnot : ¬ entered (k :: path))
    (hlast : ¬ IsPointer (heap.last (kid path k))) {item : Path} (hitem : entered item) :
    source.Entered heap' (andRemoved removed (k :: path)) entered item := by
  have hparent := hshape.parent k path hshut.1 hnew
  obtain ⟨kids, stop, hlisted, _⟩ := hshape.list hshut.1.1
  have hk : k ∈ kids := (hlisted.mem k).2 ⟨hshut.1.lt_width, hnew⟩
  have heq := Heap.xmlUnlinkNode_eq h hparent
  have hproperties : heap'.properties = heap.properties := by rw [heq]
  have hentered := hshape.items item hitem
  have hne : item ≠ path := hshape.ne_of_entered hshut.1.1 hitem
  have hfeed : Address.feed item ≠ .feed path := by simpa using hne
  constructor
  case children =>
    rw [unlink_children hparent h hfeed]
    exact hentered.children
  case text => exact hentered.text
  case next =>
    -- the first child of the item is not in the list of `path`
    have hkid : ∀ j, kid item 0 ≠ kid path j := by
      intro j heq
      exact hne (by simpa [kid] using heq : 0 = j ∧ item = path).2
    rw [unlink_next hk hlisted hparent h hkid]
    refine hentered.next.imp_right (Or.imp_right ?_)
    rintro ⟨j, target, hnext, hj, hcase⟩
    refine ⟨j, target, hnext, hj, hcase.imp_right ?_⟩
    rintro ⟨hzero, hitem, hheld⟩
    exact ⟨hzero, hitem, hshape.held_unlink hshut hnew h hnot hlast hheld⟩
  case pointer =>
    have hchildren : heap'.children (.pointer (.feed item)) =
        heap.children (.pointer (.feed item)) := unlink_children hparent h (by simp)
    have htype : heap'.type = heap.type := by rw [heq]
    rw [hchildren, hproperties, htype]
    exact hentered.pointer
  case properties =>
    rw [hproperties]
    obtain ⟨target, htarget, hvisited, hheld⟩ := hentered.properties
    exact ⟨target, htarget, hvisited, hshape.held_unlink hshut hnew h hnot hlast hheld⟩
  case last =>
    rw [unlink_last hparent h hfeed, hproperties]
    refine hentered.last.imp_right (Or.imp_right ?_)
    rintro ⟨j, target, hkid, hpointer, hj, hmax, hcase⟩
    refine ⟨j, target, hkid, (unlink_last_pointer hparent h hpointer).symm ▸ hpointer, hj,
      fun i hi hremoved => hmax i hi fun hold => hremoved (Or.inl hold), ?_⟩
    refine hcase.imp_right ?_
    rintro ⟨hitem', hout, hremoved, hlist⟩
    refine ⟨hitem', hout, ?_, hlist⟩
    rintro (hold | rfl)
    · exact hremoved hold
    · exact hlast hpointer

/-- A removed item must not be one that other items may have been associated with. -/
theorem Shape.unlink (hnot : ¬ entered (k :: path))
    (hlast : ¬ IsPointer (heap.last (kid path k))) :
    source.Shape heap' (andRemoved removed (k :: path)) entered := by
  have hparent := hshape.parent k path hshut.1 hnew
  obtain ⟨kids, stop, hlisted, _⟩ := hshape.list hshut.1.1
  have hk : k ∈ kids := (hlisted.mem k).2 ⟨hshut.1.lt_width, hnew⟩
  have heq := Heap.xmlUnlinkNode_eq h hparent
  constructor
  case removed_shut =>
    rintro other (hold | rfl)
    · exact hshape.removed_shut other hold
    · exact hshut
  case entered_item =>
    intro item hitem
    obtain ⟨hitem', hremoved⟩ := hshape.entered_item item hitem
    refine ⟨hitem', ?_⟩
    rintro (hold | rfl)
    · exact hremoved hold
    · exact hnot hitem
  case type =>
    intro other
    rw [heq]
    exact hshape.type other
  case parent =>
    intro i other hchild hremoved
    obtain ⟨hold, hne⟩ := not_or.1 hremoved
    rw [heq]
    refine (Function.update_of_ne ?_ _ _).trans (hshape.parent i other hchild hold)
    simpa [kid] using hne
  case leaf =>
    intro other hother
    have hne : Address.feed other ≠ .feed path := by
      intro hfeed
      injection hfeed with hfeed
      exact hother (hfeed ▸ hshut.1.1.element)
    rw [unlink_children hparent h hne]
    exact hshape.leaf other hother
  case lists => exact hshape.lists_unlink hshut hnew h
  case properties =>
    intro other hother
    rw [heq]
    exact hshape.properties other hother
  case attributes =>
    intro other list hlist
    rw [heq] at hlist
    exact hshape.attributes other list hlist
  case pointerNext =>
    intro node
    rw [unlink_next hk hlisted hparent h (by simp [kid])]
    exact hshape.pointerNext node
  case rootPrivate =>
    rw [heq]
    exact hshape.rootPrivate
  case items =>
    intro item hitem
    exact hshape.entered_unlink hshut hnew h hnot hlast hitem

end

/-! ## Freeing -/

/-- The shape does not depend on what is allocated. -/
theorem Shape.realloc (hshape : source.Shape heap removed entered)
    {live : Address → Bool} {attributes : Address → Option (List Attribute)}
    {_private : Address → Option Address}
    (hattributes : ∀ list, attributes list = none ∨ attributes list = heap.attributes list)
    (hroot : _private (.feed source.root) = none) :
    source.Shape { heap with live, attributes, _private } removed entered where
  removed_shut := hshape.removed_shut
  entered_item := hshape.entered_item
  type := hshape.type
  parent := hshape.parent
  leaf := hshape.leaf
  lists other helement hentered := by
    obtain ⟨kids, stop, hlisted, hstops⟩ := hshape.lists other helement hentered
    exact ⟨kids, stop, ⟨hlisted.sorted, hlisted.mem, hlisted.segment, hlisted.ending⟩, hstops⟩
  properties := hshape.properties
  attributes other list hlist := by
    refine hshape.attributes other list ?_
    rcases hattributes (.feed other) with hnone | heq
    · exact absurd (hnone.symm.trans hlist) (by simp)
    · exact heq.symm.trans hlist
  items item hitem := by
    have hentered := hshape.items item hitem
    exact ⟨hentered.children, hentered.text, hentered.next, hentered.pointer,
      hentered.properties, hentered.last⟩
  pointerNext := hshape.pointerNext
  rootPrivate := hroot

theorem Shape.freed {R : Address → Prop} (hshape : source.Shape heap removed entered)
    (hfreed : heap.Freed R heap') : source.Shape heap' removed entered := by
  rw [hfreed.eq]
  exact hshape.realloc hfreed.attributes hshape.rootPrivate

section below

variable {outer : Path} (hshape : source.Shape heap removed entered)
  (hshut : source.Shut outer) (hnot : ¬ entered outer)
  (hlast : ¬ IsPointer (heap.last (.feed outer)))

include hshape hshut hnot hlast

/-- The list of an element at or below one that is shut has nothing after its children. -/
theorem Shape.list_below {path : Path} (houter : outer <:+ path)
    (helement : source.Element path) : ∃ kids, source.Listed heap removed path kids none := by
  have hentered : ¬ entered path := by
    intro hentered
    obtain rfl := hshut.eq_of_suffix (hshape.entered_item path hentered).1.1 houter
    exact hnot hentered
  obtain ⟨kids, stop, hlisted, hstops⟩ := hshape.lists path helement hentered
  rcases hlisted.ending with ⟨rfl, _⟩ | ⟨⟨node, hnode⟩, hpointer⟩
  · exact ⟨kids, hlisted⟩
  · obtain ⟨item, _, _, hopened | ⟨hitem, _⟩⟩ := hstops node hnode
    · exact absurd hopened (hshut.not_opened houter)
    · obtain rfl := hshut.eq_of_suffix hitem.1 houter
      exact absurd hpointer hlast

theorem Shape.children_below {path : Path} {a : Address} (houter : outer <:+ path)
    (ha : heap.children (.feed path) = some a) :
    ∃ j, a = kid path j ∧ (source.feed.lookup (j :: path)).isSome := by
  by_cases helement : source.Element path
  · obtain ⟨kids, hlisted⟩ := hshape.list_below hshut hnot hlast houter helement
    have hstart := hlisted.segment.start_eq
    rw [ha, Option.or_none, List.head?_map] at hstart
    cases kids with
    | nil => cases hstart
    | cons j kids =>
        have hj := (hlisted.mem j).1 (List.mem_cons_self ..)
        exact ⟨j, Option.some.inj hstart, Tree.lookup_cons_isSome.2 hj.1⟩
  · rw [hshape.leaf path helement] at ha
    cases ha

theorem Shape.next_below {path : Path} {i : ℕ} {a : Address} (houter : outer <:+ path)
    (hi : (source.feed.lookup (i :: path)).isSome) (ha : heap.next (kid path i) = some a) :
    ∃ j, i < j ∧ a = kid path j ∧ (source.feed.lookup (j :: path)).isSome := by
  have hwidth : i < source.feed.width path := Tree.lookup_cons_isSome.1 hi
  have helement : source.Element path := by
    by_contra hother
    rw [Tree.width_eq_zero hother] at hwidth
    exact absurd hwidth (Nat.not_lt_zero i)
  obtain ⟨kids, hlisted⟩ := hshape.list_below hshut hnot hlast houter helement
  have hmem : i ∈ kids := by
    refine (hlisted.mem i).2 ⟨hwidth, fun hremoved => ?_⟩
    have heq := hshut.eq_of_suffix (hshape.removed_shut _ hremoved).1
      (houter.trans (List.suffix_cons ..))
    have hlength := houter.length_le
    rw [heq, List.length_cons] at hlength
    omega
  rcases hlisted.next_eq hmem with ⟨hnone, _⟩ | ⟨j, hj, hlt, _, hnext⟩
  · rw [ha] at hnone
    cases hnone
  · exact ⟨j, hlt, Option.some.inj (ha.symm.trans hnext),
      Tree.lookup_cons_isSome.2 ((hlisted.mem j).1 hj).1⟩

end below

/-- The nodes at or below a node of the feed. -/
def Below (source : Source) (outer : Path) (a : Address) : Prop :=
  ∃ path, a = .feed path ∧ outer <:+ path ∧ (source.feed.lookup path).isSome

/-- Children and next pointers do not leave what is at or below an unlinked node that is shut. -/
theorem Shape.closed_below {outer : Path} (hshape : source.Shape heap removed entered)
    (hshut : source.Shut outer) (hnot : ¬ entered outer)
    (hlast : ¬ IsPointer (heap.last (.feed outer))) (hnext : heap.next (.feed outer) = none) :
    Heap.Closed (source.Below outer) heap := by
  rintro a ⟨inner, rfl, hinner, hexists⟩ b (hb | hb)
  · obtain ⟨j, rfl, hj⟩ := hshape.children_below hshut hnot hlast hinner hb
    exact ⟨j :: inner, rfl, hinner.trans (List.suffix_cons ..), hj⟩
  · cases inner with
    | nil =>
        obtain rfl := List.suffix_nil.1 hinner
        exact hshut.1.elim
    | cons i inner =>
        rcases List.suffix_cons_iff.1 hinner with rfl | hinner'
        · rw [hnext] at hb
          cases hb
        · obtain ⟨j, _, rfl, hj⟩ := hshape.next_below hshut hnot hlast hinner' hexists hb
          exact ⟨j :: inner, rfl, hinner'.trans (List.suffix_cons ..), hj⟩

theorem Shut.below (hshut : source.Shut path) : source.Below path (.feed path) :=
  ⟨_, rfl, List.suffix_rfl, Tree.lookup_isSome_of_element hshut.1.element⟩

/-- Once unlinked, a child that is shut leads to nothing but what is at or below it. -/
theorem Shape.closed_unlink {heap1 : Heap Address} (hshape : source.Shape heap removed entered)
    (hshut : source.Shut (k :: path)) (hnew : ¬ removed (k :: path))
    (hnot : ¬ entered (k :: path)) (hlast : ¬ IsPointer (heap.last (kid path k)))
    (hunlink : heap.xmlUnlinkNode (kid path k) = .ok heap1) :
    Heap.Closed (source.Below (k :: path)) heap1 := by
  have hparent := hshape.parent k path hshut.1 hnew
  refine (hshape.unlink hshut hnew hunlink hnot hlast).closed_below hshut hnot ?_ ?_
  · have heq := unlink_last_self hparent hunlink
    exact heq.symm ▸ hlast
  · rw [Heap.xmlUnlinkNode_eq hunlink hparent]
    exact Function.update_self ..

/-- Unlinking and freeing a child that is shut. -/
theorem Shape.remove {rounds : ℕ} {heap1 : Heap Address}
    (hshape : source.Shape heap removed entered)
    (hallocated : source.Allocated heap removed entered) (hshut : source.Shut (k :: path))
    (hnew : ¬ removed (k :: path)) (hnot : ¬ entered (k :: path))
    (hlast : ¬ IsPointer (heap.last (kid path k)))
    (hunlink : heap.xmlUnlinkNode (kid path k) = .ok heap1)
    (hfree : heap1.xmlFreeNode rounds (kid path k) = .ok heap') :
    source.Shape heap' (andRemoved removed (k :: path)) entered ∧
      source.Allocated heap' (andRemoved removed (k :: path)) entered ∧
      heap'._private = heap._private := by
  have hparent := hshape.parent k path hshut.1 hnew
  have heq := Heap.xmlUnlinkNode_eq hunlink hparent
  have hshape1 := hshape.unlink hshut hnew hunlink hnot hlast
  have hclosed := hshape.closed_unlink hshut hnew hnot hlast hunlink
  obtain ⟨hfreed, hdead⟩ := Heap.xmlFreeNode_freed hclosed hshut.below hfree
  have hlive : heap1.live = heap.live := by rw [heq]
  refine ⟨hshape1.freed hfreed, ⟨fun other hexists hgone => ?_, fun other hremoved => ?_,
    fun node hnode => ?_⟩, ?_⟩
  · have hold : ¬ Gone removed entered other := by
      rintro (⟨outer, hremoved, houter⟩ | hitem)
      · exact hgone (Or.inl ⟨outer, Or.inl hremoved, houter⟩)
      · exact hgone (Or.inr hitem)
    rw [hfreed.kept, hlive]
    · exact hallocated.live other hexists hold
    · rintro ⟨inner, hinner, hbelow, _⟩
      injection hinner with hinner
      subst hinner
      exact hgone (Or.inl ⟨_, Or.inr rfl, hbelow⟩)
  · rcases hremoved with hold | rfl
    · refine hfreed.dead ?_
      rw [hlive]
      exact hallocated.dead other hold
    · exact hdead
  · refine hallocated.pointer node ?_
    rw [← hlive]
    exact hfreed.live _ hnode
  · rw [hfreed.private_eq, heq]

end VaeDb.Source
