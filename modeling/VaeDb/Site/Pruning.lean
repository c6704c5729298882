import VaeDb.Site.Arrangement

/-!
# Removing an unpublished element

When the construction comes to an element that is unpublished, the nodes around the element and
all nodes below it are still allocated, and the links below it are those of the feed.  So the
element is unlinked (`Constructing.unlink_ok`) and freed with what is below it, within as many
rounds as there are nodes (`Constructing.free_ok`).
-/

namespace VaeDb

open Xml Links

/-! ## The number of nodes -/

mutual

/-- The number of nodes of a tree. -/
def Tree.size : Tree → ℕ
  | .element _ _ children => Tree.sizeFrom children + 1
  | .text _ => 1
  | .other => 1

/-- The number of nodes of some trees. -/
def Tree.sizeFrom : List Tree → ℕ
  | [] => 0
  | child :: rest => Tree.size child + Tree.sizeFrom rest

end

theorem Tree.size_eq (node : Tree) : node.size = Tree.sizeFrom node.children + 1 := by
  cases node with
  | element name attributes children => rw [Tree.size]; rfl
  | text content => simp [Tree.size, Tree.sizeFrom, Tree.children]
  | other => simp [Tree.size, Tree.sizeFrom, Tree.children]

namespace Source

variable {source : Source} {path other inner outer : Path} {i j k : ℕ}

/-- The number of nodes at or below the node with a path. -/
def sizeAt (source : Source) (path : Path) : ℕ :=
  match source.feed.lookup path with
  | some node => node.size
  | none => 0

/-- The number of nodes at or below its children from an index on. -/
def sizeAfter (source : Source) (path : Path) (k : ℕ) : ℕ :=
  match source.feed.lookup path with
  | some node => Tree.sizeFrom (node.children.drop k)
  | none => 0

theorem sizeAt_eq (h : (source.feed.lookup path).isSome) :
    source.sizeAt path = source.sizeAfter path 0 + 1 := by
  obtain ⟨node, hnode⟩ := Option.isSome_iff_exists.1 h
  unfold sizeAt sizeAfter
  rw [hnode]
  exact node.size_eq

theorem sizeAfter_succ (h : k < source.feed.width path) :
    source.sizeAfter path k = source.sizeAt (k :: path) + source.sizeAfter path (k + 1) := by
  unfold sizeAfter sizeAt Tree.width at *
  rw [Tree.lookup]
  cases hnode : source.feed.lookup path with
  | none => simp [hnode] at h
  | some node =>
      simp only [hnode] at h
      simp only [Option.bind_some, List.getElem?_eq_getElem h, List.drop_eq_getElem_cons h,
        Tree.sizeFrom]

theorem sizeAt_le (h : k < source.feed.width path) :
    source.sizeAt (k :: path) ≤ source.sizeAfter path 0 := by
  have hfirst : ∀ k ≤ source.feed.width path,
      source.sizeAfter path k ≤ source.sizeAfter path 0 := by
    intro k hk
    induction k with
    | zero => exact Nat.le_refl _
    | succ k ih =>
        have hsucc := sizeAfter_succ (Nat.lt_of_succ_le hk)
        have hk := ih (Nat.le_of_succ_le hk)
        omega
  have hk := hfirst k (Nat.le_of_lt h)
  have hsucc := sizeAfter_succ h
  omega

theorem sizeAt_le_size (h : (source.feed.lookup path).isSome) :
    source.sizeAt path ≤ source.feed.size := by
  induction path with
  | nil => exact Nat.le_refl _
  | cons k path ih =>
      have hexists := Tree.lookup_isSome_of_cons h
      have hpath := ih hexists
      have hk := sizeAt_le (Tree.lookup_cons_isSome.1 h)
      rw [sizeAt_eq hexists] at hpath
      omega

/-! ## Removing an element -/

/-- The links of the nodes below a node are those of the feed. -/
structure Intact (source : Source) (heap : Heap Address) (outer : Path) : Prop where
  children : ∀ path, outer <:+ path → heap.children (.feed path) =
    if 0 < source.feed.width path then some (kid path 0) else none
  next : ∀ path k, outer <:+ path → k < source.feed.width path → heap.next (kid path k) =
    if k + 1 < source.feed.width path then some (kid path (k + 1)) else none

/-- They are the links of a forest that has each of these nodes once. -/
theorem Intact.forest {heap : Heap Address} (h : source.Intact heap outer)
    (houter : outer <:+ path) (k : ℕ) :
    ∃ nodes, Forest heap.children heap.next
        (if k < source.feed.width path then some (kid path k) else none) nodes ∧
      nodes.length ≤ source.sizeAfter path k ∧ nodes.Nodup ∧
      ∀ a ∈ nodes, ∃ j inner, k ≤ j ∧ a = .feed inner ∧ j :: path <:+ inner ∧
        (source.feed.lookup inner).isSome := by
  induction hn : source.sizeAfter path k using Nat.strongRecOn generalizing path k with
  | ind n ih =>
      by_cases hk : k < source.feed.width path
      · have hexists := Tree.lookup_cons_isSome.2 hk
        have houter' : outer <:+ k :: path := houter.trans (List.suffix_cons ..)
        rw [sizeAfter_succ hk, sizeAt_eq hexists] at hn
        obtain ⟨below, hbelow, hlengthBelow, hnodupBelow, hmemBelow⟩ :=
          ih _ (by omega) houter' 0 rfl
        obtain ⟨rest, hrest, hlengthRest, hnodupRest, hmemRest⟩ :=
          ih _ (by omega) houter (k + 1) rfl
        rw [← h.children _ houter'] at hbelow
        rw [← h.next path k houter hk] at hrest
        rw [if_pos hk]
        have hinner : ∀ a ∈ below, ∃ inner, a = .feed inner ∧ k :: path <:+ inner ∧
            inner ≠ k :: path ∧ (source.feed.lookup inner).isSome := by
          intro a ha
          obtain ⟨j, inner, _, rfl, hj, hlookup⟩ := hmemBelow a ha
          refine ⟨inner, rfl, (List.suffix_cons ..).trans hj, ?_, hlookup⟩
          rintro rfl
          have hlength := hj.length_le
          rw [List.length_cons] at hlength
          omega
        refine ⟨_, .cons hbelow hrest, ?_, ?_, ?_⟩
        · rw [List.length_cons, List.length_append]
          omega
        · refine List.nodup_cons.2 ⟨fun hmem => ?_, hnodupBelow.append hnodupRest ?_⟩
          · rcases List.mem_append.1 hmem with hmem | hmem
            · obtain ⟨inner, heq, _, hne, _⟩ := hinner _ hmem
              injection heq with heq
              exact hne heq.symm
            · obtain ⟨j, inner, hj, heq, hsuffix, _⟩ := hmemRest _ hmem
              injection heq with heq
              subst heq
              have heq' := eq_of_suffix_cons hsuffix List.suffix_rfl
              omega
          · intro a hmem hmem'
            obtain ⟨inner, rfl, hsuffix, _⟩ := hinner _ hmem
            obtain ⟨j, inner', hj, heq, hsuffix', _⟩ := hmemRest _ hmem'
            injection heq with heq
            subst heq
            have heq' := eq_of_suffix_cons hsuffix hsuffix'
            omega
        · intro a hmem
          rcases List.mem_cons.1 hmem with rfl | hmem
          · exact ⟨k, _, Nat.le_refl k, rfl, List.suffix_rfl, hexists⟩
          · rcases List.mem_append.1 hmem with hmem | hmem
            · obtain ⟨inner, rfl, hsuffix, _, hlookup⟩ := hinner _ hmem
              exact ⟨k, inner, Nat.le_refl k, rfl, hsuffix, hlookup⟩
            · obtain ⟨j, inner, hj, rfl, hsuffix, hlookup⟩ := hmemRest _ hmem
              exact ⟨j, inner, Nat.le_of_succ_le hj, rfl, hsuffix, hlookup⟩
      · rw [if_neg hk]
        exact ⟨[], .nil, Nat.zero_le _, List.nodup_nil, fun _ hmem => nomatch hmem⟩

/-- Below a node that is shut, the links are those of the feed. -/
theorem Shape.intact {heap : Heap Address} {removed entered : Path → Prop}
    (hshape : source.Shape heap removed entered) (hshut : source.Shut outer)
    (hnot : ¬ entered outer) (hlast : ¬ IsPointer (heap.last (.feed outer))) :
    source.Intact heap outer := by
  have hkept : ∀ path, outer <:+ path → ∀ j, ¬ removed (j :: path) := by
    intro path houter j hremoved
    have heq := hshut.eq_of_suffix (hshape.removed_shut _ hremoved).1
      (houter.trans (List.suffix_cons ..))
    have hlength := houter.length_le
    rw [heq, List.length_cons] at hlength
    omega
  constructor
  case children =>
    intro path houter
    by_cases helement : source.Element path
    · obtain ⟨kids, hlisted⟩ := hshape.list_below hshut hnot hlast houter helement
      rw [hlisted.children_eq, hlisted.head?_eq (hkept path houter), Option.or_none]
      split <;> rfl
    · rw [hshape.leaf path helement, Tree.width_eq_zero helement]
      rfl
  case next =>
    intro path k houter hk
    have helement : source.Element path := by
      by_contra hother
      rw [Tree.width_eq_zero hother] at hk
      exact absurd hk (Nat.not_lt_zero k)
    obtain ⟨kids, hlisted⟩ := hshape.list_below hshut hnot hlast houter helement
    exact hlisted.next_succ (fun j _ => hkept path houter j) hk

variable {site site' : Site} {removed : Path → Prop} {rounds : ℕ}

/-- Nothing at or below an element that is shut is gone before the construction comes to it. -/
theorem Constructing.not_gone_below (h : source.Constructing site removed)
    (hshut : source.Shut outer) (hfresh : Fresh outer site removed) (houter : outer <:+ inner) :
    ¬ Gone removed (fun _ => False) inner := by
  rintro (⟨other, hremoved, hother⟩ | ⟨_, hfalse, _⟩)
  · rcases List.suffix_or_suffix_of_suffix houter hother with hsuffix | hsuffix
    · exact (hfresh other hsuffix).1 hremoved
    · have hother := h.shape.removed_shut other hremoved
      obtain rfl := hother.eq_of_suffix hshut.1 hsuffix
      exact (hfresh _ List.suffix_rfl).1 hremoved
  · exact hfalse

/-- A child of an opened element that has not been removed is allocated. -/
theorem Constructing.live_kid (h : source.Constructing site removed)
    (hopened : source.Opened path) (hk : k < source.feed.width path)
    (hkept : ¬ removed (k :: path)) : site.heap.live (kid path k) = true :=
  h.allocated.live _ (Tree.lookup_cons_isSome.2 hk) (h.shape.not_gone_kid hopened hkept)

theorem Constructing.live_opened (h : source.Constructing site removed)
    (hopened : source.Opened path) : site.heap.live (.feed path) = true := by
  refine h.allocated.live path (Tree.lookup_isSome_of_element hopened.element) ?_
  rintro (⟨outer, hremoved, houter⟩ | ⟨_, hfalse, _⟩)
  · exact (h.shape.removed_shut outer hremoved).not_opened houter hopened
  · exact hfalse

/-- Unlinking a child of an opened element. -/
theorem Constructing.unlink_ok (h : source.Constructing site removed)
    (hchild : source.Child (k :: path)) (hkept : ¬ removed (k :: path)) :
    ∃ heap, site.heap.xmlUnlinkNode (kid path k) = .ok heap := by
  have hopened : source.Opened path := hchild.1
  have howner : source.Owner (fun _ => False) (.feed path) :=
    ⟨path, rfl, hopened.element, id⟩
  have hmem : kid path k ∈ source.childList [] removed (.feed path) :=
    kid_mem_childList.2 ⟨rfl, mem_keptKids.2 ⟨hchild.lt_width, hkept⟩⟩
  have hlive : ∀ a ∈ source.childList [] removed (.feed path), site.heap.live a = true := by
    intro a ha
    rcases mem_childList ha with ⟨j, hj, rfl⟩ | ⟨_, hnil, _⟩
    · exact h.live_kid hopened (mem_keptKids.1 hj).1 (mem_keptKids.1 hj).2
    · cases hnil
  apply Heap.xmlUnlinkNode_ok (hlive _ hmem)
  · intro a ha
    rw [h.shape.parent k path hchild hkept] at ha
    exact Option.some.inj ha ▸ h.live_opened hopened
  · intro a ha
    exact hlive a (h.childLists.next_mem howner hmem ha)
  · intro a ha
    exact hlive a (h.childLists.prev_mem howner hmem ha)

/-- The element is freed with all that is below it, within as many rounds as that has nodes. -/
theorem Constructing.free_ok {heap : Heap Address} (h : source.Constructing site removed)
    (haccounted : source.Accounted site.heap removed fun _ => False)
    (hshut : source.Shut (k :: path)) (hfresh : Fresh (k :: path) site removed)
    (hunlink : site.heap.xmlUnlinkNode (kid path k) = .ok heap)
    (hrounds : source.sizeAfter (k :: path) 0 ≤ rounds) :
    ∃ heap', heap.xmlFreeNode rounds (kid path k) = .ok heap' := by
  have hkept := (hfresh _ List.suffix_rfl).1
  have hlast := h.last_not_pointer hshut.1.element
  have hparent := h.shape.parent k path hshut.1 hkept
  have heq := Heap.xmlUnlinkNode_eq hunlink hparent
  have hintact := (h.shape.unlink hshut hkept hunlink id hlast).intact hshut id
    ((unlink_last_self hparent hunlink).symm ▸ hlast)
  obtain ⟨nodes, hforest, hlength, hnodup, hmem⟩ := hintact.forest List.suffix_rfl 0
  rw [← hintact.children _ List.suffix_rfl] at hforest
  have hinner : ∀ a ∈ kid path k :: nodes, ∃ inner, a = .feed inner ∧ k :: path <:+ inner ∧
      (source.feed.lookup inner).isSome := by
    intro a ha
    rcases List.mem_cons.1 ha with rfl | ha
    · exact ⟨_, rfl, List.suffix_rfl, Tree.lookup_isSome_of_element hshut.1.element⟩
    · obtain ⟨j, inner, _, rfl, hsuffix, hexists⟩ := hmem a ha
      exact ⟨inner, rfl, (List.suffix_cons ..).trans hsuffix, hexists⟩
  have hproperties : heap.properties = site.heap.properties := by rw [heq]
  have hown : ∀ inner list, heap.properties (.feed inner) = some list → list = .feed inner := by
    intro inner list hlist
    rw [hproperties, h.shape.properties inner id] at hlist
    exact parse_properties_eq hlist
  have hallocates : heap.Allocates (kid path k :: nodes) := by
    intro a ha
    obtain ⟨inner, rfl, hsuffix, hexists⟩ := hinner a ha
    have hgone := h.not_gone_below hshut hfresh hsuffix
    refine ⟨?_, fun list hlist => ?_⟩
    · rw [heq]
      exact h.allocated.live inner hexists hgone
    · obtain rfl := hown inner list hlist
      rw [hproperties, h.shape.properties inner id] at hlist
      rw [heq]
      show site.heap.attributes (.feed inner) ≠ none
      rw [haccounted.kept inner hgone id]
      exact parse_attributes_ne_none hlist
  have hlists : Heap.OwnLists heap.properties (kid path k :: nodes) := by
    intro a ha b hb list hlist hlist'
    obtain ⟨inner, rfl, _⟩ := hinner a ha
    obtain ⟨inner', rfl, _⟩ := hinner b hb
    exact (hown inner list hlist).symm.trans (hown inner' list hlist')
  refine Heap.xmlFreeNode_ok hforest (List.nodup_cons.2 ⟨fun hself => ?_, hnodup⟩) hlists
    hallocates (hlength.trans hrounds)
  -- the element is not below itself
  obtain ⟨j, inner, _, hself, hsuffix, _⟩ := hmem _ hself
  injection hself with hself
  have hlonger := hsuffix.length_le
  rw [← hself, List.length_cons] at hlonger
  omega

end Source

end VaeDb
