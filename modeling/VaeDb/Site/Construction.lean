import VaeDb.Site.Accounts
import VaeDb.Site.Entries
import VaeDb.Site.Removal

/-!
# The construction of the Contexts

The loops over children and the constructor of `Context` together go through the feed once.
`Source.Step` says what has happened when they have gone through some part of it: its
unpublished elements are removed, everything else in it has a Context, and the entries are
those of `visits`.  `Source.Noted` adds which Contexts there are, which nodes point to them, and
what is still allocated.  `newContext_step` proves both for the constructor by induction on the
rounds, `forChildren_step` for a loop over the children of an opened element.
-/

namespace VaeDb.Source

open Xml Links

variable {source : Source}

/-! ## The parsed feed -/

theorem segment_parse (feed : Tree) (path : Path) (n i : ℕ) (h : i + n = feed.width path) :
    Segment feed.parse.next feed.parse.prev
      (if i = 0 then none else some (kid path (i - 1)))
      (if i < feed.width path then some (kid path i) else none)
      ((List.range' i n).map (kid path)) none := by
  induction n generalizing i with
  | zero => exact if_neg (by omega)
  | succ n ih =>
      have hnext : feed.parse.next (kid path i) =
          if i + 1 < feed.width path then some (kid path (i + 1)) else none := rfl
      have hrest := ih (i + 1) (by omega)
      rw [List.range'_succ, List.map_cons]
      refine ⟨if_pos (by omega), ?_, ?_⟩
      · cases i with
        | zero => rfl
        | succ i => rfl
      · rw [hnext]
        exact hrest

theorem shape_parse : source.Shape source.feed.parse (fun _ => False) fun _ => False where
  removed_shut _ h := h.elim
  entered_item _ h := h.elim
  type _ := rfl
  parent _ _ _ _ := rfl
  leaf path h := if_neg (by rw [Tree.width_eq_zero h]; exact Nat.lt_irrefl 0)
  lists path _ _ := by
    have hsegment := segment_parse source.feed path (source.feed.width path) 0 (by omega)
    refine ⟨List.range' 0 (source.feed.width path), none,
      ⟨List.pairwise_lt_range', fun k => by simp [List.mem_range'_1], hsegment,
        Or.inl ⟨rfl, ?_⟩⟩, fun node h => by cases h⟩
    change (if 0 < source.feed.width path then
      some (Address.feed ((source.feed.width path - 1) :: path)) else none) = _
    cases source.feed.width path with
    | zero => rfl
    | succ n =>
        rw [List.range'_concat, List.map_append]
        simp [kid]
  properties _ _ := rfl
  attributes path list h := by
    have h' : (if source.feed.attributesAt path = [] then none
      else some (source.feed.attributesAt path)) = some list := h
    split at h'
    · cases h'
    · exact (Option.some.inj h').symm
  items _ h := h.elim
  pointerNext _ := Or.inl rfl
  rootPrivate := rfl

theorem allocated_parse :
    source.Allocated source.feed.parse (fun _ => False) fun _ => False where
  live _ h _ := h
  dead _ h := h.elim
  pointer _ h := by cases h

/-! ## Steps of the construction -/

/-- A Site whose Contexts are being constructed. -/
structure Constructing (source : Source) (site : Site) (removed : Path → Prop) : Prop where
  shape : source.Shape site.heap removed fun _ => False
  allocated : source.Allocated site.heap removed fun _ => False
  pruned : ∀ path, removed path → source.Pruned path
  contexts : ∀ node ctxt, site.contexts node = some ctxt → ctxt.pointerNodes = []

/-- The construction has gone through the nodes of a part of the feed and made the entries
of some elements. -/
structure Step (source : Source) (part : Path → Prop) (paths : List Path) (site site' : Site)
    (removed removed' : Path → Prop) : Prop where
  constructing : source.Constructing site' removed'
  grows : ∀ path, removed path → removed' path
  within : ∀ path, removed' path → removed path ∨ part path
  settled : ∀ path, part path → source.Child path → removed' path ∨ source.Visited path
  _private : ∀ path, ¬ part path →
    site'.heap._private (.feed path) = site.heap._private (.feed path)
  associations : site'.associationsToInitialize =
    site.associationsToInitialize ++ (paths.filter source.isItem).map Address.feed
  nodes : site'.nodes = paths.foldl (enter source.id?) site.nodes
  permalinks : site'.permalinks = paths.foldl (enter source.permalink?) site.permalinks
  rootNode : site'.rootNode = site.rootNode

variable {site site' site'' : Site} {removed removed' removed'' : Path → Prop}
  {part part' : Path → Prop} {paths paths' : List Path} {path : Path} {k : ℕ}

/-- Going through a part without children of opened elements. -/
theorem Step.refl (h : source.Constructing site removed)
    (hpart : ∀ path, part path → ¬ source.Child path) :
    source.Step part [] site site removed removed where
  constructing := h
  grows _ h := h
  within _ h := Or.inl h
  settled path hpath hchild := absurd hchild (hpart path hpath)
  _private _ _ := rfl
  associations := by simp
  nodes := rfl
  permalinks := rfl
  rootNode := rfl

theorem Step.trans (h : source.Step part paths site site' removed removed')
    (h' : source.Step part' paths' site' site'' removed' removed'') :
    source.Step (fun path => part path ∨ part' path) (paths ++ paths') site site''
      removed removed'' where
  constructing := h'.constructing
  grows path hremoved := h'.grows path (h.grows path hremoved)
  within path hremoved := by
    rcases h'.within path hremoved with hremoved | hpart
    · exact (h.within path hremoved).imp_right Or.inl
    · exact Or.inr (Or.inr hpart)
  settled path hpath hchild := by
    rcases hpath with hpath | hpath
    · exact (h.settled path hpath hchild).imp_left (h'.grows path)
    · exact h'.settled path hpath hchild
  _private path hpath := by
    rw [h'._private path fun hpart => hpath (Or.inr hpart),
      h._private path fun hpart => hpath (Or.inl hpart)]
  associations := by
    rw [h'.associations, h.associations, List.filter_append, List.map_append,
      List.append_assoc]
  nodes := by rw [h'.nodes, h.nodes, List.foldl_append]
  permalinks := by rw [h'.permalinks, h.permalinks, List.foldl_append]
  rootNode := h'.rootNode.trans h.rootNode

theorem Step.congr (h : source.Step part paths site site' removed removed')
    (hpart : ∀ path, part path ↔ part' path) :
    source.Step part' paths site site' removed removed' := by
  obtain rfl : part = part' := funext fun path => propext (hpart path)
  exact h

/-- The construction has not come to the nodes at or below a node. -/
def Fresh (path : Path) (site : Site) (removed : Path → Prop) : Prop :=
  ∀ inner, path <:+ inner →
    ¬ removed inner ∧ site.heap._private (.feed inner) = none

theorem Step.fresh {inner : Path} (h : source.Step part paths site site' removed removed')
    (hfresh : Fresh inner site removed) (hpart : ∀ path, inner <:+ path → ¬ part path) :
    Fresh inner site' removed' := by
  intro below hbelow
  obtain ⟨hremoved, hprivate⟩ := hfresh below hbelow
  refine ⟨fun hremoved' => ?_, (h._private below (hpart below hbelow)).trans hprivate⟩
  exact (h.within below hremoved').elim hremoved (hpart below hbelow)

/-- Going through one child does not come to the later ones. -/
theorem Step.fresh_after (h : source.Step (k :: path <:+ ·) paths site site' removed removed')
    (hfresh : ∀ j, k ≤ j → Fresh (j :: path) site removed) :
    ∀ j, k + 1 ≤ j → Fresh (j :: path) site' removed' := by
  intro j hj
  refine h.fresh (hfresh j (by omega)) fun inner hinner hpart => ?_
  have heq := eq_of_suffix_cons hpart hinner
  omega

/-! ## The Contexts -/

/-- A map takes a value of its own at the elements of a part that keep their Contexts, and
elsewhere at most at such elements. -/
structure Assigned {B : Type} (source : Source) (value : Path → Option B) (part : Path → Prop)
    (f f' : Address → Option B) : Prop where
  inside : ∀ path, part path → source.Visited path → f' (.feed path) = value path
  other : ∀ a, f' a = f a ∨ ∃ path, a = .feed path ∧ source.Visited path ∧ f' a = value path

section

variable {B : Type} {value : Path → Option B} {f f' f'' : Address → Option B}

theorem Assigned.refl (hpart : ∀ path, part path → ¬ source.Visited path) :
    source.Assigned value part f f :=
  ⟨fun path hpath hvisited => absurd hvisited (hpart path hpath), fun _ => Or.inl rfl⟩

theorem Assigned.trans (h : source.Assigned value part f f')
    (h' : source.Assigned value part' f' f'') :
    source.Assigned value (fun path => part path ∨ part' path) f f'' where
  inside path hpath hvisited := by
    rcases h'.other (.feed path) with hsame | ⟨_, heq, _, hvalue⟩
    · rcases hpath with hpath | hpath
      · exact hsame.trans (h.inside path hpath hvisited)
      · exact h'.inside path hpath hvisited
    · injection heq with heq
      exact heq ▸ hvalue
  other a := by
    rcases h'.other a with hsame | hvalue
    · rw [hsame]
      exact h.other a
    · exact Or.inr hvalue

/-- One more element is assigned its value, before the others or after them. -/
theorem Assigned.first {b : B} (h : source.Assigned value part
      (Function.update f (.feed path) (some b)) f')
    (hpart : ∀ inner, part' inner ↔ part inner ∨ inner = path) (hvisited : source.Visited path)
    (hb : value path = some b) : source.Assigned value part' f f' where
  inside inner hinner hkept := by
    rcases (hpart inner).1 hinner with hinner | rfl
    · exact h.inside inner hinner hkept
    · rcases h.other (.feed inner) with hsame | ⟨_, heq, _, hvalue⟩
      · rw [hsame, Function.update_self, hb]
      · injection heq with heq
        exact heq ▸ hvalue
  other a := by
    rcases h.other a with hsame | hvalue
    · by_cases ha : a = .feed path
      · refine Or.inr ⟨path, ha, hvisited, ?_⟩
        rw [hsame, ha, Function.update_self, hb]
      · exact Or.inl (hsame.trans (Function.update_of_ne ha _ _))
    · exact Or.inr hvalue

theorem Assigned.last {b : B} (h : source.Assigned value part f f')
    (hpart : ∀ inner, part' inner ↔ part inner ∨ inner = path) (hvisited : source.Visited path)
    (hb : value path = some b) :
    source.Assigned value part' f (Function.update f' (.feed path) (some b)) where
  inside inner hinner hkept := by
    by_cases heq : inner = path
    · rw [heq, Function.update_self, hb]
    · rw [Function.update_of_ne fun heq' => heq (by injection heq')]
      exact h.inside inner (((hpart inner).1 hinner).resolve_right heq) hkept
  other a := by
    by_cases ha : a = .feed path
    · refine Or.inr ⟨path, ha, hvisited, ?_⟩
      rw [ha, Function.update_self, hb]
    · rw [Function.update_of_ne ha]
      exact h.other a

theorem Assigned.congr (h : source.Assigned value part f f')
    (hpart : ∀ path, part path ↔ part' path) : source.Assigned value part' f f' := by
  obtain rfl : part = part' := funext fun path => propext (hpart path)
  exact h

end

/-- There are no pointer nodes in the document. -/
structure Unpointed (heap : Heap Address) : Prop where
  children : ∀ a node, heap.children a ≠ some (.pointer node)
  next : ∀ a node, heap.next a ≠ some (.pointer node)

/-- What else the construction does to a Site: the elements of one part have got their
Contexts, those of another point to theirs. -/
structure Noted (source : Source) (made part : Path → Prop) (site site' : Site)
    (removed removed' : Path → Prop) : Prop where
  accounted : source.Accounted site.heap removed (fun _ => False) →
    source.Accounted site'.heap removed' fun _ => False
  unpointed : Unpointed site.heap → Unpointed site'.heap
  contexts : source.Assigned source.context? made site.contexts site'.contexts
  privates : source.Assigned (fun path => some (.feed path)) part site.heap._private
    site'.heap._private
  nodesToClean : site'.nodesToClean = site.nodesToClean
  nodesToClean2 : site'.nodesToClean2 = site.nodesToClean2

variable {made made' : Path → Prop}

theorem Noted.refl (hpart : ∀ path, part path → ¬ source.Visited path) :
    source.Noted part part site site removed removed :=
  ⟨id, id, .refl hpart, .refl hpart, rfl, rfl⟩

theorem Noted.trans (h : source.Noted made part site site' removed removed')
    (h' : source.Noted made' part' site' site'' removed' removed'') :
    source.Noted (fun path => made path ∨ made' path) (fun path => part path ∨ part' path)
      site site'' removed removed'' :=
  ⟨fun hold => h'.accounted (h.accounted hold), fun hold => h'.unpointed (h.unpointed hold),
    h.contexts.trans h'.contexts, h.privates.trans h'.privates,
    h'.nodesToClean.trans h.nodesToClean, h'.nodesToClean2.trans h.nodesToClean2⟩

theorem Noted.congr (h : source.Noted made part site site' removed removed')
    (hmade : ∀ path, made path ↔ made' path) (hpart : ∀ path, part path ↔ part' path) :
    source.Noted made' part' site site' removed removed' :=
  ⟨h.accounted, h.unpointed, h.contexts.congr hmade, h.privates.congr hpart, h.nodesToClean,
    h.nodesToClean2⟩

/-! ## Loops over children -/

/-- During the construction a child list ends with its last child. -/
theorem Constructing.listed (h : source.Constructing site removed)
    (helement : source.Element path) :
    ∃ kids, source.Listed site.heap removed path kids none := by
  obtain ⟨kids, stop, hlisted, hstops⟩ := h.shape.lists path helement id
  rcases hlisted.ending with ⟨rfl, _⟩ | ⟨⟨node, hnode⟩, _⟩
  · exact ⟨kids, hlisted⟩
  · obtain ⟨_, _, hfalse, _⟩ := hstops node hnode
    exact hfalse.elim

/-- Where a loop over the children of a node starts. -/
theorem Constructing.children (h : source.Constructing site removed)
    (hfresh : ∀ j, ¬ removed (j :: path)) :
    site.heap.children (.feed path) =
      if 0 < source.feed.width path then some (kid path 0) else none := by
  by_cases helement : source.Element path
  · obtain ⟨kids, hlisted⟩ := h.listed helement
    rw [hlisted.children_eq, hlisted.head?_eq hfresh, Option.or_none]
    split <;> rfl
  · rw [h.shape.leaf path helement, Tree.width_eq_zero helement]
    rfl

/-- The next child in the feed, if it and the ones after it have not been removed. -/
theorem Listed.next_succ {heap : Heap Address} {kids : List ℕ}
    (h : source.Listed heap removed path kids none)
    (hfresh : ∀ j, k ≤ j → ¬ removed (j :: path)) (hk : k < source.feed.width path) :
    heap.next (kid path k) =
      if k + 1 < source.feed.width path then some (kid path (k + 1)) else none := by
  have hmem : k ∈ kids := (h.mem k).2 ⟨hk, hfresh k (Nat.le_refl k)⟩
  by_cases hwidth : k + 1 < source.feed.width path
  · rw [if_pos hwidth]
    have hsucc : k + 1 ∈ kids := (h.mem _).2 ⟨hwidth, hfresh _ (by omega)⟩
    rcases h.next_eq hmem with ⟨_, hmax⟩ | ⟨j, _, hlt, hmin, hnext⟩
    · exact absurd (hmax _ hsucc) (by omega)
    · have hj := hmin _ hsucc (by omega)
      obtain rfl : j = k + 1 := by omega
      exact hnext
  · rw [if_neg hwidth]
    rcases h.next_eq hmem with ⟨hnone, _⟩ | ⟨j, hj, hlt, _⟩
    · exact hnone
    · have := ((h.mem j).1 hj).1
      omega

/-- Where such a loop goes on. -/
theorem Constructing.next (h : source.Constructing site removed)
    (hfresh : ∀ j, k ≤ j → ¬ removed (j :: path)) (hk : k < source.feed.width path) :
    site.heap.next (kid path k) =
      if k + 1 < source.feed.width path then some (kid path (k + 1)) else none := by
  have helement : source.Element path := by
    by_contra hother
    rw [Tree.width_eq_zero hother] at hk
    exact absurd hk (Nat.not_lt_zero k)
  obtain ⟨kids, hlisted⟩ := h.listed helement
  exact hlisted.next_succ hfresh hk

theorem visitsAfter_succ (hk : k < source.feed.width path) :
    source.visitsAfter path k = source.visitsAt (k :: path) ++ source.visitsAfter path (k + 1) := by
  unfold visitsAfter visitsAt Tree.width at *
  rw [Tree.lookup]
  cases hnode : source.feed.lookup path with
  | none => simp [hnode] at hk
  | some node =>
      simp only [hnode] at hk
      simp only [Option.bind_some, List.getElem?_eq_getElem hk, List.drop_eq_getElem_cons hk,
        visitsFrom]

theorem visitsAfter_width (hk : source.feed.width path ≤ k) : source.visitsAfter path k = [] := by
  unfold visitsAfter Tree.width at *
  cases hnode : source.feed.lookup path with
  | none => rfl
  | some node =>
      simp only [hnode] at hk
      simp only [List.drop_eq_nil_of_le hk, visitsFrom]

theorem not_child_after (hk : source.feed.width path ≤ k) :
    ∀ inner, (∃ j, k ≤ j ∧ j :: path <:+ inner) → ¬ source.Child inner := by
  rintro inner ⟨j, hj, hinner⟩ hchild
  have hexists := Tree.lookup_isSome_of_suffix
    (Tree.lookup_isSome_of_element hchild.element) hinner
  have hwidth := Tree.lookup_cons_isSome.1 hexists
  omega

/-- There is nothing to go through after the last child. -/
theorem Step.refl_after (h : source.Constructing site removed)
    (hk : source.feed.width path ≤ k) :
    source.Step (fun inner => ∃ j, k ≤ j ∧ j :: path <:+ inner) (source.visitsAfter path k)
      site site removed removed := by
  rw [visitsAfter_width hk]
  exact Step.refl h (not_child_after hk)

/-- A loop over the children of a node, whose body goes through one child. -/
theorem forChildren_step (body : Site → Address → Outcome Site) (path : Path) {rounds : ℕ}
    (hbody : ∀ site site' removed k, source.Constructing site removed →
      Fresh (k :: path) site removed → k < source.feed.width path →
      body site (kid path k) = .ok site' →
      ∃ removed', source.Step (k :: path <:+ ·) (source.visitsAt (k :: path)) site site'
          removed removed' ∧
        source.Noted (k :: path <:+ ·) (k :: path <:+ ·) site site' removed removed')
    (h : source.Constructing site removed)
    (hfresh : ∀ j, k ≤ j → Fresh (j :: path) site removed)
    (hrun : Site.forChildren body rounds site
      (if k < source.feed.width path then some (kid path k) else none) = .ok site') :
    ∃ removed', source.Step (fun inner => ∃ j, k ≤ j ∧ j :: path <:+ inner)
        (source.visitsAfter path k) site site' removed removed' ∧
      source.Noted (fun inner => ∃ j, k ≤ j ∧ j :: path <:+ inner)
        (fun inner => ∃ j, k ≤ j ∧ j :: path <:+ inner) site site' removed removed' := by
  induction rounds generalizing site removed k with
  | zero =>
      by_cases hk : k < source.feed.width path
      · rw [if_pos hk] at hrun
        cases hrun
      · rw [if_neg hk] at hrun
        obtain rfl := Outcome.pure_eq_ok.1 hrun
        exact ⟨removed, Step.refl_after h (by omega), Noted.refl fun inner hinner hvisited =>
          not_child_after (by omega) inner hinner hvisited.1⟩
  | succ rounds ih =>
      by_cases hk : k < source.feed.width path
      · rw [if_pos hk] at hrun
        obtain ⟨_, _, hrun⟩ := Outcome.bind_eq_ok.1 hrun
        obtain ⟨site1, hbody1, hrun⟩ := Outcome.bind_eq_ok.1 hrun
        have hself := hfresh k (Nat.le_refl k)
        rw [h.next (fun j hj => ((hfresh j hj) _ List.suffix_rfl).1) hk] at hrun
        obtain ⟨removed1, hstep, hnoted⟩ := hbody site site1 removed k h hself hk hbody1
        obtain ⟨removed2, hrest, hnotedRest⟩ :=
          ih hstep.constructing (hstep.fresh_after hfresh) hrun
        have hparts : ∀ inner, k :: path <:+ inner ∨ (∃ j, k + 1 ≤ j ∧ j :: path <:+ inner) ↔
            ∃ j, k ≤ j ∧ j :: path <:+ inner := by
          intro inner
          constructor
          · rintro (hinner | ⟨j, hj, hinner⟩)
            · exact ⟨k, Nat.le_refl k, hinner⟩
            · exact ⟨j, by omega, hinner⟩
          · rintro ⟨j, hj, hinner⟩
            rcases Nat.eq_or_lt_of_le hj with rfl | hlt
            · exact Or.inl hinner
            · exact Or.inr ⟨j, hlt, hinner⟩
        rw [visitsAfter_succ hk]
        exact ⟨removed2, (hstep.trans hrest).congr hparts,
          (hnoted.trans hnotedRest).congr hparts hparts⟩
      · rw [if_neg hk] at hrun
        obtain rfl := Outcome.pure_eq_ok.1 hrun
        exact ⟨removed, Step.refl_after h (by omega), Noted.refl fun inner hinner hvisited =>
          not_child_after (by omega) inner hinner hvisited.1⟩

/-! ## The constructor of `Context` -/

theorem Constructing.properties (h : source.Constructing site removed)
    {properties : List Attribute} (hread : site.properties (.feed path) = .ok properties) :
    properties = source.feed.attributesAt path := by
  obtain ⟨_, _, hread⟩ := Outcome.bind_eq_ok.1 hread
  have hproperties : site.heap.properties (.feed path) =
      if source.feed.attributesAt path = [] then none else some (.feed path) :=
    h.shape.properties path id
  rw [hproperties] at hread
  by_cases hnil : source.feed.attributesAt path = []
  · rw [if_pos hnil] at hread
    rw [hnil, Outcome.pure_eq_ok.1 hread]
  · rw [if_neg hnil] at hread
    simp only at hread
    split at hread
    · cases hread
    · next attributes hattributes =>
        obtain rfl := Outcome.pure_eq_ok.1 hread
        exact h.shape.attributes path _ hattributes

theorem populateAttrs_pointerNodes {surroundings : Surroundings} {properties : List Attribute}
    {ctxt : Context} (h : populateAttrs surroundings properties = .ok (some ctxt)) :
    ctxt.pointerNodes = [] := by
  obtain ⟨attrs, _, h⟩ := Outcome.bind_eq_ok.1 h
  cases attrs with
  | none => cases h
  | some attrs =>
      simp only at h
      split at h
      all_goals
        obtain ⟨structure?, _, h⟩ := Outcome.bind_eq_ok.1 h
        obtain rfl := Option.some.inj (Outcome.pure_eq_ok.1 h)
        rfl

/-- The visits of an element that keeps its Context. -/
theorem visitsAt_eq {ctxt : Context} (helement : source.Element path)
    (h : source.context path = .ok (some ctxt)) :
    source.visitsAt path =
      (if ctxt.isAssociation then [] else source.visitsAfter path 0) ++ [path] := by
  obtain ⟨node, hnode⟩ := Option.isSome_iff_exists.1 (Tree.lookup_isSome_of_element helement)
  cases node with
  | element name attributes children =>
      rw [context_of_lookup hnode] at h
      unfold visitsAt visitsAfter
      rw [hnode]
      simp only [visits, h, Tree.children, List.drop_zero]
      split <;> rfl
  | text content => exact absurd helement (not_element_of_lookup hnode (by simp [Tree.type]))
  | other => exact absurd helement (not_element_of_lookup hnode (by simp [Tree.type]))

/-- Nodes without a Context have no visits. -/
theorem visitsAt_eq_nil (h : ¬ source.Element path ∨ source.context path = .ok none) :
    source.visitsAt path = [] := by
  unfold visitsAt
  cases hnode : source.feed.lookup path with
  | none => rfl
  | some node =>
      cases node with
      | element name attributes children =>
          rcases h with h | h
          · exact absurd (element_of_lookup hnode) h
          · rw [context_of_lookup hnode] at h
            simp only [visits, h]
      | text content => rfl
      | other => rfl

/-- The nodes strictly below a node. -/
def Beneath (outer path : Path) : Prop := outer <:+ path ∧ path ≠ outer

theorem beneath_iff {outer : Path} :
    Beneath outer path ↔ ∃ j, 0 ≤ j ∧ j :: outer <:+ path := by
  constructor
  · rintro ⟨houter, hne⟩
    obtain ⟨j, hj⟩ := exists_suffix_cons houter hne
    exact ⟨j, Nat.zero_le j, hj⟩
  · rintro ⟨j, _, hj⟩
    refine ⟨(List.suffix_cons ..).trans hj, fun heq => ?_⟩
    have hlength := hj.length_le
    rw [heq, List.length_cons] at hlength
    omega

/-- Constructing a Context does not change the heap by itself. -/
theorem Constructing.setContext (h : source.Constructing site removed) {ctxt : Context}
    (hctxt : ctxt.pointerNodes = []) (node : Address) :
    source.Constructing { site with
      contexts := Function.update site.contexts node (some ctxt) } removed where
  shape := h.shape
  allocated := h.allocated
  pruned := h.pruned
  contexts other found hfound := by
    change Function.update site.contexts node (some ctxt) other = some found at hfound
    by_cases hother : other = node
    · subst hother
      rw [Function.update_self] at hfound
      exact Option.some.inj hfound ▸ hctxt
    · rw [Function.update_of_ne hother] at hfound
      exact h.contexts other found hfound

theorem register_nodes {ctxt : Context} (hctxt : source.context path = .ok (some ctxt)) :
    (site.register (.feed path) ctxt).nodes = enter source.id? site.nodes path := by
  unfold enter id?
  rw [context?_eq hctxt]
  rfl

theorem register_permalinks {ctxt : Context}
    (hctxt : source.context path = .ok (some ctxt)) :
    (site.register (.feed path) ctxt).permalinks =
      enter source.permalink? site.permalinks path := by
  unfold enter permalink?
  rw [context?_eq hctxt]
  simp only [Site.register, Option.bind_some]
  cases ctxt.permalink <;> rfl

/-- During the construction no last child is a pointer node. -/
theorem Constructing.last_not_pointer (h : source.Constructing site removed)
    (helement : source.Element path) : ¬ IsPointer (site.heap.last (.feed path)) := by
  intro hpointer
  obtain ⟨kids, hlisted⟩ := h.listed helement
  obtain ⟨_, hstop⟩ := hlisted.pointer_stop hpointer
  cases hstop

/-- An unpublished element is removed with all that is below it. -/
theorem kill_step {rounds : ℕ} {heap1 heap2 : Heap Address}
    (h : source.Constructing site removed) (hpruned : source.Pruned (k :: path))
    (hnew : ¬ removed (k :: path)) (hunlink : site.heap.xmlUnlinkNode (kid path k) = .ok heap1)
    (hfree : heap1.xmlFreeNode rounds (kid path k) = .ok heap2) :
    source.Step (k :: path <:+ ·) (source.visitsAt (k :: path)) site
      { site with heap := heap2 } removed (andRemoved removed (k :: path)) := by
  obtain ⟨hshape, hallocated, hprivate⟩ := h.shape.remove h.allocated hpruned.shut hnew id
    (h.last_not_pointer hpruned.1.element) hunlink hfree
  refine ⟨⟨hshape, hallocated, ?_, h.contexts⟩, fun _ hold => Or.inl hold, ?_, ?_, ?_, ?_, ?_,
    ?_, rfl⟩
  · rintro other (hold | rfl)
    · exact h.pruned other hold
    · exact hpruned
  · rintro other (hold | rfl)
    · exact Or.inl hold
    · exact Or.inr List.suffix_rfl
  · intro other hother hchild
    exact Or.inl (Or.inr (hpruned.shut.eq_of_suffix hchild hother).symm)
  · intro other _
    exact congrFun hprivate (.feed other)
  all_goals
    rw [visitsAt_eq_nil (Or.inr hpruned.2)]
    simp

/-- Unlinking a node makes none point to a pointer node. -/
theorem Unpointed.unlink {heap heap' : Heap Address} {cur parent : Address} (h : Unpointed heap)
    (hparent : heap.parent cur = some parent) (hrun : heap.xmlUnlinkNode cur = .ok heap') :
    Unpointed heap' := by
  have heq := Heap.xmlUnlinkNode_eq hrun hparent
  refine ⟨fun a node => ?_, fun a node => ?_⟩
  · rw [heq]
    simp only [Function.update_apply]
    split
    · split
      · exact h.next cur node
      · exact h.children parent node
    · exact h.children a node
  · rw [heq]
    show unlinkNext heap.next heap.prev cur a ≠ _
    rw [unlinkNext_eq]
    split
    · simp
    · split
      · exact h.next cur node
      · exact h.next a node

theorem kill_noted {rounds : ℕ} {heap1 heap2 : Heap Address}
    (h : source.Constructing site removed) (hpruned : source.Pruned (k :: path))
    (hnew : ¬ removed (k :: path)) (hunlink : site.heap.xmlUnlinkNode (kid path k) = .ok heap1)
    (hfree : heap1.xmlFreeNode rounds (kid path k) = .ok heap2) :
    source.Noted (k :: path <:+ ·) (k :: path <:+ ·) site { site with heap := heap2 } removed
      (andRemoved removed (k :: path)) := by
  have hlast := h.last_not_pointer hpruned.1.element
  have hnone : ∀ inner, k :: path <:+ inner → ¬ source.Visited inner := by
    intro inner hinner hvisited
    obtain rfl := hpruned.shut.eq_of_suffix hvisited.1 hinner
    exact hvisited.not_pruned hpruned
  have hparent := h.shape.parent k path hpruned.1 hnew
  have hreleased := h.shape.released_remove hpruned.shut hnew id hlast hunlink hfree
  have hprivate : heap2._private = site.heap._private := by
    rw [hreleased.eq, Heap.xmlUnlinkNode_eq hunlink hparent]
  constructor
  case accounted =>
    intro hold
    exact hold.remove h.shape hpruned.shut hnew id hlast hunlink hfree
  case unpointed =>
    intro hold
    have hold1 := hold.unlink hparent hunlink
    refine ⟨fun a node => ?_, fun a node => ?_⟩
    · show heap2.children a ≠ _
      rw [hreleased.children_eq]
      exact hold1.children a node
    · show heap2.next a ≠ _
      rw [hreleased.next_eq]
      exact hold1.next a node
  case contexts => exact .refl hnone
  case privates =>
    show source.Assigned _ _ site.heap._private heap2._private
    rw [hprivate]
    exact .refl hnone
  case nodesToClean => rfl
  case nodesToClean2 => rfl

theorem suffix_iff_beneath {outer : Path} :
    outer <:+ path ↔ Beneath outer path ∨ path = outer := by
  by_cases hself : path = outer
  · simp [hself]
  · simp [Beneath, hself]

/-- An element that keeps its Context points to it from then on. -/
theorem keep_noted (hvisited : source.Visited (k :: path))
    (h : source.Noted (k :: path <:+ ·) (Beneath (k :: path)) site site' removed removed') :
    source.Noted (k :: path <:+ ·) (k :: path <:+ ·) site
      { site' with
        heap := { site'.heap with
          _private := Function.update site'.heap._private (kid path k) (some (kid path k)) } }
      removed removed' where
  accounted hold := (h.accounted hold).congr rfl rfl rfl rfl rfl rfl
  unpointed hold := ⟨(h.unpointed hold).children, (h.unpointed hold).next⟩
  contexts := h.contexts
  privates := h.privates.last (fun _ => suffix_iff_beneath) hvisited rfl
  nodesToClean := h.nodesToClean
  nodesToClean2 := h.nodesToClean2

theorem keep_step (hvisited : source.Visited (k :: path))
    (h : source.Step (Beneath (k :: path)) paths site site' removed removed') :
    source.Step (k :: path <:+ ·) paths site
      { site' with
        heap := { site'.heap with
          _private := Function.update site'.heap._private (kid path k) (some (kid path k)) } }
      removed removed' := by
  have hother : ∀ other, k :: path ≠ other → Address.feed other ≠ kid path k := by
    intro other hne heq
    injection heq with heq
    exact hne heq.symm
  have hroot : Function.update site'.heap._private (kid path k) (some (kid path k))
      (.feed source.root) = none :=
    (Function.update_of_ne (hother _ hvisited.1.ne_root) _ _).trans
      h.constructing.shape.rootPrivate
  refine ⟨⟨?_, ?_, h.constructing.pruned, h.constructing.contexts⟩, h.grows, ?_, ?_, ?_,
    h.associations, h.nodes, h.permalinks, h.rootNode⟩
  · exact h.constructing.shape.realloc (fun _ => Or.inr rfl) hroot
  · exact ⟨h.constructing.allocated.live, h.constructing.allocated.dead,
      h.constructing.allocated.pointer⟩
  · intro other hremoved
    exact (h.within other hremoved).imp_right And.left
  · intro other hsuffix hchild
    by_cases hself : other = k :: path
    · exact Or.inr (hself ▸ hvisited)
    · exact h.settled other ⟨hsuffix, hself⟩ hchild
  · intro other hnot
    have hne : k :: path ≠ other := fun heq => hnot (heq ▸ List.suffix_rfl)
    refine (Function.update_of_ne (hother other hne) _ _).trans ?_
    exact h._private other fun hbeneath => hnot hbeneath.1

/-- What the body of a loop over children does with an element once its Context has been
constructed, or has come with `killMe`. -/
theorem keepOrKill_step {rounds : ℕ} {constructed : Option Site}
    (h : source.Constructing site removed) (hfresh : Fresh (k :: path) site removed)
    (hconstructed : (constructed = none ∧ source.Pruned (k :: path)) ∨
      ∃ site1 removed1, constructed = some site1 ∧ source.Visited (k :: path) ∧
        source.Step (Beneath (k :: path)) (source.visitsAt (k :: path)) site site1
          removed removed1 ∧
        source.Noted (k :: path <:+ ·) (Beneath (k :: path)) site site1 removed removed1)
    (hrun : Site.keepOrKill rounds (kid path k) constructed site = .ok site') :
    ∃ removed', source.Step (k :: path <:+ ·) (source.visitsAt (k :: path)) site site'
        removed removed' ∧
      source.Noted (k :: path <:+ ·) (k :: path <:+ ·) site site' removed removed' := by
  rcases hconstructed with ⟨rfl, hpruned⟩ | ⟨site1, removed1, rfl, hvisited, hstep, hnoted⟩
  · obtain ⟨heap1, hunlink, hrun⟩ := Outcome.bind_eq_ok.1 hrun
    obtain ⟨heap2, hfree, hrun⟩ := Outcome.bind_eq_ok.1 hrun
    obtain rfl := Outcome.pure_eq_ok.1 hrun
    have hnew := (hfresh _ List.suffix_rfl).1
    exact ⟨_, kill_step h hpruned hnew hunlink hfree, kill_noted h hpruned hnew hunlink hfree⟩
  · obtain rfl := Outcome.pure_eq_ok.1 hrun
    exact ⟨removed1, keep_step hvisited hstep, keep_noted hvisited hnoted⟩

/-- The body of both loops over children, on the children that are not elements. -/
theorem skip_step (h : source.Constructing site removed)
    (hother : ¬ source.Element (k :: path)) :
    source.Step (k :: path <:+ ·) (source.visitsAt (k :: path)) site site removed removed ∧
      source.Noted (k :: path <:+ ·) (k :: path <:+ ·) site site removed removed := by
  have hnone : ∀ inner, k :: path <:+ inner → ¬ source.Child inner := by
    intro inner hinner hchild
    by_cases hself : inner = k :: path
    · exact hother (hself ▸ hchild.element)
    · exact hother (element_of_suffix hinner hself
        (Tree.lookup_isSome_of_element hchild.element))
  rw [visitsAt_eq_nil (Or.inl hother)]
  exact ⟨Step.refl h hnone, Noted.refl fun inner hinner hvisited => hnone inner hinner hvisited.1⟩

/-- What a step starts from does not depend on the Contexts. -/
theorem Step.ofContexts {contexts : Address → Option Context}
    (h : source.Step part paths { site with contexts } site' removed removed') :
    source.Step part paths site site' removed removed' :=
  ⟨h.constructing, h.grows, h.within, h.settled, h._private, h.associations, h.nodes,
    h.permalinks, h.rootNode⟩

/-- The entries at the end of the constructor, and the entry in `associationsToInitialize`. -/
theorem Step.register (h : source.Step part paths site site' removed removed') {ctxt : Context}
    {associations : List Address} (hctxt : source.context path = .ok (some ctxt))
    (hassociations : associations = site'.associationsToInitialize ++
      if ctxt.isAssociation then [.feed path] else []) :
    source.Step part (paths ++ [path]) site
      ({ site' with associationsToInitialize := associations }.register (.feed path) ctxt)
      removed removed' where
  constructing := ⟨h.constructing.shape, h.constructing.allocated, h.constructing.pruned,
    h.constructing.contexts⟩
  grows := h.grows
  within := h.within
  settled := h.settled
  _private := h._private
  associations := by
    change associations = _
    have hitem : source.isItem path = ctxt.isAssociation := by
      unfold isItem
      rw [context?_eq hctxt]
      rfl
    rw [hassociations, h.associations, List.filter_append, List.map_append,
      List.append_assoc, List.filter_singleton, hitem]
    cases ctxt.isAssociation <;> rfl
  nodes := by
    rw [register_nodes hctxt, List.foldl_append]
    exact congrArg (enter source.id? · path) h.nodes
  permalinks := by
    rw [register_permalinks hctxt, List.foldl_append]
    exact congrArg (enter source.permalink? · path) h.permalinks
  rootNode := h.rootNode

/-- The body of the loop of the constructor, which leaves alone what has a Context. -/
theorem child_step {rounds : ℕ} {new : Outcome (Option Site)} (hopened : source.Opened path)
    (hnew : ∀ {constructed}, source.Child (k :: path) → new = .ok constructed →
      (constructed = none ∧ source.Pruned (k :: path)) ∨
        ∃ site1 removed1, constructed = some site1 ∧ source.Visited (k :: path) ∧
          source.Step (Beneath (k :: path)) (source.visitsAt (k :: path)) site site1
            removed removed1 ∧
          source.Noted (k :: path <:+ ·) (Beneath (k :: path)) site site1 removed removed1)
    (h : source.Constructing site removed) (hfresh : Fresh (k :: path) site removed)
    (hrun : (if site.heap.type (kid path k) = .element then
        if site.heap._private (kid path k) = none then do
          let constructed ← new
          Site.keepOrKill rounds (kid path k) constructed site
        else pure site
      else pure site) = .ok site') :
    ∃ removed', source.Step (k :: path <:+ ·) (source.visitsAt (k :: path)) site site'
        removed removed' ∧
      source.Noted (k :: path <:+ ·) (k :: path <:+ ·) site site' removed removed' := by
  have htype : site.heap.type (kid path k) = source.feed.typeAt (k :: path) :=
    h.shape.type (k :: path)
  have hprivate : site.heap._private (kid path k) = none := (hfresh _ List.suffix_rfl).2
  by_cases helement : source.Element (k :: path)
  · rw [if_pos (htype.trans helement), if_pos hprivate] at hrun
    obtain ⟨constructed, hconstructed, hrun⟩ := Outcome.bind_eq_ok.1 hrun
    exact keepOrKill_step h hfresh (hnew ⟨hopened, helement⟩ hconstructed) hrun
  · rw [if_neg fun heq => helement (htype.symm.trans heq)] at hrun
    obtain rfl := Outcome.pure_eq_ok.1 hrun
    exact ⟨removed, skip_step h helement⟩

/-- The constructor of the Context of an element. -/
theorem newContext_step {rounds : ℕ} {result : Option Site}
    (h : source.Constructing site removed) (hchild : source.Child path)
    (hfresh : Fresh path site removed)
    (hrun : Site.newContext source.surroundings rounds site (.feed path) = .ok result) :
    (result = none ∧ source.Pruned path) ∨
      ∃ site' removed', result = some site' ∧ source.Visited path ∧
        source.Step (Beneath path) (source.visitsAt path) site site' removed removed' ∧
        source.Noted (path <:+ ·) (Beneath path) site site' removed removed' := by
  induction rounds generalizing site removed path result with
  | zero => cases hrun
  | succ rounds ih =>
      rw [Site.newContext] at hrun
      obtain ⟨properties, hproperties, hrun⟩ := Outcome.bind_eq_ok.1 hrun
      obtain rfl := h.properties hproperties
      obtain ⟨context, hcontext, hrun⟩ := Outcome.bind_eq_ok.1 hrun
      cases context with
      | none =>
          obtain rfl := Outcome.pure_eq_ok.1 hrun
          exact Or.inl ⟨rfl, hchild, hcontext⟩
      | some ctxt =>
          have hvisited : source.Visited path := ⟨hchild, ctxt, hcontext⟩
          have hconstructing := h.setContext (populateAttrs_pointerNodes hcontext) (.feed path)
          have hfresh' : Fresh path { site with
              contexts := Function.update site.contexts (.feed path) (some ctxt) } removed :=
            hfresh
          have hvisits := visitsAt_eq hchild.element hcontext
          refine Or.inr ?_
          simp only at hrun
          cases hassociation : ctxt.isAssociation with
          | true =>
              -- an association item: nothing below it is gone through
              rw [if_pos hassociation] at hrun
              obtain ⟨site1, hsite1, hrun⟩ := Outcome.bind_eq_ok.1 hrun
              obtain rfl := Outcome.pure_eq_ok.1 hsite1
              obtain rfl := Outcome.pure_eq_ok.1 hrun
              have hitem : source.Item path := ⟨hchild, ctxt, hcontext, hassociation⟩
              have hempty : ∀ inner, Beneath path inner → ¬ source.Child inner :=
                fun inner hbeneath hinner =>
                  hbeneath.2 (hitem.shut.eq_of_suffix hinner hbeneath.1).symm
              rw [hvisits, if_pos hassociation]
              refine ⟨_, removed, rfl, hvisited, ((Step.refl hconstructing hempty).register
                hcontext (by rw [if_pos hassociation])).ofContexts, id, id, ?_, ?_, rfl, rfl⟩
              · exact (Assigned.refl fun inner hinner hkept => hempty inner hinner hkept.1).first
                  (fun _ => suffix_iff_beneath) hvisited (context?_eq hcontext)
              · exact Assigned.refl fun inner hinner hkept => hempty inner hinner hkept.1
          | false =>
              rw [if_neg (by simp [hassociation])] at hrun
              obtain ⟨site1, hsite1, hrun⟩ := Outcome.bind_eq_ok.1 hrun
              obtain rfl := Outcome.pure_eq_ok.1 hrun
              have hstart := hconstructing.children fun j =>
                (hfresh' (j :: path) (List.suffix_cons ..)).1
              rw [hstart] at hsite1
              have hopened : source.Opened path := by
                cases path with
                | nil => exact hchild.elim
                | cons i path => exact .child hchild.1 hchild.2 hcontext hassociation
              obtain ⟨removed1, hloop, hnoted⟩ := forChildren_step _ path
                (fun _ _ _ _ hsite hfresh _ hbody => child_step hopened
                  (fun hkid hnew => ih hsite hkid hfresh hnew) hsite hfresh hbody)
                hconstructing
                (fun j _ inner hinner => hfresh' inner ((List.suffix_cons ..).trans hinner))
                hsite1
              rw [hvisits, if_neg (by simp [hassociation])]
              have hbeneath := hloop.congr fun inner => beneath_iff.symm
              have hnoted' := hnoted.congr (fun _ => beneath_iff.symm) fun _ => beneath_iff.symm
              refine ⟨_, removed1, rfl, hvisited,
                (hbeneath.register hcontext (by simp [hassociation])).ofContexts,
                hnoted'.accounted, hnoted'.unpointed, ?_, hnoted'.privates,
                hnoted'.nodesToClean, hnoted'.nodesToClean2⟩
              exact hnoted'.contexts.first (fun _ => suffix_iff_beneath) hvisited
                (context?_eq hcontext)

/-! ## The whole construction -/

/-- What the loop of `loadXmlDoc` over the children of the root node leaves. -/
structure Built (source : Source) (site : Site) (removed : Path → Prop) : Prop where
  constructing : source.Constructing site removed
  settled : ∀ path, source.Child path → removed path ∨ source.Visited path
  associations : site.associationsToInitialize =
    (source.visited.filter source.isItem).map Address.feed
  nodes : ∀ id, site.nodes id = (source.lastWithId id).map Address.feed
  permalinks : ∀ permalink,
    site.permalinks permalink = (source.lastWithPermalink permalink).map Address.feed
  rootNode : site.rootNode = .feed source.root

theorem constructing_parsed :
    source.Constructing (Site.parsed source.feed source.root) fun _ => False where
  shape := shape_parse
  allocated := allocated_parse
  pruned _ h := h.elim
  contexts _ _ h := by cases h

theorem fresh_parsed (path : Path) :
    Fresh path (Site.parsed source.feed source.root) fun _ => False :=
  fun _ _ => ⟨id, rfl⟩

/-- The body of the loop of `loadXmlDoc`. -/
theorem root_step {rounds : ℕ} (h : source.Constructing site removed)
    (hfresh : Fresh (k :: source.root) site removed)
    (hrun : (if site.heap.type (kid source.root k) = .element then do
        let constructed ← Site.newContext source.surroundings rounds site (kid source.root k)
        Site.keepOrKill rounds (kid source.root k) constructed site
      else pure site) = .ok site') :
    ∃ removed', source.Step (k :: source.root <:+ ·) (source.visitsAt (k :: source.root)) site
        site' removed removed' ∧
      source.Noted (k :: source.root <:+ ·) (k :: source.root <:+ ·) site site' removed
        removed' := by
  have htype : site.heap.type (kid source.root k) = source.feed.typeAt (k :: source.root) :=
    h.shape.type (k :: source.root)
  by_cases helement : source.Element (k :: source.root)
  · rw [if_pos (htype.trans helement)] at hrun
    obtain ⟨constructed, hconstructed, hrun⟩ := Outcome.bind_eq_ok.1 hrun
    have hkid : source.Child (k :: source.root) := ⟨.root, helement⟩
    exact keepOrKill_step h hfresh (newContext_step h hkid hfresh hconstructed) hrun
  · rw [if_neg fun heq => helement (htype.symm.trans heq)] at hrun
    obtain rfl := Outcome.pure_eq_ok.1 hrun
    exact ⟨removed, skip_step h helement⟩

theorem constructContexts_noted {rounds : ℕ}
    (hrun : Site.constructContexts source.surroundings rounds
      (Site.parsed source.feed source.root) = .ok site) :
    ∃ removed, source.Built site removed ∧
      source.Noted (Beneath source.root) (Beneath source.root)
        (Site.parsed source.feed source.root) site (fun _ => False) removed := by
  have hstart : (Site.parsed source.feed source.root).heap.children (.feed source.root) =
      if 0 < source.feed.width source.root then some (kid source.root 0) else none :=
    constructing_parsed.children fun _ => id
  unfold Site.constructContexts at hrun
  change Site.forChildren _ rounds _
    ((Site.parsed source.feed source.root).heap.children (.feed source.root)) = _ at hrun
  rw [hstart] at hrun
  obtain ⟨removed, hstep, hnoted⟩ := forChildren_step _ source.root
    (fun _ _ _ _ hsite hfresh _ hbody => root_step hsite hfresh hbody)
    constructing_parsed (fun j _ => fresh_parsed _) hrun
  refine ⟨removed, ⟨hstep.constructing, fun path hchild => ?_, ?_, fun id => ?_,
    fun permalink => ?_, hstep.rootNode⟩,
    hnoted.congr (fun _ => beneath_iff.symm) fun _ => beneath_iff.symm⟩
  · obtain ⟨j, hj⟩ := exists_suffix_cons hchild.suffix hchild.ne_root
    exact hstep.settled path ⟨j, Nat.zero_le j, hj⟩ hchild
  · exact hstep.associations
  · rw [hstep.nodes]
    exact foldl_enter source.id? source.visited id
  · rw [hstep.permalinks]
    exact foldl_enter source.permalink? source.visited permalink

theorem constructContexts_built {rounds : ℕ}
    (hrun : Site.constructContexts source.surroundings rounds
      (Site.parsed source.feed source.root) = .ok site) :
    ∃ removed, source.Built site removed := by
  obtain ⟨removed, hbuilt, _⟩ := constructContexts_noted hrun
  exact ⟨removed, hbuilt⟩

end VaeDb.Source
