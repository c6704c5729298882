import VaeDb.Site.Associations

/-!
# What a load remembers

While the associations are initialized, `Source.Recorded` says which nodes are allocated, which
Contexts are left and which nodes point to them, which pointer nodes a Context has, and which
nodes are to be cleaned.  Whatever an item is associated with, its turn keeps this
(`Recorded.step`).
-/

namespace VaeDb.Source

open Xml Links

variable {source : Source} {site site' : Site} {heap heap1 heap2 heap' : Heap Address}
  {removed entered : Path → Prop} {path target inner item : Path} {k rounds : ℕ}
  {done todo : List Path}

/-! ## The children that an item loses -/

/-- All that is below an item after its first child is freed. -/
theorem Shape.released_later (hshape : source.Shape heap removed entered)
    (hitem : source.Item path) (hnot : ¬ entered path)
    (hlast : ¬ IsPointer (heap.last (.feed path)))
    (htext : ∃ content, source.feed.typeAt (0 :: path) = .text content)
    (hfree : heap.xmlFreeNodeList rounds (heap.next (kid path 0)) = .ok heap') :
    heap.Released (source.Later path) heap' := by
  obtain ⟨content, htext⟩ := htext
  have hexists := width_pos_of_text htext
  refine (Heap.xmlFreeNodeList_released hfree).congr fun a => ⟨?_, fun hreach => ?_⟩
  · rintro ⟨inner, rfl, hinner, hne, hfirst, hlookup⟩
    induction inner with
    | nil => exact absurd (List.suffix_nil.1 hinner).symm hne
    | cons i inner ih =>
        have hinner' : path <:+ inner :=
          (List.suffix_cons_iff.1 hinner).resolve_left fun heq => hne heq.symm
        have hleads := hshape.leads_below hitem.shut hnot hlast hinner' hlookup
        by_cases hself : inner = path
        · -- a sibling of the first child
          subst hself
          rw [hshape.children_item hitem hnot hexists] at hleads
          generalize hb : kid inner i = b at hleads
          cases hleads with
          | here =>
              injection hb with hb
              exact absurd hb hfirst
          | next hrest =>
              subst hb
              exact hrest.reach
        · have hnotFirst : inner ≠ 0 :: path := by
            rintro rfl
            have hwidth : i < source.feed.width (0 :: path) := Tree.lookup_cons_isSome.1 hlookup
            rw [Tree.width_eq_zero (by rw [htext]; simp)] at hwidth
            exact absurd hwidth (Nat.not_lt_zero i)
          exact (ih hinner' hself hnotFirst (Tree.lookup_isSome_of_cons hlookup)).below hleads.reach
  · exact hreach.closed (fun b hb => hshape.later_next hitem hnot hlast hexists hb)
      fun b c hb hedge => hshape.closed_later hitem hnot hlast b hb c hedge

theorem gone_andEntered :
    Gone removed (andEntered entered item) path ↔
      Gone removed entered path ∨ item <:+ path ∧ path ≠ item ∧ path ≠ 0 :: item := by
  constructor
  · rintro (hremoved | ⟨other, hother | rfl, hbelow⟩)
    · exact Or.inl (Or.inl hremoved)
    · exact Or.inl (Or.inr ⟨other, hother, hbelow⟩)
    · exact Or.inr hbelow
  · rintro ((hremoved | ⟨other, hother, hbelow⟩) | hbelow)
    · exact Or.inl hremoved
    · exact Or.inr ⟨other, Or.inl hother, hbelow⟩
    · exact Or.inr ⟨item, Or.inr rfl, hbelow⟩

/-- The document element is nobody's last child. -/
theorem Shape.last_ne_document (hshape : source.Shape heap removed entered)
    (helement : source.Element path) : heap.last (.feed path) ≠ some (.feed []) := by
  intro hlast
  have hnot : ¬ IsPointer (heap.last (.feed path)) := by
    rintro ⟨_, heq⟩
    rw [heq] at hlast
    cases hlast
  by_cases hentered : entered path
  · rcases (hshape.items path hentered).last with hnone | hpointer | ⟨j, other, heq, _⟩
    · rw [hnone] at hlast
      cases hlast
    · exact hnot hpointer
    · rw [heq] at hlast
      simp [kid] at hlast
  · obtain ⟨kids, stop, hlisted, _⟩ := hshape.lists path helement hentered
    rcases hlisted.ending with ⟨_, heq⟩ | ⟨_, hpointer⟩
    · rw [heq] at hlast
      obtain ⟨j, _, hkid⟩ := List.mem_map.1 (List.mem_of_getLast? hlast)
      simp [kid] at hkid
    · exact hnot hpointer

/-- The nodes and property lists that are allocated once the item has got its association. -/
theorem Accounted.adopt (h : source.Accounted heap removed entered)
    (hshape : source.Shape heap removed entered) (hitem : source.Item (k :: path))
    (hnot : ¬ entered (k :: path)) (hlast : ¬ IsPointer (heap.last (.feed (k :: path))))
    (htext : ∃ content, source.feed.typeAt (0 :: k :: path) = .text content)
    (htarget : source.Element target)
    (hprops : heap.xmlFreePropList (heap.properties (.feed (k :: path))) = .ok heap1)
    (hfree : heap1.xmlFreeNodeList rounds (heap1.next (kid (k :: path) 0)) = .ok heap2)
    (hadopted : Adopted heap2 heap' k path target) :
    source.Accounted heap' removed (andEntered entered (k :: path)) := by
  have hfreed : heap.Freed (source.Later (k :: path)) heap1 := Heap.xmlFreePropList_freed hprops
  have hreleased : heap1.Released (source.Later (k :: path)) heap2 := by
    refine (hshape.freed hfreed).released_later hitem hnot ?_ htext hfree
    rw [hfreed.last_eq]
    exact hlast
  -- the item loses its property list
  have hheap : heap1 = { heap with
      attributes := Function.update heap.attributes (.feed (k :: path)) none } := by
    rw [hshape.properties_item hitem hnot] at hprops
    exact (Heap.xmlFreePropList_eq hprops).2
  have hlive : heap1.live = heap.live := by rw [hheap]
  have hlater : ∀ a, source.Later (k :: path) a ↔ ∃ inner, a = .feed inner ∧
      (k :: path <:+ inner ∧ inner ≠ k :: path ∧ inner ≠ 0 :: k :: path) ∧
        (source.feed.lookup inner).isSome := by
    intro a
    unfold Later
    simp only [and_assoc]
  -- the property lists below the item are those of the feed
  have hproperties : ∀ inner,
      k :: path <:+ inner ∧ inner ≠ k :: path ∧ inner ≠ 0 :: k :: path →
        heap1.properties (.feed inner) = source.feed.parse.properties (.feed inner) := by
    rintro inner ⟨hinner, hne, _⟩
    rw [hfreed.properties_eq]
    refine hshape.properties inner fun hentered => hne ?_
    exact (hitem.shut.eq_of_suffix (hshape.entered_item inner hentered).1.1 hinner).symm
  have hown : heap1.attributes (.feed (k :: path)) = none := by
    rw [hheap]
    exact Function.update_self ..
  have hsame : ∀ inner, inner ≠ k :: path →
      heap1.attributes (.feed inner) = heap.attributes (.feed inner) := by
    intro inner hne
    rw [hheap]
    exact Function.update_of_ne (fun heq => hne (by injection heq)) _ _
  have hattributes : ∀ inner, heap1.attributes (.feed inner) = none ∨
      heap1.attributes (.feed inner) = source.feed.parse.attributes (.feed inner) := by
    intro inner
    by_cases hself : inner = k :: path
    · exact Or.inl (hself ▸ hown)
    · rw [hsame inner hself]
      exact h.attributes inner
  constructor
  case parent =>
    intro i other hkept
    rw [hadopted.parent, if_neg (by simp [kid]), hreleased.eq]
    show heap1.parent _ = _
    rw [hfreed.parent_eq]
    exact h.parent i other hkept
  case leaf =>
    intro other hother
    have hneTarget : other ≠ target := fun heq => hother (heq ▸ htarget)
    have hneItem : other ≠ k :: path := fun heq => hother (heq ▸ hitem.1.element)
    rw [hadopted.last, if_neg hneTarget, if_neg hneItem, hreleased.eq]
    show heap1.last _ = _
    rw [hfreed.last_eq]
    exact h.leaf other hother
  case found =>
    intro inner hinner
    refine h.found inner ?_
    rcases (hadopted.live _).1 hinner with hinner | heq
    · rw [← hlive]
      exact ((hreleased.live _).1 hinner).1
    · cases heq
  case dead =>
    intro inner hgone
    refine Bool.eq_false_iff.2 fun hinner => ?_
    rcases (hadopted.live _).1 hinner with hinner | heq
    · obtain ⟨hlive1, hnotLater⟩ := (hreleased.live _).1 hinner
      rw [hlive] at hlive1
      rcases gone_andEntered.1 hgone with hgone | hbelow
      · exact absurd (hlive1.symm.trans (h.dead inner hgone)) (by simp)
      · exact hnotLater ((hlater _).2 ⟨inner, rfl, hbelow, h.found inner hlive1⟩)
    · cases heq
  case freed =>
    intro inner hgone
    rw [hadopted.attributes]
    by_cases hself : inner = k :: path
    · exact hreleased.attributes_none (hself ▸ hown)
    · rcases hgone with hgone | hentered
      · rcases gone_andEntered.1 hgone with hgone | hbelow
        · exact hreleased.attributes_none
            ((hsame inner hself).trans (h.freed inner (Or.inl hgone)))
        · exact attributes_released hreleased hlater hproperties hbelow (hattributes inner)
      · have hentered := hentered.resolve_right hself
        exact hreleased.attributes_none
          ((hsame inner hself).trans (h.freed inner (Or.inr hentered)))
  case kept =>
    intro inner hgone hentered
    obtain ⟨hgone, hbelow⟩ := not_or.1 fun hor => hgone (gone_andEntered.2 hor)
    obtain ⟨hentered, hself⟩ := not_or.1 hentered
    rw [hadopted.attributes, attributes_kept hreleased hlater hproperties hbelow,
      hsame inner hself]
    exact h.kept inner hgone hentered
  case pointer =>
    intro node
    have hnone : heap1.attributes (.pointer node) = none :=
      (hfreed.attributes _).elim id fun hsame' => hsame'.trans (h.pointer node)
    rw [hadopted.attributes]
    exact hreleased.attributes_none hnone
  case document =>
    have hlinks : heap2.parent (.feed []) = none ∧ heap2.next (.feed []) = none ∧
        heap2.prev (.feed []) = none := by
      rw [hreleased.eq, hfreed.eq]
      exact h.document
    have hlast2 : heap2.lastChild (.feed target) ≠ some (.feed []) := by
      intro hlast'
      rw [lastChild_eq_some, hreleased.eq, hfreed.eq] at hlast'
      exact hshape.last_ne_document htarget hlast'.2
    refine ⟨?_, ?_, (hadopted.prev []).trans hlinks.2.2⟩
    · rw [hadopted.parent, if_neg (by simp), hlinks.1]
    · rw [hadopted.next, if_neg hlast2, if_neg (by simp), if_neg (by simp [kid]), hlinks.2.1]

/-! ## The records -/

/-- What is known of a Site when the turns of some items are done and those of others are still
to come. -/
structure Recorded (source : Source) (site : Site) (done todo : List Path) : Prop where
  associating : source.Associating site todo
  items : done ++ todo = source.items
  accounted : source.Accounted site.heap (source.removedAt todo) (source.enteredAt todo)
  pointer_live : ∀ item, source.enteredAt todo item →
    site.heap.live (.pointer (.feed item)) = true
  own_context : ∀ path, source.Visited path → ¬ source.enteredAt todo path →
    site.heap._private (.feed path) = some (.feed path)
  no_context : ∀ path, ¬ source.Visited path → site.heap._private (.feed path) = none
  contexts : ∀ path, source.Opened path → path ≠ source.root →
    ∃ ctxt, site.contexts (.feed path) = some ctxt ∧
      ∀ node, node ∈ ctxt.pointerNodes ↔
        ∃ k, source.enteredAt todo (k :: path) ∧ node = .pointer (kid path k)
  context_visited : ∀ node ctxt, site.contexts node = some ctxt →
    ∃ path, node = .feed path ∧ source.Visited path ∧ (source.Item path → path ∈ todo)
  nodesToClean : site.nodesToClean =
    (done.filter fun item => (source.target? item).isSome).map fun item => .pointer (.feed item)
  nodesToClean2 : site.nodesToClean2 =
    (done.filter fun item => (source.target? item).isSome).map .feed

/-- After the construction of the Contexts nothing has been done. -/
theorem recorded_built {removed : Path → Prop} (h : source.Built site removed)
    (hnoted : source.Noted (Beneath source.root) (Beneath source.root)
      (Site.parsed source.feed source.root) site (fun _ => False) removed) :
    source.Recorded site [] source.items where
  associating := h.associating
  items := rfl
  accounted := by
    rw [← h.removed_eq, ← enteredAt_items]
    exact hnoted.accounted accounted_parse
  pointer_live item hitem := by
    rw [← enteredAt_items] at hitem
    exact hitem.elim
  own_context path hvisited _ :=
    hnoted.privates.inside path ⟨hvisited.1.suffix, hvisited.1.ne_root⟩ hvisited
  no_context path hnot := by
    rcases hnoted.privates.other (.feed path) with hsame | ⟨_, heq, hvisited, _⟩
    · exact hsame
    · injection heq with heq
      exact absurd (heq ▸ hvisited) hnot
  contexts path hopened hne := by
    obtain ⟨hchild, ctxt, hctxt, _⟩ := hopened.ctxt hne
    have hsome : site.contexts (.feed path) = some ctxt :=
      (hnoted.contexts.inside path ⟨hchild.suffix, hne⟩ ⟨hchild, ctxt, hctxt⟩).trans
        (context?_eq hctxt)
    refine ⟨ctxt, hsome, fun node => ?_⟩
    rw [h.constructing.contexts _ ctxt hsome, ← enteredAt_items]
    simp
  context_visited node ctxt hctxt := by
    rcases hnoted.contexts.other node with hsame | ⟨path, rfl, hvisited, _⟩
    · rw [hctxt] at hsame
      cases hsame
    · exact ⟨path, rfl, hvisited, mem_items.2⟩
  nodesToClean := hnoted.nodesToClean
  nodesToClean2 := hnoted.nodesToClean2

namespace Recorded

theorem nodup (h : source.Recorded site done todo) : (done ++ todo).Nodup := by
  rw [h.items]
  exact nodup_items

theorem not_mem (h : source.Recorded site done (item :: todo)) : item ∉ done ∧ item ∉ todo := by
  obtain ⟨_, htodo, hdisjoint⟩ := List.nodup_append'.1 h.nodup
  exact ⟨fun hmem => hdisjoint hmem (List.mem_cons_self ..), (List.nodup_cons.1 htodo).1⟩

/-- The items that have got their association are those whose turns are done. -/
theorem entered_iff (h : source.Recorded site done todo) :
    source.enteredAt todo item ↔ item ∈ done ∧ source.target? item ≠ none := by
  constructor
  · rintro ⟨hitem, hout, htarget⟩
    have hmem : item ∈ done ++ todo := by
      rw [h.items]
      exact mem_items.2 hitem
    exact ⟨(List.mem_append.1 hmem).resolve_right hout, htarget⟩
  · rintro ⟨hdone, htarget⟩
    have hmem : item ∈ source.items := by
      rw [← h.items]
      exact List.mem_append_left _ hdone
    refine ⟨mem_items.1 hmem, fun htodo => ?_, htarget⟩
    exact List.disjoint_of_nodup_append h.nodup hdone htodo

/-- An opened element has its own Context. -/
theorem own_opened (h : source.Recorded site done todo) (hopened : source.Opened path)
    (hne : path ≠ source.root) : site.heap._private (.feed path) = some (.feed path) :=
  h.own_context path (hopened.visited hne) fun hentered => hentered.1.shut.2 hopened

/-- The turn of an item that stands for no element. -/
theorem remove {heap1 heap' : Heap Address}
    (h : source.Recorded site done ((k :: path) :: todo))
    (htarget : source.target? (k :: path) = none)
    (hunlink : site.heap.xmlUnlinkNode (kid path k) = .ok heap1)
    (hfree : heap1.xmlFreeNode rounds (kid path k) = .ok heap') :
    source.Recorded { site with
      heap := heap', contexts := Function.update site.contexts (kid path k) none }
      (done ++ [k :: path]) todo := by
  have hitem : source.Item (k :: path) := h.associating.item_turn
  have hnew := h.associating.not_removedAt
  have hnot : ¬ source.enteredAt ((k :: path) :: todo) (k :: path) := not_enteredAt
  have hout := h.not_mem
  have hshape := h.associating.shape
  have hlast := hshape.not_pointer_of_remove h.associating.allocated hitem hnew hnot hunlink hfree
  have hreleased := hshape.released_remove hitem.shut hnew hnot hlast hunlink hfree
  have heq := Heap.xmlUnlinkNode_eq hunlink h.associating.parent_turn
  have hprivate : heap'._private = site.heap._private := by rw [hreleased.eq, heq]
  have hfilter : (done ++ [k :: path]).filter (fun item => (source.target? item).isSome) =
      done.filter fun item => (source.target? item).isSome := by
    simp [htarget]
  have hcontexts : ∀ inner, inner ≠ k :: path →
      Function.update site.contexts (kid path k) none (.feed inner) =
        site.contexts (.feed inner) := by
    intro inner hne
    exact Function.update_of_ne (fun heq => hne (by injection heq)) _ _
  have haccounted := h.accounted.remove hshape hitem.shut hnew hnot hlast hunlink hfree
  rw [← removedAt_cons hout.2 hitem htarget, ← enteredAt_cons_of_none htarget] at haccounted
  constructor
  case associating => exact h.associating.remove hout.2 htarget hunlink hfree
  case items => rw [List.append_assoc]; exact h.items
  case accounted => exact haccounted
  case pointer_live =>
    intro item hentered
    rw [enteredAt_cons_of_none htarget] at hentered
    refine (hreleased.live _).2 ⟨?_, ?_⟩
    · rw [heq]
      exact h.pointer_live item hentered
    · rintro ⟨_, hpointer, _⟩
      cases hpointer
  case own_context =>
    intro inner hvisited hentered
    rw [enteredAt_cons_of_none htarget] at hentered
    exact (congrFun hprivate _).trans (h.own_context inner hvisited hentered)
  case no_context =>
    intro inner hvisited
    exact (congrFun hprivate _).trans (h.no_context inner hvisited)
  case contexts =>
    intro inner hopened hne
    have hother : inner ≠ k :: path := fun heq => hitem.shut.2 (heq ▸ hopened)
    obtain ⟨ctxt, hctxt, hnodes⟩ := h.contexts inner hopened hne
    rw [enteredAt_cons_of_none htarget]
    exact ⟨ctxt, (hcontexts inner hother).trans hctxt, hnodes⟩
  case context_visited =>
    intro node ctxt hctxt
    by_cases hnode : node = kid path k
    · rw [hnode] at hctxt
      simp at hctxt
    · obtain ⟨inner, rfl, hvisited, htodo⟩ := h.context_visited node ctxt
        ((Function.update_of_ne hnode _ _).symm.trans hctxt)
      refine ⟨inner, rfl, hvisited, fun hinner => ?_⟩
      refine (List.mem_cons.1 (htodo hinner)).resolve_left fun heq => hnode ?_
      rw [heq]
      rfl
  case nodesToClean => rw [hfilter]; exact h.nodesToClean
  case nodesToClean2 => rw [hfilter]; exact h.nodesToClean2

section

variable {added : Heap Address} {parentAddress associatedAddress : Address}
  {parentContext associatedContext : Context}
  (h : source.Recorded site done ((k :: path) :: todo))
  (htarget : source.target? (k :: path) = some target)
  (hadopting : source.Adopting rounds site site' todo k path target heap1 heap2 added
    parentAddress associatedAddress parentContext associatedContext)

include h

include htarget in
theorem entered_turn :
    source.enteredAt todo = andEntered (source.enteredAt ((k :: path) :: todo)) (k :: path) :=
  enteredAt_cons h.not_mem.2 h.associating.item_turn (by simp [htarget])

include hadopting

omit h in
theorem private_turn (hne : inner ≠ k :: path) :
    site'.heap._private (.feed inner) = site.heap._private (.feed inner) := by
  rw [hadopting.adoption.adopted._private inner hne, hadopting.freed.private_eq]

/-- The Context of the item's parent is its own. -/
theorem parentAddress_turn : parentAddress = .feed path := by
  have hpath : path ≠ k :: path := fun heq => absurd (congrArg List.length heq) (by simp)
  have hparent := hadopting.run.parent_private
  rw [(adopted_of_addChild hadopting.run.add)._private path hpath, hadopting.freed.private_eq,
    h.own_opened h.associating.item_turn.1.1 hadopting.adoption.ne_root] at hparent
  exact (Option.some.inj hparent).symm

/-- The Context of the item goes, and the one of its parent notes the new pointer node. -/
theorem contexts_turn (node : Address) :
    site'.contexts node =
      if node = kid path k then none
      else if node = .feed path then some { parentContext with
        pointerNodes := parentContext.pointerNodes ++ [.pointer (kid path k)] }
      else site.contexts node := by
  obtain rfl := h.parentAddress_turn hadopting
  rw [hadopting.run.contexts, pushPointerNode, Function.update_apply, Function.update_apply]

theorem contexts_other {node : Address} (hnode : node ≠ kid path k) (hparent : node ≠ .feed path) :
    site'.contexts node = site.contexts node := by
  rw [h.contexts_turn hadopting, if_neg hnode, if_neg hparent]

theorem contexts_parent :
    site'.contexts (.feed path) = some { parentContext with
      pointerNodes := parentContext.pointerNodes ++ [.pointer (kid path k)] } := by
  have hpath : path ≠ k :: path := fun heq => absurd (congrArg List.length heq) (by simp)
  rw [h.contexts_turn hadopting, if_neg fun heq => hpath (by injection heq), if_pos rfl]

include htarget

theorem contexts_adopt (hinner : source.Opened inner) (hne : inner ≠ source.root) :
    ∃ ctxt, site'.contexts (.feed inner) = some ctxt ∧
      ∀ node, node ∈ ctxt.pointerNodes ↔
        ∃ j, source.enteredAt todo (j :: inner) ∧ node = .pointer (kid inner j) := by
  rw [h.entered_turn htarget]
  obtain ⟨ctxt, hctxt, hnodes⟩ := h.contexts inner hinner hne
  by_cases hself : inner = path
  · subst hself
    have hparent := hadopting.run.parent_context
    rw [h.parentAddress_turn hadopting, hctxt] at hparent
    obtain rfl := Option.some.inj hparent
    refine ⟨_, h.contexts_parent hadopting, fun node => ?_⟩
    simp only [List.mem_append, List.mem_singleton, hnodes, andEntered]
    constructor
    · rintro (⟨j, hj, rfl⟩ | rfl)
      · exact ⟨j, Or.inl hj, rfl⟩
      · exact ⟨k, Or.inr rfl, rfl⟩
    · rintro ⟨j, hj | hj, rfl⟩
      · exact Or.inl ⟨j, hj, rfl⟩
      · injection hj with hj
        exact Or.inr (hj ▸ rfl)
  · refine ⟨ctxt, (h.contexts_other hadopting ?_ ?_).trans hctxt, fun node =>
      (hnodes node).trans ?_⟩
    · intro heq
      injection heq with heq
      exact h.associating.item_turn.shut.2 (heq ▸ hinner)
    · intro heq
      injection heq with heq
      exact hself heq
    · refine exists_congr fun j => and_congr_left fun _ => ?_
      refine ⟨Or.inl, fun hj => hj.resolve_right fun heq => ?_⟩
      injection heq with _ heq
      exact hself heq

omit htarget in
theorem context_visited_adopt {node : Address} {ctxt : Context}
    (hctxt : site'.contexts node = some ctxt) :
    ∃ inner, node = .feed inner ∧ source.Visited inner ∧
      (source.Item inner → inner ∈ todo) := by
  by_cases hnode : node = kid path k
  · rw [h.contexts_turn hadopting, if_pos hnode] at hctxt
    cases hctxt
  · by_cases hparent : node = .feed path
    · have hopened : source.Opened path := h.associating.item_turn.1.1
      exact ⟨path, hparent, hopened.visited hadopting.adoption.ne_root,
        fun hitem => absurd hopened hitem.shut.2⟩
    · rw [h.contexts_other hadopting hnode hparent] at hctxt
      obtain ⟨inner, rfl, hvisited, htodo⟩ := h.context_visited node ctxt hctxt
      refine ⟨inner, rfl, hvisited, fun hinner => ?_⟩
      refine (List.mem_cons.1 (htodo hinner)).resolve_left fun heq => hnode ?_
      rw [heq]
      rfl

omit hadopting

/-- The turn of an item that stands for an element. -/
theorem adopt (hrun : Site.associate rounds site (kid path k) (.feed target) = .ok site') :
    source.Recorded site' (done ++ [k :: path]) todo := by
  have hentered := h.entered_turn htarget
  obtain ⟨heap1, heap2, added, _, _, _, _, hadopting⟩ := h.associating.adopting htarget hrun
  have hadopted := hadopting.adoption.adopted
  have hfilter : (done ++ [k :: path]).filter (fun item => (source.target? item).isSome) =
      (done.filter fun item => (source.target? item).isSome) ++ [k :: path] := by
    simp [htarget]
  have haccounted := h.accounted.adopt h.associating.shape h.associating.item_turn not_enteredAt
    hadopting.notPointer hadopting.adoption.text hadopting.adoption.visited.1.element
    hadopting.run.properties hadopting.run.children hadopted
  rw [← removedAt_cons_of_some (by simp [htarget]), ← hentered] at haccounted
  constructor
  case associating => exact h.associating.adopt h.not_mem.2 htarget hrun
  case items => rw [List.append_assoc]; exact h.items
  case accounted => exact haccounted
  case pointer_live =>
    intro item hitem
    rw [hentered] at hitem
    refine (hadopted.live _).2 (hitem.imp (fun hold => ?_) fun heq => by rw [heq]; rfl)
    rw [hadopting.freed.kept]
    · exact h.pointer_live item hold
    · rintro ⟨_, hpointer, _⟩
      cases hpointer
  case own_context =>
    intro inner hvisited hinner
    rw [hentered] at hinner
    obtain ⟨hold, hne⟩ := not_or.1 hinner
    exact (private_turn hadopting hne).trans (h.own_context inner hvisited hold)
  case no_context =>
    intro inner hvisited
    refine (private_turn hadopting fun heq => hvisited ?_).trans (h.no_context inner hvisited)
    exact heq ▸ h.associating.item_turn.visited
  case contexts => exact fun _ hinner hne => h.contexts_adopt htarget hadopting hinner hne
  case context_visited => exact fun _ _ hctxt => h.context_visited_adopt hadopting hctxt
  case nodesToClean =>
    rw [hadopting.run.rest, hfilter, List.map_append, ← h.nodesToClean]
    rfl
  case nodesToClean2 =>
    rw [hadopting.run.rest, hfilter, List.map_append, ← h.nodesToClean2]
    rfl

end

/-- `initializeAssociation` of the item whose turn it is. -/
theorem step (h : source.Recorded site done (item :: todo))
    (hrun : Site.initializeAssociation rounds site (.feed item) = .ok site') :
    source.Recorded site' (done ++ [item]) todo := by
  cases h.associating.turn hrun with
  | adopt htarget hrun => exact h.adopt htarget hrun
  | remove htarget hunlink hfree => exact h.remove htarget hunlink hfree

theorem foldlM (h : source.Recorded site done todo)
    (hrun : (todo.map Address.feed).foldlM (Site.initializeAssociation rounds) site =
      .ok site') : source.Recorded site' (done ++ todo) [] :=
  turns_ok (P := fun done todo site => source.Recorded site done todo)
    (fun _ _ _ _ _ hold hnext => hold.step hnext) done h hrun

end Recorded

end VaeDb.Source
