import VaeDb.Site.Ties

/-!
# Items that stand for items

If the element that an item stands for is itself an item, then the new pointer node is put
after the last child that this item has taken from its own associated node.  The pointer node
that was there is no longer in any child list (`Source.Orphaned`), and nothing puts it back.
There are three cases.

```text
the associated item     before the turn          what becomes of it
the item itself         it is not initialized    its pointer node is orphaned
a former one            it is initialized        its pointer node is orphaned
a later one             it is not initialized    its own turn does not return
```
-/

namespace VaeDb.Source

open Xml Links

variable {source : Source} {site site' : Site} {heap1 heap' : Heap Address}
  {path target item : Path} {k rounds : ℕ} {done todo : List Path}

/-- The pointer node of an item comes after nothing but first children of items. -/
structure Orphaned (source : Source) (site : Site) (todo : List Path) (item : Path) : Prop where
  entered : source.enteredAt todo item
  children : ∀ a, site.heap.children a ≠ some (.pointer (.feed item))
  next : ∀ a, site.heap.next a = some (.pointer (.feed item)) →
    ∃ other, source.enteredAt todo other ∧ a = kid other 0

/-! ## Orphans remain -/

namespace Orphaned

theorem remove (h : source.Orphaned site ((k :: path) :: todo) item)
    (hassociating : source.Associating site ((k :: path) :: todo))
    (htarget : source.target? (k :: path) = none)
    (hunlink : site.heap.xmlUnlinkNode (kid path k) = .ok heap1)
    (hfree : heap1.xmlFreeNode rounds (kid path k) = .ok heap') :
    source.Orphaned { site with
      heap := heap', contexts := Function.update site.contexts (kid path k) none } todo item := by
  have hshape := hassociating.shape
  have hitem : source.Item (k :: path) := hassociating.item_turn
  have hparent := hassociating.parent_turn
  have heq := Heap.xmlUnlinkNode_eq hunlink hparent
  have hreleased := Heap.xmlFreeNode_released hfree
  have hentered : source.enteredAt todo = source.enteredAt ((k :: path) :: todo) :=
    enteredAt_cons_of_none htarget
  have hcur : site.heap.next (kid path k) ≠ some (.pointer (.feed item)) := by
    intro hnext
    obtain ⟨other, hother, hfirst⟩ := h.next _ hnext
    exact hshape.first_ne hother hitem.1.element hfirst
  refine ⟨hentered ▸ h.entered, fun a hchildren => ?_, fun a hnext => ?_⟩
  · have hchildren1 : heap1.children a = some (.pointer (.feed item)) := by
      rw [← hreleased.children_eq]
      exact hchildren
    by_cases ha : a = .feed path
    · subst ha
      rw [heq] at hchildren1
      simp only [Function.update_self] at hchildren1
      split at hchildren1
      · exact hcur hchildren1
      · exact h.children _ hchildren1
    · rw [unlink_children hparent hunlink ha] at hchildren1
      exact h.children a hchildren1
  · have hnext1 : unlinkNext site.heap.next site.heap.prev (kid path k) a =
        some (.pointer (.feed item)) := by
      have hheap : heap1.next = unlinkNext site.heap.next site.heap.prev (kid path k) := by
        rw [heq]
      rw [← hheap, ← hreleased.next_eq]
      exact hnext
    rw [unlinkNext_eq] at hnext1
    rw [hentered]
    split at hnext1
    · cases hnext1
    · split at hnext1
      · exact absurd hnext1 hcur
      · exact h.next a hnext1

theorem adopt (h : source.Orphaned site ((k :: path) :: todo) item)
    (hassociating : source.Associating site ((k :: path) :: todo)) (htodo : k :: path ∉ todo)
    (htarget : source.target? (k :: path) = some target)
    (hrun : Site.associate rounds site (kid path k) (.feed target) = .ok site') :
    source.Orphaned site' todo item := by
  have hitem : source.Item (k :: path) := hassociating.item_turn
  have hentered := enteredAt_cons htodo hitem (show source.target? (k :: path) ≠ none by
    simp [htarget])
  obtain ⟨heap1, heap2, added, _, _, _, _, hadopting⟩ := hassociating.adopting htarget hrun
  have hadopted := hadopting.adoption.adopted
  have hfreed := hadopting.freed
  have hnew : Address.pointer (kid path k) ≠ .pointer (.feed item) := by
    intro heq
    injection heq with heq
    injection heq with heq
    exact h.entered.2.1 (heq ▸ List.mem_cons_self ..)
  have hold : ∀ a, heap2.children a ≠ some (.pointer (.feed item)) := by
    intro a
    rw [hfreed.children_eq]
    exact h.children a
  refine ⟨hentered ▸ Or.inl h.entered, fun a hchildren => ?_, fun a hnext => ?_⟩
  · rw [hadopted.children] at hchildren
    split at hchildren
    · exact hold _ hchildren
    · split at hchildren
      · cases hsome : heap2.children a with
        | none =>
            rw [hsome] at hchildren
            exact hnew (Option.some.inj hchildren)
        | some b =>
            rw [hsome] at hchildren
            exact hold a (hsome.trans hchildren)
      · exact hold a hchildren
  · rw [hentered]
    rw [hadopted.next] at hnext
    split at hnext
    · exact absurd (Option.some.inj hnext) hnew
    · split at hnext
      · cases hnext
      · split at hnext
        · next ha => exact ⟨k :: path, Or.inr rfl, ha⟩
        · rw [hfreed.next_eq] at hnext
          obtain ⟨other, hother, ha⟩ := h.next a hnext
          exact ⟨other, Or.inl hother, ha⟩

/-- `initializeAssociation` of the item whose turn it is. -/
theorem step {cur : Path} (h : source.Orphaned site (cur :: todo) item)
    (hassociating : source.Associating site (cur :: todo)) (htodo : cur ∉ todo)
    (hrun : Site.initializeAssociation rounds site (.feed cur) = .ok site') :
    source.Orphaned site' todo item := by
  cases hassociating.turn hrun with
  | adopt htarget hrun => exact h.adopt hassociating htodo htarget hrun
  | remove htarget hunlink hfree => exact h.remove hassociating htarget hunlink hfree

theorem foldlM (h : source.Orphaned site todo item) (hassociating : source.Associating site todo)
    (hnodup : todo.Nodup)
    (hrun : (todo.map Address.feed).foldlM (Site.initializeAssociation rounds) site =
      .ok site') : source.Orphaned site' [] item := by
  have hall := turns_ok
    (P := fun _ todo site => source.Orphaned site todo item ∧
      source.Associating site todo ∧ todo.Nodup)
    (fun _ cur todo _ _ hold hnext => ?_) [] ⟨h, hassociating, hnodup⟩ hrun
  · exact hall.1
  · obtain ⟨hold, hassociating, hnodup⟩ := hold
    obtain ⟨hcur, hrest⟩ := List.nodup_cons.1 hnodup
    exact ⟨hold.step hassociating hcur hnext, hassociating.step hcur hnext, hrest⟩

end Orphaned

/-! ## The turn of an item that stands for an item -/

section adopt

variable (h : source.Tied site done ((k :: path) :: todo))
  (hrun : Site.associate rounds site (kid path k) (.feed target) = .ok site')

include h hrun

/-- It takes the place of the pointer node of an item that has got its association. -/
theorem Tied.orphaned (htarget : source.target? (k :: path) = some target)
    (hother : source.enteredAt ((k :: path) :: todo) target) :
    source.Orphaned site' todo target := by
  have hassociating := h.arranged.recorded.associating
  have hitem : source.Item (k :: path) := hassociating.item_turn
  have hentered := enteredAt_cons h.arranged.recorded.not_mem.2 hitem
    (show source.target? (k :: path) ≠ none by simp [htarget])
  obtain ⟨heap1, heap2, added, _, _, _, _, hadopting⟩ := hassociating.adopting htarget hrun
  have hadopted := hadopting.adoption.adopted
  have hfreed := hadopting.freed
  have hnew : Address.pointer (kid path k) ≠ .pointer (.feed target) := by
    intro heq
    injection heq with heq
    injection heq with heq
    exact hother.2.1 (heq ▸ List.mem_cons_self ..)
  have hchildren : heap2.children (.feed target) = some (kid target 0) := by
    rw [hfreed.children_eq]
    exact (hassociating.shape.items target hother).children
  -- the node that the new pointer node is put after, which had the other one after it
  obtain ⟨a, ha⟩ : ∃ a, heap2.lastChild (.feed target) = some a := by
    refine Option.ne_none_iff_exists'.1 fun hnone => ?_
    have hempty := hadopted.lastChild_none hnone
    rw [hchildren] at hempty
    cases hempty
  have hlast : site.heap.last (.feed target) = some a := by
    rw [← hfreed.last_eq]
    exact (lastChild_eq_some.1 ha).2
  have hprev : site.heap.prev (.pointer (.feed target)) = some a := by
    refine (h.last target a hother hlast).2 ?_
    have hlive : site'.heap.live a = true := hadopted.lastChild_live a ha
    rcases (hadopted.live a).1 hlive with hlive | heq
    · exact hfreed.live a hlive
    · -- the new pointer node is nobody's last child yet
      obtain ⟨other, heq', hother'⟩ := (h.last target a hother hlast).1 _ heq
      injection heq' with heq'
      exact absurd (heq' ▸ hother'.2.1) fun hout => hout (List.mem_cons_self ..)
  have hold : ∀ b, heap2.children b ≠ some (.pointer (.feed target)) := by
    intro b hb
    rw [hfreed.children_eq] at hb
    have hnone := (h.children b _ hb).2
    rw [hprev] at hnone
    cases hnone
  refine ⟨hentered ▸ Or.inl hother, fun b hb => ?_, fun b hb => ?_⟩
  · rw [hadopted.children] at hb
    split at hb
    · exact hold _ hb
    · split at hb
      · next heq =>
        rw [heq, hchildren] at hb
        cases hb
      · exact hold b hb
  · rw [hentered]
    rw [hadopted.next] at hb
    split at hb
    · exact absurd (Option.some.inj hb) hnew
    · next hne =>
      split at hb
      · cases hb
      · split at hb
        · next heq => exact ⟨k :: path, Or.inr rfl, heq⟩
        · rw [hfreed.next_eq] at hb
          rcases (h.next b _ hb).2 with hbefore | ⟨other, hother', heq⟩
          · rw [hprev] at hbefore
            exact absurd (ha.trans hbefore) hne
          · exact ⟨other, Or.inl hother', heq⟩

/-- An item that stands for itself has its pointer node after its first child. -/
theorem Tied.orphaned_self (htarget : source.target? (k :: path) = some target)
    (hself : target = k :: path) : source.Orphaned site' todo (k :: path) := by
  subst hself
  have hassociating := h.arranged.recorded.associating
  have hitem : source.Item (k :: path) := hassociating.item_turn
  have hnot : ¬ source.enteredAt ((k :: path) :: todo) (k :: path) := not_enteredAt
  have hentered := enteredAt_cons h.arranged.recorded.not_mem.2 hitem
    (show source.target? (k :: path) ≠ none by simp [htarget])
  obtain ⟨heap1, heap2, added, _, _, _, _, hadopting⟩ := hassociating.adopting htarget hrun
  have hadopted := hadopting.adoption.adopted
  have hfreed := hadopting.freed
  have hfresh : ¬ Named (source.enteredAt ((k :: path) :: todo)) (.feed (k :: path)) := by
    rintro ⟨other, heq, hother⟩
    injection heq with heq
    exact hnot (heq ▸ hother)
  have hold : ∀ b, heap2.children b ≠ some (.pointer (.feed (k :: path))) := by
    intro b hb
    rw [hfreed.children_eq] at hb
    exact hfresh (h.children b _ hb).1
  obtain ⟨content, htext⟩ := hadopting.adoption.text
  have hchildren : heap2.children (.feed (k :: path)) = some (kid (k :: path) 0) := by
    rw [hfreed.children_eq]
    exact hassociating.shape.children_item hitem hnot (width_pos_of_text htext)
  -- its last child is allocated, and all but the first have been freed
  have hfirst : ∀ a, heap2.lastChild (.feed (k :: path)) = some a → a = kid (k :: path) 0 := by
    intro a ha
    have howner : source.Owner (source.enteredAt ((k :: path) :: todo)) (.feed (k :: path)) :=
      ⟨_, rfl, hitem.1.element, hnot⟩
    have hlast := (lastChild_eq_some.1 ha).2
    rw [hfreed.last_eq, h.arranged.childLists.last _ howner] at hlast
    rcases mem_childList (List.mem_of_getLast? hlast) with ⟨j, _, rfl⟩ | ⟨item, hdone, hsome, _⟩
    · have hlive := hadopted.lastChild_live _ ha
      by_contra hne
      have hgone : Gone (source.removedAt todo) (source.enteredAt todo) (j :: k :: path) := by
        refine Or.inr ⟨k :: path, hentered ▸ Or.inr rfl, List.suffix_cons .., by simp, ?_⟩
        exact fun heq => hne (congrArg Address.feed heq)
      have hdead := (h.arranged.recorded.adopt htarget hrun).accounted.dead _ hgone
      exact absurd (hlive.symm.trans hdead) (by simp)
    · exact absurd (h.arranged.opened item hdone _ hsome) hitem.shut.2
  refine ⟨hentered ▸ Or.inr rfl, fun b hb => ?_, fun b hb => ?_⟩
  · rw [hadopted.children] at hb
    split at hb
    · exact hold _ hb
    · split at hb
      · next heq =>
        rw [heq, hchildren] at hb
        cases hb
      · exact hold b hb
  · rw [hentered]
    rw [hadopted.next] at hb
    split at hb
    · next hlast => exact ⟨k :: path, Or.inr rfl, hfirst b hlast⟩
    · split at hb
      · cases hb
      · split at hb
        · next heq => exact ⟨k :: path, Or.inr rfl, heq⟩
        · rw [hfreed.next_eq] at hb
          exact absurd (h.next b _ hb).1 hfresh

end adopt

/-! ## All turns -/

/-- An item whose last child is a pointer node when its turn comes is not taken in turn. -/
theorem Associating.not_pending (h : source.Associating site todo) (hnodup : todo.Nodup)
    (hitem : item ∈ todo) (hlast : IsPointer (site.heap.last (.feed item)))
    (hrun : (todo.map Address.feed).foldlM (Site.initializeAssociation rounds) site =
      .ok site') : False := by
  induction todo generalizing site with
  | nil => cases hitem
  | cons cur todo ih =>
      obtain ⟨hcur, hrest⟩ := List.nodup_cons.1 hnodup
      rw [List.map_cons, List.foldlM_cons] at hrun
      obtain ⟨next, hnext, hfold⟩ := Outcome.bind_eq_ok.1 hrun
      have hlater := h.step hcur hnext
      have hself : source.Item cur := h.item_turn
      cases h.turn hnext with
      | adopt htarget hrun =>
          obtain ⟨_, _, _, _, _, _, _, hadopting⟩ := h.adopting htarget hrun
          rcases List.mem_cons.1 hitem with rfl | hitem
          · exact hadopting.notPointer hlast
          · refine ih hlater hrest hitem (hadopting.adoption.last_pointer ?_) hfold
            rw [hadopting.freed.last_eq]
            exact hlast
      | @remove k path heap1 heap' htarget hunlink hfree =>
          have hnot : ¬ source.enteredAt ((k :: path) :: todo) (k :: path) := not_enteredAt
          rcases List.mem_cons.1 hitem with rfl | hitem
          · exact h.shape.not_pointer_of_remove h.allocated hself h.not_removedAt hnot
              hunlink hfree hlast
          · refine ih hlater hrest hitem ?_ hfold
            have hparent := h.parent_turn
            have hreleased := Heap.xmlFreeNode_released hfree
            have heq := unlink_last_pointer hparent hunlink hlast
            show IsPointer (heap'.last _)
            rw [hreleased.eq]
            exact heq.symm ▸ hlast

/-- If some item stands for an item, then a load that returns orphans a pointer node. -/
theorem Tied.exists_orphan (h : source.Tied site done todo)
    (hitems : ∃ item ∈ todo, ∃ target, source.target? item = some target ∧ source.Item target)
    (hrun : (todo.map Address.feed).foldlM (Site.initializeAssociation rounds) site =
      .ok site') : ∃ item, source.Orphaned site' [] item := by
  induction todo generalizing site done with
  | nil =>
      obtain ⟨item, hitem, _⟩ := hitems
      cases hitem
  | cons cur todo ih =>
      have hassociating := h.arranged.recorded.associating
      have hnodup : (cur :: todo).Nodup := (List.nodup_append'.1 h.arranged.recorded.nodup).2.1
      rw [List.map_cons, List.foldlM_cons] at hrun
      obtain ⟨next, hnext, hfold⟩ := Outcome.bind_eq_ok.1 hrun
      by_cases hopened : ∀ target, source.target? cur = some target → source.Opened target
      · refine ih (h.step hopened hnext) ?_ hfold
        obtain ⟨item, hitem, target, htarget, htargetItem⟩ := hitems
        refine ⟨item, (List.mem_cons.1 hitem).resolve_left fun heq => ?_, target, htarget,
          htargetItem⟩
        exact htargetItem.shut.2 (hopened target (heq ▸ htarget))
      · -- the first item that stands for an item
        have hlater := hassociating.step (List.nodup_cons.1 hnodup).1 hnext
        have hrest := (List.nodup_cons.1 hnodup).2
        simp only [not_forall] at hopened
        obtain ⟨target, htarget, hnotOpened⟩ := hopened
        have htargetItem : source.Item target :=
          (target?_spec htarget).1.opened_or_item.resolve_left hnotOpened
        cases hassociating.turn hnext with
        | remove hnone => exact absurd (htarget.symm.trans hnone) (by simp)
        | @adopt k path target' _ htarget' hadopt =>
            obtain rfl := Option.some.inj (htarget.symm.trans htarget')
            obtain ⟨_, _, _, _, _, _, _, hadopting⟩ := hassociating.adopting htarget hadopt
            by_cases hself : target = k :: path
            · exact ⟨_, (h.orphaned_self hadopt htarget hself).foldlM hlater hrest hfold⟩
            · by_cases hmem : target ∈ todo
              · exact (hlater.not_pending hrest hmem ⟨_, hadopting.adoption.last_target⟩ hfold).elim
              · have hout : target ∉ (k :: path) :: todo := fun h' =>
                  (List.mem_cons.1 h').elim hself hmem
                have hentered : source.enteredAt ((k :: path) :: todo) target :=
                  ⟨htargetItem, hout, fun hnone =>
                    hadopting.adoption.targetKept (Or.inr ⟨htargetItem, hout, hnone⟩)⟩
                exact ⟨_, (h.orphaned hadopt htarget hentered).foldlM hlater hrest hfold⟩

end VaeDb.Source
