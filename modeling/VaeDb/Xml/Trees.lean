import VaeDb.Xml.ChildLists
import VaeDb.Xml.Freeing

/-!
# Trees of nodes

The owners of child lists form a tree if each of them but one is in the list of another.  The
links from its root are those of a forest that has every owner once (`Nested.forest`).  If the
owners are the allocated nodes, then freeing the tree frees everything once
(`Nested.xmlFreeNodeList_ok`).
-/

namespace VaeDb.Xml.Heap

open Links Relation

variable {A : Type} {heap : Heap A} {owner : A → Prop} {list : A → List A} {root a b : A}

/-- Child lists of a tree: they have all owners in them but the root, and nothing else. -/
structure Nested (heap : Heap A) (owner : A → Prop) (list : A → List A) (root : A) : Prop where
  lists : ChildLists heap owner list
  top : owner root
  ends : heap.next root = none
  child : ∀ a, owner a → ∀ b ∈ list a, owner b
  parent : ∀ a, owner a → a ≠ root → ∃ parent, owner parent ∧ a ∈ list parent
  height : ∃ height : A → ℕ, ∀ a, owner a → ∀ b ∈ list a, height b < height a
  depth : ∃ depth : A → ℕ, ∀ a, owner a → ∀ b ∈ list a, depth a < depth b

namespace Nested

variable (h : Nested heap owner list root)

include h

theorem mem_of_children (ha : owner a) (hb : heap.children a = some b) : b ∈ list a := by
  rw [h.lists.children_eq ha] at hb
  exact List.mem_of_head? hb

/-- A node with a next sibling is in the list of an owner. -/
theorem parent_of_next (ha : owner a) (hb : heap.next a = some b) :
    ∃ parent, owner parent ∧ a ∈ list parent := by
  refine h.parent a ha fun heq => ?_
  rw [heq, h.ends] at hb
  cases hb

theorem prev_of_next (ha : owner a) (hb : heap.next a = some b) : heap.prev b = some a := by
  obtain ⟨parent, hparent, hmem⟩ := h.parent_of_next ha hb
  exact h.lists.prev_of_next hparent hmem hb

/-- There is one link to a node at most. -/
theorem singly : Singly heap.children heap.next owner where
  closed a b ha hedge := by
    rcases hedge with hb | hb
    · exact h.child a ha b (h.mem_of_children ha hb)
    · obtain ⟨parent, hparent, hmem⟩ := h.parent_of_next ha hb
      exact h.child parent hparent b (h.lists.next_mem hparent hmem hb)
  unique a b c ha hb hac hbc := by
    rcases hac with hac | hac
    · rcases hbc with hbc | hbc
      · exact h.lists.owner_unique ha hb (h.mem_of_children ha hac) (h.mem_of_children hb hbc)
      · have hprev := h.lists.prev_of_children ha hac
        rw [h.prev_of_next hb hbc] at hprev
        cases hprev
    · rcases hbc with hbc | hbc
      · have hprev := h.lists.prev_of_children hb hbc
        rw [h.prev_of_next ha hac] at hprev
        cases hprev
      · exact Option.some.inj ((h.prev_of_next ha hac).symm.trans (h.prev_of_next hb hbc))
  apart a b ha hchildren hnext := by
    have hprev := h.lists.prev_of_children ha hchildren
    rw [h.prev_of_next ha hnext] at hprev
    cases hprev

/-- No link leads out of the tree. -/
theorem owner_of_link (ha : owner a) (hroot : heap.prev root = none)
    (hb : heap.children a = some b ∨ heap.last a = some b ∨ heap.next a = some b ∨
      heap.prev a = some b) : owner b := by
  rcases hb with hb | hb | hb | hb
  · exact h.singly.closed a b ha (Or.inl hb)
  · rw [h.lists.last a ha] at hb
    exact h.child a ha b (List.mem_of_getLast? hb)
  · exact h.singly.closed a b ha (Or.inr hb)
  · obtain ⟨parent, hparent, hmem⟩ := h.parent a ha fun heq => by
      rw [heq, hroot] at hb
      cases hb
    exact h.child parent hparent b (h.lists.prev_mem hparent hmem hb)

/-- The links from the children of a node end. -/
theorem acc_of_mem (ha : owner a) (hb : b ∈ list a) :
    Acc (fun c b => Edge heap.children heap.next b c) b := by
  obtain ⟨height, hheight⟩ := h.height
  induction hn : height a using Nat.strongRecOn generalizing a b with
  | ind n ih =>
      -- one child after the other, from the last one
      have hrest : ∀ rest first, list a = first ++ rest → ∀ b ∈ rest,
          Acc (fun c b => Edge heap.children heap.next b c) b := by
        intro rest
        induction rest with
        | nil =>
            intro first _ b hb
            cases hb
        | cons c rest ihrest =>
            intro first hlist
            have hlater := ihrest (first ++ [c]) (by rw [hlist, List.append_assoc]; rfl)
            have hc : c ∈ list a := hlist ▸ List.mem_append_right _ (List.mem_cons_self ..)
            intro b hb
            rcases List.mem_cons.1 hb with rfl | hb
            · refine ⟨_, fun d hedge => ?_⟩
              rcases hedge with hd | hd
              · have hb := h.child a ha b hc
                exact ih (height b) (hn ▸ hheight a ha b hc) hb (h.mem_of_children hb hd) rfl
              · rw [(h.lists.links ha hlist).1] at hd
                exact hlater d (List.mem_of_head? hd)
            · exact hlater b hb
      exact hrest (list a) [] rfl b hb

/-- The root leads to all owners. -/
theorem reach (ha : owner a) : Reach heap.children heap.next (some root) a := by
  obtain ⟨depth, hdepth⟩ := h.depth
  induction hn : depth a using Nat.strongRecOn generalizing a with
  | ind n ih =>
      by_cases heq : a = root
      · exact ⟨root, rfl, heq ▸ .refl⟩
      · obtain ⟨parent, hparent, hmem⟩ := h.parent a ha heq
        have hreach := ih (depth parent) (hn ▸ hdepth parent hparent a hmem) hparent rfl
        exact hreach.below ((h.lists.segment parent hparent).leads hmem).reach

/-- The nodes of a tree, each before its children and its next siblings. -/
theorem forest : ∃ nodes, Forest heap.children heap.next (some root) nodes ∧ nodes.Nodup ∧
    ∀ a, a ∈ nodes ↔ owner a := by
  have hstart : ∀ a, some root = some a → owner a := fun a heq => Option.some.inj heq ▸ h.top
  have hacc : Acc (fun c b => Edge heap.children heap.next b c) root := by
    refine ⟨_, fun b hedge => ?_⟩
    rcases hedge with hb | hb
    · exact h.acc_of_mem h.top (h.mem_of_children h.top hb)
    · rw [h.ends] at hb
      cases hb
  have hall : ∀ a, some root = some a →
      Acc (fun c b => Edge heap.children heap.next b c) a := fun a heq =>
    Option.some.inj heq ▸ hacc
  obtain ⟨nodes, hforest⟩ := exists_forest hall
  refine ⟨nodes, hforest, hforest.nodup h.singly hstart, fun a => ?_⟩
  rw [hforest.mem_iff]
  exact ⟨fun hreach => hreach.closed hstart h.singly.closed, h.reach⟩

/-- The nodes below one of them. -/
theorem forest_below (ha : owner a) : ∃ nodes,
    Forest heap.children heap.next (heap.children a) nodes ∧ nodes.Nodup ∧
      ∀ b ∈ nodes, owner b := by
  have hstart : ∀ b, heap.children a = some b → owner b := fun b hb =>
    h.child a ha b (h.mem_of_children ha hb)
  obtain ⟨nodes, hforest⟩ := exists_forest fun b hb =>
    h.acc_of_mem ha (h.mem_of_children ha hb)
  refine ⟨nodes, hforest, hforest.nodup h.singly hstart, fun b hb => ?_⟩
  exact (hforest.mem_iff.1 hb).closed hstart h.singly.closed

end Nested

/-! ## Freeing a tree -/

/-- The allocated property lists are those of the allocated nodes, one of each. -/
structure Listing (heap : Heap A) : Prop where
  own : ∀ a b list, heap.live a = true → heap.live b = true → heap.properties a = some list →
    heap.properties b = some list → a = b
  allocated : ∀ a list, heap.live a = true → heap.properties a = some list →
    heap.attributes list ≠ none
  owned : ∀ list, heap.attributes list ≠ none →
    ∃ a, heap.live a = true ∧ heap.properties a = some list

variable [DecidableEq A]

/-- Freeing a tree of all allocated nodes frees everything. -/
theorem Nested.xmlFreeNodeList_ok (h : Nested heap (fun a => heap.live a = true) list root)
    (hlisting : Listing heap) :
    ∃ bound, ∀ rounds, bound ≤ rounds → ∃ heap',
      xmlFreeNodeList rounds heap (some root) = .ok heap' ∧
      (∀ a, heap'.live a = false) ∧ ∀ list, heap'.attributes list = none := by
  obtain ⟨nodes, hforest, hnodup, hmem⟩ := h.forest
  refine ⟨nodes.length, fun rounds hrounds => ?_⟩
  obtain ⟨heap', hrun⟩ := Heap.xmlFreeNodeList_ok hforest rfl rfl rfl hnodup
    (fun a ha b hb list => hlisting.own a b list ((hmem a).1 ha) ((hmem b).1 hb))
    (fun a ha => ⟨(hmem a).1 ha, fun list => hlisting.allocated a list ((hmem a).1 ha)⟩) hrounds
  have hreleased := xmlFreeNodeList_released hrun
  refine ⟨heap', hrun, fun a => ?_, fun list => ?_⟩
  · refine Bool.eq_false_iff.2 fun hlive => ?_
    obtain ⟨hold, hnot⟩ := (hreleased.live a).1 hlive
    exact hnot (h.reach hold)
  · by_cases hnone : heap.attributes list = none
    · exact (hreleased.attributes list).elim id fun hsame => hsame.trans hnone
    · obtain ⟨a, ha, hlist⟩ := hlisting.owned list hnone
      exact hreleased.freed a list (h.reach ha) hlist

end VaeDb.Xml.Heap
