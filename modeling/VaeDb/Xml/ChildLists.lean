import VaeDb.Xml.Heap

/-!
# Child lists

`Heap.ChildLists` gives the child lists of some nodes, its owners: `children` and `last` are
the ends of the list, `next` and `prev` go through it, and no two lists share a node.
Unlinking takes a node out of its list (`ChildLists.unlink`), and adding a child puts it at
the end (`ChildLists.addChild`).  Links of nodes that are in none of these lists do not
matter (`ChildLists.congr`).
-/

namespace VaeDb.Xml.Heap

open Links

variable {A : Type} {heap heap' : Heap A} {owner owner' : A → Prop} {list list' : A → List A}
  {parent cur a b c : A}

/-- The child lists of some nodes. -/
structure ChildLists (heap : Heap A) (owner : A → Prop) (list : A → List A) : Prop where
  segment : ∀ a, owner a → Segment heap.next heap.prev none (heap.children a) (list a) none
  last : ∀ a, owner a → heap.last a = (list a).getLast?
  nodup : ∀ a, owner a → (list a).Nodup
  disjoint : ∀ a b, owner a → owner b → a ≠ b → (list a).Disjoint (list b)

namespace ChildLists

variable (h : ChildLists heap owner list)

include h

theorem children_eq (ha : owner a) : heap.children a = (list a).head? := by
  rw [(h.segment a ha).start_eq, Option.or_none]

/-- Where the links of a child lead. -/
theorem links {first rest : List A} (ha : owner a) (hlist : list a = first ++ b :: rest) :
    heap.next b = rest.head? ∧ heap.prev b = first.getLast? := by
  have hsegment := h.segment a ha
  rw [hlist] at hsegment
  exact ⟨by rw [hsegment.next_eq, Option.or_none], by rw [hsegment.prev_eq, Option.or_none]⟩

theorem next_mem (ha : owner a) (hb : b ∈ list a) (hnext : heap.next b = some c) :
    c ∈ list a := by
  obtain ⟨first, rest, hlist⟩ := List.append_of_mem hb
  rw [(h.links ha hlist).1] at hnext
  rw [hlist]
  exact List.mem_append_right _ (List.mem_cons_of_mem _ (List.mem_of_head? hnext))

theorem prev_mem (ha : owner a) (hb : b ∈ list a) (hprev : heap.prev b = some c) :
    c ∈ list a := by
  obtain ⟨first, rest, hlist⟩ := List.append_of_mem hb
  rw [(h.links ha hlist).2] at hprev
  rw [hlist]
  exact List.mem_append_left _ (List.mem_of_getLast? hprev)

/-- The links of a list lead back. -/
theorem prev_of_next (ha : owner a) (hb : b ∈ list a) (hnext : heap.next b = some c) :
    heap.prev c = some b := by
  obtain ⟨first, rest, hlist⟩ := List.append_of_mem hb
  rw [(h.links ha hlist).1] at hnext
  obtain ⟨rest, rfl⟩ := List.head?_eq_some_iff.1 hnext
  rw [List.append_cons] at hlist
  rw [(h.links ha hlist).2, List.getLast?_concat]

theorem prev_of_children (ha : owner a) (hchildren : heap.children a = some b) :
    heap.prev b = none := by
  rw [h.children_eq ha] at hchildren
  obtain ⟨rest, hlist⟩ := List.head?_eq_some_iff.1 hchildren
  exact (h.links ha (hlist.trans (List.nil_append _).symm)).2

/-- Two owners of one child are the same. -/
theorem owner_unique (ha : owner a) (hb : owner b) (hca : c ∈ list a) (hcb : c ∈ list b) :
    a = b := by
  by_contra hne
  exact h.disjoint a b ha hb hne hca hcb

/-- The lists only depend on the links of the owners and of the nodes in the lists. -/
theorem congr (howner : ∀ a, owner' a → owner a) (hlist : ∀ a, owner' a → list' a = list a)
    (hchildren : ∀ a, owner' a → heap'.children a = heap.children a)
    (hlast : ∀ a, owner' a → heap'.last a = heap.last a)
    (hnext : ∀ a, owner' a → ∀ b ∈ list a, heap'.next b = heap.next b)
    (hprev : ∀ a, owner' a → ∀ b ∈ list a, heap'.prev b = heap.prev b) :
    ChildLists heap' owner' list' where
  segment a ha := by
    rw [hlist a ha, hchildren a ha]
    exact (h.segment a (howner a ha)).congr (hnext a ha) (hprev a ha)
  last a ha := by
    rw [hlist a ha, hlast a ha]
    exact h.last a (howner a ha)
  nodup a ha := by
    rw [hlist a ha]
    exact h.nodup a (howner a ha)
  disjoint a b ha hb hne := by
    rw [hlist a ha, hlist b hb]
    exact h.disjoint a b (howner a ha) (howner b hb) hne

theorem lastChild_eq (ha : owner a) : heap.lastChild a = (list a).getLast? := by
  unfold lastChild
  rw [h.children_eq ha, h.last a ha]
  cases list a with
  | nil => rfl
  | cons b rest => rfl

end ChildLists

variable [DecidableEq A]

/-- Unlinking a node returns if the nodes that are linked to it are allocated. -/
theorem xmlUnlinkNode_ok (hcur : heap.live cur = true)
    (hparent : ∀ a, heap.parent cur = some a → heap.live a = true)
    (hnext : ∀ a, heap.next cur = some a → heap.live a = true)
    (hprev : ∀ a, heap.prev cur = some a → heap.live a = true) :
    ∃ heap', heap.xmlUnlinkNode cur = .ok heap' := by
  unfold xmlUnlinkNode deref
  -- each of the neighbours that there are is read
  cases hparent' : heap.parent cur <;> cases hnext' : heap.next cur <;>
    cases hprev' : heap.prev cur <;> simp [*]

/-- The last node of a list that a node is taken out of. -/
theorem getLast?_remove {first rest : List A} (hnodup : (first ++ cur :: rest).Nodup) :
    (if (first ++ cur :: rest).getLast? = some cur then first.getLast?
      else (first ++ cur :: rest).getLast?) = (first ++ rest).getLast? := by
  rw [List.getLast?_append_cons]
  cases rest with
  | nil => simp
  | cons b rest =>
      have hcur : cur ∉ b :: rest := (List.nodup_cons.1 (List.nodup_append'.1 hnodup).2.1).1
      have hne : (b :: rest).getLast? ≠ some cur := fun heq => hcur (List.mem_of_getLast? heq)
      rw [List.getLast?_cons_cons, if_neg hne, List.getLast?_append_cons]

/-- Unlinking takes a node out of the list that it is in. -/
theorem ChildLists.unlink (h : ChildLists heap owner list) (howner : owner parent)
    (hcur : cur ∈ list parent) (hparent : heap.parent cur = some parent)
    (hrun : heap.xmlUnlinkNode cur = .ok heap') :
    ChildLists heap' owner (Function.update list parent ((list parent).erase cur)) := by
  obtain ⟨first, rest, hlist⟩ := List.append_of_mem hcur
  have hnodup := h.nodup parent howner
  have hfirst : cur ∉ first := by
    rw [hlist] at hnodup
    exact fun hmem => List.disjoint_of_nodup_append hnodup hmem (List.mem_cons_self ..)
  have herase : (list parent).erase cur = first ++ rest := by
    rw [hlist, List.erase_append_right _ hfirst, List.erase_cons_head]
  have heq := xmlUnlinkNode_eq hrun hparent
  have hout : ∀ a, owner a → a ≠ parent → ∀ b ∈ list a, ∀ c ∈ list parent, b ≠ c :=
    fun a ha hne b hb c hc hbc => h.disjoint a parent ha howner hne hb (hbc ▸ hc)
  constructor
  case segment =>
    intro a ha
    rw [heq]
    by_cases hap : a = parent
    · subst hap
      simp only [Function.update_self]
      rw [herase]
      have hsegment := h.segment a ha
      rw [hlist] at hsegment hnodup
      exact hsegment.unlink hnodup fun b hb => by cases hb
    · simp only [Function.update_of_ne hap]
      refine (h.segment a ha).congr (fun b hb => ?_) fun b hb => ?_
      · refine unlinkNext_of_ne (hout a ha hap b hb cur hcur) fun hprev => ?_
        exact hout a ha hap b hb b (h.prev_mem howner hcur hprev) rfl
      · refine unlinkPrev_of_ne (hout a ha hap b hb cur hcur) fun hnext => ?_
        exact hout a ha hap b hb b (h.next_mem howner hcur hnext) rfl
  case last =>
    intro a ha
    rw [heq]
    by_cases hap : a = parent
    · subst hap
      simp only [Function.update_self]
      rw [herase, h.last a ha, (h.links ha hlist).2, hlist]
      rw [hlist] at hnodup
      exact getLast?_remove hnodup
    · simp only [Function.update_of_ne hap]
      exact h.last a ha
  case nodup =>
    intro a ha
    by_cases hap : a = parent
    · subst hap
      rw [Function.update_self]
      exact hnodup.erase cur
    · rw [Function.update_of_ne hap]
      exact h.nodup a ha
  case disjoint =>
    have hsub : ∀ a, owner a → ∀ b ∈ Function.update list parent ((list parent).erase cur) a,
        b ∈ list a := by
      intro a ha b hb
      by_cases hap : a = parent
      · subst hap
        rw [Function.update_self] at hb
        exact List.mem_of_mem_erase hb
      · rwa [Function.update_of_ne hap] at hb
    intro a b ha hb hne c hca hcb
    exact h.disjoint a b ha hb hne (hsub a ha c hca) (hsub b hb c hcb)

/-- Adding a child puts it at the end of the list. -/
theorem ChildLists.addChild (h : ChildLists heap owner list) (howner : owner parent)
    (hcur : ∀ a, owner a → cur ∉ list a) (hnext : heap.next cur = none)
    (hprev : heap.prev cur = none) (hrun : heap.xmlAddChild parent cur = .ok heap') :
    ChildLists heap' owner (Function.update list parent (list parent ++ [cur])) := by
  obtain ⟨_, _, _, heq⟩ := xmlAddChild_eq hrun
  rw [h.lastChild_eq howner] at heq
  have hnextCur : setAt heap.next (list parent).getLast? (some cur) cur = none := by
    refine (setAt_of_ne (fun hlast => ?_) _).trans hnext
    exact hcur parent howner (List.mem_of_getLast? hlast)
  constructor
  case segment =>
    intro a ha
    rw [heq]
    by_cases hap : a = parent
    · subst hap
      simp only [Function.update_self]
      have hsegment := h.segment a ha
      rw [h.children_eq ha] at hsegment ⊢
      cases hlist : list a with
      | nil =>
          rw [hlist] at hnextCur
          exact ⟨rfl, hprev, hnextCur⟩
      | cons b rest =>
          obtain ⟨z, hz⟩ : ∃ z, (b :: rest).getLast? = some z :=
            ⟨_, List.getLast?_eq_some_getLast (List.cons_ne_nil b rest)⟩
          rw [hlist] at hsegment hnextCur
          have hnodup := h.nodup a ha
          have hout := hcur a ha
          rw [hlist] at hnodup hout
          rw [hz] at hnextCur
          have hnone : ((b :: rest).head? = none) = False := by simp
          simp only [hz, setAt_some, hnone, if_false] at hnextCur ⊢
          refine segment_append.2 ⟨some cur, ?_, rfl, ?_, hnextCur⟩
          · refine (hsegment.retarget hnodup hz).congr (fun _ _ => rfl) fun c hc => ?_
            exact Function.update_of_ne (ne_of_mem_of_not_mem hc hout) _ _
          · rw [Function.update_self, hz]
            rfl
    · simp only [Function.update_of_ne hap]
      refine (h.segment a ha).congr (fun b hb => ?_) fun b hb => ?_
      · refine setAt_of_ne (fun hlast => ?_) _
        exact h.disjoint a parent ha howner hap hb (List.mem_of_getLast? hlast)
      · split
        · rfl
        · exact Function.update_of_ne (ne_of_mem_of_not_mem hb (hcur a ha)) _ _
  case last =>
    intro a ha
    rw [heq]
    by_cases hap : a = parent
    · subst hap
      simp only [Function.update_self]
      rw [List.getLast?_concat]
    · simp only [Function.update_of_ne hap]
      exact h.last a ha
  case nodup =>
    intro a ha
    by_cases hap : a = parent
    · subst hap
      rw [Function.update_self]
      rw [← List.concat_eq_append]
      exact (h.nodup a ha).concat (hcur a ha)
    · rw [Function.update_of_ne hap]
      exact h.nodup a ha
  case disjoint =>
    have hsub : ∀ a, owner a → ∀ b ∈ Function.update list parent (list parent ++ [cur]) a,
        b ∈ list a ∨ b = cur ∧ a = parent := by
      intro a ha b hb
      by_cases hap : a = parent
      · subst hap
        rw [Function.update_self] at hb
        rcases List.mem_append.1 hb with hb | hb
        · exact Or.inl hb
        · exact Or.inr ⟨List.mem_singleton.1 hb, rfl⟩
      · rw [Function.update_of_ne hap] at hb
        exact Or.inl hb
    intro a b ha hb hne c hca hcb
    rcases hsub a ha c hca with hca' | ⟨hc, hap⟩
    · rcases hsub b hb c hcb with hcb' | ⟨hc, _⟩
      · exact h.disjoint a b ha hb hne hca' hcb'
      · exact hcur a ha (hc ▸ hca')
    · rcases hsub b hb c hcb with hcb' | ⟨_, hbp⟩
      · exact hcur b hb (hc ▸ hcb')
      · exact hne (hap.trans hbp.symm)

end VaeDb.Xml.Heap
