import VaeDb.Site.Stopping

/-!
# The structures of the Contexts

A Context keeps the structure that it is constructed with: what the associations do to a Site
changes no structure, and it looks nothing up (`initializeAssociations_structured`).  So a load
makes an absent lookup exactly if the construction of the Contexts stops for one
(`loadXmlDoc_outOfBounds_iff`).
-/

open Stops

namespace VaeDb

open Xml

/-- All faults but that of an absent lookup. -/
def InBounds (fault : Fault) : Prop := fault ≠ .undefined .outOfBounds

/-- What makes no absent lookup. -/
abbrev StaysInBounds {α : Type} (x : Outcome α) : Prop := Meets InBounds (fun _ => True) x

/-! ## Nodes -/

namespace Xml.Heap

variable (heap : Heap Address)

theorem deref_inBounds (a : Address) : StaysInBounds (heap.deref a) := by
  unfold deref
  split
  · exact meets_pure trivial
  · exact meets_throw (by simp [InBounds])

theorem xmlUnlinkNode_inBounds (cur : Address) : StaysInBounds (heap.xmlUnlinkNode cur) := by
  unfold xmlUnlinkNode
  apply (heap.deref_inBounds cur).bind
  intro _ _
  cases heap.parent cur <;> cases heap.next cur <;> cases heap.prev cur
  all_goals
    simp only [pure_bind]
    repeat refine (deref_inBounds _ _).bind fun _ _ => ?_
    exact meets_pure trivial

theorem xmlAddChild_inBounds (parent cur : Address) :
    StaysInBounds (heap.xmlAddChild parent cur) := by
  unfold xmlAddChild
  apply (heap.deref_inBounds parent).bind
  intro _ _
  simp only
  split
  · exact meets_pure trivial
  · split
    · exact meets_throw (by simp [InBounds])
    · exact (deref_inBounds _ _).bind fun _ _ => meets_pure trivial

theorem xmlCopyNode_inBounds (node copy : Address) :
    StaysInBounds (heap.xmlCopyNode node copy) :=
  (heap.deref_inBounds node).bind fun _ _ => meets_pure trivial

theorem xmlFreePropList_inBounds (properties : Option Address) :
    StaysInBounds (heap.xmlFreePropList properties) := by
  unfold xmlFreePropList
  split
  · exact meets_pure trivial
  · split
    · exact meets_throw (by simp [InBounds])
    · exact meets_pure trivial

theorem xmlFree_inBounds (cur : Address) : StaysInBounds (heap.xmlFree cur) := by
  unfold xmlFree
  split
  · exact meets_pure trivial
  · exact meets_throw (by simp [InBounds])

theorem xmlFreeNodeList_inBounds (rounds : ℕ) (start : Option Address) :
    StaysInBounds (xmlFreeNodeList rounds heap start) := by
  induction rounds generalizing heap start with
  | zero =>
      cases start with
      | none => exact meets_pure trivial
      | some cur => exact meets_throw (by simp [InBounds])
  | succ rounds ih =>
      cases start with
      | none => exact meets_pure trivial
      | some cur =>
          apply (heap.deref_inBounds cur).bind
          intro _ _
          apply (ih heap (heap.children cur)).bind
          intro heap1 _
          apply (heap1.xmlFreePropList_inBounds _).bind
          intro heap2 _
          apply (heap2.xmlFree_inBounds cur).bind
          intro heap3 _
          exact ih heap3 (heap.next cur)

theorem xmlFreeNode_inBounds (rounds : ℕ) (cur : Address) :
    StaysInBounds (heap.xmlFreeNode rounds cur) := by
  apply (heap.deref_inBounds cur).bind
  intro _ _
  apply (heap.xmlFreeNodeList_inBounds rounds _).bind
  intro heap1 _
  apply (heap1.xmlFreePropList_inBounds _).bind
  intro heap2 _
  exact heap2.xmlFree_inBounds cur

end Xml.Heap

/-! ## Associations -/

namespace Site

variable (rounds : ℕ) (heap : Heap Address) (node associatedNode : Address)

theorem getSingleData_inBounds : StaysInBounds (getSingleData heap node) := by
  unfold getSingleData
  apply (heap.deref_inBounds node).bind
  intro _ _
  split
  · exact meets_pure trivial
  · apply (heap.deref_inBounds _).bind
    intro _ _
    split <;> exact meets_pure trivial

theorem associateForward_inBounds :
    StaysInBounds (associateForward rounds heap node associatedNode) := by
  unfold associateForward
  apply (heap.deref_inBounds node).bind
  intro _ _
  apply (heap.xmlFreePropList_inBounds _).bind
  intro heap1 _
  split
  · exact meets_throw (by simp [InBounds])
  · apply (heap1.deref_inBounds _).bind
    intro _ _
    apply (heap1.xmlFreeNodeList_inBounds rounds _).bind
    intro heap2 _
    apply (heap2.deref_inBounds _).bind
    intro _ _
    apply (heap2.deref_inBounds _).bind
    intro _ _
    exact (heap2.deref_inBounds _).bind fun _ _ => meets_pure trivial

theorem associateReverse_inBounds :
    StaysInBounds (associateReverse heap node associatedNode) := by
  unfold associateReverse
  apply (heap.deref_inBounds node).bind
  intro _ _
  split
  · exact meets_throw (by simp [InBounds])
  · apply (heap.xmlCopyNode_inBounds _ _).bind
    intro heap1 _
    exact Heap.xmlAddChild_inBounds _ _ _

theorem updatePointerNodes_inBounds (pointerNodes : List Address) :
    StaysInBounds (updatePointerNodes associatedNode pointerNodes heap) := by
  induction pointerNodes generalizing heap with
  | nil => exact meets_pure trivial
  | cons pointerNode rest ih => exact (heap.deref_inBounds pointerNode).bind fun _ _ => ih _

end Site

namespace Source

variable {source : Source} {site : Site} {rounds : ℕ} {node associatedNode : Address}
  {path : Path}

/-- The Contexts have the structures that they were constructed with. -/
def Structured (source : Source) (contexts : Address → Option Context) : Prop :=
  ∀ node ctxt, contexts node = some ctxt → ∃ path original, node = .feed path ∧
    source.context path = .ok (some original) ∧ ctxt.structure? = original.structure?

variable {contexts : Address → Option Context}

/-- A Context takes the place of one with the same structure. -/
theorem Structured.replace {ctxt ctxt' : Context} (h : source.Structured contexts)
    (hctxt : contexts node = some ctxt) (hstructure : ctxt'.structure? = ctxt.structure?) :
    source.Structured (Function.update contexts node (some ctxt')) := by
  intro other found hfound
  by_cases heq : other = node
  · subst heq
    rw [Function.update_self] at hfound
    obtain rfl := Option.some.inj hfound
    obtain ⟨path, original, hother, horiginal, hsame⟩ := h other ctxt hctxt
    exact ⟨path, original, hother, horiginal, hstructure.trans hsame⟩
  · rw [Function.update_of_ne heq] at hfound
    exact h other found hfound

/-- A Context is deleted. -/
theorem Structured.delete (h : source.Structured contexts) (node : Address) :
    source.Structured (Function.update contexts node none) := by
  intro other found hfound
  by_cases heq : other = node
  · rw [heq, Function.update_self] at hfound
    cases hfound
  · rw [Function.update_of_ne heq] at hfound
    exact h other found hfound

theorem contextOf_inBounds (site : Site) (node : Address) :
    Meets InBounds (fun found => site.contexts found.1 = some found.2)
      (site.contextOf node) := by
  unfold Site.contextOf
  split
  · exact meets_throw (by simp [InBounds])
  · split
    · exact meets_throw (by simp [InBounds])
    · next heq => exact meets_pure heq

theorem associate_structured (h : source.Structured site.contexts) :
    Meets InBounds (fun site' => source.Structured site'.contexts)
      (Site.associate rounds site node associatedNode) := by
  unfold Site.associate
  apply (Site.associateForward_inBounds rounds _ _ _).bind
  intro heap1 _
  apply (Site.associateReverse_inBounds _ _ _).bind
  intro heap2 _
  simp only
  split
  · exact meets_throw (by simp [InBounds])
  · apply (contextOf_inBounds _ _).bind
    rintro ⟨parentAddress, parentContext⟩ hparent
    -- the Context of the parent has one more pointer node
    have hreplaced : source.Structured (Function.update site.contexts parentAddress
        (some { parentContext with
          pointerNodes := parentContext.pointerNodes ++ [Address.pointer node] })) :=
      h.replace hparent rfl
    apply (contextOf_inBounds _ _).bind
    intro _ _
    apply (Site.updatePointerNodes_inBounds _ _ _).bind
    intro _ _
    exact meets_pure (hreplaced.delete node)

/-- `initializeAssociation` looks nothing up, and changes no structure. -/
theorem initializeAssociation_structured (h : source.Structured site.contexts) :
    Meets InBounds (fun site' => source.Structured site'.contexts)
      (Site.initializeAssociation rounds site node) := by
  unfold Site.initializeAssociation
  apply (Site.getSingleData_inBounds _ _).bind
  intro data _
  split
  · exact associate_structured h
  · apply (Heap.xmlUnlinkNode_inBounds _ _).bind
    intro heap1 _
    apply (Heap.xmlFreeNode_inBounds _ _ _).bind
    intro heap2 _
    exact meets_pure (h.delete node)

theorem turns_structured (h : source.Structured site.contexts) (items : List Address) :
    Meets InBounds (fun site' => source.Structured site'.contexts)
      (items.foldlM (Site.initializeAssociation rounds) site) :=
  Meets.foldlM (Q := fun site' : Site => source.Structured site'.contexts) h
    fun _ _ _ hkept => initializeAssociation_structured hkept

theorem initializeAssociations_structured (h : source.Structured site.contexts) :
    Meets InBounds (fun site' => source.Structured site'.contexts)
      (Site.initializeAssociations rounds site) :=
  (turns_structured h _).bind fun _ hkept => meets_pure hkept

/-! ## Loads -/

/-- What the construction leaves has the structures of `populateAttrs`. -/
theorem constructContexts_structured
    (hrun : Site.constructContexts source.surroundings rounds
      (Site.parsed source.feed source.root) = .ok site) : source.Structured site.contexts := by
  obtain ⟨removed, _, hnoted⟩ := constructContexts_noted hrun
  intro node ctxt hctxt
  rcases hnoted.contexts.other node with hsame | ⟨path, rfl, hvisited, hvalue⟩
  · rw [hsame] at hctxt
    cases hctxt
  · obtain ⟨_, original, horiginal⟩ := hvisited
    rw [hvalue, context?_eq horiginal] at hctxt
    exact ⟨path, original, rfl, horiginal, by rw [Option.some.inj hctxt]⟩

theorem loadXmlDoc_structured (hcontent : source.feed.website "content" = [source.root])
    (hload : Site.loadXmlDoc source.surroundings rounds (some source.feed) = .ok site) :
    source.Structured site.contexts := by
  obtain ⟨built, initialized, generation, hbuilt, hinitialized, rfl⟩ :=
    loadXmlDoc_run hcontent hload
  have h : source.Structured initialized.contexts :=
    (turns_structured (constructContexts_structured hbuilt) _).of_ok hinitialized
  exact h

section

variable {design : Path} (hcontent : source.feed.website "content" = [source.root])
  (hdesign : source.feed.website "design" = [design])

include hcontent hdesign

/-- A load constructs the Contexts, then initializes the associations. -/
theorem loadXmlDoc_eq :
    Site.loadXmlDoc source.surroundings rounds (some source.feed) = (do
      let site ← Site.constructContexts source.surroundings rounds
        (Site.parsed source.feed source.root)
      let site ← Site.initializeAssociations rounds site
      match source.feed.website "generation" with
      | [generationNode] => return { site with
          generation := toInt32 (strtol (source.feed.singleData generationNode)) }
      | _ => throw (.vaeDbInternalError "Could not find feed generation node in XML file")) := by
  rcases hgeneration : source.feed.website "generation" with _ | ⟨generationNode, _ | ⟨_, _⟩⟩
  · simp only [Site.loadXmlDoc, hcontent, hdesign, hgeneration]
  · simp only [Site.loadXmlDoc, hcontent, hdesign, hgeneration]
  · simp only [Site.loadXmlDoc, hcontent, hdesign, hgeneration]

/-- A load makes an absent lookup exactly if the construction does, with the first element that
stops. -/
theorem loadXmlDoc_outOfBounds_iff (hrounds : source.feed.size ≤ rounds) :
    Site.loadXmlDoc source.surroundings rounds (some source.feed) =
        .error (.undefined .outOfBounds) ↔
      ∃ path, source.StopsFirst (fun _ => True) (.undefined .outOfBounds) path := by
  rw [loadXmlDoc_eq hcontent hdesign]
  have hstops := constructContexts_stops hrounds
  cases hrun : Site.constructContexts source.surroundings rounds
      (Site.parsed source.feed source.root) with
  | error fault =>
      rw [hrun] at hstops
      obtain ⟨path, hfirst⟩ := hstops
      constructor
      · intro h
        obtain rfl := Except.error.inj h
        exact ⟨path, hfirst⟩
      · rintro ⟨other, hother⟩
        obtain ⟨_, rfl⟩ := hfirst.unique hother
        rfl
  | ok site =>
      constructor
      · intro h
        have hkept : Meets InBounds _ (Site.initializeAssociations rounds site) :=
          initializeAssociations_structured (constructContexts_structured hrun)
        change Site.initializeAssociations rounds site >>= _ = _ at h
        cases hassociations : Site.initializeAssociations rounds site with
        | error fault =>
            rw [hassociations] at h hkept
            exact absurd (Except.error.inj h) hkept
        | ok site' =>
            rw [hassociations] at h
            change (match source.feed.website "generation" with
              | [generationNode] => _
              | _ => _ : Outcome Site) = _ at h
            split at h
            · cases h
            · cases h
      · rintro ⟨path, hfirst⟩
        obtain ⟨removed, hbuilt⟩ := constructContexts_built hrun
        obtain ⟨ctxt, hctxt⟩ : ∃ ctxt, source.context path = .ok ctxt := by
          rcases hbuilt.settled path hfirst.child with hremoved | ⟨_, ctxt, hctxt⟩
          · exact ⟨none, (hbuilt.constructing.pruned path hremoved).2⟩
          · exact ⟨some ctxt, hctxt⟩
        rw [hfirst.stops] at hctxt
        cases hctxt

end

end Source

end VaeDb
