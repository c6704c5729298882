import VaeDb.Query.Designs
import VaeDb.Site.Structures

/-!
# Which lookups are absent

All calls of `getNode` look at the size first, but two: that of `structureFromStructureId` and
that of `runDesignQuery`.  So constructing a query and running it makes no absent lookup
(`fetchQuery_inBounds`), and `populateAttrs` makes one exactly if an element has a positive type
id that no element of the design section has (`context_outOfBounds_iff`).
-/

open Stops

namespace VaeDb

open Xml

/-! ## Attributes -/

section

variable {α : Type} (child : Attribute)

theorem Xml.Attribute.assign_inBounds (name : Str) (set : Str → α) (found : α) :
    StaysInBounds (child.assign name set found) := by
  unfold Attribute.assign Attribute.read
  split
  · apply Meets.bind (P := fun _ => True)
    · split
      · exact meets_pure trivial
      · exact meets_throw (by simp [InBounds])
    · exact fun _ _ => meets_pure trivial
  · exact meets_pure trivial

theorem readStructure_inBounds (properties : List Attribute) (found : Structure) :
    StaysInBounds (readStructure properties found) := by
  induction properties generalizing found with
  | nil => exact meets_pure trivial
  | cons child rest ih =>
      apply (child.assign_inBounds ..).bind
      intro found _
      apply (child.assign_inBounds ..).bind
      intro found _
      apply (child.assign_inBounds ..).bind
      intro found _
      exact ih found

theorem readAttrs_inBounds (stagingMode : Bool) (properties : List Attribute) (attrs : Attrs) :
    StaysInBounds (readAttrs stagingMode properties attrs) := by
  induction properties generalizing attrs with
  | nil => exact meets_pure trivial
  | cons child rest ih =>
      apply (child.assign_inBounds ..).bind
      intro attrs _
      apply (child.assign_inBounds ..).bind
      intro attrs _
      apply (child.assign_inBounds ..).bind
      intro attrs _
      split
      · exact meets_pure trivial
      · exact ih attrs

theorem Site.properties_inBounds (site : Site) (node : Address) :
    StaysInBounds (site.properties node) := by
  unfold Site.properties
  apply (site.heap.deref_inBounds node).bind
  intro _ _
  split
  · exact meets_pure trivial
  · split
    · exact meets_throw (by simp [InBounds])
    · exact meets_pure trivial

/-- A structure has the id that it is looked up for. -/
theorem readStructure_id {properties : List Attribute} {found result : Structure}
    (h : readStructure properties found = .ok result) : result.id = found.id := by
  have hassign : ∀ {name : Str} (set : Str → Structure → Structure) {found result : Structure}
      {child : Attribute}, (∀ content found, (set content found).id = found.id) →
      child.assign name (set · found) found = .ok result → result.id = found.id := by
    intro name set found result child hset hassign
    unfold Attribute.assign at hassign
    split at hassign
    · obtain ⟨content, _, hassign⟩ := Outcome.bind_eq_ok.1 hassign
      rw [← Outcome.pure_eq_ok.1 hassign]
      exact hset content found
    · rw [← Outcome.pure_eq_ok.1 hassign]
  induction properties generalizing found with
  | nil => rw [← Outcome.pure_eq_ok.1 h]
  | cons child rest ih =>
      obtain ⟨first, hfirst, h⟩ := Outcome.bind_eq_ok.1 h
      obtain ⟨second, hsecond, h⟩ := Outcome.bind_eq_ok.1 h
      obtain ⟨third, hthird, h⟩ := Outcome.bind_eq_ok.1 h
      calc result.id = third.id := ih h
        _ = second.id := hassign (fun content found => { found with type := content })
            (fun _ _ => rfl) hthird
        _ = first.id := hassign (fun content found => { found with permalink := content })
            (fun _ _ => rfl) hsecond
        _ = found.id := hassign (fun content found => { found with name := content })
            (fun _ _ => rfl) hfirst

end

/-! ## Queries -/

namespace Query

variable (evaluate : XPath) (rootNode : Address)

theorem getNode_zero_inBounds {nodes : List Found} (h : nodes.length ≠ 0) :
    StaysInBounds (getNode nodes 0) := by
  cases nodes with
  | nil => exact absurd rfl h
  | cons node nodes => exact meets_pure trivial

theorem runRawQuery_inBounds (node : Option Found) (q displayQuery : Str) :
    StaysInBounds (runRawQuery evaluate rootNode node q displayQuery) := by
  unfold runRawQuery
  split
  · exact meets_throw (by simp [InBounds])
  · exact meets_throw (by simp [InBounds])
  · exact meets_throw (by simp [InBounds])
  · split
    · next hne =>
        apply (getNode_zero_inBounds hne).bind
        intro first _
        split <;> exact meets_pure trivial
    · exact meets_pure trivial

theorem Found.properties_inBounds (site : Site) (node : Found) :
    StaysInBounds (node.properties site) := by
  cases node with
  | node address => exact site.properties_inBounds address
  | other => exact meets_pure trivial

theorem Found.context_inBounds (site : Site) (node : Found) :
    StaysInBounds (node.context site) := by
  cases node with
  | node address => exact (site.heap.deref_inBounds address).bind fun _ _ => meets_pure trivial
  | other => exact meets_pure trivial

section

variable {Node Context : Type} (document : Document Node Context)

theorem rewriteParts_inBounds (rounds : ℕ) (outside : Bool) (parts : List Str) :
    StaysInBounds (rewriteParts characters rounds outside parts) := by
  induction parts generalizing outside with
  | nil => cases outside <;> exact meets_pure trivial
  | cons part parts ih =>
      cases outside with
      | false => exact (ih true).bind fun _ _ => meets_pure trivial
      | true =>
          apply Meets.bind (P := fun _ => True)
          · refine Meets.foldlM trivial fun text rule _ _ => ?_
            unfold whileReplace
            split
            · exact meets_pure trivial
            · exact meets_throw (by simp [InBounds])
          · intro part _
            split
            · exact meets_throw (by simp [InBounds])
            · exact (ih false).bind fun _ _ => meets_pure trivial

theorem sibling_inBounds (name axis error : Str) (context : Option Context) (query : Str) :
    StaysInBounds (sibling document name axis error context query) := by
  unfold sibling
  split
  · split
    · exact meets_pure trivial
    · exact meets_throw (by simp [InBounds])
  · exact meets_pure trivial

theorem constructPath_inBounds (rounds : ℕ) (context : Option Context) (query q : Str) :
    StaysInBounds (constructPath document rounds context query q) := by
  apply (sibling_inBounds document ..).bind
  intro query _
  apply (sibling_inBounds document ..).bind
  intro query _
  apply Meets.bind (P := fun _ => True)
  · exact (rewriteParts_inBounds rounds true _).bind fun _ _ => meets_pure trivial
  · exact fun _ _ => meets_pure trivial

theorem constructId_inBounds (rounds : ℕ) (context : Option Context) (query q : Str) :
    StaysInBounds (constructId document rounds context query q) := by
  unfold constructId
  split
  · split
    · exact constructPath_inBounds document ..
    · exact meets_pure trivial
  · exact constructPath_inBounds document ..

theorem constructPermalink_inBounds (rounds : ℕ) (context : Option Context) (query q : Str) :
    StaysInBounds (constructPermalink document rounds context query q) := by
  unfold constructPermalink
  split
  · simp only
    split
    · exact meets_pure trivial
    · exact constructId_inBounds document ..
  · exact constructId_inBounds document ..

theorem construct_inBounds (rounds : ℕ) (context : Option Context) (q : Str) :
    StaysInBounds (construct document rounds context q) := by
  unfold construct
  split <;> exact constructPermalink_inBounds document ..

end

namespace View

variable (view : View)

theorem contextAt_inBounds (context : Address) : StaysInBounds (view.contextAt context) := by
  unfold contextAt
  split
  · exact meets_pure trivial
  · exact meets_throw (by simp [InBounds])

/-- Constructing a query makes no absent lookup. -/
theorem fetchQuery_inBounds (rounds : ℕ) (context : Option Address) (q : Str) :
    StaysInBounds (view.fetchQuery rounds context q) := by
  apply (construct_inBounds view.document ..).bind
  intro constructed _
  cases constructed with
  | result node => exact meets_pure trivial
  | runQuery context query displayQuery =>
      cases context with
      | none => exact runRawQuery_inBounds ..
      | some context =>
          exact (view.contextAt_inBounds context).bind fun _ _ => runRawQuery_inBounds ..

end View

/-! ## Designs -/

section

variable {evaluate : XPath} {stagingMode : Bool} {feed : Tree} {root path : Path} {id : ℤ}

/-- Looking a structure up is an absent lookup exactly if there is no design element. -/
theorem structureFromStructureId_outOfBounds_iff :
    structureFromStructureId (surroundings stagingMode evaluate feed root) id =
        .error (.undefined .outOfBounds) ↔ Undesigned evaluate root id := by
  have hquery := runRawQuery_inBounds evaluate (.feed root) none (designQuery id) (designQuery id)
  unfold structureFromStructureId Undesigned
  change (runRawQuery evaluate (.feed root) none (designQuery id) (designQuery id) >>= fun nodes =>
    getNode nodes 0 >>= fun node => node.properties (Site.parsed feed root) >>= fun properties =>
      pure (some properties)) >>= _ = _ ↔ _
  cases hrun : runRawQuery evaluate (.feed root) none (designQuery id) (designQuery id) with
  | error fault =>
      refine iff_of_false (fun h => ?_) (fun h => by cases h)
      exact hquery.allowed_of_error hrun (Except.error.inj h)
  | ok nodes =>
      cases nodes with
      | nil => exact iff_of_true rfl rfl
      | cons node nodes =>
          refine iff_of_false (fun h => ?_) (fun h => by cases h)
          -- the attributes of the design element are read
          have hread : InBounds (.undefined .outOfBounds) := by
            refine Meets.allowed_of_error (P := fun _ => True) ?_ h
            apply Meets.bind (P := fun _ => True)
            · exact (node.properties_inBounds _).bind fun _ _ => meets_pure trivial
            · intro found? _
              cases found? with
              | none => exact meets_pure trivial
              | some properties =>
                  exact (readStructure_inBounds properties _).bind fun _ _ => meets_pure trivial
          exact hread rfl

/-- `populateAttrs` makes an absent lookup exactly for an element whose type has no design
element. -/
theorem context_outOfBounds_iff :
    populateAttrs (surroundings stagingMode evaluate feed root) (feed.attributesAt path) =
        .error (.undefined .outOfBounds) ↔
      ∃ id, typeId? stagingMode feed path = some id ∧ Undesigned evaluate root id := by
  have hattrs := readAttrs_inBounds stagingMode (feed.attributesAt path) ⟨0, 0, none⟩
  unfold populateAttrs typeId?
  change readAttrs stagingMode (feed.attributesAt path) ⟨0, 0, none⟩ >>= _ = _ ↔ _
  cases hread : readAttrs stagingMode (feed.attributesAt path) ⟨0, 0, none⟩ with
  | error fault =>
      refine iff_of_false (fun h => ?_) (by rintro ⟨_, h, _⟩; cases h)
      exact hattrs.allowed_of_error hread (Except.error.inj h)
  | ok found =>
      cases found with
      | none => exact iff_of_false (fun h => nomatch h) (by rintro ⟨_, h, _⟩; cases h)
      | some attrs =>
          change (if attrs.structureId > 0 then _ else _) = _ ↔ _
          by_cases hpositive : attrs.structureId > 0
          · rw [if_pos hpositive]
            simp only [if_pos hpositive, Option.some.injEq, exists_eq_left']
            rw [← structureFromStructureId_outOfBounds_iff]
            cases structureFromStructureId (surroundings stagingMode evaluate feed root)
                attrs.structureId with
            | error fault =>
                constructor
                · intro h
                  exact congrArg _ (Except.error.inj h)
                · intro h
                  exact congrArg Except.error (Except.error.inj h)
            | ok structure? => exact iff_of_false (fun h => nomatch h) fun h => nomatch h
          · rw [if_neg hpositive]
            simp only [if_neg hpositive]
            exact iff_of_false (fun h => nomatch h) (by rintro ⟨_, h, _⟩; cases h)

/-- The Context of an element has a structure exactly if the element has a positive type id, and
its design element has been found. -/
theorem context_structure {ctxt : Context}
    (h : populateAttrs (surroundings stagingMode evaluate feed root) (feed.attributesAt path) =
      .ok (some ctxt)) :
    (ctxt.structure? = none ∧ typeId? stagingMode feed path = none) ∨
      ∃ found nodes, ctxt.structure? = some found ∧
        typeId? stagingMode feed path = some found.id ∧ nodes ≠ [] ∧
        runRawQuery evaluate (.feed root) none (designQuery found.id) (designQuery found.id) =
          .ok nodes := by
  unfold populateAttrs typeId? at *
  change readAttrs stagingMode (feed.attributesAt path) ⟨0, 0, none⟩ >>= _ = _ at h
  obtain ⟨attrs, hattrs, h⟩ := Outcome.bind_eq_ok.1 h
  rw [hattrs]
  cases attrs with
  | none => cases h
  | some attrs =>
      simp only at h ⊢
      by_cases hpositive : attrs.structureId > 0
      · rw [if_pos hpositive] at h ⊢
        obtain ⟨structure?, hstructure, h⟩ := Outcome.bind_eq_ok.1 h
        obtain rfl := Option.some.inj (Outcome.pure_eq_ok.1 h)
        obtain ⟨properties, hdesign, hstructure⟩ := Outcome.bind_eq_ok.1 hstructure
        obtain ⟨nodes, hnodes, hdesign⟩ := Outcome.bind_eq_ok.1 hdesign
        obtain ⟨node, hnode, hdesign⟩ := Outcome.bind_eq_ok.1 hdesign
        obtain ⟨list, _, hdesign⟩ := Outcome.bind_eq_ok.1 hdesign
        obtain rfl := Outcome.pure_eq_ok.1 hdesign
        obtain ⟨found, hfound, hstructure⟩ := Outcome.bind_eq_ok.1 hstructure
        obtain rfl := Outcome.pure_eq_ok.1 hstructure
        have hid : found.id = attrs.structureId := readStructure_id hfound
        refine Or.inr ⟨found, nodes, rfl, by rw [hid], ?_, hid ▸ hnodes⟩
        rintro rfl
        cases hnode
      · rw [if_neg hpositive] at h ⊢
        obtain ⟨structure?, hstructure, h⟩ := Outcome.bind_eq_ok.1 h
        obtain rfl := Option.some.inj (Outcome.pure_eq_ok.1 h)
        exact Or.inl ⟨(Outcome.pure_eq_ok.1 hstructure).symm, rfl⟩

end

end Query

end VaeDb
