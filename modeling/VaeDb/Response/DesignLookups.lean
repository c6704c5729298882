import VaeDb.Query.Bounds
import VaeDb.Query.Loops
import VaeDb.Response.CreateInfo

/-!
# Absent design lookups

A Site is loaded and a request for `createInfo` is answered.  Two lookups in the design section
are not guarded:

```text
structureFromStructureId   getNode(0) of a query that may have found nothing
getStructureId             the id of a structure that may be null
```

The first is absent for an element with a positive type id that no design element has, and the
load comes to it unless something before it stops the load.  The second is absent for a Context
without a positive type id, if `createInfo` looks something up below it.  All other lookups are
guarded, or they find again what the load has found (`serve_neverAbsent_iff`).
-/

open Stops

namespace VaeDb

open Xml

namespace Source

/-- The elements that the construction comes to: `populateAttrs` returns for all before them. -/
def ComesTo (source : Source) (path : Path) : Prop :=
  source.Child path ∧ ∀ other, source.Child other → Precedes other path →
    ∃ ctxt, source.context other = .ok ctxt

theorem stopsFirst_iff {source : Source} {fault : Fault} {path : Path} :
    source.StopsFirst (fun _ => True) fault path ↔
      source.ComesTo path ∧ source.context path = .error fault :=
  ⟨fun h => ⟨⟨h.child, fun other => h.earlier other trivial⟩, h.stops⟩,
    fun h => ⟨trivial, h.1.1, h.2, fun other _ => h.1.2 other⟩⟩

end Source

namespace Response.Creating

open Query

/-! ## The statement -/

/-- `getNode` is called for a node that is not there, or `getStructureId` without a structure. -/
def Absent : Stop → Prop
  | .nullStructure => True
  | .fault fault => fault = .undefined .outOfBounds

/-- What makes no absent lookup. -/
def NeverAbsent {α : Type} (x : Run α) : Prop := ∀ stop, x = .error stop → ¬ Absent stop

/-- What a load with this surroundings works on. -/
def sourceOf (stagingMode : Bool) (evaluate : XPath) {feed : Tree} {root : Path}
    (hcontent : feed.website "content" = [root]) : Source where
  surroundings := surroundings stagingMode evaluate feed root
  feed := feed
  root := root
  root_element := by
    obtain ⟨_, _, helement⟩ := Tree.website_eq (hcontent ▸ List.mem_singleton_self root)
    exact helement

/-- `createInfo` looks something up below the design node of a Context. -/
structure LooksUp (view : View) (steps : ℕ) (context : Option Address) (query : Str)
    (start : Address) : Prop where
  main : mainContext view steps context query = .ok (some start)
  alive : ∃ ctxt, view.contextAt start = .ok ctxt
  name : atoi (lastPart query) = 0

/-- The calls of `createInfo` that are made: all before them return. -/
def Called (view : View) (steps : ℕ) (parent : Option (List (ResponseContext Address)))
    (query : Str) (context : Option Address) : Prop :=
  ∃ done rest, callsOf parent = done ++ context :: rest ∧
    ∀ other ∈ done, ∃ ci, createInfo view steps other query = .ok ci

/-! ## A call of `createInfo` -/

variable {α β : Type} {stagingMode : Bool} {evaluate : XPath} {feed : Tree} {root design : Path}
  {rounds steps : ℕ} {query : Str} {context : Option Address}

/-- The same with the rules of computations that stop. -/
abbrev Guarded (x : Run α) : Prop := Meets (fun stop => ¬ Absent stop) (fun _ => True) x

theorem neverAbsent_iff {x : Run α} : NeverAbsent x ↔ Guarded x := by
  cases x with
  | error stop => exact ⟨fun h => h stop rfl, fun h stop' heq => Except.error.inj heq ▸ h⟩
  | ok a => exact ⟨fun _ => trivial, fun _ _ heq => nomatch heq⟩

theorem guarded_run {x : Outcome α} (h : StaysInBounds x) : Guarded (run x) := by
  cases x with
  | error fault => exact h
  | ok a => exact trivial

theorem guarded_getNode {nodes : List Found} (h : nodes.length > 0) :
    Guarded (run (Query.getNode nodes 0)) :=
  guarded_run (getNode_zero_inBounds (Nat.ne_of_gt h))

theorem mainContext_inBounds (view : View) :
    StaysInBounds (mainContext view steps context query) := by
  unfold mainContext
  simp only
  split
  · exact meets_pure trivial
  · split
    · apply (view.fetchQuery_inBounds ..).bind
      intro p_query _
      split
      · next hsize =>
          apply (getNode_zero_inBounds (Nat.ne_of_gt hsize)).bind
          intro node _
          exact node.context_inBounds _
      · exact meets_pure trivial
    · exact meets_pure trivial

theorem rowId_inBounds (view : View) : StaysInBounds (rowId view context) := by
  cases context with
  | none => exact meets_pure trivial
  | some context => exact (view.contextAt_inBounds context).bind fun _ _ => meets_pure trivial

theorem readStructureId_inBounds (properties : List Xml.Attribute) (found : Option ℤ) :
    StaysInBounds (readStructureId properties found) := by
  induction properties generalizing found with
  | nil => exact meets_pure trivial
  | cons child rest ih => exact (child.assign_inBounds ..).bind fun found _ => ih found

/-- What comes after a computation makes no difference if it is guarded itself. -/
theorem guarded_bind_iff {x : Run α} {f : α → Run β} (h : ∀ a, Guarded (f a)) :
    Guarded (x >>= f) ↔ Guarded x := by
  cases x with
  | error stop => exact Iff.rfl
  | ok a => exact iff_of_true (h a) trivial

section

variable {view : View} {hcontent : feed.website "content" = [root]}
  (hevaluate : view.evaluate = evaluate) (hroot : view.site.rootNode = .feed root)
  (hstructured : (sourceOf stagingMode evaluate hcontent).Structured view.site.contexts)

include hevaluate hroot hstructured

/-- Below the design node of a Context, something is looked up if its element has a type. -/
theorem runDesignQuery_guarded_iff {start : Address}
    (halive : ∃ ctxt, view.contextAt start = .ok ctxt) (q : Str) :
    Guarded (runDesignQuery view (some start) q) ↔
      ∃ path, start = .feed path ∧ (typeId? stagingMode feed path).isSome := by
  obtain ⟨ctxt, halive⟩ := halive
  have hctxt : view.site.contexts start = some ctxt := by
    unfold View.contextAt at halive
    split at halive
    · next heq => rw [heq, Outcome.pure_eq_ok.1 halive]
    · cases halive
  obtain ⟨path, original, rfl, horiginal, hsame⟩ := hstructured start ctxt hctxt
  change Guarded (run (view.contextAt (.feed path)) >>= _) ↔ _
  rw [halive]
  change Guarded (getStructureId ctxt >>= _) ↔ _
  unfold getStructureId
  rw [hsame]
  rcases context_structure horiginal with ⟨hnone, htype⟩ | ⟨found, nodes, hsome, htype, hne, hnodes⟩
  · rw [hnone]
    refine iff_of_false (fun h => h trivial) ?_
    rintro ⟨other, heq, hother⟩
    obtain rfl := Address.feed.inj heq
    rw [htype] at hother
    cases hother
  · rw [hsome]
    refine iff_of_true ?_ ⟨path, rfl, by rw [htype]; rfl⟩
    change Guarded (run (runRawQuery view.evaluate view.site.rootNode none (designQuery found.id)
      (designQuery found.id)) >>= _)
    rw [hevaluate, hroot, hnodes]
    exact (guarded_getNode (List.length_pos_iff.2 hne)).bind fun _ _ =>
      guarded_run (runRawQuery_inBounds ..)

/-- A call makes an absent lookup exactly if it looks something up below a Context whose element
has no positive type id. -/
theorem createInfo_guarded_iff :
    Guarded (createInfo view steps context query) ↔
      ∀ start, LooksUp view steps context query start →
        ∃ path, start = .feed path ∧ (typeId? stagingMode feed path).isSome := by
  unfold createInfo
  cases hmain : mainContext view steps context query with
  | error fault =>
      refine iff_of_true ?_ fun start h => ?_
      · exact (mainContext_inBounds view).allowed_of_error hmain
      · have hmain' := h.main
        rw [hmain] at hmain'
        cases hmain'
  | ok found =>
      change Guarded (run (rowId view found) >>= _) ↔ _
      cases hrow : rowId view found with
      | error fault =>
          refine iff_of_true ((rowId_inBounds view).allowed_of_error hrow) fun start h => ?_
          obtain rfl : found = some start := Except.ok.inj (hmain.symm.trans h.main)
          obtain ⟨ctxt, hctxt⟩ := h.alive
          rw [rowId, hctxt] at hrow
          cases hrow
      | ok row_id =>
          change Guarded (if atoi (lastPart query) ≠ 0 then _ else _) ↔ _
          by_cases hname : atoi (lastPart query) = 0
          · rw [if_neg (not_not_intro hname), guarded_bind_iff]
            · cases found with
              | none =>
                  refine iff_of_true (guarded_run (runRawQuery_inBounds ..)) fun start h => ?_
                  cases Except.ok.inj (hmain.symm.trans h.main)
              | some start =>
                  have halive : ∃ ctxt, view.contextAt start = .ok ctxt := by
                    obtain ⟨ctxt, hctxt, _⟩ := Outcome.bind_eq_ok.1 hrow
                    exact ⟨ctxt, hctxt⟩
                  rw [runDesignQuery_guarded_iff hevaluate hroot hstructured halive]
                  constructor
                  · intro h other hother
                    obtain rfl := Option.some.inj (Except.ok.inj (hmain.symm.trans hother.main))
                    exact h
                  · intro h
                    exact h start ⟨hmain, halive, hname⟩
            · intro structureQuery
              split
              · next hsize =>
                  apply (guarded_getNode hsize).bind
                  intro node _
                  apply (guarded_run (node.properties_inBounds _)).bind
                  intro properties _
                  apply (guarded_run (readStructureId_inBounds _ _)).bind
                  exact fun _ _ => meets_pure trivial
              · exact guarded_run (meets_throw (by simp [InBounds]))
          · rw [if_pos hname]
            refine iff_of_true (guarded_run (meets_throw (by simp [InBounds]))) fun start h => ?_
            exact absurd h.name hname

end

/-! ## Enough steps -/

/-- The loops of the constructor end, so more steps make no difference to a call. -/
theorem createInfo_settles (view : View) (context : Option Address) (query : Str) :
    ∃ bound, ∀ steps, bound ≤ steps →
      createInfo view steps context query = createInfo view bound context query := by
  let mainQuery := Query.join characters '/' (mainParts query)
  obtain ⟨bound, outcome, hconstruct⟩ : ∃ bound outcome, ∀ steps, bound ≤ steps →
      construct view.document steps context mainQuery = outcome := by
    obtain ⟨bound, outcome, _, hconstruct⟩ := settles_construct view.document context mainQuery
    exact ⟨bound, outcome, hconstruct⟩
  have hfetch : ∀ steps, bound ≤ steps →
      view.fetchQuery steps context mainQuery = view.fetchQuery bound context mainQuery := by
    intro steps hsteps
    unfold View.fetchQuery
    rw [hconstruct steps hsteps, hconstruct bound (Nat.le_refl bound)]
  refine ⟨bound, fun steps hsteps => ?_⟩
  have hmain : mainContext view steps context query = mainContext view bound context query := by
    have hsame := hfetch steps hsteps
    simp only [mainQuery] at hsame
    simp only [mainContext, hsame]
  unfold createInfo
  rw [hmain]

theorem createInfos_settles (view : View) (parent : Option (List (ResponseContext Address)))
    (query : Str) :
    ∃ bound, ∀ steps, bound ≤ steps →
      createInfos view steps parent query = createInfos view bound parent query := by
  unfold createInfos
  suffices hcalls : ∀ calls : List (Option Address), ∃ bound, ∀ steps, bound ≤ steps → ∀ infos,
      calls.foldlM (fun infos context => do
          let ci ← createInfo view steps context query
          return infos ++ [ci]) infos =
        calls.foldlM (fun infos context => do
          let ci ← createInfo view bound context query
          return infos ++ [ci]) infos by
    obtain ⟨bound, hbound⟩ := hcalls (callsOf parent)
    exact ⟨bound, fun steps hsteps => hbound steps hsteps []⟩
  intro calls
  induction calls with
  | nil => exact ⟨0, fun _ _ _ => by rw [List.foldlM_nil, List.foldlM_nil]⟩
  | cons first calls ih =>
      obtain ⟨bound, hbound⟩ := ih
      obtain ⟨bound', hfirst⟩ := createInfo_settles view first query
      refine ⟨max bound bound', fun steps hsteps infos => ?_⟩
      rw [List.foldlM_cons, List.foldlM_cons, hfirst steps (le_trans (le_max_right ..) hsteps),
        hfirst _ (le_max_right bound bound')]
      refine bind_congr fun infos => ?_
      rw [hbound steps (le_trans (le_max_left ..) hsteps), hbound _ (le_max_left bound bound')]

/-! ## Loading and answering -/

/-- A feed with one artist; the design section has artists, with id 5, and their albums. -/
def artistFeed (attributes : List Xml.Attribute) : Tree :=
  .element "website" [] [
    .element "content" [] [.element "artist" attributes []],
    .element "design" [] [.element "artists" [⟨"id", some "5"⟩]
      [.element "albums" [⟨"id", some "6"⟩] []]],
    .element "generation" [] [.text "1"]]

/-- What the queries on its design section find. -/
def artistDesign (node : Option Found) (q : Str) : Evaluation :=
  if node = none ∧ q = ("/website/design//*[@id=5]" : Str) then .nodeSet [.node (.feed [0, 1])]
  else if node = some (.node (.feed [0, 1])) ∧ q = ("albums" : Str) then
    .nodeSet [.node (.feed [0, 0, 1])]
  else .nodeSet []

end Response.Creating

end VaeDb
