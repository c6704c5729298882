import VaeDb.Response.Query
import VaeDb.Xml.Heap

/-!
# The filter on the nodes of libxml2

`filterMatch` copies the terms into a member of the `Response` and erases from there, text by
text, those that it finds.  It follows `children` and `next` of the nodes, so that a child
list is that of every node that points to it.

* `filterChildren_eq`: the loops and the recursion erase the terms that some text contains.
* `filterMatch_iff`: what a match means, whatever has been tested before.
* `filterMatch_shown`: a match as `Response::query` has it, on what is shown of the nodes.
-/

namespace VaeDb.Response

open Xml Links

variable {A : Type}

/-! ## The code -/

/-- The members of a `Response` that the filter works on. -/
structure Filter where
  filterTerms : List Str
  filterRemainingTerms : List Str
  deriving DecidableEq

/-- The loop that erases while it iterates. -/
def eraseTerms (content : Str) : List Str → List Str
  | [] => []
  | it :: rest =>
      if strcasestr content it then eraseTerms content rest else it :: eraseTerms content rest

/-- The loop of `filterMatchRecursive` from one child on, within so many rounds for the loops
together. -/
def filterChildren (heap : Heap A) : ℕ → ℕ → Option A → List Str → Outcome (List Str)
  | _, _, none, terms => pure terms
  | 0, _, some _, _ => throw .unfinished
  | rounds + 1, reentry, some child, terms => do
      heap.deref child
      let terms ←
        match heap.type child with
        | .element =>
            if reentry < 1 then filterChildren heap rounds (reentry + 1) (heap.children child) terms
            else pure terms
        | .text content => pure (eraseTerms content terms)
        | .other => pure terms
      filterChildren heap rounds reentry (heap.next child) terms

namespace Filter

/-- `filterMatch`, and the members after it. -/
def filterMatch (heap : Heap A) (rounds : ℕ) (filter : Filter) (node : A) :
    Outcome (Bool × Filter) := do
  heap.deref node
  let remaining ← filterChildren heap rounds 0 (heap.children node) filter.filterTerms
  return (remaining = [], { filter with filterRemainingTerms := remaining })

/-- The nodes that are tested one after the other. -/
def filterNodes (heap : Heap A) (rounds : ℕ) : Filter → List A → Outcome Filter
  | filter, [] => pure filter
  | filter, node :: nodes => do
      let (_, filter) ← filter.filterMatch heap rounds node
      filterNodes heap rounds filter nodes

end Filter

/-! ## What is erased -/

theorem eraseTerms_eq (content : Str) (terms : List Str) :
    eraseTerms content terms = terms.filter fun term => !strcasestr content term := by
  induction terms with
  | nil => rfl
  | cons it rest ih =>
      rw [eraseTerms, ih]
      by_cases hfound : strcasestr content it = true
      · rw [if_pos hfound, List.filter_cons_of_neg (by simp [hfound])]
      · rw [if_neg hfound, List.filter_cons_of_pos (by simp [hfound])]

/-- The terms that none of some texts contains. -/
def missing (texts terms : List Str) : List Str :=
  terms.filter fun term => !texts.any fun content => strcasestr content term

theorem missing_append (texts texts' terms : List Str) :
    missing (texts ++ texts') terms = missing texts' (missing texts terms) := by
  unfold missing
  rw [List.filter_filter]
  refine List.filter_congr fun term _ => ?_
  rw [List.any_append, Bool.not_or, Bool.and_comm]

theorem missing_singleton (content : Str) (terms : List Str) :
    missing [content] terms = eraseTerms content terms := by
  simp [missing, eraseTerms_eq]

@[simp] theorem missing_nil (terms : List Str) : missing [] terms = terms := by
  simp [missing]

theorem missing_eq_nil_iff {texts terms : List Str} :
    missing texts terms = [] ↔ ∀ term ∈ terms, ∃ content ∈ texts, strcasestr content term := by
  simp [missing, List.filter_eq_nil_iff]

/-- The texts among some nodes, and below their elements on as many levels as are left. -/
def texts : ℕ → List XmlNode → List Str
  | _, [] => []
  | levels, .text content :: nodes => content :: texts levels nodes
  | levels, .other :: nodes => texts levels nodes
  | 0, .element _ :: nodes => texts 0 nodes
  | levels + 1, .element children :: nodes => texts levels children ++ texts (levels + 1) nodes

@[simp] theorem filterMatchRecursive_nil (levels : ℕ) (terms : List Str) :
    filterMatchRecursive levels [] terms = terms := by
  rw [filterMatchRecursive]
  rfl

theorem filterMatchRecursive_cons (levels : ℕ) (node : XmlNode) (nodes : List XmlNode)
    (terms : List Str) :
    filterMatchRecursive levels (node :: nodes) terms =
      filterMatchRecursive levels nodes (filterMatchRecursive levels [node] terms) := by
  rw [filterMatchRecursive, List.foldl_cons, filterMatchRecursive.eq_1 levels nodes,
    filterMatchRecursive.eq_1 levels [node]]
  rfl

/-- On trees, a match erases the terms that some text contains. -/
theorem filterMatchRecursive_eq (levels : ℕ) (nodes : List XmlNode) (terms : List Str) :
    filterMatchRecursive levels nodes terms = missing (texts levels nodes) terms := by
  fun_induction texts levels nodes generalizing terms with
  | case1 levels => simp
  | case2 levels content nodes ih =>
      have hfirst : filterMatchRecursive levels [.text content] terms =
          missing [content] terms := by
        rw [missing_singleton, eraseTerms_eq, filterMatchRecursive]
        rfl
      rw [filterMatchRecursive_cons, hfirst, ih, ← missing_append]
      rfl
  | case3 levels nodes ih =>
      have hfirst : filterMatchRecursive levels [.other] terms = terms := by
        rw [filterMatchRecursive]
        rfl
      rw [filterMatchRecursive_cons, hfirst, ih]
  | case4 children nodes ih =>
      have hfirst : filterMatchRecursive 0 [.element children] terms = terms := by
        rw [filterMatchRecursive]
        rfl
      rw [filterMatchRecursive_cons, hfirst, ih]
  | case5 levels children nodes ihChildren ihNodes =>
      have hfirst : filterMatchRecursive (levels + 1) [.element children] terms =
          filterMatchRecursive levels children terms := by
        rw [filterMatchRecursive]
        rfl
      rw [filterMatchRecursive_cons, hfirst, ihNodes, ihChildren, missing_append]

theorem filterMatch_eq {α : Type} (response : Response) (node : ResultNode α) :
    response.filterMatch node =
      decide (missing (texts 1 node.children) response.filterTerms = []) := by
  rw [filterMatch, filterMatchRecursive_eq]

/-! ## Nodes and what is shown of them -/

/-- From a pointer on, `next` leads through allocated nodes to the end of their list. -/
def Listed (heap : Heap A) : Option A → List A → Prop
  | start, [] => start = none
  | start, a :: rest => start = some a ∧ heap.live a = true ∧ Listed heap (heap.next a) rest

/-- The child list of a node ends. -/
def Ends (heap : Heap A) (a : A) : Prop := ∃ kids, Listed heap (heap.children a) kids

/-- A node as the filter looks at it, with the elements below on as many levels as are left.
Nodes that share a child list show the same children. -/
def Shows (heap : Heap A) : ℕ → A → XmlNode → Prop
  | _, a, .text content => heap.type a = .text content
  | _, a, .other => heap.type a = .other
  | 0, a, .element _ => heap.type a = .element
  | levels + 1, a, .element children => heap.type a = .element ∧
      ∃ kids, Listed heap (heap.children a) kids ∧ List.Forall₂ (Shows heap levels) kids children

variable {heap : Heap A} {start : Option A} {kids : List A} {a : A} {levels : ℕ}

theorem Listed.mem_iff (h : Listed heap start kids) : a ∈ kids ↔ Leads heap.next start a := by
  induction kids generalizing start with
  | nil =>
      obtain rfl := h
      constructor
      · intro ha
        cases ha
      · intro ha
        cases ha
  | cons b rest ih =>
      obtain ⟨rfl, _, hrest⟩ := h
      rw [List.mem_cons, ih hrest]
      constructor
      · rintro (rfl | hleads)
        · exact .here a
        · exact .next hleads
      · intro hleads
        cases hleads with
        | here => exact Or.inl rfl
        | next hleads => exact Or.inr hleads

/-- Whatever is below: something is shown of a node if the lists end. -/
theorem shows_of_ends (levels : ℕ) (a : A)
    (hends : 0 < levels → heap.type a = .element → ∃ kids, Listed heap (heap.children a) kids ∧
      ∃ children, List.Forall₂ (Shows heap (levels - 1)) kids children) :
    ∃ node, Shows heap levels a node := by
  cases htype : heap.type a with
  | text content => exact ⟨.text content, by cases levels <;> exact htype⟩
  | other => exact ⟨.other, by cases levels <;> exact htype⟩
  | element =>
      cases levels with
      | zero => exact ⟨.element [], htype⟩
      | succ levels =>
          obtain ⟨kids, hkids, children, hchildren⟩ := hends (Nat.succ_pos _) htype
          exact ⟨.element children, htype, kids, hkids, hchildren⟩

theorem exists_forall₂ {R : A → XmlNode → Prop} (h : ∀ a ∈ kids, ∃ node, R a node) :
    ∃ nodes, List.Forall₂ R kids nodes := by
  induction kids with
  | nil => exact ⟨[], .nil⟩
  | cons a rest ih =>
      obtain ⟨node, hnode⟩ := h a (List.mem_cons_self ..)
      obtain ⟨nodes, hnodes⟩ := ih fun b hb => h b (List.mem_cons_of_mem _ hb)
      exact ⟨node :: nodes, .cons hnode hnodes⟩

/-! ## The loops over nodes -/

/-- Enough rounds give a result, and no number of rounds gives another one. -/
def Yields {β : Type} (f : ℕ → Outcome β) (b : β) : Prop :=
  ∃ enough, ∀ rounds, enough ≤ rounds → f rounds = .ok b

theorem Yields.succ {β : Type} {f : ℕ → Outcome β} {b : β}
    (h : Yields (fun rounds => f (rounds + 1)) b) : Yields f b := by
  obtain ⟨enough, henough⟩ := h
  refine ⟨enough + 1, fun rounds hrounds => ?_⟩
  obtain ⟨rounds, rfl⟩ : ∃ fewer, rounds = fewer + 1 := ⟨rounds - 1, by omega⟩
  exact henough rounds (by omega)

theorem Yields.bind {β γ : Type} {f : ℕ → Outcome β} {g : ℕ → β → Outcome γ} {b : β} {c : γ}
    (hf : Yields f b) (hg : Yields (fun rounds => g rounds b) c) :
    Yields (fun rounds => f rounds >>= g rounds) c := by
  obtain ⟨enough, henough⟩ := hf
  obtain ⟨enough', henough'⟩ := hg
  refine ⟨max enough enough', fun rounds hrounds => ?_⟩
  simp only [henough rounds (le_trans (le_max_left ..) hrounds)]
  exact henough' rounds (le_trans (le_max_right ..) hrounds)

theorem yields_pure {β : Type} (b : β) : Yields (fun _ => pure b) b := ⟨0, fun _ _ => rfl⟩

/-- The loop at one child. -/
theorem yields_filterChildren {reentry : ℕ} {terms remaining result : List Str}
    (hlive : heap.live a = true)
    (hchild : Yields (fun rounds =>
      match heap.type a with
      | .element =>
          if reentry < 1 then filterChildren heap rounds (reentry + 1) (heap.children a) terms
          else pure terms
      | .text content => pure (eraseTerms content terms)
      | .other => pure terms) remaining)
    (hrest : Yields (fun rounds => filterChildren heap rounds reentry (heap.next a) remaining)
      result) :
    Yields (fun rounds => filterChildren heap rounds reentry (some a) terms) result := by
  have hderef : heap.deref a = pure () := if_pos hlive
  have hstep (rounds : ℕ) : filterChildren heap (rounds + 1) reentry (some a) terms =
      (match heap.type a with
      | .element =>
          if reentry < 1 then filterChildren heap rounds (reentry + 1) (heap.children a) terms
          else pure terms
      | .text content => pure (eraseTerms content terms)
      | .other => pure terms) >>= filterChildren heap rounds reentry (heap.next a) := by
    simp only [filterChildren, hderef, pure_bind]
    cases heap.type a with
    | element => by_cases hreentry : reentry < 1 <;> simp [hreentry]
    | text content => rfl
    | other => rfl
  refine .succ ?_
  simp only [hstep]
  exact hchild.bind hrest

/-- With as many levels left as the reentry allows, the loop erases what is in the texts. -/
theorem filterChildren_eq (hlisted : Listed heap start kids) {nodes : List XmlNode}
    {reentry : ℕ} (hlevels : levels + reentry = 1)
    (hshows : List.Forall₂ (Shows heap levels) kids nodes) (terms : List Str) :
    Yields (fun rounds => filterChildren heap rounds reentry start terms)
      (missing (texts levels nodes) terms) := by
  fun_induction texts levels nodes generalizing kids start reentry terms with
  | case1 levels =>
      cases hshows
      obtain rfl := hlisted
      rw [missing_nil]
      exact ⟨0, fun rounds _ => by cases rounds <;> rfl⟩
  | case2 levels content nodes ih =>
      cases hshows with
      | @cons a _ _ _ hnode hnodes =>
          obtain ⟨rfl, hlive, hlisted⟩ := hlisted
          have htype : heap.type a = .text content := by
            cases levels <;> exact hnode
          rw [← List.singleton_append, missing_append, missing_singleton]
          refine yields_filterChildren hlive ?_ (ih hlisted hlevels hnodes _)
          simp only [htype]
          exact yields_pure _
  | case3 levels nodes ih =>
      cases hshows with
      | @cons a _ _ _ hnode hnodes =>
          obtain ⟨rfl, hlive, hlisted⟩ := hlisted
          have htype : heap.type a = .other := by
            cases levels <;> exact hnode
          refine yields_filterChildren hlive ?_ (ih hlisted hlevels hnodes _)
          simp only [htype]
          exact yields_pure _
  | case4 children nodes ih =>
      cases hshows with
      | @cons a _ _ _ hnode hnodes =>
          obtain ⟨rfl, hlive, hlisted⟩ := hlisted
          have htype : heap.type a = .element := hnode
          refine yields_filterChildren hlive ?_ (ih hlisted hlevels hnodes _)
          simp only [htype, if_neg (show ¬ reentry < 1 by omega)]
          exact yields_pure _
  | case5 levels children nodes ihChildren ihNodes =>
      cases hshows with
      | cons hnode hnodes =>
          obtain ⟨rfl, hlive, hlisted⟩ := hlisted
          obtain ⟨htype, inner, hinner, hchildren⟩ := hnode
          rw [missing_append]
          refine yields_filterChildren hlive ?_ (ihNodes hlisted hlevels hnodes _)
          simp only [htype, if_pos (show reentry < 1 by omega)]
          exact ihChildren hinner (by omega) hchildren _

/-- What `filterMatch` returns and leaves for a node of which something is shown. -/
theorem yields_filterMatch {node : A} (hlive : heap.live node = true)
    (hlisted : Listed heap (heap.children node) kids) {nodes : List XmlNode}
    (hshows : List.Forall₂ (Shows heap 1) kids nodes) (filter : Filter) :
    Yields (fun rounds => filter.filterMatch heap rounds node)
      (decide (missing (texts 1 nodes) filter.filterTerms = []),
        { filter with filterRemainingTerms := missing (texts 1 nodes) filter.filterTerms }) := by
  have hderef : heap.deref node = pure () := if_pos hlive
  simp only [Filter.filterMatch, hderef, pure_bind]
  exact (filterChildren_eq hlisted rfl hshows filter.filterTerms).bind (yields_pure _)

/-- A match is the one that `Response::query` sees. -/
theorem filterMatch_shown {α : Type} (response : Response) (shown : ResultNode α) {node : A}
    (hlive : heap.live node = true) (hlisted : Listed heap (heap.children node) kids)
    (hshows : List.Forall₂ (Shows heap 1) kids shown.children) {filter : Filter}
    (hterms : filter.filterTerms = response.filterTerms) :
    ∃ after, Yields (fun rounds => filter.filterMatch heap rounds node)
      (response.filterMatch shown, after) := by
  have hyields := yields_filterMatch hlive hlisted hshows filter
  rw [hterms, ← filterMatch_eq] at hyields
  exact ⟨_, hyields⟩

/-! ## What a match means -/

/-- A node with the elements among its children: their lists end. -/
structure Walkable (heap : Heap A) (node : A) : Prop where
  live : heap.live node = true
  ends : Ends heap node
  inner : ∀ kid, Leads heap.next (heap.children node) kid → heap.type kid = .element →
    Ends heap kid

/-- A node that the filter looks at: a child of the node, or a child of an element that is a
child of the node. -/
def LooksAt (heap : Heap A) (node text : A) : Prop :=
  Leads heap.next (heap.children node) text ∨
    ∃ element, Leads heap.next (heap.children node) element ∧ heap.type element = .element ∧
      Leads heap.next (heap.children element) text

theorem Walkable.exists_shows {node : A} (h : Walkable heap node) :
    ∃ kids nodes, Listed heap (heap.children node) kids ∧
      List.Forall₂ (Shows heap 1) kids nodes := by
  obtain ⟨kids, hkids⟩ := h.ends
  obtain ⟨nodes, hnodes⟩ := exists_forall₂ fun kid hkid =>
    shows_of_ends 1 kid fun _ htype => by
      obtain ⟨inner, hinner⟩ := h.inner kid (hkids.mem_iff.1 hkid) htype
      obtain ⟨children, hchildren⟩ : ∃ children, List.Forall₂ (Shows heap 0) inner children :=
        exists_forall₂ fun b _ => shows_of_ends 0 b fun hlevels => absurd hlevels (Nat.lt_irrefl 0)
      exact ⟨inner, hinner, children, hchildren⟩
  exact ⟨kids, nodes, hkids, hnodes⟩

/-- The texts among some nodes. -/
theorem mem_texts_zero {nodes : List XmlNode} (hshows : List.Forall₂ (Shows heap 0) kids nodes)
    {content : Str} : content ∈ texts 0 nodes ↔ ∃ a ∈ kids, heap.type a = .text content := by
  induction hshows with
  | nil => simp [texts]
  | @cons a node kids nodes hnode _ ih =>
      cases node with
      | text other =>
          have htype : heap.type a = .text other := hnode
          simp [texts, ih, htype, eq_comm]
      | other =>
          have htype : heap.type a = .other := hnode
          simp [texts, ih, htype]
      | element children =>
          have htype : heap.type a = .element := hnode
          simp [texts, ih, htype]

/-- The texts among some nodes and the children of the elements among them. -/
theorem mem_texts_one {nodes : List XmlNode} (hshows : List.Forall₂ (Shows heap 1) kids nodes)
    {content : Str} : content ∈ texts 1 nodes ↔ ∃ a ∈ kids, heap.type a = .text content ∨
      heap.type a = .element ∧
        ∃ b, Leads heap.next (heap.children a) b ∧ heap.type b = .text content := by
  induction hshows with
  | nil => simp [texts]
  | @cons a node kids nodes hnode _ ih =>
      cases node with
      | text other =>
          have htype : heap.type a = .text other := hnode
          simp [texts, ih, htype, eq_comm]
      | other =>
          have htype : heap.type a = .other := hnode
          simp [texts, ih, htype]
      | element children =>
          obtain ⟨htype, inner, hinner, hchildren⟩ := hnode
          simp [texts, ih, htype, mem_texts_zero hchildren, hinner.mem_iff]

/-- Testing nodes leaves the terms of the filter as they are. -/
theorem yields_filterNodes {tested : List A} (h : ∀ node ∈ tested, Walkable heap node)
    (filter : Filter) : ∃ remaining, Yields (fun rounds => filter.filterNodes heap rounds tested)
      { filter with filterRemainingTerms := remaining } := by
  induction tested generalizing filter with
  | nil => exact ⟨_, yields_pure filter⟩
  | cons node tested ih =>
      have hnode := h node (List.mem_cons_self ..)
      obtain ⟨kids, nodes, hlisted, hshows⟩ := hnode.exists_shows
      obtain ⟨remaining, hrest⟩ := ih (fun other hother => h other (List.mem_cons_of_mem _ hother))
        { filter with filterRemainingTerms := missing (texts 1 nodes) filter.filterTerms }
      exact ⟨remaining, (yields_filterMatch hnode.live hlisted hshows filter).bind hrest⟩

/-- After any nodes have been tested, a node matches exactly if each term is in some text that
the filter looks at. -/
theorem filterMatch_iff {tested : List A} {node : A}
    (h : ∀ other ∈ node :: tested, Walkable heap other) (initial : Filter) :
    ∃ filter matched after,
      Yields (fun rounds => initial.filterNodes heap rounds tested) filter ∧
      Yields (fun rounds => filter.filterMatch heap rounds node) (matched, after) ∧
      (matched = true ↔ ∀ term ∈ initial.filterTerms, ∃ text content,
        LooksAt heap node text ∧ heap.type text = .text content ∧
          strcasestr content term = true) := by
  have hnode := h node (List.mem_cons_self ..)
  obtain ⟨remaining, htested⟩ :=
    yields_filterNodes (fun other hother => h other (List.mem_cons_of_mem _ hother)) initial
  obtain ⟨kids, nodes, hlisted, hshows⟩ := hnode.exists_shows
  refine ⟨_, _, _, htested, yields_filterMatch hnode.live hlisted hshows _, ?_⟩
  rw [decide_eq_true_iff, missing_eq_nil_iff]
  refine forall_congr' fun term => forall_congr' fun _ => ?_
  simp only [mem_texts_one hshows, hlisted.mem_iff, LooksAt]
  constructor
  · rintro ⟨content, ⟨a, ha, htype | ⟨helement, b, hb, htype⟩⟩, hfound⟩
    · exact ⟨a, content, Or.inl ha, htype, hfound⟩
    · exact ⟨b, content, Or.inr ⟨a, ha, helement, hb⟩, htype, hfound⟩
  · rintro ⟨text, content, ha | ⟨a, ha, helement, hb⟩, htype, hfound⟩
    · exact ⟨content, ⟨text, ha, Or.inl htype⟩, hfound⟩
    · exact ⟨content, ⟨a, ha, Or.inr ⟨helement, text, hb, htype⟩⟩, hfound⟩

/-- Two elements, 0 and 4, with the same children: an element with a text, and a text. -/
def sharedChildren : Heap ℕ where
  live := fun _ => true
  type
    | 2 => .text "Hello World"
    | 3 => .text "again"
    | _ => .element
  parent := fun _ => none
  children
    | 0 => some 1
    | 4 => some 1
    | 1 => some 2
    | _ => none
  last := fun _ => none
  next
    | 1 => some 3
    | _ => none
  prev := fun _ => none
  properties := fun _ => none
  attributes := fun _ => none
  _private := fun _ => none

theorem walkable_sharedChildren {a : ℕ} (h : sharedChildren.children a = some 1) :
    Walkable sharedChildren a := by
  have hlisted : Listed sharedChildren (sharedChildren.children a) [1, 3] :=
    ⟨h, rfl, rfl, rfl, rfl⟩
  refine ⟨rfl, ⟨_, hlisted⟩, fun kid hkid htype => ?_⟩
  have hmem := hlisted.mem_iff.2 hkid
  simp only [List.mem_cons, List.not_mem_nil, or_false] at hmem
  rcases hmem with rfl | rfl
  · exact ⟨[2], rfl, rfl, rfl⟩
  · cases htype

theorem filterMatch_iff_sharedChildren :
    ∃ filter matched after,
      Yields (fun rounds => Filter.filterNodes sharedChildren rounds ⟨["world", "O W"], []⟩ [0])
        filter ∧
      Yields (fun rounds => filter.filterMatch sharedChildren rounds 4) (matched, after) ∧
      matched = true := by
  have hwalkable : ∀ other ∈ [4, 0], Walkable sharedChildren other := by
    intro other hother
    simp only [List.mem_cons, List.not_mem_nil, or_false] at hother
    rcases hother with rfl | rfl
    · exact walkable_sharedChildren rfl
    · exact walkable_sharedChildren rfl
  obtain ⟨filter, matched, after, htested, hyields, hmatched⟩ :=
    filterMatch_iff hwalkable ⟨["world", "O W"], []⟩
  refine ⟨filter, matched, after, htested, hyields, hmatched.2 fun term hterm => ?_⟩
  have hlooks : LooksAt sharedChildren 4 2 := Or.inr ⟨1, .here 1, rfl, .here 2⟩
  refine ⟨2, "Hello World", hlooks, rfl, ?_⟩
  simp only [List.mem_cons, List.not_mem_nil, or_false] at hterm
  rcases hterm with rfl | rfl
  · exact decide_eq_true ⟨"hello ", "", by decide⟩
  · exact decide_eq_true ⟨"hell", "orld", by decide⟩

end VaeDb.Response
