import VaeDb.Library.Firsts
import VaeDb.Response.Window

/-!
# Unique fields

`uniqueMatch` compares the values of the unique fields through one text, in which each value
is followed by the separator `~!~`.  Different values can spell the same text (`Blur`): by a
separator in a value, or by one that begins at the end of a value.

* `blur_iff`: these are all the ways.
* `acceptedFrom_eq`: the nodes that are accepted are the first with their text.
* `accepted_firsts_iff`: they are the first with their values exactly if no two nodes that
  pass the filter have different values that spell the same text.
-/

namespace VaeDb.Response

open Firsts

/-! ## Values and the text they spell -/

/-- The values, each with the separator behind it. -/
def spelled (values : List Str) : Str :=
  values.flatMap fun value => value ++ ("~!~" : Str)

@[simp] theorem spelled_nil : spelled [] = [] := rfl

@[simp] theorem spelled_cons (value : Str) (values : List Str) :
    spelled (value :: values) = value ++ ("~!~" : Str) ++ spelled values := rfl

/-- Values of which the one become the other when a separator is read where none was put:
inside of a value, or from the end of a value into the separator behind it. -/
inductive Blur : List Str → List Str → Prop
  | nil : Blur [] []
  | same (value : Str) {rest rest' : List Str} (h : Blur rest rest') :
      Blur (value :: rest) (value :: rest')
  | inside (front back : Str) {rest rest' : List Str} (h : Blur (back :: rest) rest') :
      Blur ((front ++ ("~!~" : Str) ++ back) :: rest) (front :: rest')
  | across (front next : Str) {rest rest' : List Str}
      (h : Blur ((("!~" : Str) ++ next) :: rest) rest') :
      Blur ((front ++ ("~!" : Str)) :: next :: rest) (front :: rest')
  | symm {values values' : List Str} (h : Blur values values') : Blur values' values

theorem spelled_eq_of_blur {values values' : List Str} (h : Blur values values') :
    spelled values = spelled values' := by
  induction h with
  | nil => rfl
  | same value _ ih => simp [ih]
  | inside front back _ ih => simpa using ih
  | across front next _ ih => simpa using ih
  | symm _ ih => exact ih.symm

theorem length_le_spelled (value : Str) (values : List Str) :
    3 ≤ (spelled (value :: values)).length := by
  simp only [spelled_cons, List.length_append]
  have hseparator : ("~!~" : Str).length = 3 := rfl
  omega

theorem spelled_eq_nil {values : List Str} (h : spelled values = []) : values = [] := by
  cases values with
  | nil => rfl
  | cons value values =>
      have hlength := length_le_spelled value values
      rw [h] at hlength
      simp at hlength

/-- A first value that is longer than the other one has a separator read into it. -/
theorem blur_of_longer {front tail : Str} {rest rest' : List Str}
    (hshorter : ∀ values values', values.length + values'.length ≤ rest.length + rest'.length + 1 →
      spelled values = spelled values' → Blur values values')
    (h : tail ++ ("~!~" : Str) ++ spelled rest = ("~!~" : Str) ++ spelled rest') :
    Blur ((front ++ tail) :: rest) (front :: rest') := by
  match tail with
  | [] =>
      rw [List.append_nil]
      exact .same front (hshorter _ _ (by omega) (List.append_cancel_left h))
  | [c] => simp at h
  | [c, d] =>
      -- the separator begins with the two characters and ends in the one that follows them
      obtain ⟨rfl, rfl, hrest⟩ : c = '~' ∧ d = '!' ∧
          ("!~" : Str) ++ spelled rest = spelled rest' := by
        simpa using h
      cases rest with
      | nil =>
          cases rest' with
          | nil => simp at hrest
          | cons value rest' =>
              have hlength := length_le_spelled value rest'
              rw [← hrest] at hlength
              simp at hlength
      | cons next rest =>
          refine .across front next (hshorter _ _ ?_ ?_)
          · simp only [List.length_cons]
            omega
          · rw [← hrest]
            simp
  | c :: d :: e :: back =>
      obtain ⟨rfl, rfl, rfl, hrest⟩ : c = '~' ∧ d = '!' ∧ e = '~' ∧
          spelled (back :: rest) = spelled rest' := by
        simpa using h
      have hblur : Blur ((front ++ ("~!~" : Str) ++ back) :: rest) (front :: rest') :=
        .inside front back (hshorter _ _ (by simp only [List.length_cons]; omega) hrest)
      simpa using hblur

/-- Values that spell the same text blur, and only they. -/
theorem blur_iff {values values' : List Str} :
    Blur values values' ↔ spelled values = spelled values' := by
  refine ⟨spelled_eq_of_blur, ?_⟩
  -- reading a separator in ends the first value of one of the two lists
  induction hsize : values.length + values'.length using Nat.strong_induction_on
    generalizing values values' with
  | _ size ih =>
      subst hsize
      intro h
      cases values with
      | nil => exact (spelled_eq_nil h.symm) ▸ .nil
      | cons value rest =>
          cases values' with
          | nil => exact (List.cons_ne_nil _ _ (spelled_eq_nil h)).elim
          | cons value' rest' =>
              have hshorter (values values' : List Str)
                  (hlength : values.length + values'.length ≤ rest.length + rest'.length + 1)
                  (hspelled : spelled values = spelled values') : Blur values values' :=
                ih _ (by simp only [List.length_cons]; omega) rfl hspelled
              simp only [spelled_cons, List.append_assoc] at h
              rcases List.append_eq_append_iff.1 h with ⟨tail, rfl, htail⟩ | ⟨tail, rfl, htail⟩
              · refine .symm (blur_of_longer (fun values values' hlength => ?_) ?_)
                · exact hshorter values values' (by omega)
                · rw [List.append_assoc]
                  exact htail.symm
              · refine blur_of_longer hshorter ?_
                rw [List.append_assoc]
                exact htail.symm

/-! ## What is accepted -/

variable {α : Type} {response : Response} {surroundings : Surroundings α}

/-- The nodes that the counting loop hands to `uniqueMatch`. -/
def passes (response : Response) (node : ResultNode α) : Bool :=
  !response.filter || response.filterMatch node

/-- The nodes that `uniqueMatch` accepts in the counting loop, with their places. -/
def acceptedFrom (response : Response) (surroundings : Surroundings α) :
    List Str → ℕ → List (ResultNode α) → Outcome (List (ℕ × ResultNode α))
  | _, _, [] => pure []
  | uniqueFound, place, node :: nodes =>
      if response.passes node then do
        let (isNew, uniqueFound) ← response.uniqueMatch surroundings uniqueFound node
        let rest ← acceptedFrom response surroundings uniqueFound (place + 1) nodes
        return if isNew then (place, node) :: rest else rest
      else acceptedFrom response surroundings uniqueFound (place + 1) nodes

/-- The counting loop counts what is accepted. -/
theorem foldlM_countNode_accepted (window : Window) (hunique : response.unique = true)
    (nodes : List (ResultNode α)) (counting : Counting α) (seen : List Str) (place : ℕ) :
    (do
      let state ← nodes.foldlM (response.countNode surroundings window) (counting, seen)
      return state.1) =
    (do
      let accepted ← response.acceptedFrom surroundings seen place nodes
      return accepted.foldl (fun counting entry => countMatch window counting entry.2.context)
        counting) := by
  induction nodes generalizing counting seen place with
  | nil => rfl
  | cons node nodes ih =>
      rw [List.foldlM_cons, countNode, acceptedFrom, passes]
      by_cases hpass : (!response.filter || response.filterMatch node) = true
      · rw [if_pos hpass, if_pos hpass, if_pos hunique]
        simp only [bind_assoc]
        congr 1
        funext result
        obtain ⟨isNew, found⟩ := result
        cases isNew with
        | true =>
            simp only [if_true, pure_bind, ih _ found (place + 1), List.foldl_cons]
        | false =>
            simp only [Bool.false_eq_true, if_false, pure_bind, ih _ found (place + 1)]
      · simp only [if_neg hpass, pure_bind]
        exact ih _ _ _

/-! ## First with their text -/

/-- The values of the unique fields of a node. -/
def tuple (response : Response) (data : α → Str → Str) (node : ResultNode α) :
    Option (List Str) :=
  node.context.map fun context => response.uniqueFields.map (data context)

/-- The places of the nodes that are handed to `uniqueMatch`. -/
def PassesAt (response : Response) (nodes : List (ResultNode α)) (place : ℕ) : Prop :=
  ∃ node, nodes[place]? = some node ∧ response.passes node = true

/-- The values at a place. -/
def tupleAt (response : Response) (data : α → Str → Str) (nodes : List (ResultNode α))
    (place : ℕ) : Option (List Str) :=
  nodes[place]?.bind (response.tuple data)

/-- `getData` is a function of the Context and the field, unless the field is empty. -/
def PureData (surroundings : Surroundings α) (data : α → Str → Str) : Prop :=
  ∀ context field, field ≠ [] → surroundings.getData context field = .ok (data context field)

/-- The text at a place. -/
def textAt (response : Response) (data : α → Str → Str) (nodes : List (ResultNode α))
    (place : ℕ) : Option Str :=
  (response.tupleAt data nodes place).map spelled

/-- A node is the first with its text, which has not been seen before either. -/
def FreshAt (response : Response) (data : α → Str → Str) (seen : List Str)
    (nodes : List (ResultNode α)) (node : ResultNode α) (i : ℕ) : Prop :=
  nodes[i]? = some node ∧ IsFirst (response.PassesAt nodes) (response.textAt data nodes) i ∧
    ∀ text ∈ seen, response.textAt data nodes i ≠ some text

/-- Either that is the head of the list, or it is in the tail and not like the head. -/
theorem freshAt_cons {data : α → Str → Str} {seen : List Str} {first node : ResultNode α}
    {nodes : List (ResultNode α)} {k place : ℕ} :
    (∃ i, k = place + i ∧ response.FreshAt data seen (first :: nodes) node i) ↔
      (k = place ∧ first = node ∧ response.passes first = true ∧
        ∀ text ∈ seen, (response.tuple data first).map spelled ≠ some text) ∨
      ∃ i, k = place + 1 + i ∧ response.FreshAt data seen nodes node i ∧
        (response.passes first = true →
          (response.tuple data first).map spelled ≠ response.textAt data nodes i) := by
  have hzero : response.PassesAt (first :: nodes) 0 ↔ response.passes first = true := by
    simp [PassesAt]
  constructor
  · rintro ⟨i, rfl, hnode, hfirst, hseen⟩
    cases i with
    | zero => exact Or.inl ⟨rfl, Option.some.inj hnode, hzero.1 hfirst.1, hseen⟩
    | succ i =>
        obtain ⟨hfirst, hother⟩ := isFirst_succ.1 hfirst
        exact Or.inr ⟨i, by omega, ⟨hnode, hfirst, hseen⟩, fun hpass => hother (hzero.2 hpass)⟩
  · rintro (⟨rfl, rfl, hpass, hseen⟩ | ⟨i, rfl, ⟨hnode, hfirst, hseen⟩, hother⟩)
    · exact ⟨0, rfl, rfl, isFirst_zero.2 (hzero.2 hpass), hseen⟩
    · exact ⟨i + 1, by omega, hnode,
        isFirst_succ.2 ⟨hfirst, fun hpass => hother (hzero.1 hpass)⟩, hseen⟩

section

variable {data : α → Str → Str} (hdata : PureData surroundings data)

include hdata

theorem uniqueKey_eq (context : α) {fields : List Str} (hfields : [] ∉ fields) :
    uniqueKey surroundings context fields = .ok (spelled (fields.map (data context))) := by
  induction fields with
  | nil => rfl
  | cons field fields ih =>
      simp only [List.mem_cons, not_or] at hfields
      rw [uniqueKey, hdata context field fun h => hfields.1 h.symm, ih hfields.2]
      rfl

/-- What `uniqueMatch` says of a Context is whether its text is new. -/
theorem uniqueMatch_eq (hfields : [] ∉ response.uniqueFields) (seen : List Str)
    {node : ResultNode α} {context : α} (hcontext : node.context = some context) :
    response.uniqueMatch surroundings seen node =
      .ok (if spelled (response.uniqueFields.map (data context)) ∈ seen then (false, seen)
        else (true, spelled (response.uniqueFields.map (data context)) :: seen)) := by
  have hkey := uniqueKey_eq hdata context hfields
  unfold uniqueMatch
  rw [hcontext]
  simp only [hkey, bind, Except.bind]
  by_cases hseen : spelled (response.uniqueFields.map (data context)) ∈ seen
  · rw [if_neg (not_not.2 hseen), if_pos hseen]
    rfl
  · rw [if_pos hseen, if_neg hseen]
    rfl

/-- Accepted are the nodes that are the first with their text, if it has not been seen. -/
theorem acceptedFrom_eq (hfields : [] ∉ response.uniqueFields) {nodes : List (ResultNode α)}
    (hcontexts : ∀ node ∈ nodes, node.context.isSome) (seen : List Str) (place : ℕ) :
    ∃ accepted, response.acceptedFrom surroundings seen place nodes = .ok accepted ∧
      ∀ k node, (k, node) ∈ accepted ↔
        ∃ i, k = place + i ∧ response.FreshAt data seen nodes node i := by
  induction nodes generalizing seen place with
  | nil => exact ⟨[], rfl, by simp [FreshAt]⟩
  | cons first nodes ih =>
      obtain ⟨context, hcontext⟩ :=
        Option.isSome_iff_exists.1 (hcontexts first (List.mem_cons_self ..))
      have hrest := ih fun node hnode => hcontexts node (List.mem_cons_of_mem _ hnode)
      simp only [freshAt_cons]
      rw [acceptedFrom]
      by_cases hpass : response.passes first = true
      · have htext : (response.tuple data first).map spelled =
            some (spelled (response.uniqueFields.map (data context))) := by
          simp [tuple, hcontext]
        rw [if_pos hpass, uniqueMatch_eq hdata hfields seen hcontext, htext]
        generalize spelled (response.uniqueFields.map (data context)) = text
        by_cases hseen : text ∈ seen
        · obtain ⟨accepted, haccepted, hmem⟩ := hrest seen (place + 1)
          refine ⟨accepted, ?_, fun k node => ?_⟩
          · simp only [if_pos hseen, bind, Except.bind, haccepted]
            rfl
          · rw [hmem]
            constructor
            · intro ⟨i, hk, hfresh⟩
              exact Or.inr ⟨i, hk, hfresh, fun _ heq => hfresh.2.2 text hseen heq.symm⟩
            · rintro (⟨_, _, _, hnew⟩ | ⟨i, hk, hfresh, _⟩)
              · exact absurd rfl (hnew text hseen)
              · exact ⟨i, hk, hfresh⟩
        · obtain ⟨accepted, haccepted, hmem⟩ := hrest (text :: seen) (place + 1)
          refine ⟨(place, first) :: accepted, ?_, fun k node => ?_⟩
          · simp only [if_neg hseen, bind, Except.bind, haccepted]
            rfl
          · rw [List.mem_cons, hmem, Prod.mk.injEq]
            refine or_congr ?_ (exists_congr fun i => and_congr_right fun _ => ?_)
            · refine and_congr_right fun _ => eq_comm.trans (iff_self_and.2 fun _ => ?_)
              exact ⟨hpass, fun other hother heq => hseen (Option.some.inj heq ▸ hother)⟩
            · -- the text has been seen now
              simp only [FreshAt, List.forall_mem_cons, hpass, true_implies, and_assoc]
              refine and_congr_right fun _ => and_congr_right fun _ => ?_
              rw [and_comm, ne_comm]
      · obtain ⟨accepted, haccepted, hmem⟩ := hrest seen (place + 1)
        rw [if_neg hpass]
        refine ⟨accepted, haccepted, fun k node => ?_⟩
        simp only [hmem, hpass, false_and, and_false, false_or, false_implies, and_true,
          Bool.false_eq_true]

omit hdata in
theorem total_foldl_countMatch (window : Window) (accepted : List (ℕ × ResultNode α))
    (counting : Counting α) :
    (accepted.foldl (fun counting entry => countMatch window counting entry.2.context)
      counting).total = counting.total + accepted.length := by
  induction accepted generalizing counting with
  | nil => simp
  | cons entry accepted ih =>
      have htotal : (countMatch window counting entry.2.context).total = counting.total + 1 := by
        unfold countMatch
        simp only
        split
        · rfl
        · split
          · cases entry.2.context <;> rfl
          · rfl
      rw [List.foldl_cons, ih, htotal, List.length_cons]
      omega

omit hdata in
/-- What the counting loop leaves. -/
theorem collect_accepted (hunique : response.unique = true) {nodes : List (ResultNode α)}
    {accepted : List (ℕ × ResultNode α)}
    (haccepted : response.acceptedFrom surroundings [] 0 nodes = .ok accepted)
    (window : Window) :
    response.collect surroundings window nodes = .ok {
      contexts := (accepted.foldl
        (fun counting entry => countMatch window counting entry.2.context)
        ⟨0, 0, 0, []⟩).contexts
      total := accepted.length } := by
  have hloop := @foldlM_countNode_accepted _ _ surroundings window hunique nodes
    ⟨0, 0, 0, []⟩ [] 0
  rw [haccepted] at hloop
  obtain ⟨state, hstate, hcounting⟩ := Outcome.bind_eq_ok.1 hloop
  have htotal := total_foldl_countMatch window accepted ⟨0, 0, 0, []⟩
  rw [← Outcome.pure_eq_ok.1 hcounting] at htotal ⊢
  unfold collect
  rw [if_pos (by simp [hunique]), hstate]
  simp only [bind, Except.bind, htotal, zero_add]
  rfl

omit hdata in
/-- Equal texts at two places are values that blur. -/
theorem textAt_eq_iff {nodes : List (ResultNode α)} {i j : ℕ} {node other : ResultNode α}
    (hnode : nodes[i]? = some node) (hother : nodes[j]? = some other)
    (hcontexts : ∀ node ∈ nodes, node.context.isSome) :
    (response.textAt data nodes i = response.textAt data nodes j →
        response.tupleAt data nodes i = response.tupleAt data nodes j) ↔
      ∀ values values', response.tuple data node = some values →
        response.tuple data other = some values' → Blur values values' → values = values' := by
  have hsome {node : ResultNode α} (h : node ∈ nodes) :
      ∃ values, response.tuple data node = some values := by
    obtain ⟨context, hcontext⟩ := Option.isSome_iff_exists.1 (hcontexts node h)
    exact ⟨_, by rw [tuple, hcontext]; rfl⟩
  obtain ⟨values, hvalues⟩ := hsome (List.mem_of_getElem? hnode)
  obtain ⟨values', hvalues'⟩ := hsome (List.mem_of_getElem? hother)
  simp only [textAt, tupleAt, hnode, hother, Option.bind_some, hvalues, hvalues',
    Option.map_some, Option.some.injEq, blur_iff]
  constructor
  · rintro h _ _ rfl rfl
    exact h
  · exact fun h => h values values' rfl rfl

/-- The nodes accepted during a `query` are the first of those that pass the filter and have
the same values exactly if no two of these have different values that blur. -/
theorem accepted_firsts_iff (hunique : response.unique = true)
    (hfields : [] ∉ response.uniqueFields) {nodes : List (ResultNode α)}
    (hcontexts : ∀ node ∈ nodes, node.context.isSome) :
    ∃ accepted, response.acceptedFrom surroundings [] 0 nodes = .ok accepted ∧
      (∀ window, response.collect surroundings window nodes = .ok {
        contexts := (accepted.foldl
          (fun counting entry => countMatch window counting entry.2.context)
          ⟨0, 0, 0, []⟩).contexts
        total := accepted.length }) ∧
      ((∀ place node, (place, node) ∈ accepted ↔ nodes[place]? = some node ∧
          IsFirst (response.PassesAt nodes) (response.tupleAt data nodes) place) ↔
        ∀ node ∈ nodes, ∀ other ∈ nodes,
          response.passes node = true → response.passes other = true →
          ∀ values values', response.tuple data node = some values →
            response.tuple data other = some values' → Blur values values' →
            values = values') := by
  obtain ⟨accepted, haccepted, hmem⟩ := acceptedFrom_eq hdata hfields hcontexts [] 0
  refine ⟨accepted, haccepted, collect_accepted hunique haccepted, ?_⟩
  have hfirst (place : ℕ) (node : ResultNode α) : (place, node) ∈ accepted ↔
      nodes[place]? = some node ∧
        IsFirst (response.PassesAt nodes) (response.textAt data nodes) place := by
    rw [hmem]
    simp [FreshAt]
  -- every first place has its node
  have hplaces : (∀ place node, (place, node) ∈ accepted ↔ nodes[place]? = some node ∧
      IsFirst (response.PassesAt nodes) (response.tupleAt data nodes) place) ↔
      ∀ place, IsFirst (response.PassesAt nodes) (response.textAt data nodes) place ↔
        IsFirst (response.PassesAt nodes) (response.tupleAt data nodes) place := by
    simp only [hfirst, and_congr_right_iff]
    refine forall_congr' fun place => ⟨fun h => ?_, fun h node _ => h⟩
    constructor
    · intro htext
      obtain ⟨node, hnode, _⟩ := htext.1
      exact (h node hnode).1 htext
    · intro htuple
      obtain ⟨node, hnode, _⟩ := htuple.1
      exact (h node hnode).2 htuple
  have hcoarse (i j : ℕ) (hsame : response.tupleAt data nodes i = response.tupleAt data nodes j) :
      response.textAt data nodes i = response.textAt data nodes j :=
    congrArg (Option.map spelled) hsame
  rw [hplaces, isFirst_congr_iff hcoarse]
  constructor
  · intro h node hnode other hother hpass hpass'
    obtain ⟨i, hi⟩ := List.mem_iff_getElem?.1 hnode
    obtain ⟨j, hj⟩ := List.mem_iff_getElem?.1 hother
    exact (textAt_eq_iff hi hj hcontexts).1 (h i j ⟨node, hi, hpass⟩ ⟨other, hj, hpass'⟩)
  · rintro h i j ⟨node, hi, hpass⟩ ⟨other, hj, hpass'⟩
    exact (textAt_eq_iff hi hj hcontexts).2 (h node (List.mem_of_getElem? hi) other
      (List.mem_of_getElem? hj) hpass hpass')

end

/-- The first two of the fields `a` and `b` are different, but their values spell the same
text. -/
def twoFields (values : Str × Str) (field : Str) : Str :=
  if field = ("a" : Str) then values.1 else values.2

/-- A Context is the pair of its values. -/
def pairData : Surroundings (Str × Str) where
  getData := fun values field => pure (twoFields values field)
  sort := fun _ contexts => pure contexts
  shuffle := id

/-- All that is different in `a` and `b`. -/
def uniquePairs : Response where
  filter := false
  filterTerms := []
  unique := true
  uniqueFields := ["a", "b"]
  groups := 0
  page := 1
  paginate := 10
  skip := 0
  sortType := .none
  sortFields := []

/-- A separator in the first value. -/
def separatorInside : List (ResultNode (Str × Str)) :=
  [⟨[], some ("x~!~y", "z")⟩, ⟨[], some ("x", "y~!~z")⟩]

/-- The second node is not accepted, but it is the first with its values. -/
theorem accepted_separatorInside :
    PureData pairData twoFields ∧
    ∃ accepted, uniquePairs.acceptedFrom pairData [] 0 separatorInside = .ok accepted ∧
      ¬ ∀ place node, (place, node) ∈ accepted ↔ separatorInside[place]? = some node ∧
        IsFirst (uniquePairs.PassesAt separatorInside)
          (uniquePairs.tupleAt twoFields separatorInside) place := by
  refine ⟨fun _ _ _ => rfl, [(0, ⟨[], some ("x~!~y", "z")⟩)], rfl, fun h => ?_⟩
  have hmem := (h 1 ⟨[], some ("x", "y~!~z")⟩).2 ⟨rfl, ⟨_, rfl, rfl⟩, fun j hj _ => ?_⟩
  · simp at hmem
  · obtain rfl : j = 0 := by omega
    decide

/-- Three nodes, the last of them with the values of the first. -/
def repeated : List (ResultNode (Str × Str)) :=
  [⟨[], some ("x", "y")⟩, ⟨[], some ("x", "z")⟩, ⟨[], some ("x", "y")⟩]

theorem accepted_firsts_repeated :
    ∃ accepted, uniquePairs.acceptedFrom pairData [] 0 repeated = .ok accepted ∧
      ∀ place node, (place, node) ∈ accepted ↔ repeated[place]? = some node ∧
        IsFirst (uniquePairs.PassesAt repeated) (uniquePairs.tupleAt twoFields repeated)
          place := by
  have hcontexts : ∀ node ∈ repeated, node.context.isSome := by simp [repeated]
  obtain ⟨accepted, haccepted, -, hfirsts⟩ :=
    @accepted_firsts_iff _ uniquePairs pairData twoFields (fun _ _ _ => rfl) rfl (by decide)
      repeated hcontexts
  refine ⟨accepted, haccepted, hfirsts.2 ?_⟩
  have htuple (node : ResultNode (Str × Str)) (hnode : node ∈ repeated) (values : List Str)
      (hvalues : uniquePairs.tuple twoFields node = some values) :
      values = ["x", "y"] ∨ values = ["x", "z"] := by
    simp only [repeated, List.mem_cons, List.not_mem_nil, or_false] at hnode
    rcases hnode with rfl | rfl | rfl
    · exact Or.inl (Option.some.inj hvalues).symm
    · exact Or.inr (Option.some.inj hvalues).symm
    · exact Or.inl (Option.some.inj hvalues).symm
  intro node hnode other hother _ _ values values' hvalues hvalues' hblur
  have hspelled := spelled_eq_of_blur hblur
  rcases htuple node hnode values hvalues with rfl | rfl <;>
    rcases htuple other hother values' hvalues' with rfl | rfl
  · rfl
  · exact absurd hspelled (by decide)
  · exact absurd hspelled (by decide)
  · rfl

end VaeDb.Response
