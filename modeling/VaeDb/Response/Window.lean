import VaeDb.Response.Query

/-!
# One window

The three ways through `query` list the same part of the same Contexts: of those that match,
arranged, `skip` are dropped and at most `paginate` are taken.

* `plainLoop_range`: the loop over indices lists the Contexts of a range of nodes.
* `foldl_countMatch_options`: the loop that counts skips nodes and lists the Contexts that
  follow; of Contexts that match, it lists a range as well.
* `foldlM_countNode`: that loop matches the nodes that pass the filter and are the first
  with their unique key.
* `query_window` puts them together with the cut after sorting.
-/

namespace VaeDb.Response

variable {α : Type} {response : Response} {surroundings : Surroundings α} {window : Window}
  {quotient : ℤ → ℤ → ℚ}

/-! ## What matches -/

/-- The Contexts of the nodes that pass the filter. -/
def passing (response : Response) (nodes : List (ResultNode α)) : List α :=
  (nodes.filter fun node => !response.filter || response.filterMatch node).filterMap
    ResultNode.context

/-- A Context with its unique key. -/
def keyed (response : Response) (surroundings : Surroundings α) (context : α) :
    Outcome (Str × α) := do
  let key ← uniqueKey surroundings context response.uniqueFields
  return (key, context)

/-- The Contexts of the nodes that pass the filter and are the first of these with their
unique key. -/
def matching (response : Response) (surroundings : Surroundings α)
    (nodes : List (ResultNode α)) : Outcome (List α) :=
  if response.unique then do
    let keyedContexts ← (response.passing nodes).mapM (response.keyed surroundings)
    return (keyedContexts.eraseDupsBy fun a b => a.1 == b.1).map Prod.snd
  else return response.passing nodes

/-! ## The local variables -/

theorem int32_eq_ok {n m : ℤ} (h : int32 n = .ok m) : m = n := by
  unfold int32 at h
  split at h
  · exact (Outcome.pure_eq_ok.1 h).symm
  · cases h

/-- What the clamps leave. -/
structure Window.Clamped (window : Window) (response : Response) (size : ℤ) : Prop where
  skip : 0 ≤ window.skip
  paginate : 1 ≤ window.paginate
  plain : response.sortType = .none →
    window.start = window.skip ∧ window.stop = min (window.paginate + window.skip) size
  sorted : response.sortType ≠ .none → window.start = 0 ∧ window.stop = size

theorem offsets_clamped {size : ℤ} (h : response.offsets quotient size = .ok window) :
    window.Clamped response size := by
  obtain ⟨⟨skip, paginate⟩, _, h⟩ := Outcome.bind_eq_ok.1 h
  have hskip : 0 ≤ if skip < 0 then 0 else skip := by split <;> omega
  have hpaginate : 1 ≤ if paginate < 1 then 1 else paginate := by split <;> omega
  simp only at h
  split at h
  · next hnone =>
    obtain ⟨sum, hsum, h⟩ := Outcome.bind_eq_ok.1 h
    obtain rfl := Outcome.pure_eq_ok.1 h
    obtain rfl := int32_eq_ok hsum
    refine ⟨hskip, hpaginate, fun _ => ⟨rfl, ?_⟩, fun hsorted => absurd hnone hsorted⟩
    simp only
    split <;> split <;> omega
  · next hsorted =>
    obtain rfl := Outcome.pure_eq_ok.1 h
    exact ⟨hskip, hpaginate, fun hnone => absurd hnone hsorted, fun _ => ⟨rfl, rfl⟩⟩

/-! ## The plain loop -/

/-- The plain loop lists the Contexts of a range of nodes. -/
theorem plainLoop_range (nodes : List (ResultNode α)) (rounds i : ℕ)
    (hbound : i + rounds ≤ nodes.length) :
    plainLoop nodes rounds i =
      .ok (((nodes.drop i).take rounds).filterMap ResultNode.context) := by
  induction rounds generalizing i with
  | zero => simp [plainLoop, pure, Except.pure]
  | succ rounds ih =>
      have hi : i < nodes.length := by omega
      have hnode : getNode nodes i = .ok nodes[i] := by
        simp [getNode, List.getElem?_eq_getElem hi, pure, Except.pure]
      have hrest := ih (i + 1) (by omega)
      have hcast : ((i : ℤ) + 1) = ((i + 1 : ℕ) : ℤ) := by omega
      rw [plainLoop, hnode, List.drop_eq_getElem_cons hi, List.take_succ_cons,
        List.filterMap_cons]
      simp only [bind, Except.bind, hcast, hrest]
      cases nodes[i].context with
      | none => rfl
      | some context => rfl

/-- With a Context on every node, the Contexts are the nodes one by one. -/
theorem exists_contexts {nodes : List (ResultNode α)}
    (hcontexts : ∀ node ∈ nodes, node.context.isSome) :
    nodes.map ResultNode.context = (nodes.filterMap ResultNode.context).map some := by
  induction nodes with
  | nil => rfl
  | cons node nodes ih =>
      obtain ⟨context, hcontext⟩ :=
        Option.isSome_iff_exists.1 (hcontexts node (List.mem_cons_self ..))
      rw [List.filterMap_cons_some hcontext, List.map_cons, List.map_cons, hcontext,
        ih fun other hother => hcontexts other (List.mem_cons_of_mem _ hother)]

theorem length_filterMap_context {nodes : List (ResultNode α)}
    (hcontexts : ∀ node ∈ nodes, node.context.isSome) :
    (nodes.filterMap ResultNode.context).length = nodes.length := by
  have hlength := congrArg List.length (exists_contexts hcontexts)
  simpa using hlength.symm

theorem plainLoop_eq {nodes : List (ResultNode α)}
    (hcontexts : ∀ node ∈ nodes, node.context.isSome) (rounds i : ℕ)
    (hbound : i + rounds ≤ nodes.length) :
    plainLoop nodes rounds i =
      .ok (((nodes.filterMap ResultNode.context).drop i).take rounds) := by
  have hmap (list : List (ResultNode α)) :
      list.filterMap ResultNode.context = (list.map ResultNode.context).filterMap id := by
    rw [List.filterMap_map]
    rfl
  rw [plainLoop_range nodes rounds i hbound, hmap, List.map_take, List.map_drop,
    exists_contexts hcontexts, ← List.map_drop, ← List.map_take, List.filterMap_map]
  simp only [Function.comp_def, id_eq, List.filterMap_some]

/-! ## The counting loop -/

/-- A node before the window. -/
theorem countMatch_before {counting : Counting α} (context : Option α)
    (h : counting.skipped < window.start) :
    countMatch window counting context =
      { counting with total := counting.total + 1, skipped := counting.skipped + 1 } := by
  simp [countMatch, h]

/-- A Context in the window. -/
theorem countMatch_within {counting : Counting α} (context : α)
    (hstart : ¬ counting.skipped < window.start)
    (hstop : counting.included + counting.skipped < window.stop) :
    countMatch window counting (some context) =
      { counting with
        total := counting.total + 1
        contexts := counting.contexts ++ [context]
        included := counting.included + 1 } := by
  simp [countMatch, hstart, hstop]

/-- A node without a Context, or after the window. -/
theorem countMatch_after {counting : Counting α} {context : Option α}
    (hstart : ¬ counting.skipped < window.start)
    (h : context = none ∨ ¬ counting.included + counting.skipped < window.stop) :
    countMatch window counting context =
      { counting with total := counting.total + 1 } := by
  rcases h with rfl | hstop
  · simp [countMatch, hstart]
  · simp [countMatch, hstart, hstop]

/-- Counting skips nodes with and without a Context, and lists the Contexts that follow. -/
theorem foldl_countMatch_options (window : Window) (found : List (Option α))
    (counting : Counting α)
    (hskipped : 0 ≤ counting.skipped ∧ counting.skipped ≤ window.start)
    (hincluded : 0 ≤ counting.included)
    (hnone : counting.skipped < window.start → counting.included = 0) :
    (found.foldl (countMatch window) counting).total = counting.total + found.length ∧
      (found.foldl (countMatch window) counting).contexts = counting.contexts ++
        ((found.drop (window.start - counting.skipped).toNat).filterMap id).take
          (window.stop - window.start - counting.included).toNat := by
  induction found generalizing counting with
  | nil => simp
  | cons context found ih =>
      rw [List.foldl_cons]
      by_cases hskip : counting.skipped < window.start
      · rw [countMatch_before context hskip]
        obtain ⟨htotal, hlist⟩ := ih
          { counting with total := counting.total + 1, skipped := counting.skipped + 1 }
          (by simp only; omega) hincluded fun _ => hnone hskip
        rw [htotal, hlist]
        refine ⟨by simp only [List.length_cons]; omega, ?_⟩
        have hdrop : (window.start - counting.skipped).toNat =
            (window.start - (counting.skipped + 1)).toNat + 1 := by omega
        rw [hdrop, List.drop_succ_cons]
      · have hstart : counting.skipped = window.start := by omega
        have hzero : (window.start - counting.skipped).toNat = 0 := by omega
        have hafter (h : context = none ∨ ¬ counting.included + counting.skipped < window.stop)
            (hrest : ((context :: found).filterMap id).take
                (window.stop - window.start - counting.included).toNat =
              (found.filterMap id).take
                (window.stop - window.start - counting.included).toNat) :
            (found.foldl (countMatch window) (countMatch window counting context)).total =
                counting.total + (context :: found).length ∧
              (found.foldl (countMatch window) (countMatch window counting context)).contexts =
                counting.contexts ++ ((context :: found).filterMap id).take
                  (window.stop - window.start - counting.included).toNat := by
          rw [countMatch_after hskip h]
          obtain ⟨htotal, hlist⟩ := ih { counting with total := counting.total + 1 } hskipped
            hincluded hnone
          simp only [hzero, List.drop_zero] at hlist
          rw [htotal, hlist, hrest]
          exact ⟨by simp only [List.length_cons]; omega, rfl⟩
        simp only [hzero, List.drop_zero]
        cases context with
        | none => exact hafter (Or.inl rfl) (by simp)
        | some context =>
            by_cases hstop : counting.included + counting.skipped < window.stop
            · rw [countMatch_within context hskip hstop]
              obtain ⟨htotal, hlist⟩ := ih
                { counting with
                  total := counting.total + 1
                  contexts := counting.contexts ++ [context]
                  included := counting.included + 1 }
                hskipped (by simp only; omega) fun h => absurd h hskip
              simp only [hzero, List.drop_zero] at hlist
              rw [htotal, hlist]
              refine ⟨by simp only [List.length_cons]; omega, ?_⟩
              have htake : (window.stop - window.start - counting.included).toNat =
                  (window.stop - window.start - (counting.included + 1)).toNat + 1 := by omega
              rw [htake, List.filterMap_cons_some (f := id) rfl, List.take_succ_cons,
                List.append_assoc, List.singleton_append]
            · have htake : (window.stop - window.start - counting.included).toNat = 0 := by
                omega
              exact hafter (Or.inr hstop) (by rw [htake, List.take_zero, List.take_zero])

/-- Counting lists a range of the Contexts that match. -/
theorem foldl_countMatch (window : Window) (found : List α) (counting : Counting α)
    (hskipped : 0 ≤ counting.skipped ∧ counting.skipped ≤ window.start)
    (hincluded : 0 ≤ counting.included)
    (hnone : counting.skipped < window.start → counting.included = 0) :
    (found.foldl (fun counting context => countMatch window counting (some context))
        counting).total = counting.total + found.length ∧
      (found.foldl (fun counting context => countMatch window counting (some context))
        counting).contexts = counting.contexts ++
          (found.drop (window.start - counting.skipped).toNat).take
            (window.stop - window.start - counting.included).toNat := by
  have hoptions := foldl_countMatch_options window (found.map some) counting hskipped hincluded
    hnone
  rw [List.foldl_map, List.length_map, ← List.map_drop] at hoptions
  simpa only [List.filterMap_map, Function.comp_def, id_eq, List.filterMap_some] using hoptions

/-! ## Matching on the way -/

/-- The Contexts whose key has not been seen, and is not repeated. -/
def freshFrom (seen : List Str) : List (Str × α) → List α
  | [] => []
  | (key, context) :: rest =>
      if key ∈ seen then freshFrom seen rest else context :: freshFrom (key :: seen) rest

theorem eraseDupsBy_loop (pairs found : List (Str × α)) :
    (List.eraseDupsBy.loop (fun a b => a.1 == b.1) pairs found).map Prod.snd =
      found.reverse.map Prod.snd ++ freshFrom (found.map Prod.fst) pairs := by
  induction pairs generalizing found with
  | nil => simp [List.eraseDupsBy.loop, freshFrom]
  | cons pair pairs ih =>
      obtain ⟨key, context⟩ := pair
      have hany : found.any (fun b => key == b.1) = decide (key ∈ found.map Prod.fst) := by
        rw [Bool.eq_iff_iff, List.any_eq_true, decide_eq_true_iff, List.mem_map]
        exact exists_congr fun pair => and_congr_right' (by rw [beq_iff_eq, eq_comm])
      rw [List.eraseDupsBy.loop, freshFrom, hany]
      by_cases hseen : key ∈ found.map Prod.fst
      · rw [if_pos hseen, decide_eq_true hseen]
        exact ih found
      · rw [if_neg hseen, decide_eq_false hseen]
        have hrest := ih ((key, context) :: found)
        simpa using hrest

/-- Keeping the first with each key is keeping what has not been seen. -/
theorem eraseDupsBy_eq (pairs : List (Str × α)) :
    (pairs.eraseDupsBy fun a b => a.1 == b.1).map Prod.snd = freshFrom [] pairs := by
  simpa [List.eraseDupsBy] using eraseDupsBy_loop pairs []

theorem passing_cons (node : ResultNode α) (nodes : List (ResultNode α)) {context : α}
    (hcontext : node.context = some context) :
    response.passing (node :: nodes) =
      if (!response.filter || response.filterMatch node) = true then
        context :: response.passing nodes
      else response.passing nodes := by
  unfold passing
  rw [List.filter_cons]
  split
  · rw [List.filterMap_cons_some hcontext]
  · rfl

/-- Without unique fields the counting loop counts the nodes that pass the filter, in
order. -/
theorem foldlM_countNode_filter (surroundings : Surroundings α) (window : Window)
    (hunique : response.unique = false) (nodes : List (ResultNode α)) (counting : Counting α)
    (seen : List Str) :
    nodes.foldlM (response.countNode surroundings window) (counting, seen) =
      .ok (((nodes.filter fun node => !response.filter || response.filterMatch node).map
        ResultNode.context).foldl (countMatch window) counting, seen) := by
  induction nodes generalizing counting with
  | nil => rfl
  | cons node nodes ih =>
      rw [List.foldlM_cons, List.filter_cons, countNode]
      by_cases hpass : (!response.filter || response.filterMatch node) = true
      · simp only [if_pos hpass, hunique, Bool.false_eq_true, if_false, pure_bind]
        exact ih _
      · simp only [if_neg hpass, pure_bind]
        exact ih _

/-- If every node has a Context, these are the Contexts that match. -/
theorem foldlM_countNode (surroundings : Surroundings α) (window : Window)
    (hunique : response.unique = false) {nodes : List (ResultNode α)}
    (hcontexts : ∀ node ∈ nodes, node.context.isSome) (counting : Counting α)
    (seen : List Str) :
    nodes.foldlM (response.countNode surroundings window) (counting, seen) =
      .ok ((response.passing nodes).foldl
        (fun counting context => countMatch window counting (some context)) counting, seen) := by
  rw [foldlM_countNode_filter surroundings window hunique, exists_contexts, List.foldl_map]
  · rfl
  · exact fun node hnode => hcontexts node (List.mem_of_mem_filter hnode)

/-- With unique fields, those of them whose key is new. -/
theorem foldlM_countNode_unique (surroundings : Surroundings α) (window : Window)
    (hunique : response.unique = true) {nodes : List (ResultNode α)}
    (hcontexts : ∀ node ∈ nodes, node.context.isSome)
    (counting : Counting α) (seen : List Str) :
    (do
      let state ← nodes.foldlM (response.countNode surroundings window) (counting, seen)
      return state.1) =
    (do
      let pairs ← (response.passing nodes).mapM (response.keyed surroundings)
      return (freshFrom seen pairs).foldl
        (fun counting context => countMatch window counting (some context)) counting) := by
  induction nodes generalizing counting seen with
  | nil => rfl
  | cons node nodes ih =>
      obtain ⟨context, hcontext⟩ :=
        Option.isSome_iff_exists.1 (hcontexts node (List.mem_cons_self ..))
      have hrest := ih fun other hother => hcontexts other (List.mem_cons_of_mem _ hother)
      rw [List.foldlM_cons, passing_cons node nodes hcontext, countNode]
      by_cases hpass : (!response.filter || response.filterMatch node) = true
      · rw [if_pos hpass, if_pos hpass, if_pos hunique, List.mapM_cons, uniqueMatch, hcontext]
        simp only [keyed, bind_assoc, pure_bind]
        congr 1
        funext key
        -- the key decides whether the Context counts
        by_cases hseen : key ∈ seen
        · simp only [hseen, not_true_eq_false, if_false, pure_bind, Bool.false_eq_true,
            freshFrom, if_true]
          exact hrest _ _
        · simp only [hseen, not_false_eq_true, if_true, pure_bind, freshFrom, if_false]
          exact hrest _ _
      · simp only [if_neg hpass, pure_bind]
        exact hrest _ _

/-! ## The window -/

theorem length_passing_le (response : Response) (nodes : List (ResultNode α)) :
    (response.passing nodes).length ≤ nodes.length :=
  (List.length_filterMap_le _ _).trans (List.length_filter_le _ _)

theorem length_freshFrom_le (seen : List Str) (pairs : List (Str × α)) :
    (freshFrom seen pairs).length ≤ pairs.length := by
  induction pairs generalizing seen with
  | nil => simp [freshFrom]
  | cons pair pairs ih =>
      obtain ⟨key, context⟩ := pair
      rw [freshFrom]
      split
      · have := ih seen
        simp only [List.length_cons]
        omega
      · have := ih (key :: seen)
        simp only [List.length_cons]
        omega

/-- The range that the loops list. -/
def ranged (window : Window) (found : List α) : List α :=
  (found.drop window.start.toNat).take (window.stop - window.start).toNat

theorem length_mapM {contexts : List α} {pairs : List (Str × α)}
    (h : contexts.mapM (response.keyed surroundings) = .ok pairs) :
    pairs.length = contexts.length := by
  induction contexts generalizing pairs with
  | nil =>
      rw [List.mapM_nil] at h
      rw [← Outcome.pure_eq_ok.1 h]
      rfl
  | cons context contexts ih =>
      rw [List.mapM_cons] at h
      obtain ⟨pair, _, h⟩ := Outcome.bind_eq_ok.1 h
      obtain ⟨rest, hrest, h⟩ := Outcome.bind_eq_ok.1 h
      rw [← Outcome.pure_eq_ok.1 h, List.length_cons, List.length_cons, ih hrest]

theorem length_matching_le {nodes : List (ResultNode α)} {found : List α}
    (h : response.matching surroundings nodes = .ok found) : found.length ≤ nodes.length := by
  unfold matching at h
  split at h
  · obtain ⟨pairs, hpairs, h⟩ := Outcome.bind_eq_ok.1 h
    rw [← Outcome.pure_eq_ok.1 h, eraseDupsBy_eq]
    have hlength : pairs.length = (response.passing nodes).length :=
      length_mapM hpairs
    calc (freshFrom [] pairs).length
        ≤ pairs.length := length_freshFrom_le [] pairs
      _ = (response.passing nodes).length := hlength
      _ ≤ nodes.length := length_passing_le response nodes
  · rw [← Outcome.pure_eq_ok.1 h]
    exact length_passing_le response nodes

/-- Counting from the start lists the range. -/
theorem foldl_countMatch_eq (hstart : 0 ≤ window.start) (found : List α) :
    let counting := found.foldl
      (fun counting context => countMatch window counting (some context)) ⟨0, 0, 0, []⟩
    counting.contexts = ranged window found ∧ counting.total = found.length := by
  obtain ⟨htotal, hcontexts⟩ := foldl_countMatch window found ⟨0, 0, 0, []⟩
    ⟨Int.le_refl 0, hstart⟩ (Int.le_refl 0) fun _ => rfl
  refine ⟨?_, ?_⟩
  · simpa [ranged] using hcontexts
  · simpa using htotal

theorem Window.Clamped.start_nonneg {size : ℤ} (h : window.Clamped response size) :
    0 ≤ window.start := by
  by_cases hnone : response.sortType = .none
  · rw [(h.plain hnone).1]
    exact h.skip
  · rw [(h.sorted hnone).1]

theorem Window.Clamped.stop_le {size : ℤ} (h : window.Clamped response size) :
    window.stop ≤ size := by
  by_cases hnone : response.sortType = .none
  · have := (h.plain hnone).2
    omega
  · have := (h.sorted hnone).2
    omega

/-- What counting some nodes from the start leaves. -/
theorem foldl_countMatch_nodes (hstart : 0 ≤ window.start) (nodes : List (ResultNode α)) :
    let counting := (nodes.map ResultNode.context).foldl (countMatch window) ⟨0, 0, 0, []⟩
    counting.contexts = ((nodes.drop window.start.toNat).filterMap ResultNode.context).take
        (window.stop - window.start).toNat ∧
      counting.total = nodes.length := by
  obtain ⟨htotal, hcontexts⟩ := foldl_countMatch_options window (nodes.map ResultNode.context)
    ⟨0, 0, 0, []⟩ ⟨le_rfl, hstart⟩ le_rfl fun _ => rfl
  simp only [sub_zero, List.nil_append, ← List.map_drop, List.filterMap_map, Function.comp_def,
    id_eq, zero_add, List.length_map] at htotal hcontexts
  exact ⟨hcontexts, htotal⟩

/-- Without unique fields the counting loop lists as many of the Contexts that follow. -/
theorem collect_filter (hfilter : response.filter = true) (hunique : response.unique = false)
    (nodes : List (ResultNode α)) (hstart : 0 ≤ window.start) :
    response.collect surroundings window nodes = .ok {
      contexts := (((nodes.filter fun node =>
        !response.filter || response.filterMatch node).drop window.start.toNat).filterMap
          ResultNode.context).take (window.stop - window.start).toNat
      total := (nodes.filter fun node =>
        !response.filter || response.filterMatch node).length } := by
  obtain ⟨hcontexts, htotal⟩ := foldl_countMatch_nodes hstart
    (nodes.filter fun node => !response.filter || response.filterMatch node)
  unfold collect
  rw [foldlM_countNode_filter surroundings window hunique]
  simp only [hfilter, Bool.true_or, if_true, bind, Except.bind]
  rw [← hfilter, hcontexts, htotal]
  rfl

/-- Without filter and unique fields the loop lists the Contexts among so many nodes. -/
theorem collect_plain (hfilter : response.filter = false) (hunique : response.unique = false)
    (nodes : List (ResultNode α)) (hclamped : window.Clamped response nodes.length) :
    response.collect surroundings window nodes = .ok {
      contexts := ((nodes.drop window.start.toNat).take
        (window.stop - window.start).toNat).filterMap ResultNode.context
      total := nodes.length } := by
  have hstart := hclamped.start_nonneg
  have hstop := hclamped.stop_le
  have hloop : plainLoop nodes (window.stop - window.start).toNat window.start =
      .ok (((nodes.drop window.start.toNat).take
        (window.stop - window.start).toNat).filterMap ResultNode.context) := by
    by_cases hempty : window.stop ≤ window.start
    · have hzero : (window.stop - window.start).toNat = 0 := by omega
      rw [hzero]
      rfl
    · have hnat : ((window.start.toNat : ℕ) : ℤ) = window.start := by omega
      have hrange := plainLoop_range nodes (window.stop - window.start).toNat
        window.start.toNat (by omega)
      rw [hnat] at hrange
      exact hrange
  unfold collect
  rw [hfilter, hunique, hloop]
  rfl

/-- The loops list a range of the Contexts that match, and count all of them. -/
theorem collect_eq {nodes : List (ResultNode α)}
    (hcontexts : ∀ node ∈ nodes, node.context.isSome)
    (hclamped : window.Clamped response nodes.length) :
    response.collect surroundings window nodes = do
      let found ← response.matching surroundings nodes
      return { contexts := ranged window found, total := found.length } := by
  have hstart := hclamped.start_nonneg
  have hstop := hclamped.stop_le
  unfold collect matching
  cases hunique : response.unique with
  | true =>
      -- only the counters of the last state are read
      have hloop := foldlM_countNode_unique surroundings window hunique hcontexts ⟨0, 0, 0, []⟩ []
      have hstate : (do
          let state ← nodes.foldlM (response.countNode surroundings window) (⟨0, 0, 0, []⟩, [])
          return ({ contexts := state.1.contexts, total := state.1.total } :
            ResponseContext α)) =
          (do
            let counting ← (do
              let state ←
                nodes.foldlM (response.countNode surroundings window) (⟨0, 0, 0, []⟩, [])
              return state.1)
            return { contexts := counting.contexts, total := counting.total }) := by
        simp only [bind_assoc, pure_bind]
      simp only [Bool.or_true, if_true]
      rw [hstate, hloop]
      simp only [bind_assoc, pure_bind, eraseDupsBy_eq]
      congr 1
      funext pairs
      obtain ⟨hlist, htotal⟩ := foldl_countMatch_eq hstart (freshFrom [] pairs)
      rw [hlist, htotal]
  | false =>
      cases hfilter : response.filter with
      | true =>
          have hloop := foldlM_countNode surroundings window hunique hcontexts ⟨0, 0, 0, []⟩ []
          obtain ⟨hlist, htotal⟩ := foldl_countMatch_eq hstart (response.passing nodes)
          simp only [Bool.or_false, if_true, Bool.false_eq_true, if_false, pure_bind]
          rw [hloop]
          simp only [bind, Except.bind, hlist, htotal]
      | false =>
          have hpassing : response.passing nodes = nodes.filterMap ResultNode.context := by
            simp [passing, hfilter]
          have hlength : (nodes.filterMap ResultNode.context).length = nodes.length :=
            length_filterMap_context hcontexts
          have hloop : plainLoop nodes (window.stop - window.start).toNat window.start =
              .ok (ranged window (nodes.filterMap ResultNode.context)) := by
            by_cases hempty : window.stop ≤ window.start
            · have hzero : (window.stop - window.start).toNat = 0 := by omega
              rw [ranged, hzero, List.take_zero]
              rfl
            · have hnat : ((window.start.toNat : ℕ) : ℤ) = window.start := by omega
              have hrange := plainLoop_eq hcontexts (window.stop - window.start).toNat
                window.start.toNat (by omega)
              rw [hnat] at hrange
              exact hrange
          simp only [Bool.or_false, Bool.false_eq_true, if_false, pure_bind, hpassing]
          rw [hloop, hlength]
          rfl

/-- The cut after sorting drops and takes. -/
theorem cut_eq (hsorted : response.sortType ≠ .none) {size : ℤ}
    (hclamped : window.Clamped response size) (contexts : List α) :
    response.cut window contexts =
      (contexts.drop window.skip.toNat).take window.paginate.toNat := by
  have hskip := hclamped.skip
  have hpaginate := hclamped.paginate
  have hdrop : contexts.drop
      (if (contexts.length : ℤ) > window.skip then window.skip.toNat else contexts.length) =
        contexts.drop window.skip.toNat := by
    split
    · rfl
    · next hshort =>
      rw [List.drop_length, List.drop_eq_nil_of_le (by omega)]
  unfold cut
  rw [if_pos hsorted]
  simp only [hdrop]
  split
  · rfl
  · next hshort => rw [List.take_of_length_le (by omega)]

/-- Without an order the loops have taken the window already. -/
theorem ranged_eq (hplain : response.sortType = .none) {size : ℕ}
    (hclamped : window.Clamped response size) {found : List α} (hlength : found.length ≤ size) :
    ranged window found = (found.drop window.skip.toNat).take window.paginate.toNat := by
  obtain ⟨hstart, hstop⟩ := hclamped.plain hplain
  have hskip := hclamped.skip
  have hpaginate := hclamped.paginate
  unfold ranged
  rw [hstart]
  by_cases hshort : window.paginate + window.skip ≤ size
  · have htake : (window.stop - window.skip).toNat = window.paginate.toNat := by omega
    rw [htake]
  · -- both take all that is left
    have hrest : (found.drop window.skip.toNat).length ≤ (window.stop - window.skip).toNat := by
      rw [List.length_drop]
      omega
    have hrest' : (found.drop window.skip.toNat).length ≤ window.paginate.toNat := by
      rw [List.length_drop]
      omega
    rw [List.take_of_length_le hrest, List.take_of_length_le hrest']

/-- With one, they have taken everything. -/
theorem ranged_all (hsorted : response.sortType ≠ .none) {size : ℕ}
    (hclamped : window.Clamped response size) {found : List α} (hlength : found.length ≤ size) :
    ranged window found = found := by
  obtain ⟨hstart, hstop⟩ := hclamped.sorted hsorted
  unfold ranged
  rw [hstart, hstop, Int.toNat_zero, List.drop_zero, List.take_of_length_le (by omega)]

/-- Whatever the quotients are taken to be, one window of the Contexts that match is listed. -/
theorem queryBy_window (response : Response) (surroundings : Surroundings α)
    (nodes : List (ResultNode α)) (hcontexts : ∀ node ∈ nodes, node.context.isSome)
    (hwindow : response.offsets quotient nodes.length = .ok window) :
    response.queryBy quotient surroundings nodes = do
      let found ← response.matching surroundings nodes
      let contexts ← response.arrange surroundings found
      return {
        contexts := (contexts.drop window.skip.toNat).take window.paginate.toNat
        total := found.length } := by
  have hclamped := offsets_clamped hwindow
  rw [queryBy, hwindow]
  change (do
    let collected ← response.collect surroundings window nodes
    let contexts ← response.arrange surroundings collected.contexts
    return ({ contexts := response.cut window contexts, total := collected.total } :
      ResponseContext α)) = _
  rw [collect_eq hcontexts hclamped]
  cases hmatching : response.matching surroundings nodes with
  | error fault => rfl
  | ok found =>
      have hlength := length_matching_le hmatching
      change (do
        let contexts ← response.arrange surroundings (ranged window found)
        return ({ contexts := response.cut window contexts, total := found.length } :
          ResponseContext α)) = (do
        let contexts ← response.arrange surroundings found
        return {
          contexts := (contexts.drop window.skip.toNat).take window.paginate.toNat
          total := found.length })
      by_cases hplain : response.sortType = .none
      · rw [ranged_eq hplain hclamped hlength]
        simp [arrange, hplain, cut]
      · rw [ranged_all hplain hclamped hlength]
        simp only [cut_eq hplain hclamped]

/-- `query` lists one window of the Contexts that match, arranged, and their number. -/
theorem query_window (response : Response) (surroundings : Surroundings α)
    (nodes : List (ResultNode α)) (hcontexts : ∀ node ∈ nodes, node.context.isSome)
    (hwindow : response.offsets exactly nodes.length = .ok window) :
    response.query surroundings nodes = do
      let found ← response.matching surroundings nodes
      let contexts ← response.arrange surroundings found
      return {
        contexts := (contexts.drop window.skip.toNat).take window.paginate.toNat
        total := found.length } :=
  queryBy_window response surroundings nodes hcontexts hwindow

/-- Contexts that are their own data, sorted by nothing. -/
def ownData : Surroundings Str where
  getData := fun data _ => pure data
  sort := fun _ contexts => pure contexts
  shuffle := id

/-- The second page of one, in reverse, of the different names. -/
def secondPage : Response where
  filter := false
  filterTerms := []
  unique := true
  uniqueFields := ["name"]
  groups := 0
  page := 2
  paginate := 1
  skip := 0
  sortType := .reverse
  sortFields := []

/-- The names `b`, `a`, `b` and `c`. -/
def fourNames : List (ResultNode Str) :=
  [⟨[], some "b"⟩, ⟨[], some "a"⟩, ⟨[], some "b"⟩, ⟨[], some "c"⟩]

theorem query_window_secondPage :
    secondPage.query ownData fourNames = .ok { contexts := ["a"], total := 3 } := by
  have hwindow : secondPage.offsets exactly fourNames.length = .ok ⟨1, 1, 0, 4⟩ := rfl
  have hcontexts : ∀ node ∈ fourNames, node.context.isSome := by simp [fourNames]
  exact (query_window secondPage ownData fourNames hcontexts hwindow).trans rfl

end VaeDb.Response
