import VaeDb.Library.Slices
import VaeDb.Response.Filter
import VaeDb.Response.Options
import VaeDb.Response.Pages

/-!
# A filter without terms

A `filter` option that has no words in it lets every node pass, but it sends `query` through
the counting loop.  Without an order, that loop fills a page with Contexts, while the plain
loop takes the Contexts that are among so many nodes.  `blank_filter_iff` says when that is
the same.
-/

namespace VaeDb.Response

variable {α : Type} {response : Response} {surroundings : Surroundings α} {window : Window}

/-! ## The option -/

/-- The options with another `filter` option. -/
def Options.withFilter (options : Options) (filter : Option Str) : Options :=
  Function.update options "filter" filter

/-- A response without a filter. -/
def unfiltered (response : Response) : Response :=
  { response with filter := false, filterTerms := [] }

/-- A response whose filter has no terms. -/
def blank (response : Response) : Response :=
  { response with filter := true, filterTerms := [] }

theorem words_blank {value : Str} (hblank : ∀ c ∈ value, isSpace c = true) : words value = [] := by
  have hall : ∀ word ∈ value.splitOnP isSpace, word = [] := by
    induction value with
    | nil => simp
    | cons c value ih =>
        rw [List.splitOnP_cons_eq_if_modifyHead, if_pos (hblank c (List.mem_cons_self ..))]
        refine List.forall_mem_cons.2 ⟨rfl, ih fun d hd => hblank d (List.mem_cons_of_mem _ hd)⟩
  refine List.filter_eq_nil_iff.2 fun word hword => ?_
  simp [hall word hword]

/-- Another `filter` option changes nothing but the filter. -/
theorem ofOptions_withFilter (options : Options) (filter : Option Str) :
    ofOptions (options.withFilter filter) = { ofOptions options with
      filter := filter.isSome
      filterTerms :=
        match filter with
        | some value => (words value).map cString
        | none => [] } := by
  have hother (name : Str) (hname : name ≠ ("filter" : Str)) :
      options.withFilter filter name = options name := Function.update_of_ne hname _ _
  have hfilter : options.withFilter filter "filter" = filter := Function.update_self ..
  have hint (name : Str) (hname : name ≠ ("filter" : Str)) (unset : ℤ) :
      (options.withFilter filter).int name unset = options.int name unset := by
    unfold Options.int
    rw [hother name hname]
  cases filter with
  | none =>
      simp only [ofOptions, hfilter, hint "limit" (by decide), hint "paginate" (by decide),
        hint "groups" (by decide), hint "skip" (by decide), hother "page" (by decide),
        hother "order" (by decide), hother "unique" (by decide)]
  | some value =>
      simp only [ofOptions, hfilter, hint "limit" (by decide), hint "paginate" (by decide),
        hint "groups" (by decide), hint "skip" (by decide), hother "page" (by decide),
        hother "order" (by decide), hother "unique" (by decide)]

/-! ## Both loops -/

/-- Without terms, nothing is left to be found. -/
theorem filterMatch_blank (node : ResultNode α) : response.blank.filterMatch node = true := by
  rw [filterMatch_eq]
  rfl

/-- The body of the counting loop, with a filter without terms as without a filter. -/
theorem countNode_blank (hfilter : response.filter = false) :
    response.blank.countNode surroundings window = response.countNode surroundings window := by
  funext state node
  unfold countNode
  rw [filterMatch_blank, hfilter]
  rfl

theorem collect_blank_unique (hfilter : response.filter = false) (hunique : response.unique = true)
    (nodes : List (ResultNode α)) :
    response.blank.collect surroundings window nodes =
      response.collect surroundings window nodes := by
  have hblank : response.blank.unique = true := hunique
  unfold collect
  rw [countNode_blank hfilter, hfilter, hunique, hblank, Bool.or_true, Bool.or_true]

/-- With the filter, the page is as many of the Contexts that follow. -/
theorem collect_blank (hunique : response.unique = false) (nodes : List (ResultNode α))
    (hclamped : window.Clamped response nodes.length) :
    response.blank.collect surroundings window nodes = .ok {
      contexts := ((nodes.drop window.start.toNat).filterMap ResultNode.context).take
        (window.stop - window.start).toNat
      total := nodes.length } := by
  have hunique' : response.blank.unique = false := hunique
  have hall : (nodes.filter fun node =>
      !response.blank.filter || response.blank.filterMatch node) = nodes :=
    List.filter_eq_self.2 fun node _ => by rw [filterMatch_blank, Bool.or_true]
  rw [collect_filter rfl hunique' nodes hclamped.start_nonneg, hall]

/-! ## The page -/

/-- Every node of the page has a Context, or no node behind the page has one. -/
def PageFull (response : Response) (nodes : List (ResultNode α)) : Prop :=
  (∀ node ∈ (nodes.drop (response.pageSkip exactly nodes.length).toNat).take
      response.paginate.toNat, node.context.isSome) ∨
    ∀ node ∈ (nodes.drop (response.pageSkip exactly nodes.length).toNat).drop
      response.paginate.toNat, node.context = none

theorem query_blank_iff (hgroups : response.groups = 0) (hpaginate : 1 ≤ response.paginate)
    (surroundings : Surroundings α) (nodes : List (ResultNode α))
    (hfits : response.Fits nodes.length) :
    response.blank.query surroundings nodes = response.unfiltered.query surroundings nodes ↔
      response.sortType ≠ .none ∨ response.unique = true ∨ response.PageFull nodes := by
  obtain ⟨window, hwindow⟩ := hfits
  have hclamped := offsets_clamped hwindow
  have hblank : response.blank.query surroundings nodes = (do
      let collected ← response.unfiltered.blank.collect surroundings window nodes
      let contexts ← response.arrange surroundings collected.contexts
      return { contexts := response.cut window contexts, total := collected.total }) := by
    have hoffsets : response.blank.offsets exactly nodes.length = .ok window := hwindow
    rw [query, queryBy, hoffsets]
    rfl
  have hplain : response.unfiltered.query surroundings nodes = (do
      let collected ← response.unfiltered.collect surroundings window nodes
      let contexts ← response.arrange surroundings collected.contexts
      return { contexts := response.cut window contexts, total := collected.total }) := by
    have hoffsets : response.unfiltered.offsets exactly nodes.length = .ok window := hwindow
    rw [query, queryBy, hoffsets]
    rfl
  rw [hblank, hplain]
  cases hunique : response.unique with
  | true =>
      have hunique' : response.unfiltered.unique = true := hunique
      rw [collect_blank_unique rfl hunique']
      simp
  | false =>
      have hunique' : response.unfiltered.unique = false := hunique
      have hclamped' : window.Clamped response.unfiltered nodes.length :=
        ⟨hclamped.skip, hclamped.paginate, hclamped.plain, hclamped.sorted⟩
      rw [collect_blank hunique' nodes hclamped', collect_plain rfl hunique' nodes hclamped']
      by_cases hsort : response.sortType = .none
      · obtain ⟨_, _, _, _, hwindow⟩ := (offsets_page_iff hgroups).1 hwindow
        simp only [arrange, hsort, cut, ne_eq, not_true_eq_false, if_false, false_or,
          Bool.false_eq_true, bind, Except.bind, pure, Except.pure, Except.ok.injEq,
          ResponseContext.mk.injEq, and_true]
        rw [List.take_filterMap_eq_iff, PageFull]
        subst hwindow
        have hskip : (max (response.pageSkip exactly nodes.length) 0).toNat =
            (response.pageSkip exactly nodes.length).toNat := by omega
        simp only [clamped, hsort, if_true, hskip]
        -- the page is as long as asked for, or goes up to the end
        by_cases hinside : max response.paginate 1 +
            max (response.pageSkip exactly nodes.length) 0 ≤ nodes.length
        · have hlength : (min (max response.paginate 1 +
              max (response.pageSkip exactly nodes.length) 0) nodes.length -
                max (response.pageSkip exactly nodes.length) 0).toNat =
              response.paginate.toNat := by omega
          rw [hlength]
        · have hrest : (nodes.drop (response.pageSkip exactly nodes.length).toNat).length ≤
              (min (max response.paginate 1 + max (response.pageSkip exactly nodes.length) 0)
                nodes.length - max (response.pageSkip exactly nodes.length) 0).toNat := by
            rw [List.length_drop]
            omega
          have hrest' : (nodes.drop (response.pageSkip exactly nodes.length).toNat).length ≤
              response.paginate.toNat := by
            rw [List.length_drop]
            omega
          rw [List.take_of_length_le hrest, List.take_of_length_le hrest',
            List.drop_eq_nil_of_le hrest, List.drop_eq_nil_of_le hrest']
      · -- all nodes are collected
        obtain ⟨hstart, hstop⟩ := hclamped.sorted hsort
        have hall : ((nodes.drop window.start.toNat).filterMap ResultNode.context).take
            (window.stop - window.start).toNat =
              ((nodes.drop window.start.toNat).take
                (window.stop - window.start).toNat).filterMap ResultNode.context := by
          rw [List.take_filterMap_eq_iff, hstart, hstop]
          simp
        rw [hall]
        simp [hsort]

/-- A filter without terms changes nothing if there are unique fields or an order, and else
exactly if the page is full or the last one with a Context. -/
theorem blank_filter_iff (options : Options) {value : Str}
    (hblank : ∀ c ∈ value, isSpace c = true) (hgroups : options "groups" = none)
    (hpaginate : 1 ≤ (ofOptions options).paginate) (surroundings : Surroundings α)
    (nodes : List (ResultNode α)) (hfits : (ofOptions options).Fits nodes.length) :
    (ofOptions (options.withFilter (some value))).query surroundings nodes =
        (ofOptions (options.withFilter none)).query surroundings nodes ↔
      (ofOptions options).sortType ≠ .none ∨ (ofOptions options).unique = true ∨
        (ofOptions options).PageFull nodes := by
  have hunset : (ofOptions options).groups = 0 := by
    unfold ofOptions Options.int
    rw [hgroups]
  rw [ofOptions_withFilter, ofOptions_withFilter]
  simp only [words_blank hblank]
  exact query_blank_iff hunset hpaginate surroundings nodes hfits

/-- One Context to a page. -/
def oneToAPage : Options := fun name => if name = ("limit" : Str) then some "1" else none

/-- A node without a Context, and one with it. -/
def attributeFirst : List (ResultNode Str) := [⟨[], none⟩, ⟨[], some "a"⟩]

/-- A blank filter brings the Context of the second node to the first page. -/
theorem blank_filter_attributeFirst :
    (∀ c ∈ (" " : Str), isSpace c = true) ∧ oneToAPage "groups" = none ∧
      (ofOptions oneToAPage).Fits attributeFirst.length ∧
      (ofOptions (oneToAPage.withFilter (some " "))).query ownData attributeFirst ≠
        (ofOptions (oneToAPage.withFilter none)).query ownData attributeFirst := by
  refine ⟨by decide, rfl, by decide +kernel, ?_⟩
  rw [ofOptions_withFilter, ofOptions_withFilter]
  simp only [words_blank (show ∀ c ∈ (" " : Str), isSpace c = true by decide)]
  have hskip : (ofOptions oneToAPage).pageSkip exactly attributeFirst.length = 0 := by
    decide +kernel
  have hpaginate : (ofOptions oneToAPage).paginate = 1 := by decide +kernel
  refine (query_blank_iff rfl hpaginate.ge ownData attributeFirst (by decide +kernel)).not.2 ?_
  rintro (hsort | hunique | hfull | hbehind)
  · exact hsort rfl
  · cases hunique
  · rw [hskip, hpaginate] at hfull
    exact absurd (hfull ⟨[], none⟩ (List.mem_cons_self ..)) (by decide)
  · rw [hskip, hpaginate] at hbehind
    exact absurd (hbehind ⟨[], some "a"⟩ (List.mem_cons_self ..)) (by simp)

theorem blank_filter_iff_fourNames :
    (ofOptions (oneToAPage.withFilter (some " \t"))).query ownData fourNames =
      (ofOptions (oneToAPage.withFilter none)).query ownData fourNames := by
  have hpaginate : 1 ≤ (ofOptions oneToAPage).paginate := by decide +kernel
  have hfull : (ofOptions oneToAPage).PageFull fourNames :=
    Or.inl fun node hnode => context_fourNames node
      (List.mem_of_mem_drop (List.mem_of_mem_take hnode))
  exact (blank_filter_iff oneToAPage (by decide) rfl hpaginate ownData fourNames
    (by decide +kernel)).2 (Or.inr (Or.inr hfull))

end VaeDb.Response
