import VaeDb.Library.Slices
import VaeDb.Response.Offsets

/-!
# Pages

With `groups` unset, a page is a slice of the Contexts that match, arranged: it starts at
`skip + (page - 1) * paginate` and is `paginate` long.  So the pages follow one another
without a gap or an overlap (`pages_partition`).  The number of the page `last` is computed
before anything is matched, from all nodes and not from those that match (`last_page_iff`).
-/

namespace VaeDb.Response

variable {α : Type} {response : Response} {surroundings : Surroundings α}
  {nodes : List (ResultNode α)} {found contexts : List α}

/-! ## One page of a response -/

/-- The same settings for another page. -/
def onPage (response : Response) (page : ℤ) : Response := { response with page }

/-- The Contexts that the response lists on a page. -/
def pageContexts (response : Response) (surroundings : Surroundings α)
    (nodes : List (ResultNode α)) (page : ℤ) : Outcome (List α) :=
  ResponseContext.contexts <$> (response.onPage page).query surroundings nodes

/-- `std::sort` returns the elements that it was given. -/
def Surroundings.SortPermutes (surroundings : Surroundings α) : Prop :=
  ∀ fields contexts sorted, surroundings.sort fields contexts = .ok sorted →
    sorted.Perm contexts

/-- Every order but a random one keeps the Contexts. -/
theorem perm_arrange (hsort : surroundings.SortPermutes)
    (horder : response.sortType ≠ .shuffle)
    (harranged : response.arrange surroundings found = .ok contexts) :
    contexts.Perm found := by
  unfold arrange at harranged
  split at harranged
  · obtain rfl := Outcome.pure_eq_ok.1 harranged
    exact List.Perm.refl _
  · obtain rfl := Outcome.pure_eq_ok.1 harranged
    exact List.reverse_perm _
  · next hshuffle => exact absurd hshuffle horder
  · exact hsort _ _ _ harranged

theorem length_arrange (hsort : surroundings.SortPermutes)
    (horder : response.sortType ≠ .shuffle)
    (harranged : response.arrange surroundings found = .ok contexts) :
    contexts.length = found.length := (perm_arrange hsort horder harranged).length_eq

/-- What is listed once the nodes are matched and arranged. -/
theorem query_page (hcontexts : ∀ node ∈ nodes, node.context.isSome)
    (hgroups : response.groups = 0)
    (hfound : response.matching surroundings nodes = .ok found)
    (harranged : response.arrange surroundings found = .ok contexts)
    (hfits : response.Fits nodes.length) :
    response.query surroundings nodes =
      .ok {
        contexts := (contexts.drop (response.pageSkip exactly nodes.length).toNat).take
          (max response.paginate 1).toNat
        total := found.length } := by
  obtain ⟨window, hwindow⟩ := hfits
  obtain ⟨_, _, _, _, rfl⟩ := (offsets_page_iff hgroups).1 hwindow
  have hskip : (max (response.pageSkip exactly nodes.length) 0).toNat =
      (response.pageSkip exactly nodes.length).toNat := by omega
  rw [query, queryBy_window response surroundings nodes hcontexts hwindow, hfound]
  simp only [bind, Except.bind, harranged, clamped, hskip]
  rfl

theorem pageContexts_eq (hcontexts : ∀ node ∈ nodes, node.context.isSome)
    (hgroups : response.groups = 0)
    (hfound : response.matching surroundings nodes = .ok found)
    (harranged : response.arrange surroundings found = .ok contexts) {page : ℤ}
    (hfits : (response.onPage page).Fits nodes.length) :
    response.pageContexts surroundings nodes page =
      .ok ((contexts.drop ((response.onPage page).pageSkip exactly nodes.length).toNat).take
        (max response.paginate 1).toNat) := by
  have hgroupsPage : (response.onPage page).groups = 0 := hgroups
  have hfoundPage : (response.onPage page).matching surroundings nodes = .ok found := hfound
  have harrangedPage : (response.onPage page).arrange surroundings found = .ok contexts :=
    harranged
  unfold pageContexts
  rw [query_page hcontexts hgroupsPage hfoundPage harrangedPage hfits]
  rfl

/-! ## How many pages there are -/

/-- So many pages show so many Contexts after the first `skip`. -/
def pageCount (response : Response) (count : ℤ) : ℕ :=
  ⌈((count - response.skip : ℤ) : ℚ) / response.paginate⌉.toNat

theorem pageCount_le_iff (hpaginate : 1 ≤ response.paginate) (count : ℤ) (n : ℕ) :
    response.pageCount count ≤ n ↔ count ≤ response.skip + n * response.paginate := by
  have hpositive : (0 : ℚ) < response.paginate := by exact_mod_cast hpaginate
  unfold pageCount
  rw [Int.toNat_le, Int.ceil_le, div_le_iff₀ hpositive]
  constructor
  · intro h
    have hcast : count - response.skip ≤ n * response.paginate := by exact_mod_cast h
    omega
  · intro h
    have hcast : count - response.skip ≤ n * response.paginate := by omega
    exact_mod_cast hcast

/-- There is no page exactly if `skip` reaches all of them. -/
theorem pageCount_eq_zero_iff (hpaginate : 1 ≤ response.paginate) (count : ℤ) :
    response.pageCount count = 0 ↔ count ≤ response.skip := by
  have hzero := pageCount_le_iff hpaginate count 0
  simpa using hzero

theorem lt_pageCount_iff (hpaginate : 1 ≤ response.paginate) (count : ℤ) (n : ℕ) :
    n < response.pageCount count ↔ response.skip + n * response.paginate < count := by
  rw [← not_le, pageCount_le_iff hpaginate, not_le]

theorem pageCount_mono (hpaginate : 1 ≤ response.paginate) {count more : ℤ}
    (h : count ≤ more) : response.pageCount count ≤ response.pageCount more := by
  rw [pageCount_le_iff hpaginate]
  exact h.trans ((pageCount_le_iff hpaginate more _).1 le_rfl)

/-- A numbered page is itself, or the first one. -/
theorem shownPage_of_ne (quotient : ℤ → ℤ → ℚ) (size : ℤ) (hpage : response.page ≠ -1) :
    response.shownPage quotient size = max response.page 1 := by
  have hasked : response.askedPage quotient size = response.page := if_neg hpage
  rw [shownPage, hasked]

/-- The last page is numbered by all nodes. -/
theorem shownPage_last (size : ℤ) :
    (response.onPage (-1)).shownPage exactly size = max (response.pageCount size : ℤ) 1 := by
  have hraised (page : ℤ) : max page 1 = max (page.toNat : ℤ) 1 := by omega
  have hasked : (response.onPage (-1)).askedPage exactly size =
      ⌈((size - response.skip : ℤ) : ℚ) / response.paginate⌉ := if_pos rfl
  rw [shownPage, hasked, hraised]
  rfl

/-- The offset of a numbered page. -/
theorem pageSkip_of_ne (quotient : ℤ → ℤ → ℚ) (size : ℤ) (hpage : response.page ≠ -1) :
    response.pageSkip quotient size =
      response.skip + (max response.page 1 - 1) * response.paginate := by
  rw [pageSkip, shownPage_of_ne quotient size hpage]

theorem pageSkip_onPage {page : ℤ} (size : ℤ) (hpage : page ≠ -1) :
    (response.onPage page).pageSkip exactly size =
      response.skip + (max page 1 - 1) * response.paginate :=
  pageSkip_of_ne exactly size hpage

/-- The offset of the last page. -/
theorem pageSkip_last (size : ℤ) :
    (response.onPage (-1)).pageSkip exactly size =
      response.skip + (max (response.pageCount size : ℤ) 1 - 1) * response.paginate := by
  have hshown : (response.onPage (-1)).shownPage exactly size =
      max (response.pageCount size : ℤ) 1 := shownPage_last size
  rw [pageSkip, hshown]
  rfl

/-! ## The pages together -/

/-- The first Context of a page that is not listed on the pages before. -/
def pageStart (response : Response) (page : ℕ) : ℕ :=
  (response.skip + page * response.paginate).toNat

theorem monotone_pageStart (hpaginate : 1 ≤ response.paginate) :
    Monotone response.pageStart := by
  apply monotone_nat_of_le_succ
  intro page
  have hstep : ((page + 1 : ℕ) : ℤ) * response.paginate =
      page * response.paginate + response.paginate := by push_cast; ring
  unfold pageStart
  omega

/-- A page from the first on is a slice of the Contexts. -/
theorem pageContexts_slice (hcontexts : ∀ node ∈ nodes, node.context.isSome)
    (hgroups : response.groups = 0) (hskip : 0 ≤ response.skip)
    (hpaginate : 1 ≤ response.paginate)
    (hfound : response.matching surroundings nodes = .ok found)
    (harranged : response.arrange surroundings found = .ok contexts) (page : ℕ)
    (hfits : (response.onPage (page + 1)).Fits nodes.length) :
    response.pageContexts surroundings nodes (page + 1) =
      .ok (contexts.slice (response.pageStart page) (response.pageStart (page + 1))) := by
  have hproduct : 0 ≤ (page : ℤ) * response.paginate := by positivity
  have hstep : ((page + 1 : ℕ) : ℤ) * response.paginate =
      page * response.paginate + response.paginate := by push_cast; ring
  have hlength : response.pageStart (page + 1) - response.pageStart page =
      (max response.paginate 1).toNat := by
    unfold pageStart
    omega
  have hnumber : max ((page : ℤ) + 1) 1 - 1 = page := by omega
  rw [pageContexts_eq hcontexts hgroups hfound harranged hfits, pageSkip_onPage _ (by omega),
    hnumber, List.slice, hlength]
  rfl

/-- What a list of calls returns when each of them does. -/
theorem mapM_eq_ok {β γ : Type} {f : β → Outcome γ} {g : β → γ} (list : List β)
    (h : ∀ b ∈ list, f b = .ok (g b)) : list.mapM f = .ok (list.map g) := by
  induction list with
  | nil => rfl
  | cons b list ih =>
      rw [List.mapM_cons, h b (List.mem_cons_self ..),
        ih fun other hother => h other (List.mem_cons_of_mem _ hother)]
      rfl

/-- Without filter and unique fields every node matches. -/
theorem length_matching_eq (hcontexts : ∀ node ∈ nodes, node.context.isSome)
    (hfilter : response.filter = false) (hunique : response.unique = false)
    (hfound : response.matching surroundings nodes = .ok found) :
    found.length = nodes.length := by
  have hall : response.matching surroundings nodes =
      .ok (nodes.filterMap ResultNode.context) := by
    simp [matching, passing, hfilter, hunique, pure, Except.pure]
  rw [hall] at hfound
  obtain rfl := Except.ok.inj hfound
  exact length_filterMap_context hcontexts

/-- The last page is a numbered one, if the result is not longer than an `int`. -/
theorem lastPageFits (size : ℤ) (hpaginate : 1 ≤ response.paginate) (hsize : size < 2 ^ 31)
    (hskip : 0 ≤ response.skip) (hcount : 1 ≤ response.pageCount size) :
    (response.onPage (-1)).LastPageFits exactly size := by
  have hrest : response.skip < size := by
    by_contra hnone
    have hzero := (pageCount_eq_zero_iff hpaginate size).2 (by omega)
    omega
  have hfew : response.pageCount size ≤ (size - response.skip).toNat := by
    rw [pageCount_le_iff hpaginate, Int.toNat_of_nonneg (by omega)]
    nlinarith
  have hceil : ⌈exactly (size - response.skip) response.paginate⌉ =
      response.pageCount size := by
    unfold pageCount at hcount ⊢
    unfold exactly
    omega
  refine ⟨⟨?_, ?_⟩, ?_, ?_⟩
  · simp only [onPage]
    omega
  · simp only [onPage]
    omega
  · simp only [onPage]
    omega
  · simp only [onPage, hceil]
    constructor <;> omega

/-- Pages that are shown as the same one have the same window. -/
theorem offsets_of_shownPage (hgroups : response.groups = 0) {page other size : ℤ}
    {window : Window} (hfits : page = -1 → (response.onPage page).LastPageFits exactly size)
    (hshown : (response.onPage page).shownPage exactly size =
      (response.onPage other).shownPage exactly size)
    (h : (response.onPage other).offsets exactly size = .ok window) :
    (response.onPage page).offsets exactly size = .ok window := by
  have hpage : (response.onPage page).groups = 0 := hgroups
  have hother : (response.onPage other).groups = 0 := hgroups
  have hskip : (response.onPage page).pageSkip exactly size =
      (response.onPage other).pageSkip exactly size := by
    rw [pageSkip, pageSkip, hshown]
    rfl
  obtain ⟨_, hpages, hrange, hend, rfl⟩ := (offsets_page_iff hother).1 h
  rw [← hskip] at hrange hend ⊢
  rw [← hshown] at hpages
  exact (offsets_page_iff hpage).2 ⟨hfits, hpages, hrange, hend, rfl⟩

theorem query_of_offsets {page other : ℤ}
    (h : (response.onPage page).offsets exactly nodes.length =
      (response.onPage other).offsets exactly nodes.length) :
    (response.onPage page).query surroundings nodes =
      (response.onPage other).query surroundings nodes := by
  unfold query queryBy
  rw [h]
  rfl

/-- Pages 1, 2 and so on list the Contexts after the first `skip`, each once and in order;
those that come later are empty; and the last page is the last of them where nothing is left
out by a filter or by unique fields. -/
theorem pages_partition (response : Response) (surroundings : Surroundings α)
    (nodes : List (ResultNode α)) (hcontexts : ∀ node ∈ nodes, node.context.isSome)
    (hsize : nodes.length ≤ 2 ^ 24) (hgroups : response.groups = 0)
    (hskip : 0 ≤ response.skip) (hpaginate : 1 ≤ response.paginate)
    (hsort : surroundings.SortPermutes) (horder : response.sortType ≠ .shuffle)
    {found contexts : List α} (hfound : response.matching surroundings nodes = .ok found)
    (harranged : response.arrange surroundings found = .ok contexts)
    (hfits : ∀ page : ℕ, page < response.pageCount found.length →
      (response.onPage (page + 1)).Fits nodes.length) :
    (∃ pages, (List.range (response.pageCount found.length)).mapM
        (fun page : ℕ => response.pageContexts surroundings nodes (page + 1)) = .ok pages ∧
      pages.flatten = contexts.drop response.skip.toNat) ∧
    (∀ page : ℤ, response.pageCount found.length < page →
      (response.onPage page).Fits nodes.length →
      response.pageContexts surroundings nodes page = .ok []) ∧
    (response.filter = false → response.unique = false →
      1 ≤ response.pageCount found.length →
      (response.onPage (-1)).query surroundings nodes =
        (response.onPage (response.pageCount found.length)).query surroundings nodes) := by
  have hlength := length_arrange hsort horder harranged
  refine ⟨⟨_, mapM_eq_ok _ fun page hpage => pageContexts_slice hcontexts hgroups hskip
    hpaginate hfound harranged page (hfits page (List.mem_range.1 hpage)), ?_⟩, ?_, ?_⟩
  · have hreach := (pageCount_le_iff hpaginate found.length _).1 le_rfl
    rw [← List.flatMap_def, List.flatMap_slice contexts (monotone_pageStart hpaginate),
      List.slice_eq_drop _ _ (by unfold pageStart; omega)]
    simp [pageStart]
  · intro page hpage hpageFits
    obtain ⟨number, rfl⟩ : ∃ number : ℕ, page = number + 1 :=
      ⟨(page - 1).toNat, by omega⟩
    have hpast := (pageCount_le_iff hpaginate found.length number).1 (by omega)
    rw [pageContexts_slice hcontexts hgroups hskip hpaginate hfound harranged number hpageFits,
      List.slice_eq_nil _ _ (by unfold pageStart; omega)]
  · intro hfilter hunique hcount
    have hall := length_matching_eq hcontexts hfilter hunique hfound
    rw [hall] at hcount hfits ⊢
    obtain ⟨last, hlast⟩ : ∃ last : ℕ, response.pageCount nodes.length = last + 1 :=
      ⟨response.pageCount nodes.length - 1, by omega⟩
    obtain ⟨window, hwindow⟩ := hfits last (by omega)
    have hshown : (response.onPage (-1)).shownPage exactly nodes.length =
        (response.onPage (last + 1)).shownPage exactly nodes.length := by
      have hnumber : (response.onPage (last + 1)).page ≠ -1 := by
        simp only [onPage]
        omega
      rw [shownPage_last, shownPage_of_ne exactly _ hnumber, hlast]
      simp only [onPage]
      omega
    have hlastFits := lastPageFits (nodes.length : ℤ) hpaginate (by omega) hskip hcount
    have hsame := offsets_of_shownPage hgroups (fun _ => hlastFits) hshown hwindow
    rw [hlast]
    exact query_of_offsets (hsame.trans hwindow.symm)

theorem sortPermutes_ownData : ownData.SortPermutes := by
  intro fields contexts sorted h
  obtain rfl := Except.ok.inj h
  exact List.Perm.refl _

theorem context_fourNames : ∀ node ∈ fourNames, node.context.isSome := by simp [fourNames]

theorem pages_partition_secondPage :
    (∃ pages, (List.range (secondPage.pageCount 3)).mapM
        (fun page : ℕ => secondPage.pageContexts ownData fourNames (page + 1)) = .ok pages ∧
      pages.flatten = (["c", "a", "b"] : List Str)) ∧
    secondPage.pageContexts ownData fourNames 4 = .ok [] := by
  have hfound : secondPage.matching ownData fourNames =
      .ok (["b", "a", "c"] : List Str) := rfl
  have harranged : secondPage.arrange ownData (["b", "a", "c"] : List Str) =
      .ok (["c", "a", "b"] : List Str) := rfl
  have hcount : secondPage.pageCount 3 ≤ 3 := (pageCount_le_iff le_rfl 3 3).2 (by decide)
  have hfits : ∀ page : ℕ, page < secondPage.pageCount 3 →
      (secondPage.onPage (page + 1)).Fits fourNames.length := by
    intro page hpage
    obtain rfl | rfl | rfl : page = 0 ∨ page = 1 ∨ page = 2 := by omega
    · exact ⟨_, rfl⟩
    · exact ⟨_, rfl⟩
    · exact ⟨_, rfl⟩
  obtain ⟨hpages, hpast, _⟩ := pages_partition secondPage ownData fourNames context_fourNames
    (by decide) rfl le_rfl le_rfl sortPermutes_ownData (by decide) hfound harranged hfits
  have hpage : (secondPage.pageCount 3 : ℤ) < 4 := by omega
  exact ⟨hpages, hpast 4 hpage ⟨_, rfl⟩⟩

/-! ## The last page -/

/-- The page `last` is the last one that has Contexts exactly if there is none, or a filter
and unique fields leave as many pages as there are without them. -/
theorem last_page_iff (response : Response) (surroundings : Surroundings α)
    (nodes : List (ResultNode α)) (hcontexts : ∀ node ∈ nodes, node.context.isSome)
    (hgroups : response.groups = 0) (hskip : 0 ≤ response.skip)
    (hpaginate : 1 ≤ response.paginate) (hsort : surroundings.SortPermutes)
    (horder : response.sortType ≠ .shuffle) {found contexts : List α}
    (hfound : response.matching surroundings nodes = .ok found)
    (harranged : response.arrange surroundings found = .ok contexts)
    (hlast : (response.onPage (-1)).Fits nodes.length)
    (hnumbered : (response.onPage (response.pageCount found.length)).Fits nodes.length) :
    (∃ listed, response.pageContexts surroundings nodes (-1) = .ok listed ∧
      response.pageContexts surroundings nodes (response.pageCount found.length) =
        .ok listed ∧
      (response.skip < found.length → listed ≠ [])) ↔
    found.length ≤ response.skip ∨
      response.pageCount nodes.length = response.pageCount found.length := by
  have hlength := length_arrange hsort horder harranged
  have hle : response.pageCount found.length ≤ response.pageCount nodes.length :=
    pageCount_mono hpaginate (by exact_mod_cast length_matching_le hfound)
  rw [pageContexts_eq hcontexts hgroups hfound harranged hlast,
    pageContexts_eq hcontexts hgroups hfound harranged hnumbered,
    pageSkip_last, pageSkip_onPage _ (by omega)]
  constructor
  · rintro ⟨listed, hlisted, -, hnonempty⟩
    by_contra hneither
    obtain ⟨hmore, hdiffer⟩ := not_or.1 hneither
    -- The page behind the last one that has Contexts is empty.
    refine hnonempty (by omega) ?_
    have hreach := (pageCount_le_iff hpaginate found.length _).1 le_rfl
    have hgrow : (response.pageCount found.length : ℤ) * response.paginate ≤
        (max (response.pageCount nodes.length : ℤ) 1 - 1) * response.paginate :=
      mul_le_mul_of_nonneg_right (by omega) (by omega)
    rw [← Except.ok.inj hlisted, List.drop_eq_nil_of_le (by omega), List.take_nil]
  · intro h
    by_cases hnone : found.length ≤ response.skip
    · have hempty (page : ℤ) : contexts.drop
          (response.skip + (max page 1 - 1) * response.paginate).toNat = [] := by
        have hproduct : 0 ≤ (max page 1 - 1) * response.paginate :=
          mul_nonneg (by omega) (by omega)
        exact List.drop_eq_nil_of_le (by omega)
      refine ⟨[], ?_, ?_, fun hmore => absurd hnone (by omega)⟩
      · rw [hempty, List.take_nil]
      · rw [hempty, List.take_nil]
    · have hsame := h.resolve_left hnone
      refine ⟨_, rfl, by rw [hsame], fun _ hnil => ?_⟩
      have hcount : response.pageCount found.length ≠ 0 := fun hzero =>
        hnone ((pageCount_eq_zero_iff hpaginate _).1 hzero)
      have hbefore := (lt_pageCount_iff hpaginate found.length
        (response.pageCount found.length - 1)).1 (by omega)
      have hnumber : (max (response.pageCount nodes.length : ℤ) 1 - 1) =
          ((response.pageCount found.length - 1 : ℕ) : ℤ) := by omega
      rw [hnumber] at hnil
      have hzero := congrArg List.length hnil
      rw [List.length_take, List.length_drop, List.length_nil] at hzero
      omega

/-- Three different names on pages of one: of four names the last page is the fourth. -/
theorem last_page_empty :
    secondPage.skip < 3 ∧ secondPage.pageCount 3 = 3 ∧
      secondPage.pageContexts ownData fourNames (-1) = .ok [] ∧
      secondPage.pageContexts ownData fourNames 3 = .ok (["b"] : List Str) := by
  have hcount : secondPage.pageCount 3 = 3 := by
    have hle : secondPage.pageCount 3 ≤ 3 := (pageCount_le_iff le_rfl 3 3).2 (by decide)
    have hlt : 2 < secondPage.pageCount 3 := (lt_pageCount_iff le_rfl 3 2).2 (by decide)
    omega
  refine ⟨by decide, hcount, ?_, rfl⟩
  decide +kernel

/-- On pages of two, the last of the different names. -/
def lastOfTwo : Response := { secondPage with page := -1, paginate := 2 }

theorem last_page_iff_lastOfTwo :
    ∃ listed, lastOfTwo.pageContexts ownData fourNames (-1) = .ok listed ∧
      lastOfTwo.pageContexts ownData fourNames (lastOfTwo.pageCount 3) = .ok listed ∧
      ((0 : ℤ) < 3 → listed ≠ []) := by
  have hfound : lastOfTwo.matching ownData fourNames = .ok (["b", "a", "c"] : List Str) := rfl
  have harranged : lastOfTwo.arrange ownData (["b", "a", "c"] : List Str) =
      .ok (["c", "a", "b"] : List Str) := rfl
  have hcount (count : ℕ) (hmore : 2 < count) (hless : count ≤ 4) :
      lastOfTwo.pageCount count = 2 := by
    have hle : lastOfTwo.pageCount count ≤ 2 :=
      (pageCount_le_iff (by decide) _ 2).2 (by simp only [lastOfTwo, secondPage]; omega)
    have hlt : 1 < lastOfTwo.pageCount count :=
      (lt_pageCount_iff (by decide) _ 1).2 (by simp only [lastOfTwo, secondPage]; omega)
    omega
  have hthree : lastOfTwo.pageCount 3 = 2 := hcount 3 (by decide) (by decide)
  have hfour : lastOfTwo.pageCount 4 = 2 := hcount 4 (by decide) (by decide)
  have hlast : (lastOfTwo.onPage (-1)).Fits fourNames.length := by
    decide +kernel
  have hnumbered : (lastOfTwo.onPage (lastOfTwo.pageCount 3)).Fits fourNames.length := by
    rw [hthree]
    exact ⟨_, rfl⟩
  exact (last_page_iff lastOfTwo ownData fourNames context_fourNames rfl (by decide)
    (by decide) sortPermutes_ownData (by decide) hfound harranged hlast hnumbered).2
    (Or.inr (hfour.trans hthree.symm))

end VaeDb.Response
