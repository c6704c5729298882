import VaeDb.Response.Pages
import VaeDb.Response.Unique

/-!
# Clamping first

`skip` and `paginate` are clamped after the offset of the page is computed from them, so that
a page after the first can start too early.

* `contexts_queryBy`: what `query` lists from an offset on, of any nodes, with or without a
  Context: the loop over indices lists the Contexts among so many nodes, the counting loop so
  many Contexts, and an order is cut afterwards.
* `clamps_normalise`: when that is the same as with options that are clamped first.
-/

namespace VaeDb.Response

variable {α : Type} {response : Response} {surroundings : Surroundings α} {window : Window}
  {nodes : List (ResultNode α)}

/-! ## What is listed from an offset -/

/-- The nodes that the loops count: they pass the filter and, with unique fields, are
accepted. -/
def counted (response : Response) (surroundings : Surroundings α)
    (nodes : List (ResultNode α)) : Outcome (List (ResultNode α)) :=
  if response.unique then do
    let accepted ← response.acceptedFrom surroundings [] 0 nodes
    return accepted.map Prod.snd
  else return nodes.filter response.passes

theorem acceptedFrom_sublist {seen : List Str} {place : ℕ}
    {accepted : List (ℕ × ResultNode α)}
    (h : response.acceptedFrom surroundings seen place nodes = .ok accepted) :
    List.Sublist (accepted.map Prod.snd) nodes := by
  induction nodes generalizing seen place accepted with
  | nil =>
      obtain rfl := Outcome.pure_eq_ok.1 h
      exact List.Sublist.slnil
  | cons node nodes ih =>
      rw [acceptedFrom] at h
      split at h
      · obtain ⟨⟨isNew, found⟩, _, h⟩ := Outcome.bind_eq_ok.1 h
        obtain ⟨rest, hrest, h⟩ := Outcome.bind_eq_ok.1 h
        obtain rfl := Outcome.pure_eq_ok.1 h
        cases isNew with
        | true => exact (ih hrest).cons_cons node
        | false => exact (ih hrest).cons node
      · exact (ih h).cons node

theorem counted_sublist {matched : List (ResultNode α)}
    (h : response.counted surroundings nodes = .ok matched) : List.Sublist matched nodes := by
  unfold counted at h
  split at h
  · obtain ⟨accepted, haccepted, h⟩ := Outcome.bind_eq_ok.1 h
    obtain rfl := Outcome.pure_eq_ok.1 h
    exact acceptedFrom_sublist haccepted
  · obtain rfl := Outcome.pure_eq_ok.1 h
    exact List.filter_sublist

/-- The Contexts that the loops list of the nodes that are counted. -/
def collected (response : Response) (window : Window) (matched : List (ResultNode α)) :
    List α :=
  if response.filter || response.unique then
    ((matched.drop window.start.toNat).filterMap ResultNode.context).take
      (window.stop - window.start).toNat
  else
    ((matched.drop window.start.toNat).take
      (window.stop - window.start).toNat).filterMap ResultNode.context

theorem collect_counted (hclamped : window.Clamped response nodes.length) :
    response.collect surroundings window nodes = do
      let matched ← response.counted surroundings nodes
      return { contexts := response.collected window matched, total := matched.length } := by
  have hstart := hclamped.start_nonneg
  unfold counted collected
  cases hunique : response.unique with
  | true =>
      have hloop := @foldlM_countNode_accepted _ _ surroundings window hunique nodes
        ⟨0, 0, 0, []⟩ [] 0
      cases haccepted : response.acceptedFrom surroundings [] 0 nodes with
      | ok accepted =>
          obtain ⟨hcontexts, _⟩ := foldl_countMatch_nodes hstart (accepted.map Prod.snd)
          rw [collect_accepted hunique haccepted]
          rw [List.map_map, List.foldl_map] at hcontexts
          simp only [Function.comp_def] at hcontexts
          simp only [if_true, Bool.or_true, hcontexts, bind, Except.bind,
            pure, Except.pure, List.length_map]
      | error fault =>
          -- a Context that is missing, or data that is not there
          rw [haccepted] at hloop
          unfold collect
          rw [if_pos (by simp [hunique])]
          cases hstate : nodes.foldlM (response.countNode surroundings window)
              (⟨0, 0, 0, []⟩, []) with
          | ok state => simp [hstate, bind, Except.bind, pure, Except.pure] at hloop
          | error other =>
              rw [hstate] at hloop
              exact congrArg Except.error (Except.error.inj hloop)
  | false =>
      cases hfilter : response.filter with
      | true =>
          rw [collect_filter hfilter hunique nodes hstart]
          rfl
      | false =>
          have hall : nodes.filter response.passes = nodes :=
            List.filter_eq_self.2 fun node _ => by simp [passes, hfilter]
          rw [collect_plain hfilter hunique nodes hclamped]
          simp only [Bool.false_eq_true, if_false, pure_bind, hall, Bool.or_false]
          rfl

/-- What is listed of the nodes that are counted, from an offset. -/
def listedFrom (response : Response) (surroundings : Surroundings α)
    (matched : List (ResultNode α)) (offset : ℕ) : Outcome (List α) :=
  if response.sortType ≠ .none then do
    let contexts ← response.arrange surroundings (matched.filterMap ResultNode.context)
    return (contexts.drop offset).take (max response.paginate 1).toNat
  else if response.filter || response.unique then
    return ((matched.drop offset).filterMap ResultNode.context).take
      (max response.paginate 1).toNat
  else
    return ((matched.drop offset).take (max response.paginate 1).toNat).filterMap
      ResultNode.context

/-- Without an order, the end of the window is the end of the page or of the nodes. -/
theorem take_stop_eq {β : Type} (hplain : response.sortType = .none) {size : ℕ}
    (hclamped : window.Clamped response size) {rest : List β}
    (hlength : rest.length ≤ size - window.start.toNat) :
    rest.take (window.stop - window.start).toNat = rest.take window.paginate.toNat := by
  obtain ⟨hstart, hstop⟩ := hclamped.plain hplain
  have hskip := hclamped.skip
  have hpaginate := hclamped.paginate
  by_cases hinside : window.paginate + window.skip ≤ size
  · have hpage : (window.stop - window.start).toNat = window.paginate.toNat := by omega
    rw [hpage]
  · rw [List.take_of_length_le (by omega), List.take_of_length_le (by omega)]

theorem collected_plain (hplain : response.sortType = .none)
    (hclamped : window.Clamped response nodes.length) {matched : List (ResultNode α)}
    (hlength : matched.length ≤ nodes.length) :
    response.collected window matched =
      if response.filter || response.unique then
        ((matched.drop window.skip.toNat).filterMap ResultNode.context).take
          window.paginate.toNat
      else ((matched.drop window.skip.toNat).take window.paginate.toNat).filterMap
        ResultNode.context := by
  have hrest : (matched.drop window.start.toNat).length ≤
      nodes.length - window.start.toNat := by
    rw [List.length_drop]
    omega
  have hfewer : ((matched.drop window.start.toNat).filterMap ResultNode.context).length ≤
      nodes.length - window.start.toNat := (List.length_filterMap_le _ _).trans hrest
  unfold collected
  rw [take_stop_eq hplain hclamped hrest, take_stop_eq hplain hclamped hfewer,
    (hclamped.plain hplain).1]

theorem collected_sorted (hsorted : response.sortType ≠ .none)
    (hclamped : window.Clamped response nodes.length) {matched : List (ResultNode α)}
    (hlength : matched.length ≤ nodes.length) :
    response.collected window matched = matched.filterMap ResultNode.context := by
  obtain ⟨hstart, hstop⟩ := hclamped.sorted hsorted
  have hfewer := List.length_filterMap_le (ResultNode.context : ResultNode α → Option α) matched
  have hall : (window.stop - window.start).toNat = nodes.length := by omega
  have hzero : window.start.toNat = 0 := by omega
  unfold collected
  rw [hall, hzero, List.drop_zero, List.take_of_length_le hlength,
    List.take_of_length_le (hfewer.trans hlength), ite_self]

/-- What `query` lists of any nodes, whatever the quotients are taken to be. -/
theorem contexts_queryBy {quotient : ℤ → ℤ → ℚ} (surroundings : Surroundings α)
    (hgroups : response.groups = 0)
    (hwindow : response.offsets quotient nodes.length = .ok window) :
    ResponseContext.contexts <$> response.queryBy quotient surroundings nodes = (do
      let matched ← response.counted surroundings nodes
      response.listedFrom surroundings matched
        (response.pageSkip quotient nodes.length).toNat) := by
  have hclamped := offsets_clamped hwindow
  obtain ⟨_, _, _, _, hvalues⟩ := (offsets_page_iff hgroups).1 hwindow
  -- the window starts where the offset, once clamped, says
  have hskip : window.skip.toNat = (response.pageSkip quotient nodes.length).toNat := by
    simp only [hvalues, clamped]
    omega
  have hpaginate : window.paginate.toNat = (max response.paginate 1).toNat := by
    simp only [hvalues, clamped]
  rw [queryBy, hwindow]
  change ResponseContext.contexts <$> (do
    let collected ← response.collect surroundings window nodes
    let contexts ← response.arrange surroundings collected.contexts
    return ({ contexts := response.cut window contexts, total := collected.total } :
      ResponseContext α)) = _
  rw [collect_counted hclamped]
  cases hmatched : response.counted surroundings nodes with
  | error fault => rfl
  | ok matched =>
      have hlength := (counted_sublist hmatched).length_le
      simp only [bind, Except.bind, pure, Except.pure]
      unfold listedFrom
      by_cases hplain : response.sortType = .none
      · rw [collected_plain hplain hclamped hlength, hskip, hpaginate]
        simp only [arrange, hplain, cut, ne_eq, not_true_eq_false, if_false, pure, Except.pure,
          Functor.map, Except.map]
        split <;> rfl
      · rw [collected_sorted hplain hclamped hlength, if_pos hplain]
        cases response.arrange surroundings (matched.filterMap ResultNode.context) with
        | error fault => rfl
        | ok contexts =>
            simp only [Functor.map, Except.map, cut_eq hplain hclamped, hskip, hpaginate, bind,
              Except.bind, pure, Except.pure]

theorem contexts_query (surroundings : Surroundings α) (hgroups : response.groups = 0)
    (hfits : response.Fits nodes.length) :
    ResponseContext.contexts <$> response.query surroundings nodes = (do
      let matched ← response.counted surroundings nodes
      response.listedFrom surroundings matched
        (response.pageSkip exactly nodes.length).toNat) := by
  obtain ⟨window, hwindow⟩ := hfits
  exact contexts_queryBy surroundings hgroups hwindow

/-! ## Both offsets -/

/-- The same settings with `skip`, `paginate` and `page` in range. -/
def normalised (response : Response) : Response :=
  { response with
    skip := max response.skip 0
    paginate := max response.paginate 1
    page := max response.page 1 }

/-- The offset does not change if nothing is out of range, and grows otherwise. -/
theorem pageSkip_normalised (hpage : response.page ≠ -1) (size : ℤ) :
    (response.page ≤ 1 ∨ (0 ≤ response.skip ∧ 1 ≤ response.paginate) →
      (response.normalised.pageSkip exactly size).toNat = (response.pageSkip exactly size).toNat) ∧
    (¬ (response.page ≤ 1 ∨ (0 ≤ response.skip ∧ 1 ≤ response.paginate)) →
      (response.pageSkip exactly size).toNat <
        (response.normalised.pageSkip exactly size).toNat) := by
  have hplain : response.pageSkip exactly size =
      response.skip + (max response.page 1 - 1) * response.paginate := pageSkip_onPage size hpage
  have hnormal : response.normalised.pageSkip exactly size = max response.skip 0 +
      (max response.page 1 - 1) * max response.paginate 1 := by
    rw [pageSkip_of_ne exactly size (by simp only [normalised]; omega)]
    simp only [normalised]
    rw [max_eq_left (le_max_right response.page 1)]
  rw [hplain, hnormal]
  constructor
  · rintro (hfirst | ⟨hskip, hpaginate⟩)
    · rw [max_eq_right hfirst]
      omega
    · rw [max_eq_left hskip, max_eq_left hpaginate]
  · intro hout
    -- the pages before this one are longer when clamped, or `skip` is larger
    have hturned : 1 ≤ max response.page 1 - 1 := by omega
    have hpositive : 1 ≤ (max response.page 1 - 1) * max response.paginate 1 :=
      hturned.trans (le_mul_of_one_le_right (by omega) (le_max_right _ _))
    have hpages : (max response.page 1 - 1) * response.paginate ≤
        (max response.page 1 - 1) * max response.paginate 1 :=
      mul_le_mul_of_nonneg_left (le_max_left _ _) (by omega)
    by_cases hskip : 0 ≤ response.skip
    · have hstrict : (max response.page 1 - 1) * response.paginate <
          (max response.page 1 - 1) * max response.paginate 1 :=
        mul_lt_mul_of_pos_left (by omega) (by omega)
      omega
    · omega

theorem acceptedFrom_normalised (seen : List Str) (place : ℕ) (nodes : List (ResultNode α)) :
    response.normalised.acceptedFrom surroundings seen place nodes =
      response.acceptedFrom surroundings seen place nodes := by
  induction nodes generalizing seen place with
  | nil => rfl
  | cons node nodes ih =>
      have hpasses : response.normalised.passes node = response.passes node := rfl
      have hmatch : response.normalised.uniqueMatch surroundings seen node =
          response.uniqueMatch surroundings seen node := rfl
      simp only [acceptedFrom, hpasses, hmatch, ih]

theorem counted_normalised (nodes : List (ResultNode α)) :
    response.normalised.counted surroundings nodes = response.counted surroundings nodes := by
  unfold counted
  rw [acceptedFrom_normalised]
  rfl

theorem listedFrom_normalised (matched : List (ResultNode α)) (offset : ℕ) :
    response.normalised.listedFrom surroundings matched offset =
      response.listedFrom surroundings matched offset := by
  have hpaginate : max response.normalised.paginate 1 = max response.paginate 1 :=
    max_eq_left (le_max_right _ _)
  unfold listedFrom
  rw [hpaginate]
  rfl

/-! ## When nothing is lost -/

/-- No Context is listed from one of two offsets and not from the other one, which is
later. -/
def SameFrom (response : Response) (matched : List (ResultNode α)) (early late : ℕ) : Prop :=
  let length := (max response.paginate 1).toNat
  if response.sortType ≠ .none then (matched.filterMap ResultNode.context).length ≤ early
  else if response.filter || response.unique then
    ∀ node ∈ matched.slice early late, node.context = none
  else
    (∀ node ∈ matched.slice early (min late (early + length)), node.context = none) ∧
      ∀ node ∈ matched.slice (max late (early + length)) (late + length),
        node.context = none

/-- Cutting what is arranged. -/
theorem drop_take_eq {β : Type} (list : List β) {early late length : ℕ} (h : early < late)
    (hlength : 0 < length) :
    (list.length ≤ early →
      (list.drop early).take length = (list.drop late).take length) ∧
    (list.Nodup → (list.drop early).take length = (list.drop late).take length →
      list.length ≤ early) := by
  constructor
  · intro hshort
    rw [List.drop_eq_nil_of_le hshort, List.drop_eq_nil_of_le (by omega)]
  · intro hnodup hsame
    have hrest := hnodup.sublist (List.drop_sublist early list)
    rw [List.drop_eq_slice_append list h.le] at hrest hsame
    have hfront := (hrest.take_append_eq_iff hlength).1 hsame
    rcases (List.slice_eq_nil_iff list early late).1 hfront with hle | hshort
    · omega
    · exact hshort

/-- Filling the page with Contexts. -/
theorem filterMap_take_eq (matched : List (ResultNode α)) {early late length : ℕ}
    (h : early < late) (hlength : 0 < length) :
    ((∀ node ∈ matched.slice early late, node.context = none) →
      ((matched.drop early).filterMap ResultNode.context).take length =
        ((matched.drop late).filterMap ResultNode.context).take length) ∧
    ((matched.filterMap ResultNode.context).Nodup →
      ((matched.drop early).filterMap ResultNode.context).take length =
        ((matched.drop late).filterMap ResultNode.context).take length →
      ∀ node ∈ matched.slice early late, node.context = none) := by
  have hsplit : (matched.drop early).filterMap ResultNode.context =
      (matched.slice early late).filterMap ResultNode.context ++
        (matched.drop late).filterMap ResultNode.context := by
    rw [List.drop_eq_slice_append matched h.le, List.filterMap_append]
  constructor
  · intro hnone
    rw [hsplit, List.filterMap_eq_nil_iff.2 hnone, List.nil_append]
  · intro hnodup hsame
    have hrest := hnodup.sublist ((List.drop_sublist early matched).filterMap ResultNode.context)
    rw [hsplit] at hrest hsame
    exact List.filterMap_eq_nil_iff.1 ((hrest.take_append_eq_iff hlength).1 hsame)

/-- Taking the Contexts among so many nodes: the two pages can overlap. -/
theorem take_filterMap_eq (matched : List (ResultNode α)) {early late : ℕ} (length : ℕ)
    (h : early < late) :
    ((∀ node ∈ matched.slice early (min late (early + length)), node.context = none) ∧
        (∀ node ∈ matched.slice (max late (early + length)) (late + length),
          node.context = none) →
      ((matched.drop early).take length).filterMap ResultNode.context =
        ((matched.drop late).take length).filterMap ResultNode.context) ∧
    ((matched.filterMap ResultNode.context).Nodup →
      ((matched.drop early).take length).filterMap ResultNode.context =
        ((matched.drop late).take length).filterMap ResultNode.context →
      (∀ node ∈ matched.slice early (min late (early + length)), node.context = none) ∧
        ∀ node ∈ matched.slice (max late (early + length)) (late + length),
          node.context = none) := by
  have hpage (offset : ℕ) :
      (matched.drop offset).take length = matched.slice offset (offset + length) := by
    rw [List.slice, Nat.add_sub_cancel_left]
  -- the two pages have a part in common, which is empty if they do not overlap
  obtain ⟨front, common, back, hfront, hback, hearly, hlate, hsublist⟩ :
      ∃ front common back,
        front = matched.slice early (min late (early + length)) ∧
        back = matched.slice (max late (early + length)) (late + length) ∧
        matched.slice early (early + length) = front ++ common ∧
        matched.slice late (late + length) = common ++ back ∧
        List.Sublist (front ++ common ++ back) matched := by
    by_cases hoverlap : late ≤ early + length
    · refine ⟨_, matched.slice late (early + length), _, rfl, rfl, ?_, ?_, ?_⟩
      · rw [min_eq_left hoverlap, List.slice_append_slice _ h.le hoverlap]
      · rw [max_eq_right hoverlap, List.slice_append_slice _ hoverlap (by omega)]
      · rw [min_eq_left hoverlap, max_eq_right hoverlap,
          List.slice_append_slice _ h.le hoverlap,
          List.slice_append_slice _ (by omega) (by omega)]
        exact List.slice_sublist ..
    · refine ⟨_, [], _, rfl, rfl, ?_, ?_, ?_⟩
      · rw [min_eq_right (by omega), List.append_nil]
      · rw [max_eq_left (by omega), List.nil_append]
      · rw [min_eq_right (by omega), max_eq_left (by omega), List.append_nil]
        exact List.slice_append_sublist _ (by omega) (by omega) _
  rw [hpage, hpage, hearly, hlate, List.filterMap_append, List.filterMap_append, ← hfront,
    ← hback]
  simp only [← List.filterMap_eq_nil_iff]
  constructor
  · rintro ⟨hnoFront, hnoBack⟩
    rw [hnoFront, hnoBack, List.nil_append, List.append_nil]
  · intro hnodup hsame
    have hparts := hnodup.sublist (hsublist.filterMap ResultNode.context)
    rw [List.filterMap_append, List.filterMap_append] at hparts
    exact hparts.append_eq_append_iff.1 hsame

/-- From two offsets the same is listed if no Context lies between, and, of Contexts that are
listed at all and not twice, only then. -/
theorem listedFrom_eq (hsort : surroundings.SortPermutes)
    (horder : response.sortType ≠ .shuffle) (matched : List (ResultNode α)) {early late : ℕ}
    (h : early < late) :
    (response.SameFrom matched early late →
      response.listedFrom surroundings matched early =
        response.listedFrom surroundings matched late) ∧
    ∀ listed, response.listedFrom surroundings matched early = .ok listed →
      (matched.filterMap ResultNode.context).Nodup →
      response.listedFrom surroundings matched late = .ok listed →
      response.SameFrom matched early late := by
  have hlength : 0 < (max response.paginate 1).toNat := by omega
  unfold SameFrom listedFrom
  by_cases hsorted : response.sortType ≠ .none
  · simp only [if_pos hsorted]
    cases harranged : response.arrange surroundings (matched.filterMap ResultNode.context) with
    | error fault => exact ⟨fun _ => rfl, fun listed hlisted => by cases hlisted⟩
    | ok contexts =>
        have hperm := perm_arrange hsort horder harranged
        obtain ⟨hsame, honly⟩ := drop_take_eq contexts h hlength
        simp only [bind, Except.bind, pure, Except.pure, ← hperm.length_eq]
        refine ⟨fun hshort => congrArg Except.ok (hsame hshort), ?_⟩
        intro listed hearly hnodup hlate
        exact honly (hperm.nodup_iff.2 hnodup) (Except.ok.inj (hearly.trans hlate.symm))
  · simp only [if_neg hsorted]
    by_cases hcounting : (response.filter || response.unique) = true
    · obtain ⟨hsame, honly⟩ := filterMap_take_eq matched h hlength
      simp only [if_pos hcounting]
      refine ⟨fun hnone => congrArg Except.ok (hsame hnone), ?_⟩
      intro listed hearly hnodup hlate
      exact honly hnodup (Except.ok.inj (hearly.trans hlate.symm))
    · obtain ⟨hsame, honly⟩ := take_filterMap_eq matched
        (max response.paginate 1).toNat h
      simp only [if_neg hcounting]
      refine ⟨fun hnone => congrArg Except.ok (hsame hnone), ?_⟩
      intro listed hearly hnodup hlate
      exact honly hnodup (Except.ok.inj (hearly.trans hlate.symm))

/-- The offset of a page after the first. -/
def laterOffset (skip paginate page : ℤ) : ℕ := (skip + (page - 1) * paginate).toNat

/-- Nothing is out of range that the offset of the page is computed from, or the same is
listed from the offset of the clamped options. -/
def ClampedEarly (response : Response) (surroundings : Surroundings α)
    (nodes : List (ResultNode α)) : Prop :=
  response.page ≤ 1 ∨ (0 ≤ response.skip ∧ 1 ≤ response.paginate) ∨
    ∀ matched, response.counted surroundings nodes = .ok matched →
      response.SameFrom matched
        (laterOffset response.skip response.paginate response.page)
        (laterOffset (max response.skip 0) (max response.paginate 1) response.page)

/-- Clamping `skip`, `paginate` and `page` before the offset is computed lists the same
Contexts if none of them is out of range on a page after the first, or no Context is lost
between the two offsets; and, where Contexts are listed and none belongs to two nodes, only
then. -/
theorem clamps_normalise (response : Response) (surroundings : Surroundings α)
    (nodes : List (ResultNode α)) (hgroups : response.groups = 0) (hpage : response.page ≠ -1)
    (hsort : surroundings.SortPermutes) (horder : response.sortType ≠ .shuffle)
    (hfits : response.Fits nodes.length) (hnormal : response.normalised.Fits nodes.length) :
    (response.ClampedEarly surroundings nodes →
      ResponseContext.contexts <$> response.query surroundings nodes =
        ResponseContext.contexts <$> response.normalised.query surroundings nodes) ∧
    ((nodes.filterMap ResultNode.context).Nodup →
      ∀ listed, ResponseContext.contexts <$> response.query surroundings nodes = .ok listed →
        (ResponseContext.contexts <$> response.normalised.query surroundings nodes =
            .ok listed ↔
          response.ClampedEarly surroundings nodes)) := by
  obtain ⟨hsame, hgrow⟩ := pageSkip_normalised hpage (nodes.length : ℤ)
  have hgroupsNormal : response.normalised.groups = 0 := hgroups
  rw [contexts_query surroundings hgroups hfits,
    contexts_query surroundings hgroupsNormal hnormal, counted_normalised]
  simp only [listedFrom_normalised]
  by_cases hrange : response.page ≤ 1 ∨ (0 ≤ response.skip ∧ 1 ≤ response.paginate)
  · have hclamped : response.ClampedEarly surroundings nodes :=
      hrange.elim Or.inl fun h => Or.inr (Or.inl h)
    rw [hsame hrange]
    exact ⟨fun _ => rfl, fun _ listed hlisted => iff_of_true hlisted hclamped⟩
  · have hlater := hgrow hrange
    have hplain := pageSkip_of_ne exactly (nodes.length : ℤ) hpage
    have hfirst : max response.page 1 = response.page := by omega
    have hearly : (response.pageSkip exactly nodes.length).toNat =
        laterOffset response.skip response.paginate response.page := by
      rw [hplain, hfirst, laterOffset]
    have hlate : (response.normalised.pageSkip exactly nodes.length).toNat =
        laterOffset (max response.skip 0) (max response.paginate 1) response.page := by
      rw [pageSkip_of_ne exactly _ (by simp only [normalised]; omega)]
      simp only [normalised, hfirst, laterOffset]
    rw [hearly, hlate] at hlater ⊢
    cases hmatched : response.counted surroundings nodes with
    | error fault => exact ⟨fun _ => rfl, fun _ listed hlisted => by cases hlisted⟩
    | ok matched =>
        obtain ⟨henough, honly⟩ := listedFrom_eq hsort horder matched hlater
        have hclamped : response.ClampedEarly surroundings nodes ↔ response.SameFrom matched
            (laterOffset response.skip response.paginate response.page)
            (laterOffset (max response.skip 0) (max response.paginate 1) response.page) := by
          unfold ClampedEarly
          rw [← or_assoc, or_iff_right hrange, hmatched]
          exact ⟨fun h => h matched rfl, fun h other hother => Except.ok.inj hother ▸ h⟩
        rw [hclamped]
        refine ⟨henough, fun hnodup listed hlisted => ⟨fun hnormal => ?_, fun h => ?_⟩⟩
        · have hfew := (counted_sublist hmatched).filterMap ResultNode.context
          exact honly listed hlisted (hnodup.sublist hfew) hnormal
        · exact (henough h).symm.trans hlisted

/-- The second page of none. -/
def pagesOfNone : Response := { secondPage with paginate := 0 }

/-- It is the first page of one again, and not the second. -/
theorem second_pageOfNone :
    pagesOfNone.Fits fourNames.length ∧ pagesOfNone.normalised.Fits fourNames.length ∧
      ResponseContext.contexts <$> pagesOfNone.query ownData fourNames =
        .ok (["c"] : List Str) ∧
      ResponseContext.contexts <$> pagesOfNone.normalised.query ownData fourNames =
        .ok (["a"] : List Str) ∧
      pagesOfNone.pageContexts ownData fourNames 1 = .ok (["c"] : List Str) :=
  ⟨⟨_, rfl⟩, ⟨_, rfl⟩, rfl, rfl, rfl⟩

/-- The page zero, from before the first Context. -/
def pageZero : Response := { secondPage with page := 0, skip := -3 }

/-- The third page of one, from before the first node. -/
def thirdPage : Response where
  filter := false
  filterTerms := []
  unique := false
  uniqueFields := []
  groups := 0
  page := 3
  paginate := 1
  skip := -1
  sortType := .none
  sortFields := []

/-- A node without a Context before one with it. -/
def contextBehind : List (ResultNode Str) := [⟨[], none⟩, ⟨[], some "a"⟩]

theorem clamps_normalise_pageZero :
    ResponseContext.contexts <$> pageZero.query ownData fourNames =
        ResponseContext.contexts <$> pageZero.normalised.query ownData fourNames ∧
      ¬ thirdPage.ClampedEarly ownData contextBehind := by
  constructor
  · exact (clamps_normalise pageZero ownData fourNames rfl (by decide) sortPermutes_ownData
      (by decide) ⟨_, rfl⟩ ⟨_, rfl⟩).1 (Or.inl (by decide))
  · -- the second node is on the page, but not if the options are clamped first
    have hshown : ResponseContext.contexts <$> thirdPage.query ownData contextBehind =
        .ok (["a"] : List Str) := rfl
    have hnormal : ResponseContext.contexts <$>
        thirdPage.normalised.query ownData contextBehind = .ok [] := rfl
    have honly := (clamps_normalise thirdPage ownData contextBehind rfl (by decide)
      sortPermutes_ownData (by decide) ⟨_, rfl⟩ ⟨_, rfl⟩).2 (by decide) _ hshown
    rw [← honly, hnormal]
    decide

end VaeDb.Response
