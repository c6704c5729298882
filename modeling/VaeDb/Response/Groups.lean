import VaeDb.Library.Shares
import VaeDb.Response.Pages

/-!
# Groups

With `groups` set, a page is one of the groups into which the Contexts after the first
`skip` are divided.  Each round of the loop divides what is left by the groups left
(`groupLoop_eq_ok_iff`), so with exact quotients the groups are even shares
(`rounds_exactly`), and the groups follow one another like pages do.  Only the `int` sum that
ends the window of an unordered response can overflow (`groups_even_iff`).
-/

namespace VaeDb.Response

open Shares

variable {α : Type} {response : Response} {surroundings : Surroundings α}
  {nodes : List (ResultNode α)} {found contexts : List α} {window : Window}

/-! ## The loop over the groups -/

/-- Where the groups start and how many they hold, if what is left is divided by the groups
left each time. -/
structure Rounds (quotient : ℤ → ℤ → ℚ) (size groups : ℤ) (starts sizes : ℤ → ℤ) : Prop where
  next : ∀ i, 0 ≤ i → starts (i + 1) = starts i + sizes i
  divided : ∀ i, 0 ≤ i → (i < groups ∨ groups < 0) →
    ⌈quotient (size - starts i) (groups - i)⌉ = sizes i

/-- What round `i` computes are `int`s, and there are groups left to divide by. -/
def RoundFits (size groups : ℤ) (starts sizes : ℤ → ℤ) (i : ℤ) : Prop :=
  (0 < i → InInt32 (starts i)) ∧ InInt32 (size - starts i) ∧ InInt32 (groups - i) ∧
    groups ≠ i ∧ InInt32 (sizes i)

section Loop

variable {quotient : ℤ → ℤ → ℚ} {size groups j skip paginate : ℤ} {starts sizes : ℤ → ℤ}
  {turned : ℤ × ℤ}

/-- One round, from a `skip_` that it completes to the start of its group. -/
theorem groupLoop_succ_eq_ok_iff (hrounds : Rounds quotient size groups starts sizes)
    {rounds : ℕ} (hj : 0 ≤ j) (hparts : j ≤ groups ∨ groups < 0)
    (hskip : (if j > 0 then skip + paginate else skip) = starts j) :
    groupLoop quotient size groups (rounds + 1) j skip paginate = .ok turned ↔
      RoundFits size groups starts sizes j ∧
      groupLoop quotient size groups rounds (j + 1) (starts j) (sizes j) = .ok turned := by
  have hstart (x : ℤ) : (if j > 0 then int32 (skip + paginate) else pure skip) = .ok x ↔
      (0 < j → InInt32 (starts j)) ∧ x = starts j := by
    rw [← hskip]
    by_cases hround : j > 0
    · simp [hround, int32_eq_ok_iff]
    · simp [hround, pure, Except.pure, eq_comm]
  have hceil (hdivisor : groups ≠ j) : ⌈quotient (size - starts j) (groups - j)⌉ = sizes j :=
    hrounds.divided j hj (by omega)
  have hloop : groupLoop quotient size groups (rounds + 1) j skip paginate =
      (if j > 0 then int32 (skip + paginate) else pure skip) >>= (fun skip => do
        let left ← int32 (size - skip)
        let groupsLeft ← int32 (groups - j)
        let paginate ← ceilDiv quotient left groupsLeft
        groupLoop quotient size groups rounds (j + 1) skip paginate) := by
    rw [groupLoop]
    split <;> rfl
  rw [hloop, Outcome.bind_eq_ok]
  simp only [hstart]
  constructor
  · rintro ⟨_, ⟨hfits, rfl⟩, h⟩
    obtain ⟨left, hleft, h⟩ := Outcome.bind_eq_ok.1 h
    obtain ⟨groupsLeft, hgroups, h⟩ := Outcome.bind_eq_ok.1 h
    obtain ⟨paginate, hpaginate, h⟩ := Outcome.bind_eq_ok.1 h
    obtain ⟨hleftFits, rfl⟩ := int32_eq_ok_iff.1 hleft
    obtain ⟨hgroupsFits, rfl⟩ := int32_eq_ok_iff.1 hgroups
    obtain ⟨hdivisor, hpaginateFits, rfl⟩ := ceilDiv_eq_ok_iff.1 hpaginate
    have hdiffer : groups ≠ j := by omega
    rw [hceil hdiffer] at hpaginateFits h
    exact ⟨⟨hfits, hleftFits, hgroupsFits, hdiffer, hpaginateFits⟩, h⟩
  · rintro ⟨⟨hfits, hleftFits, hgroupsFits, hdiffer, hpaginateFits⟩, h⟩
    refine ⟨_, ⟨hfits, rfl⟩, ?_⟩
    refine Outcome.bind_eq_ok.2 ⟨_, int32_eq_ok_iff.2 ⟨hleftFits, rfl⟩, ?_⟩
    refine Outcome.bind_eq_ok.2 ⟨_, int32_eq_ok_iff.2 ⟨hgroupsFits, rfl⟩, ?_⟩
    refine Outcome.bind_eq_ok.2 ⟨_, ceilDiv_eq_ok_iff.2 ⟨by omega, ?_, rfl⟩, ?_⟩
    · rw [hceil hdiffer]
      exact hpaginateFits
    · rw [hceil hdiffer]
      exact h

/-- The rounds up to a group are computed exactly if each of them is, and end at the group. -/
theorem groupLoop_eq_ok_iff (hrounds : Rounds quotient size groups starts sizes) (rounds : ℕ)
    (hj : 0 ≤ j) (hparts : j ≤ groups ∨ groups < 0)
    (hskip : (if j > 0 then skip + paginate else skip) = starts j) :
    groupLoop quotient size groups (rounds + 1) j skip paginate = .ok turned ↔
      (∀ i : ℕ, i ≤ rounds → RoundFits size groups starts sizes (j + i)) ∧
      turned = (starts (j + rounds), sizes (j + rounds)) := by
  induction rounds generalizing j skip paginate with
  | zero =>
      rw [groupLoop_succ_eq_ok_iff hrounds hj hparts hskip]
      simp [groupLoop, pure, Except.pure, eq_comm]
  | succ rounds ih =>
      rw [groupLoop_succ_eq_ok_iff hrounds hj hparts hskip]
      have hround (i : ℕ) : j + 1 + i = j + (i + 1 : ℕ) := by
        push_cast
        ring
      constructor
      · rintro ⟨hfits, h⟩
        have hmore : j + 1 ≤ groups ∨ groups < 0 := by
          have hdiffer := hfits.2.2.2.1
          omega
        obtain ⟨hrest, rfl⟩ := (ih (by omega) hmore (by
          rw [if_pos (by omega), hrounds.next j hj])).1 h
        refine ⟨fun i hi => ?_, by rw [hround]⟩
        cases i with
        | zero => simpa using hfits
        | succ i =>
            rw [← hround]
            exact hrest i (by omega)
      · rintro ⟨hfits, rfl⟩
        have hfirst : RoundFits size groups starts sizes j := by
          simpa using hfits 0 (by omega)
        have hmore : j + 1 ≤ groups ∨ groups < 0 := by
          have hdiffer := hfirst.2.2.2.1
          omega
        refine ⟨hfirst, (ih (by omega) hmore (by
          rw [if_pos (by omega), hrounds.next j hj])).2 ⟨fun i hi => ?_, by rw [hround]⟩⟩
        rw [hround]
        exact hfits (i + 1) (by omega)

end Loop

/-! ## The window of a group -/

/-- The round of the group that is asked for. -/
def shownGroup (response : Response) : ℕ := (max response.page 1 - 1).toNat

theorem turnPage_group_eq_ok_iff {quotient : ℤ → ℤ → ℚ} {size : ℤ} {starts sizes : ℤ → ℤ}
    (hgroups : response.groups ≠ 0)
    (hrounds : Rounds quotient size response.groups starts sizes)
    (hskip : starts 0 = response.skip) {turned : ℤ × ℤ} :
    response.turnPage quotient size = .ok turned ↔
      (∀ i : ℕ, i ≤ response.shownGroup →
        RoundFits size response.groups starts sizes i) ∧
      turned = (starts response.shownGroup, sizes response.shownGroup) := by
  have hpages : (if response.page ≤ 0 then 1 else response.page).toNat =
      response.shownGroup + 1 := by
    unfold shownGroup
    split <;> omega
  unfold turnPage
  rw [if_pos hgroups]
  simp only [hpages]
  rw [groupLoop_eq_ok_iff hrounds response.shownGroup le_rfl (by omega)
    (by rw [if_neg (lt_irrefl _), hskip])]
  simp only [zero_add]

/-- With groups the window is computed exactly if every round is and, without an order, the
end of the group is an `int`. -/
theorem offsets_rounds_iff {quotient : ℤ → ℤ → ℚ} {size : ℤ} {starts sizes : ℤ → ℤ}
    (hgroups : response.groups ≠ 0)
    (hrounds : Rounds quotient size response.groups starts sizes)
    (hskip : starts 0 = response.skip) :
    response.offsets quotient size = .ok window ↔
      (∀ i : ℕ, i ≤ response.shownGroup →
        RoundFits size response.groups starts sizes i) ∧
      (response.sortType = .none →
        max (sizes response.shownGroup) 1 + max (starts response.shownGroup) 0 < 2 ^ 31) ∧
      window = response.clamped size (starts response.shownGroup)
        (sizes response.shownGroup) := by
  rw [offsets_eq_ok_iff]
  constructor
  · rintro ⟨skip, paginate, hturn, hend, hwindow⟩
    obtain ⟨hfits, hturned⟩ := (turnPage_group_eq_ok_iff hgroups hrounds hskip).1 hturn
    obtain ⟨rfl, rfl⟩ := Prod.mk.inj hturned
    exact ⟨hfits, hend, hwindow⟩
  · rintro ⟨hfits, hend, hwindow⟩
    exact ⟨_, _, (turnPage_group_eq_ok_iff hgroups hrounds hskip).2 ⟨hfits, rfl⟩, hend, hwindow⟩

/-! ## Exact quotients -/

/-- `skip_` in round `i`. -/
def groupSkip (size groups skip i : ℤ) : ℤ := skip + start (size - skip) groups i

/-- `paginate_` after round `i`. -/
def groupSize (size groups skip i : ℤ) : ℤ := share (size - skip) groups i

theorem groupSkip_succ (size groups skip i : ℤ) :
    groupSkip size groups skip (i + 1) =
      groupSkip size groups skip i + groupSize size groups skip i := by
  unfold groupSkip groupSize
  rw [start_succ]
  ring

theorem groupSkip_zero (size groups skip : ℤ) : groupSkip size groups skip 0 = skip := by
  simp [groupSkip]

/-- The groups are even shares. -/
theorem rounds_exactly (size groups skip : ℤ) :
    Rounds exactly size groups (groupSkip size groups skip) (groupSize size groups skip) where
  next := fun i _ => groupSkip_succ size groups skip i
  divided := by
    intro i hi hleft
    have hrest : size - groupSkip size groups skip i =
        (size - skip) - start (size - skip) groups i := by
      unfold groupSkip
      ring
    rw [hrest]
    exact ceil_share hleft hi

theorem offsets_group_iff (hgroups : response.groups ≠ 0) {size : ℤ} :
    response.offsets exactly size = .ok window ↔
      (∀ i : ℕ, i ≤ response.shownGroup →
        RoundFits size response.groups (groupSkip size response.groups response.skip)
          (groupSize size response.groups response.skip) i) ∧
      (response.sortType = .none →
        max (groupSize size response.groups response.skip response.shownGroup) 1 +
          max (groupSkip size response.groups response.skip response.shownGroup) 0 < 2 ^ 31) ∧
      window = response.clamped size
        (groupSkip size response.groups response.skip response.shownGroup)
        (groupSize size response.groups response.skip response.shownGroup) :=
  offsets_rounds_iff hgroups (rounds_exactly size response.groups response.skip)
    (groupSkip_zero size response.groups response.skip)

/-! ## A positive number of groups -/

section Positive

variable {size groups skip i : ℤ}

/-- The groups start between `skip` and the size. -/
theorem groupSkip_between (size skip : ℤ) (hgroups : 0 < groups) (hi : 0 ≤ i)
    (hle : i ≤ groups) :
    min skip size ≤ groupSkip size groups skip i ∧
      groupSkip size groups skip i ≤ max skip size := by
  unfold groupSkip
  by_cases hleft : 0 ≤ size - skip
  · have hstart := start_mem_of_nonneg hleft hi hle hgroups
    omega
  · have hstart := start_mem_of_nonpos (n := size - skip) (by omega) hi hle hgroups
    omega

/-- No round that has groups left overflows. -/
theorem roundFits_of_pos (hgroups : 0 < groups) (hint : groups < 2 ^ 31) (hskip : InInt32 skip)
    (hsize : 0 ≤ size) (hbound : size < 2 ^ 31) (hleft : size - skip < 2 ^ 31) (hi : 0 ≤ i)
    (hlt : i < groups) :
    RoundFits size groups (groupSkip size groups skip) (groupSize size groups skip) i := by
  have hhere := groupSkip_between size skip hgroups hi (by omega)
  have hnext := groupSkip_between size skip hgroups
    (show 0 ≤ i + 1 by omega) (by omega)
  have hsucc := groupSkip_succ size groups skip i
  obtain ⟨hlow, hhigh⟩ := hskip
  refine ⟨fun _ => ⟨?_, ?_⟩, ⟨?_, ?_⟩, ⟨?_, ?_⟩, ?_, ⟨?_, ?_⟩⟩ <;> omega

/-- The end of the group is an `int` unless it starts at the last one. -/
theorem groupEnd_lt_iff (hgroups : 0 < groups) (hsize : 0 ≤ size) (hbound : size < 2 ^ 31 - 1)
    (hleft : size - skip < 2 ^ 31) (hi : 0 ≤ i) (hlt : i < groups) :
    max (groupSize size groups skip i) 1 + max (groupSkip size groups skip i) 0 < 2 ^ 31 ↔
      groupSkip size groups skip i < 2 ^ 31 - 1 := by
  have hhere := groupSkip_between size skip hgroups hi (by omega)
  have hnext := groupSkip_between size skip hgroups
    (show 0 ≤ i + 1 by omega) (by omega)
  have hsucc := groupSkip_succ size groups skip i
  by_cases hempty : groupSize size groups skip i ≤ 0
  · omega
  · have hsome : 0 < size - skip := by
      by_contra hnone
      exact hempty (share_nonpos (by omega) hgroups hi)
    omega

end Positive

/-- The window of one of a positive number of groups is computed unless, without an order,
the group starts at the last `int`. -/
theorem fits_group_iff (response : Response) (hgroups : 0 < response.groups)
    (hint : response.groups < 2 ^ 31) (hskip : InInt32 response.skip) {size : ℤ}
    (hsize : 0 ≤ size) (hbound : size < 2 ^ 31 - 1)
    (hleft : size - response.skip < 2 ^ 31) (hshown : response.shownGroup < response.groups) :
    response.Fits size ↔
      (response.sortType = .none →
        groupSkip size response.groups response.skip response.shownGroup < 2 ^ 31 - 1) := by
  have hend := groupEnd_lt_iff hgroups hsize hbound hleft
    (Int.natCast_nonneg response.shownGroup) hshown
  constructor
  · rintro ⟨window, hwindow⟩ hnone
    obtain ⟨_, hlow, _⟩ := (offsets_group_iff hgroups.ne').1 hwindow
    exact hend.1 (hlow hnone)
  · intro h
    refine ⟨_, (offsets_group_iff hgroups.ne').2 ⟨fun i hi => ?_, fun hnone => ?_, rfl⟩⟩
    · exact roundFits_of_pos hgroups hint hskip hsize (by omega) hleft (by omega) (by omega)
    · exact hend.2 (h hnone)

/-- What is listed of a group once the nodes are matched and arranged. -/
theorem query_group (hcontexts : ∀ node ∈ nodes, node.context.isSome)
    (hgroups : response.groups ≠ 0)
    (hfound : response.matching surroundings nodes = .ok found)
    (harranged : response.arrange surroundings found = .ok contexts)
    (hfits : response.Fits nodes.length) :
    response.query surroundings nodes =
      .ok {
        contexts := (contexts.drop (groupSkip nodes.length response.groups response.skip
          response.shownGroup).toNat).take
          (max (groupSize nodes.length response.groups response.skip
            response.shownGroup) 1).toNat
        total := found.length } := by
  obtain ⟨window, hwindow⟩ := hfits
  obtain ⟨_, _, rfl⟩ := (offsets_group_iff hgroups).1 hwindow
  have hskip (skip : ℤ) : (max skip 0).toNat = skip.toNat := by omega
  rw [query, queryBy_window response surroundings nodes hcontexts hwindow, hfound]
  simp only [bind, Except.bind, harranged, clamped, hskip]
  rfl

/-! ## The groups together -/

/-- The first Context of a group, while there are any. -/
def groupStart (response : Response) (size : ℕ) (group : ℕ) : ℕ :=
  if response.skip ≤ size then (groupSkip size response.groups response.skip group).toNat
  else response.skip.toNat

theorem monotone_groupStart (hgroups : 0 < response.groups) (size : ℕ) :
    Monotone (response.groupStart size) := by
  apply monotone_nat_of_le_succ
  intro group
  have hsucc := groupSkip_succ size response.groups response.skip group
  unfold groupStart
  by_cases hleft : response.skip ≤ size
  · have hsize : 0 ≤ groupSize size response.groups response.skip group :=
      share_nonneg (by omega) hgroups
    simp only [hleft, if_true]
    push_cast
    omega
  · simp only [hleft, if_false]
    exact le_rfl

theorem groupStart_zero (size : ℕ) : response.groupStart size 0 = response.skip.toNat := by
  have hzero : groupSkip size response.groups response.skip ((0 : ℕ) : ℤ) = response.skip := by
    simp [groupSkip]
  unfold groupStart
  rw [hzero, ite_self]

/-- The groups reach the last Context. -/
theorem le_groupStart_end (hgroups : 0 < response.groups)
    (hlength : contexts.length = nodes.length) :
    contexts.length ≤ response.groupStart nodes.length response.groups.toNat := by
  have hparts : ((response.groups.toNat : ℕ) : ℤ) = response.groups := by omega
  unfold groupStart groupSkip
  rw [hparts, start_parts hgroups]
  split <;> omega

/-- A group is a slice of the Contexts. -/
theorem groupContexts_slice (hcontexts : ∀ node ∈ nodes, node.context.isSome)
    (hgroups : 0 < response.groups) (hskip : 0 ≤ response.skip)
    (hfound : response.matching surroundings nodes = .ok found)
    (harranged : response.arrange surroundings found = .ok contexts)
    (hlength : contexts.length = nodes.length) {group : ℕ} (hlt : group < response.groups)
    (hfits : (response.onPage (group + 1)).Fits nodes.length) :
    response.pageContexts surroundings nodes (group + 1) =
      .ok (contexts.slice (response.groupStart nodes.length group)
        (response.groupStart nodes.length (group + 1))) := by
  have hgroupsPage : (response.onPage (group + 1)).groups ≠ 0 := hgroups.ne'
  have hfoundPage : (response.onPage (group + 1)).matching surroundings nodes = .ok found :=
    hfound
  have harrangedPage : (response.onPage (group + 1)).arrange surroundings found =
      .ok contexts := harranged
  have hshown : (response.onPage (group + 1)).shownGroup = group := by
    simp only [shownGroup, onPage]
    omega
  unfold pageContexts
  rw [query_group hcontexts hgroupsPage hfoundPage harrangedPage hfits, hshown]
  simp only [Functor.map, Except.map, onPage]
  congr 1
  have hhere := groupSkip_between nodes.length response.skip hgroups
    (Int.natCast_nonneg group) hlt.le
  have hsucc := groupSkip_succ nodes.length response.groups response.skip group
  by_cases hleft : response.skip ≤ nodes.length
  · have hstart : response.groupStart nodes.length group =
        (groupSkip nodes.length response.groups response.skip group).toNat := if_pos hleft
    have hnext : response.groupStart nodes.length (group + 1) =
        (groupSkip nodes.length response.groups response.skip (group + 1)).toNat := by
      have hcast : ((group + 1 : ℕ) : ℤ) = group + 1 := by omega
      rw [← hcast]
      exact if_pos hleft
    by_cases hempty : groupSize nodes.length response.groups response.skip group ≤ 0
    · have hall := start_eq_of_share (n := nodes.length - response.skip) (by omega) hgroups
        hempty
      have hend : contexts.length ≤
          (groupSkip nodes.length response.groups response.skip group).toNat := by
        unfold groupSkip
        omega
      rw [hstart, List.slice_eq_nil _ _ hend, List.drop_eq_nil_of_le hend, List.take_nil]
    · rw [List.slice, hstart, hnext]
      congr 1
      omega
  · have hstart : response.groupStart nodes.length group = response.skip.toNat := if_neg hleft
    have hnext : response.groupStart nodes.length (group + 1) = response.skip.toNat :=
      if_neg hleft
    rw [hstart, hnext, List.slice_self, List.drop_eq_nil_of_le (by omega), List.take_nil]

/-- A group that is before another is as large or one larger. -/
theorem length_group_even (hgroups : 0 < response.groups) (hskip : 0 ≤ response.skip)
    (hlength : contexts.length = nodes.length) {i j : ℕ} (hij : i < j)
    (hj : j < response.groups) :
    (contexts.slice (response.groupStart nodes.length j)
      (response.groupStart nodes.length (j + 1))).length ≤
      (contexts.slice (response.groupStart nodes.length i)
        (response.groupStart nodes.length (i + 1))).length ∧
    (contexts.slice (response.groupStart nodes.length i)
      (response.groupStart nodes.length (i + 1))).length ≤
      (contexts.slice (response.groupStart nodes.length j)
        (response.groupStart nodes.length (j + 1))).length + 1 := by
  have hsize {group : ℕ} (hlt : group < response.groups) :
      (contexts.slice (response.groupStart nodes.length group)
        (response.groupStart nodes.length (group + 1))).length =
      if response.skip ≤ nodes.length then
        (groupSize nodes.length response.groups response.skip group).toNat
      else 0 := by
    have hnext := groupSkip_between nodes.length response.skip hgroups
      (show 0 ≤ ((group + 1 : ℕ) : ℤ) by omega) (by omega)
    have hhere := groupSkip_between nodes.length response.skip hgroups
      (show 0 ≤ (group : ℤ) by omega) (by omega)
    have hsucc := groupSkip_succ nodes.length response.groups response.skip group
    rw [List.length_slice, groupStart, groupStart]
    push_cast at hnext ⊢
    split <;> omega
  rw [hsize hj, hsize (by omega)]
  split
  · have heven := share_even (nodes.length - response.skip) response.groups
      (show (i : ℤ) ≤ j by omega)
    unfold groupSize
    omega
  · omega

theorem fits_of_pageContexts {page : ℤ} {listed : List α}
    (h : response.pageContexts surroundings nodes page = .ok listed) :
    (response.onPage page).Fits nodes.length := by
  obtain ⟨result, hresult, _⟩ := Outcome.map_eq_ok.1 h
  obtain ⟨window, hwindow, _⟩ := Outcome.bind_eq_ok.1 hresult
  exact ⟨window, hwindow⟩

/-- The groups list the Contexts after the first `skip`, each once and in order, and earlier
groups are as large as later ones or one larger: always with an order, and without one
unless `skip` is the last `int`, where the first group is not computed. -/
theorem groups_even_iff (response : Response) (surroundings : Surroundings α)
    (nodes : List (ResultNode α)) (hcontexts : ∀ node ∈ nodes, node.context.isSome)
    (hsize : nodes.length ≤ 2 ^ 24) (hfilter : response.filter = false)
    (hunique : response.unique = false) (hskip : 0 ≤ response.skip)
    (hskipInt : response.skip < 2 ^ 31) (hgroups : 1 ≤ response.groups)
    (hgroupsInt : response.groups < 2 ^ 31) (hsort : surroundings.SortPermutes)
    (horder : response.sortType ≠ .shuffle) {contexts : List α}
    (harranged : response.arrange surroundings (nodes.filterMap ResultNode.context) =
      .ok contexts) :
    (∃ listed, (List.range response.groups.toNat).mapM
        (fun group : ℕ => response.pageContexts surroundings nodes (group + 1)) = .ok listed ∧
      listed.flatten = contexts.drop response.skip.toNat ∧
      listed.Pairwise fun earlier later =>
        later.length ≤ earlier.length ∧ earlier.length ≤ later.length + 1) ↔
    response.sortType ≠ .none ∨ response.skip < 2 ^ 31 - 1 := by
  have hpositive : 0 < response.groups := by omega
  have hfound : response.matching surroundings nodes =
      .ok (nodes.filterMap ResultNode.context) := by
    simp [matching, passing, hfilter, hunique, pure, Except.pure]
  have hlength : contexts.length = nodes.length :=
    (length_arrange hsort horder harranged).trans (length_filterMap_context hcontexts)
  have hfits {group : ℕ} (hlt : group < response.groups) :
      (response.onPage (group + 1)).Fits nodes.length ↔
        (response.sortType = .none →
          groupSkip nodes.length response.groups response.skip group < 2 ^ 31 - 1) := by
    have hshown : (response.onPage (group + 1)).shownGroup = group := by
      simp only [shownGroup, onPage]
      omega
    have hskipRange : InInt32 response.skip := ⟨by omega, hskipInt⟩
    have hpage := fits_group_iff (response.onPage (group + 1)) hpositive hgroupsInt hskipRange
      (Int.natCast_nonneg nodes.length) (by omega) (by simp only [onPage]; omega)
      (by rw [hshown]; exact hlt)
    rw [hshown] at hpage
    exact hpage
  constructor
  · rintro ⟨listed, hlisted, -, -⟩
    by_contra hneither
    obtain ⟨hnone, hlast⟩ := not_or.1 hneither
    -- The first group starts at `skip`.
    obtain ⟨rest, hrange⟩ : ∃ rest, List.range response.groups.toNat = 0 :: rest := by
      obtain ⟨more, hmore⟩ : ∃ more, response.groups.toNat = more + 1 :=
        ⟨response.groups.toNat - 1, by omega⟩
      exact ⟨_, by rw [hmore, List.range_succ_eq_map]⟩
    rw [hrange, List.mapM_cons] at hlisted
    obtain ⟨first, hfirst, _⟩ := Outcome.bind_eq_ok.1 hlisted
    have hstart : response.skip < 2 ^ 31 - 1 := by
      simpa [groupSkip] using
        (hfits hpositive).1 (fits_of_pageContexts hfirst) (not_not.1 hnone)
    omega
  · intro h
    have hslices : ∀ group ∈ List.range response.groups.toNat,
        response.pageContexts surroundings nodes (group + 1) =
          .ok (contexts.slice (response.groupStart nodes.length group)
            (response.groupStart nodes.length (group + 1))) := by
      intro group hgroup
      have hrange := List.mem_range.1 hgroup
      have hlt : (group : ℤ) < response.groups := by omega
      have hbetween := groupSkip_between nodes.length response.skip hpositive
        (Int.natCast_nonneg group) hlt.le
      refine groupContexts_slice hcontexts hpositive hskip hfound harranged hlength hlt
        ((hfits hlt).2 fun hnone => ?_)
      have hskipLast := h.resolve_left (not_not.2 hnone)
      omega
    refine ⟨_, mapM_eq_ok _ hslices, ?_, ?_⟩
    · rw [← List.flatMap_def, List.flatMap_slice contexts (monotone_groupStart hpositive _),
        groupStart_zero, List.slice_eq_drop _ _ (le_groupStart_end hpositive hlength)]
    · rw [List.pairwise_map]
      refine List.Pairwise.imp_of_mem ?_ List.pairwise_lt_range
      intro i j hi hj hij
      have hrange := List.mem_range.1 hj
      exact length_group_even hpositive hskip hlength hij (by omega)

/-- Three groups of the names after the first, in reverse. -/
def threeGroups : Response where
  filter := false
  filterTerms := []
  unique := false
  uniqueFields := []
  groups := 3
  page := 1
  paginate := 99999999
  skip := 1
  sortType := .reverse
  sortFields := []

theorem groups_even_iff_threeGroups :
    ∃ listed, (List.range 3).mapM
        (fun group : ℕ => threeGroups.pageContexts ownData fourNames (group + 1)) =
          .ok listed ∧
      listed.flatten = (["b", "a", "b"] : List Str) ∧
      listed.Pairwise fun earlier later =>
        later.length ≤ earlier.length ∧ earlier.length ≤ later.length + 1 := by
  have harranged : threeGroups.arrange ownData (fourNames.filterMap ResultNode.context) =
      .ok (["c", "b", "a", "b"] : List Str) := rfl
  exact (groups_even_iff threeGroups ownData fourNames context_fourNames (by decide) rfl rfl
    (by decide) (by decide) (by decide) (by decide) sortPermutes_ownData (by decide)
    harranged).2 (Or.inl (by decide))

/-- One group of what comes after the last `int`. -/
def groupAfterAll : Response :=
  { threeGroups with groups := 1, skip := 2 ^ 31 - 1, sortType := .none }

/-- It is empty, but its window is not computed. -/
theorem groupAfterAll_overflows :
    groupAfterAll.pageContexts ownData fourNames 1 = .error (.undefined .intOverflow) ∧
      ¬ ∃ listed, (List.range 1).mapM
        (fun group : ℕ => groupAfterAll.pageContexts ownData fourNames (group + 1)) =
          .ok listed := by
  have hfirst : groupAfterAll.pageContexts ownData fourNames 1 =
      .error (.undefined .intOverflow) := by decide +kernel
  refine ⟨hfirst, ?_⟩
  rintro ⟨listed, hlisted⟩
  have hrange : List.range 1 = [0] := rfl
  rw [hrange, List.mapM_cons] at hlisted
  obtain ⟨_, hok, _⟩ := Outcome.bind_eq_ok.1 hlisted
  have hpage : ((0 : ℕ) : ℤ) + 1 = 1 := rfl
  rw [hpage, hfirst] at hok
  cases hok

end VaeDb.Response
