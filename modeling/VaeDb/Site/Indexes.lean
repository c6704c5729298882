import VaeDb.Site.Published

/-!
# What `nodes` and `permalinks` index

The constructor of `Context` makes its entries when it is done with the elements below, so of
the elements with one id the entry of `nodes` is the one whose end tag comes last in the feed:
an element hides those below it and those before it.  The tables hold nothing else
(`loadXmlDoc_indexes`), whatever the associations do to the nodes afterwards.
-/

namespace VaeDb

open Xml

/-- The end tag of the first element comes before that of the second. -/
def EndsBefore (first second : Path) : Prop :=
  (second <:+ first ∧ first ≠ second) ∨
    ∃ i j path, i < j ∧ i :: path <:+ first ∧ j :: path <:+ second

namespace Source

variable {source : Source} {site : Site} {path first second : Path} {rounds : ℕ}

/-- The last one of the visited elements that have a property. -/
structure Last (source : Source) (A : Path → Prop) (path : Path) : Prop where
  visited : source.Visited path
  holds : A path
  others : ∀ other, source.Visited other → A other → other ≠ path → EndsBefore other path

/-! ## The order of end tags -/

/-- A child on the way to an element is on the way to the child of another one. -/
theorem suffix_cons_of_suffix {i j : ℕ} {path outer inner : Path} (h : i :: path <:+ inner)
    (houter : j :: outer <:+ inner) (hlength : path.length < outer.length) :
    i :: path <:+ outer :=
  List.suffix_of_suffix_length_le h ((List.suffix_cons j outer).trans houter)
    (by rw [List.length_cons]; omega)

theorem endsBefore_asymm (h : EndsBefore first second) : ¬ EndsBefore second first := by
  rintro hback
  rcases h with ⟨hinside, hne⟩ | ⟨i, j, path, hlt, hfirst, hsecond⟩
  · rcases hback with ⟨hinside', -⟩ | ⟨i, j, path, hlt, hsecond, hfirst⟩
    · exact hne (hinside'.eq_of_length_le hinside.length_le)
    · exact hlt.ne (eq_of_suffix_cons (hsecond.trans hinside) hfirst)
  · rcases hback with ⟨hinside, -⟩ | ⟨i', j', path', hlt', hsecond', hfirst'⟩
    · exact hlt.ne (eq_of_suffix_cons (hfirst.trans hinside) hsecond)
    · -- where the two ways part, there is one child on each of them
      rcases Nat.lt_trichotomy path.length path'.length with hless | hsame | hless
      · exact hlt.ne (eq_of_suffix_cons (suffix_cons_of_suffix hfirst hfirst' hless)
          (suffix_cons_of_suffix hsecond hsecond' hless))
      · have hpath : j' :: path' = i :: path :=
          (List.suffix_of_suffix_length_le hfirst' hfirst (by simp [hsame])).eq_of_length
            (by simp [hsame])
        obtain ⟨rfl, rfl⟩ := List.cons.inj hpath
        have hother := eq_of_suffix_cons hsecond hsecond'
        omega
      · exact hlt'.ne (eq_of_suffix_cons (suffix_cons_of_suffix hsecond' hsecond hless)
          (suffix_cons_of_suffix hfirst' hfirst hless))

mutual

/-- Entries are made in the order of the end tags. -/
theorem pairwise_endsBefore (surroundings : Surroundings) (path : Path) (node : Tree) :
    (visits surroundings path node).Pairwise EndsBefore := by
  cases node with
  | element name attributes children =>
      simp only [visits]
      split
      · split
        · exact List.pairwise_singleton _ _
        · refine List.pairwise_append.2 ⟨pairwise_endsBefore_from surroundings path 0 children,
            List.pairwise_singleton _ _, fun inner hinner last hlast => ?_⟩
          obtain rfl := List.mem_singleton.1 hlast
          obtain ⟨k, -, hk⟩ := suffix_of_mem_visitsFrom surroundings children hinner
          refine .inl ⟨(List.suffix_cons k last).trans hk, fun hsame => ?_⟩
          have hlength := hk.length_le
          rw [hsame, List.length_cons] at hlength
          omega
      · exact List.Pairwise.nil
      · exact List.Pairwise.nil
  | text content => exact List.Pairwise.nil
  | other => exact List.Pairwise.nil

theorem pairwise_endsBefore_from (surroundings : Surroundings) (path : Path) (k : ℕ)
    (nodes : List Tree) : (visitsFrom surroundings path k nodes).Pairwise EndsBefore := by
  cases nodes with
  | nil => exact List.Pairwise.nil
  | cons child rest =>
      refine List.pairwise_append.2 ⟨pairwise_endsBefore surroundings (k :: path) child,
        pairwise_endsBefore_from surroundings path (k + 1) rest,
        fun first hfirst second hsecond => ?_⟩
      obtain ⟨j, hlt, hj⟩ := suffix_of_mem_visitsFrom surroundings rest hsecond
      exact .inr ⟨k, j, path, hlt, suffix_of_mem_visits surroundings child hfirst, hj⟩

end

theorem pairwise_endsBefore_visited : source.visited.Pairwise EndsBefore := by
  unfold visited visitsAfter
  split
  · exact pairwise_endsBefore_from ..
  · exact List.Pairwise.nil

/-! ## The entries -/

theorem Last.eq {A : Path → Prop} (h : source.Last A first) (h' : source.Last A second) :
    first = second := by
  by_contra hne
  exact endsBefore_asymm (h.others second h'.visited h'.holds fun hsame => hne hsame.symm)
    (h'.others first h.visited h.holds hne)

theorem last_of_find? {A : Path → Prop} [DecidablePred A]
    (h : source.visited.reverse.find? (fun path => A path) = some path) : source.Last A path := by
  obtain ⟨hholds, after, before, hsplit, hafter⟩ := List.find?_eq_some_iff_append.1 h
  have hvisited : source.visited = before.reverse ++ path :: after.reverse := by
    rw [← List.reverse_reverse source.visited, hsplit]
    simp
  have hpairwise : source.visited.Pairwise EndsBefore := pairwise_endsBefore_visited
  rw [hvisited, List.pairwise_append] at hpairwise
  refine ⟨mem_visited.1 ?_, of_decide_eq_true hholds, fun other hother hotherHolds hne => ?_⟩
  · rw [hvisited]
    simp
  · have hmem := mem_visited.2 hother
    rw [hvisited, List.mem_append, List.mem_cons, List.mem_reverse] at hmem
    rcases hmem with hbefore | hsame | hlater
    · exact hpairwise.2.2 other (List.mem_reverse.2 hbefore) path List.mem_cons_self
    · exact absurd hsame hne
    · -- nothing after the one that is found has the property
      have hnot := hafter other (List.mem_reverse.1 hlater)
      simp [hotherHolds] at hnot

theorem find?_eq_some_iff {A : Path → Prop} [DecidablePred A] :
    source.visited.reverse.find? (fun path => A path) = some path ↔ source.Last A path := by
  constructor
  · exact last_of_find?
  · intro h
    cases hfind : source.visited.reverse.find? fun path => A path with
    | none =>
        have hnone := List.find?_eq_none.1 hfind path
          (List.mem_reverse.2 (mem_visited.2 h.visited))
        simp [h.holds] at hnone
    | some found => rw [(last_of_find? hfind).eq h]

/-- **The tables after a load.**  An id leads to the last element with that id, a permalink to
the last one with that permalink, and nothing else is in the tables. -/
theorem loadXmlDoc_indexes (hroot : source.feed.website "content" = [source.root])
    (hload : Site.loadXmlDoc source.surroundings rounds (some source.feed) = .ok site) :
    (∀ id node, site.nodes id = some node ↔
      ∃ path, node = .feed path ∧ source.Last (fun path => source.id? path = some id) path) ∧
    ∀ permalink node, site.permalinks permalink = some node ↔
      ∃ path, node = .feed path ∧
        source.Last (fun path => source.permalink? path = some permalink) path := by
  have h := loadXmlDoc_associated hroot hload
  constructor
  · intro id node
    rw [h.nodes, lastWithId, Option.map_eq_some_iff]
    exact exists_congr fun path =>
      ⟨fun hpath => ⟨hpath.2.symm, find?_eq_some_iff.1 hpath.1⟩,
        fun hpath => ⟨find?_eq_some_iff.2 hpath.2, hpath.1.symm⟩⟩
  · intro permalink node
    rw [h.permalinks, lastWithPermalink, Option.map_eq_some_iff]
    exact exists_congr fun path =>
      ⟨fun hpath => ⟨hpath.2.symm, find?_eq_some_iff.1 hpath.1⟩,
        fun hpath => ⟨find?_eq_some_iff.2 hpath.2, hpath.1.symm⟩⟩

end Source

/-- Three articles with one id, one of them in another one. -/
def sameIds : Source where
  surroundings := production
  feed := website [withId "article" "1" [], withId "article" "1" [withId "article" "1" []]]
  root := [0]
  root_element := rfl

theorem loadXmlDoc_indexes_sameIds :
    sameIds.Last (fun path => sameIds.id? path = some 1) [1, 0] := by
  have hrun : (fun site : Site => site.nodes 1) <$>
      Site.loadXmlDoc sameIds.surroundings 9 (some sameIds.feed) =
        .ok (some (.feed [1, 0])) := by decide +kernel
  obtain ⟨site, hload, hentry⟩ := Outcome.map_eq_ok.1 hrun
  obtain ⟨path, hsame, hlast⟩ := ((Source.loadXmlDoc_indexes rfl hload).1 1 _).1 hentry
  obtain rfl := Address.feed.inj hsame
  exact hlast

end VaeDb
