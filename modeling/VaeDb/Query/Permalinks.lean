import VaeDb.Query.Attributes

/-!
# Permalinks

A query that begins with `permalink/` names a node by the longest beginning of its path that
is a permalink:

```text
the whole path is a permalink          the result is its node
p1/../pi is, and nothing longer is     the query is p(i+1)/../pn in the Context of its node
no beginning is                        the result is empty
```

`findPermalink` counts down from the whole path, so the search is described by induction on
the counter.
-/

namespace VaeDb.Query

variable {Node Context : Type} (document : Document Node Context)

/-- The node of the first components of a path, if these are a permalink. -/
def permalinkOf (pathParts : List Str) (i : ℕ) : Option Node :=
  document.permalinks (join characters '/' (pathParts.take i))

variable {document} {pathParts : List Str}

/-! ## The search -/

/-- The search passes what is no permalink. -/
theorem findPermalink_of_none {i n : ℕ} (hle : i ≤ n)
    (hnone : ∀ j, i < j → j ≤ n → permalinkOf document pathParts j = none) :
    findPermalink document pathParts n = findPermalink document pathParts i := by
  induction n, hle using Nat.le_induction with
  | base => rfl
  | succ n hle ih =>
      have hlast : document.permalinks (join characters '/' (pathParts.take (n + 1))) = none :=
        hnone (n + 1) (by omega) le_rfl
      rw [findPermalink, hlast]
      exact ih fun j hlt hj => hnone j hlt (by omega)

/-- The search ends at a permalink. -/
theorem findPermalink_of_some {i : ℕ} {node : Node} (hpos : 1 ≤ i)
    (hnode : permalinkOf document pathParts i = some node) :
    findPermalink document pathParts i =
      if i = pathParts.length then .inl (some node)
      else .inr (document._private node, join characters '/' (pathParts.drop i)) := by
  obtain ⟨i, rfl⟩ := Nat.exists_eq_add_of_le' hpos
  have hfound : document.permalinks (join characters '/' (pathParts.take (i + 1))) = some node :=
    hnode
  rw [findPermalink, hfound]

/-! ## The parts of a path -/

/-- The slash between two joined halves of a path. -/
theorem join_take_drop {i : ℕ} (hpos : 1 ≤ i) (hlt : i < pathParts.length) :
    join characters '/' pathParts =
      join characters '/' (pathParts.take i) ++
        '/' :: join characters '/' (pathParts.drop i) := by
  obtain ⟨first, front, hfront⟩ : ∃ first front, pathParts.take i = first :: front := by
    cases htake : pathParts.take i with
    | nil =>
        have hlength := congrArg List.length htake
        rw [List.length_take, List.length_nil] at hlength
        omega
    | cons first front => exact ⟨first, front, rfl⟩
  obtain ⟨next, back, hback⟩ : ∃ next back, pathParts.drop i = next :: back :=
    ⟨_, _, List.drop_eq_getElem_cons hlt⟩
  calc join characters '/' pathParts
      = join characters '/' (pathParts.take i ++ pathParts.drop i) := by rw [List.take_append_drop]
    _ = join characters '/' (first :: (front ++ next :: back)) := by rw [hfront, hback]; rfl
    _ = join characters '/' (first :: front) ++ '/' :: join characters '/' (next :: back) := by
        rw [join_cons, join_cons, join_cons]
        simp [characters]
    _ = _ := by rw [hfront, hback]

theorem permalinkPath_append {path : Str} (hline : '\n' ∉ path) :
    permalinkPath (("permalink/" : Str) ++ path) = some path := by
  unfold permalinkPath
  rw [if_pos ⟨List.prefix_append .., by simp [hline]⟩]
  simp

/-- The constructor searches the path. -/
theorem construct_permalink {path : Str} (hline : '\n' ∉ path) (rounds : ℕ)
    (context : Option Context) :
    construct document rounds context (("permalink/" : Str) ++ path) =
      match findPermalink document (splitAt characters '/' path)
          (splitAt characters '/' path).length with
      | .inl node => pure (.result node)
      | .inr (context, query) =>
          constructId document rounds context query (("permalink/" : Str) ++ path) := by
  change constructPermalink document rounds context (("permalink/" : Str) ++ path) _ = _
  unfold constructPermalink
  cases hfound : findPermalink document (splitAt characters '/' path)
      (splitAt characters '/' path).length with
  | inl node => simp only [permalinkPath_append hline, hfound]
  | inr _ => simp only [permalinkPath_append hline, hfound]

/-! ## The longest permalink -/

/-- The longest beginning of a path that is a permalink decides the query, and what is behind
it goes on as the query. -/
theorem construct_longest_permalink (document : Document Node Context) (rounds : ℕ)
    (context : Option Context) (path : Str) (hline : '\n' ∉ path) :
    let query : Str := "permalink/" ++ path
    let pathParts := splitAt characters '/' path
    (∀ node, document.permalinks path = some node →
      construct document rounds context query = .ok (.result (some node))) ∧
    (∀ i node, 1 ≤ i → i < pathParts.length →
      permalinkOf document pathParts i = some node →
      (∀ j, i < j → j ≤ pathParts.length → permalinkOf document pathParts j = none) →
      construct document rounds context query =
          constructId document rounds (document._private node)
            (join characters '/' (pathParts.drop i)) query ∧
        path = join characters '/' (pathParts.take i) ++
          '/' :: join characters '/' (pathParts.drop i)) ∧
    ((∀ i, 1 ≤ i → i ≤ pathParts.length → permalinkOf document pathParts i = none) →
      construct document rounds context query = .ok (.result none)) := by
  intro query pathParts
  have hpath : join characters '/' pathParts = path := List.intercalate_splitOn '/'
  have hparts : 1 ≤ pathParts.length := List.length_pos_iff.2 (List.splitOnP_ne_nil _ _)
  refine ⟨fun node hnode => ?_, fun i node hpos hlt hnode hlonger => ?_, fun hnone => ?_⟩
  · have hwhole : permalinkOf document pathParts pathParts.length = some node := by
      rw [permalinkOf, List.take_length, hpath, hnode]
    rw [construct_permalink hline, findPermalink_of_some hparts hwhole, if_pos rfl]
    rfl
  · refine ⟨?_, ?_⟩
    · rw [construct_permalink hline, findPermalink_of_none hlt.le hlonger,
        findPermalink_of_some hpos hnode, if_neg hlt.ne]
    · rw [← join_take_drop hpos hlt, hpath]
  · rw [construct_permalink hline, findPermalink_of_none (Nat.zero_le _) fun j hj => hnone j hj]
    rfl

/-- A Site where one page has a permalink. -/
def artistPage : Document ℕ ℕ where
  permalinks path := if path = ("artist/x" : Str) then some 7 else none
  nodes := fun _ => none
  _private := some
  getNodeName := fun _ => none

theorem construct_longest_permalink_artist :
    construct artistPage 9 none (("permalink/" : Str) ++ "artist/x/12") =
      constructId artistPage 9 (some 7) "12" (("permalink/" : Str) ++ "artist/x/12") :=
  ((construct_longest_permalink artistPage 9 none "artist/x/12" (by decide)).2.1 2 7 (by decide)
    (by decide) (by decide)
    (fun j hlt hle => by
      have hle : j ≤ 3 := hle
      obtain rfl : j = 3 := by omega
      decide)).1

end VaeDb.Query
