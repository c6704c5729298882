import Mathlib.Data.List.Induction
import VaeDb.Site.Shape

/-!
# The entries of `nodes` and `permalinks`

`Source.visits` lists the elements for which the constructors of `Context` make entries, in
the order in which they make them: the elements below an element come before it, and an
association item comes alone.  An entry replaces the one before it with the same key, so that
`nodes` holds the last element with an id.
-/

namespace VaeDb

open Xml

mutual

/-- The elements at or below a node that get entries, in the order of the entries. -/
def visits (surroundings : Surroundings) (path : Path) : Tree → List Path
  | .element _ attributes children =>
      match populateAttrs surroundings attributes with
      | .ok (some ctxt) =>
          if ctxt.isAssociation then [path]
          else visitsFrom surroundings path 0 children ++ [path]
      | .ok none => []
      | .error _ => []
  | .text _ => []
  | .other => []

/-- The same for some of the children of a node, from an index on. -/
def visitsFrom (surroundings : Surroundings) (path : Path) (k : ℕ) : List Tree → List Path
  | [] => []
  | child :: rest =>
      visits surroundings (k :: path) child ++ visitsFrom surroundings path (k + 1) rest

end

namespace Source

variable (source : Source)

/-- The elements at or below the node with a path that get entries. -/
def visitsAt (path : Path) : List Path :=
  match source.feed.lookup path with
  | some node => visits source.surroundings path node
  | none => []

/-- The same for the children from an index on. -/
def visitsAfter (path : Path) (k : ℕ) : List Path :=
  match source.feed.lookup path with
  | some node => visitsFrom source.surroundings path k (node.children.drop k)
  | none => []

/-- All elements that get entries. -/
def visited : List Path := source.visitsAfter source.root 0

/-- The Context that `populateAttrs` makes for the node with a path. -/
def context? (path : Path) : Option Context :=
  match source.context path with
  | .ok ctxt => ctxt
  | .error _ => none

/-- Whether the node with a path is an association item. -/
def isItem (path : Path) : Bool := (source.context? path).any Context.isAssociation

def id? (path : Path) : Option ℤ := (source.context? path).map Context.id

def permalink? (path : Path) : Option Str := (source.context? path).bind Context.permalink

/-- The last of the elements with an id. -/
def lastWithId (id : ℤ) : Option Path :=
  source.visited.reverse.find? fun path => source.id? path = some id

/-- The last of the elements with a permalink. -/
def lastWithPermalink (permalink : Str) : Option Path :=
  source.visited.reverse.find? fun path => source.permalink? path = some permalink

/-- A map after an element with a key has been entered. -/
def enter {Key : Type} [DecidableEq Key] (key : Path → Option Key)
    (entries : Key → Option Address) (path : Path) : Key → Option Address :=
  match key path with
  | some k => Function.update entries k (some (.feed path))
  | none => entries

variable {source} {path inner : Path}

theorem context?_eq {ctxt : Context} (h : source.context path = .ok (some ctxt)) :
    source.context? path = some ctxt := by
  unfold context?
  rw [h]

/-- The map after some elements have been entered holds the last one with each key. -/
theorem foldl_enter {Key : Type} [DecidableEq Key] (key : Path → Option Key)
    (paths : List Path) (k : Key) :
    paths.foldl (enter key) (fun _ => none) k =
      (paths.reverse.find? fun path => key path = some k).map Address.feed := by
  induction paths using List.reverseRecOn with
  | nil => rfl
  | append_singleton paths path ih =>
      rw [List.foldl_append, List.reverse_append, List.foldl_cons, List.foldl_nil,
        enter]
      cases hkey : key path with
      | none => simp [hkey, ih]
      | some other =>
          by_cases hother : k = other
          · subst hother
            simp [hkey]
          · have hne : ¬ other = k := fun heq => hother heq.symm
            simp [hkey, hother, hne, ih]

/-! ## Which elements are visited -/

theorem exists_suffix_cons (h : path <:+ inner) (hne : inner ≠ path) :
    ∃ j, j :: path <:+ inner := by
  obtain ⟨front, rfl⟩ := h
  cases front using List.reverseRecOn with
  | nil => exact absurd rfl hne
  | append_singleton front j => exact ⟨j, front, by simp⟩

/-- A node with something below it is an element. -/
theorem element_of_suffix (h : path <:+ inner) (hne : inner ≠ path)
    (hexists : (source.feed.lookup inner).isSome) : source.Element path := by
  obtain ⟨j, hj⟩ := exists_suffix_cons h hne
  have hwidth := Tree.lookup_cons_isSome.1 (Tree.lookup_isSome_of_suffix hexists hj)
  by_contra hother
  rw [Tree.width_eq_zero hother] at hwidth
  exact absurd hwidth (Nat.not_lt_zero j)

theorem Visited.exists (h : source.Visited path) : (source.feed.lookup path).isSome :=
  Tree.lookup_isSome_of_element h.1.element

theorem context_of_lookup {name : Str} {attributes : List Attribute} {children : List Tree}
    (h : source.feed.lookup path = some (.element name attributes children)) :
    source.context path = populateAttrs source.surroundings attributes := by
  unfold context Tree.attributesAt
  rw [h]
  rfl

theorem element_of_lookup {name : Str} {attributes : List Attribute} {children : List Tree}
    (h : source.feed.lookup path = some (.element name attributes children)) :
    source.Element path := by
  unfold Element Tree.typeAt
  rw [h]
  rfl

theorem not_element_of_lookup {node : Tree} (h : source.feed.lookup path = some node)
    (hnode : node.type ≠ .element) : ¬ source.Element path := by
  unfold Element Tree.typeAt
  rw [h]
  exact hnode

theorem lookup_of_drop {parent child : Tree} {rest : List Tree} {k : ℕ}
    (hparent : source.feed.lookup path = some parent)
    (hdrop : parent.children.drop k = child :: rest) :
    source.feed.lookup (k :: path) = some child ∧ parent.children.drop (k + 1) = rest := by
  constructor
  · have hget : (parent.children.drop k)[0]? = some child := by rw [hdrop]; rfl
    rw [List.getElem?_drop, Nat.add_zero] at hget
    rw [Tree.lookup, hparent]
    exact hget
  · rw [← List.tail_drop, hdrop, List.tail_cons]

mutual

theorem suffix_of_mem_visits (surroundings : Surroundings) (node : Tree) {path inner : Path}
    (h : inner ∈ visits surroundings path node) : path <:+ inner := by
  cases node with
  | element name attributes children =>
      simp only [visits] at h
      split at h
      · split at h
        · exact List.mem_singleton.1 h ▸ List.suffix_rfl
        · rcases List.mem_append.1 h with h | h
          · obtain ⟨j, _, hj⟩ := suffix_of_mem_visitsFrom surroundings children h
            exact (List.suffix_cons ..).trans hj
          · exact List.mem_singleton.1 h ▸ List.suffix_rfl
      · cases h
      · cases h
  | text content => cases h
  | other => cases h

theorem suffix_of_mem_visitsFrom (surroundings : Surroundings) (nodes : List Tree)
    {path inner : Path} {k : ℕ} (h : inner ∈ visitsFrom surroundings path k nodes) :
    ∃ j, k ≤ j ∧ j :: path <:+ inner := by
  cases nodes with
  | nil => cases h
  | cons child rest =>
      rcases List.mem_append.1 h with h | h
      · exact ⟨k, Nat.le_refl k, suffix_of_mem_visits surroundings child h⟩
      · obtain ⟨j, hj, hsuffix⟩ := suffix_of_mem_visitsFrom surroundings rest h
        exact ⟨j, by omega, hsuffix⟩

end

/-- Nothing is below two siblings. -/
theorem eq_of_suffix_cons {j k : ℕ} (hj : j :: path <:+ inner) (hk : k :: path <:+ inner) :
    j = k := by
  have heq := List.IsSuffix.eq_of_length_le (List.suffix_of_suffix_length_le hj hk (by simp))
    (by simp)
  injection heq

mutual

theorem nodup_visits (surroundings : Surroundings) (path : Path) (node : Tree) :
    (visits surroundings path node).Nodup := by
  cases node with
  | element name attributes children =>
      simp only [visits]
      split
      · split
        · exact List.nodup_singleton _
        · refine (nodup_visitsFrom surroundings path 0 children).append
            (List.nodup_singleton _) ?_
          intro inner hinner hself
          obtain rfl := List.mem_singleton.1 hself
          obtain ⟨j, _, hj⟩ := suffix_of_mem_visitsFrom surroundings children hinner
          have hlength := hj.length_le
          rw [List.length_cons] at hlength
          omega
      · exact List.nodup_nil
      · exact List.nodup_nil
  | text content => exact List.nodup_nil
  | other => exact List.nodup_nil

theorem nodup_visitsFrom (surroundings : Surroundings) (path : Path) (k : ℕ)
    (nodes : List Tree) : (visitsFrom surroundings path k nodes).Nodup := by
  cases nodes with
  | nil => exact List.nodup_nil
  | cons child rest =>
      refine (nodup_visits surroundings (k :: path) child).append
        (nodup_visitsFrom surroundings path (k + 1) rest) ?_
      intro inner hchild hrest
      have hk := suffix_of_mem_visits surroundings child hchild
      obtain ⟨j, hlt, hj⟩ := suffix_of_mem_visitsFrom surroundings rest hrest
      have heq := eq_of_suffix_cons hk hj
      omega

end

/-- Of two siblings, the first one in the feed. -/
def Before (first second : Path) : Prop :=
  ∀ i j path, first = i :: path → second = j :: path → i < j

theorem before_of_suffix {first second : Path} {j k : ℕ} (hlt : k < j)
    (hfirst : k :: path <:+ first) (hsecond : j :: path <:+ second) : Before first second := by
  rintro i i' inner rfl rfl
  rcases List.suffix_cons_iff.1 hfirst with heq | hfirst
  · obtain ⟨rfl, rfl⟩ : k = i ∧ path = inner := by simpa using heq
    obtain rfl := eq_of_suffix_cons hsecond List.suffix_rfl
    exact hlt
  · rcases List.suffix_cons_iff.1 hsecond with heq | hsecond
    · obtain ⟨rfl, rfl⟩ : j = i' ∧ path = inner := by simpa using heq
      have hlength := hfirst.length_le
      rw [List.length_cons] at hlength
      omega
    · have heq := eq_of_suffix_cons hfirst hsecond
      omega

mutual

/-- Siblings get their entries in the order of the feed. -/
theorem pairwise_visits (surroundings : Surroundings) (path : Path) (node : Tree) :
    (visits surroundings path node).Pairwise Before := by
  cases node with
  | element name attributes children =>
      simp only [visits]
      split
      · split
        · exact List.pairwise_singleton _ _
        · refine List.pairwise_append.2 ⟨pairwise_visitsFrom surroundings path 0 children,
            List.pairwise_singleton _ _, ?_⟩
          -- what is below the element is no sibling of it
          rintro inner hinner _ hself i j outer rfl hlast
          obtain ⟨k, _, hk⟩ := suffix_of_mem_visitsFrom surroundings children hinner
          have hlength := hk.length_le
          rw [← List.mem_singleton.1 hself, hlast] at hlength
          simp only [List.length_cons] at hlength
          omega
      · exact List.Pairwise.nil
      · exact List.Pairwise.nil
  | text content => exact List.Pairwise.nil
  | other => exact List.Pairwise.nil

theorem pairwise_visitsFrom (surroundings : Surroundings) (path : Path) (k : ℕ)
    (nodes : List Tree) : (visitsFrom surroundings path k nodes).Pairwise Before := by
  cases nodes with
  | nil => exact List.Pairwise.nil
  | cons child rest =>
      refine List.pairwise_append.2 ⟨pairwise_visits surroundings (k :: path) child,
        pairwise_visitsFrom surroundings path (k + 1) rest, fun first hfirst second hsecond => ?_⟩
      obtain ⟨j, hlt, hj⟩ := suffix_of_mem_visitsFrom surroundings rest hsecond
      exact before_of_suffix hlt (suffix_of_mem_visits surroundings child hfirst) hj

end

theorem pairwise_visited : source.visited.Pairwise Before := by
  unfold visited visitsAfter
  split
  · exact pairwise_visitsFrom ..
  · exact List.Pairwise.nil

mutual

theorem visited_of_mem_visits (node : Tree) {path inner : Path} {k : ℕ}
    (hopened : source.Opened path) (hnode : source.feed.lookup (k :: path) = some node)
    (h : inner ∈ visits source.surroundings (k :: path) node) : source.Visited inner := by
  cases node with
  | element name attributes children =>
      have hcontext := context_of_lookup hnode
      have hchild : source.Child (k :: path) := ⟨hopened, element_of_lookup hnode⟩
      simp only [visits] at h
      split at h
      · next ctxt hctxt =>
          have hvisited : source.Visited (k :: path) := ⟨hchild, ctxt, hcontext.trans hctxt⟩
          split at h
          · exact List.mem_singleton.1 h ▸ hvisited
          · next hassociation =>
              have hopened' : source.Opened (k :: path) :=
                .child hopened hchild.2 (hcontext.trans hctxt) (by simpa using hassociation)
              rcases List.mem_append.1 h with h | h
              · exact visited_of_mem_visitsFrom children hopened' hnode List.drop_zero h
              · exact List.mem_singleton.1 h ▸ hvisited
      · cases h
      · cases h
  | text content => cases h
  | other => cases h

theorem visited_of_mem_visitsFrom (nodes : List Tree) {path inner : Path} {k : ℕ}
    {parent : Tree} (hopened : source.Opened path)
    (hparent : source.feed.lookup path = some parent)
    (hnodes : parent.children.drop k = nodes)
    (h : inner ∈ visitsFrom source.surroundings path k nodes) : source.Visited inner := by
  cases nodes with
  | nil => cases h
  | cons child rest =>
      obtain ⟨hchild, hrest⟩ := lookup_of_drop hparent hnodes
      rcases List.mem_append.1 h with h | h
      · exact visited_of_mem_visits child hopened hchild h
      · exact visited_of_mem_visitsFrom rest hopened hparent hrest h

end

mutual

theorem mem_visits (node : Tree) {path inner : Path} {k : ℕ} (hopened : source.Opened path)
    (hnode : source.feed.lookup (k :: path) = some node) (hinner : k :: path <:+ inner)
    (hvisited : source.Visited inner) :
    inner ∈ visits source.surroundings (k :: path) node := by
  have helement : source.Element (k :: path) := by
    by_cases hself : inner = k :: path
    · exact hself ▸ hvisited.1.element
    · exact element_of_suffix hinner hself hvisited.exists
  have hchild : source.Child (k :: path) := ⟨hopened, helement⟩
  obtain ⟨ctxt', hctxt'⟩ := hvisited.2
  cases node with
  | element name attributes children =>
      have hcontext := context_of_lookup hnode
      -- an element that is not opened is the only one at or below it to be visited
      have hshut : ¬ source.Opened (k :: path) → k :: path = inner := fun hnot =>
        Shut.eq_of_suffix ⟨hchild, hnot⟩ hvisited.1 hinner
      simp only [visits]
      split
      · next ctxt hctxt =>
          split
          · next hassociation =>
              have hitem : source.Item (k :: path) :=
                ⟨hchild, ctxt, hcontext.trans hctxt, hassociation⟩
              exact List.mem_singleton.2 (hshut hitem.shut.2).symm
          · next hassociation =>
              have hopened' : source.Opened (k :: path) :=
                .child hopened helement (hcontext.trans hctxt) (by simpa using hassociation)
              by_cases hself : inner = k :: path
              · exact List.mem_append_right _ (List.mem_singleton.2 hself)
              · obtain ⟨j, hj⟩ := exists_suffix_cons hinner hself
                exact List.mem_append_left _ (mem_visitsFrom children hopened' hnode
                  List.drop_zero (Nat.zero_le j) hj hvisited)
      · next hctxt =>
          have hpruned : source.Pruned (k :: path) := ⟨hchild, hcontext.trans hctxt⟩
          rw [← hshut hpruned.shut.2, hpruned.2] at hctxt'
          cases hctxt'
      · next fault hctxt =>
          have hnot : ¬ source.Opened (k :: path) := by
            intro hopened'
            obtain ⟨_, ctxt, hctxt'', _⟩ := hopened'.ctxt hchild.ne_root
            rw [hcontext, hctxt] at hctxt''
            cases hctxt''
          rw [← hshut hnot, hcontext, hctxt] at hctxt'
          cases hctxt'
  | text content => exact absurd helement (not_element_of_lookup hnode (by simp [Tree.type]))
  | other => exact absurd helement (not_element_of_lookup hnode (by simp [Tree.type]))

theorem mem_visitsFrom (nodes : List Tree) {path inner : Path} {j k : ℕ} {parent : Tree}
    (hopened : source.Opened path) (hparent : source.feed.lookup path = some parent)
    (hnodes : parent.children.drop k = nodes) (hj : k ≤ j) (hinner : j :: path <:+ inner)
    (hvisited : source.Visited inner) :
    inner ∈ visitsFrom source.surroundings path k nodes := by
  cases nodes with
  | nil =>
      have hwidth := Tree.lookup_cons_isSome.1
        (Tree.lookup_isSome_of_suffix hvisited.exists hinner)
      have hlength : parent.children.length ≤ k := List.drop_eq_nil_iff.1 hnodes
      unfold Tree.width at hwidth
      rw [hparent] at hwidth
      simp only at hwidth
      omega
  | cons child rest =>
      obtain ⟨hchild, hrest⟩ := lookup_of_drop hparent hnodes
      rcases Nat.eq_or_lt_of_le hj with rfl | hlt
      · exact List.mem_append_left _ (mem_visits child hopened hchild hinner hvisited)
      · exact List.mem_append_right _
          (mem_visitsFrom rest hopened hparent hrest hlt hinner hvisited)

end

theorem nodup_visited : source.visited.Nodup := by
  unfold visited visitsAfter
  split
  · exact nodup_visitsFrom ..
  · exact List.nodup_nil

/-- The elements with entries are those that keep their Contexts. -/
theorem mem_visited : path ∈ source.visited ↔ source.Visited path := by
  unfold visited visitsAfter
  obtain ⟨node, hnode⟩ :=
    Option.isSome_iff_exists.1 (Tree.lookup_isSome_of_element source.root_element)
  rw [hnode]
  constructor
  · intro h
    exact visited_of_mem_visitsFrom _ .root hnode rfl h
  · intro h
    obtain ⟨j, hj⟩ := exists_suffix_cons h.1.suffix h.1.ne_root
    exact mem_visitsFrom _ .root hnode rfl (Nat.zero_le j) hj h

end Source

end VaeDb
