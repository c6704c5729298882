import VaeDb.Xml.Heap

/-!
# Feeds and how they are parsed

A feed is a tree.  A node of it is found by its path, the indices of the nodes above it and
its own, innermost first; the document element has the empty path.  `Tree.parse` is the
heap of nodes that libxml2 makes of a feed.
-/

namespace VaeDb

open Xml

/-! ## Numbers -/

/-- `isspace`. -/
def isSpace (c : Char) : Bool :=
  c = ' ' || (9 ≤ c.toNat && c.toNat ≤ 13)

/-- The digits that `strtol` reads, after those that it has read. -/
def strtolDigits : Str → ℤ → ℤ
  | [], value => value
  | c :: rest, value =>
      if c.isDigit then strtolDigits rest (10 * value + (c.toNat - 48 : ℕ)) else value

/-- `strtol(s, NULL, 10)`, on 64 bits. -/
def strtol (s : Str) : ℤ :=
  let value :=
    match s.dropWhile isSpace with
    | '-' :: rest => -strtolDigits rest 0
    | '+' :: rest => strtolDigits rest 0
    | rest => strtolDigits rest 0
  max (-2 ^ 63) (min value (2 ^ 63 - 1))

/-- The conversion of a `long` to an `int`. -/
def toInt32 (n : ℤ) : ℤ := (n + 2 ^ 31) % 2 ^ 32 - 2 ^ 31

/-- `atoi`. -/
def atoi (s : Str) : ℤ := toInt32 (strtol s)

/-! ## Trees -/

/-- A node of a feed. -/
inductive Tree
  | element (name : Str) (attributes : List Attribute) (children : List Tree)
  | text (content : Str)
  | other

/-- A path, innermost index first. -/
abbrev Path := List ℕ

/-- The addresses of nodes: those of the feed, and the one that is allocated for an
association item while its association is initialized. -/
inductive Address
  | feed (path : Path)
  | pointer (item : Address)
  deriving DecidableEq

namespace Tree

def children : Tree → List Tree
  | element _ _ children => children
  | text _ => []
  | other => []

def attributes : Tree → List Attribute
  | element _ attributes _ => attributes
  | text _ => []
  | other => []

def type : Tree → NodeType
  | element _ _ _ => .element
  | text content => .text content
  | other => .other

/-- The node with a path. -/
def lookup (feed : Tree) : Path → Option Tree
  | [] => some feed
  | i :: path => (feed.lookup path).bind fun parent => parent.children[i]?

/-- The number of children of the node with a path. -/
def width (feed : Tree) (path : Path) : ℕ :=
  match feed.lookup path with
  | some node => node.children.length
  | none => 0

/-- The attributes of the node with a path. -/
def attributesAt (feed : Tree) (path : Path) : List Attribute :=
  match feed.lookup path with
  | some node => node.attributes
  | none => []

/-- The type of the node with a path. -/
def typeAt (feed : Tree) (path : Path) : NodeType :=
  match feed.lookup path with
  | some node => node.type
  | none => .other

/-! ## The parsed feed -/

/-- The nodes that `xmlReadMemory` makes of a feed.  The parent of the document element is
the document, which is no node. -/
def parse (feed : Tree) : Heap Address where
  live
    | .feed path => (feed.lookup path).isSome
    | .pointer _ => false
  type
    | .feed path => feed.typeAt path
    | .pointer _ => .other
  parent
    | .feed (_ :: path) => some (.feed path)
    | _ => none
  children
    | .feed path => if 0 < feed.width path then some (.feed (0 :: path)) else none
    | .pointer _ => none
  last
    | .feed path =>
        if 0 < feed.width path then some (.feed ((feed.width path - 1) :: path)) else none
    | .pointer _ => none
  next
    | .feed (i :: path) =>
        if i + 1 < feed.width path then some (.feed ((i + 1) :: path)) else none
    | _ => none
  prev
    | .feed ((i + 1) :: path) => some (.feed (i :: path))
    | _ => none
  properties
    | .feed path => if feed.attributesAt path = [] then none else some (.feed path)
    | .pointer _ => none
  attributes
    | .feed path =>
        if feed.attributesAt path = [] then none else some (feed.attributesAt path)
    | .pointer _ => none
  _private := fun _ => none

/-- The result of the query `/website/name`: the children of the document element with a
name. -/
def website (feed : Tree) (name : Str) : List Path :=
  match feed with
  | element website _ children =>
      if website = ("website" : Str) then
        (children.zipIdx.filter fun child =>
          match child.1 with
          | element childName _ _ => childName = name
          | _ => false).map fun child => [child.2]
      else []
  | _ => []

/-- `getSingleData` of a query with one node: the content of its first child, if that is
text. -/
def singleData (feed : Tree) (path : Path) : Str :=
  match feed.typeAt (0 :: path) with
  | .text content => content
  | _ => []

/-! ## Facts about paths -/

variable {feed : Tree} {path : Path} {i : ℕ}

theorem singleData_of_text {content : Str} (h : feed.typeAt (0 :: path) = .text content) :
    feed.singleData path = content := by
  unfold singleData
  rw [h]

theorem singleData_of_not_text (h : ∀ content, feed.typeAt (0 :: path) ≠ .text content) :
    feed.singleData path = [] := by
  unfold singleData
  cases htype : feed.typeAt (0 :: path) with
  | text content => exact absurd htype (h content)
  | element => rfl
  | other => rfl

theorem lookup_cons_isSome :
    (feed.lookup (i :: path)).isSome ↔ i < feed.width path := by
  unfold width
  rw [lookup]
  cases feed.lookup path with
  | none => simp
  | some node => simp

theorem lookup_isSome_of_cons (h : (feed.lookup (i :: path)).isSome) :
    (feed.lookup path).isSome := by
  rw [lookup] at h
  cases hpath : feed.lookup path with
  | none => simp [hpath] at h
  | some node => rfl

theorem lookup_isSome_of_suffix {outer : Path} (h : (feed.lookup path).isSome)
    (hsuffix : outer <:+ path) : (feed.lookup outer).isSome := by
  induction path with
  | nil => exact List.suffix_nil.1 hsuffix ▸ h
  | cons i path ih =>
      rcases List.suffix_cons_iff.1 hsuffix with rfl | hsuffix
      · exact h
      · exact ih (lookup_isSome_of_cons h) hsuffix

/-- Only elements have children. -/
theorem width_eq_zero (h : feed.typeAt path ≠ .element) : feed.width path = 0 := by
  unfold typeAt at h
  unfold width
  cases hpath : feed.lookup path with
  | none => rfl
  | some node =>
      cases node with
      | element name attributes children => simp [hpath, type] at h
      | text content => rfl
      | other => rfl

theorem lookup_isSome_of_element (h : feed.typeAt path = .element) :
    (feed.lookup path).isSome := by
  unfold typeAt at h
  cases hpath : feed.lookup path with
  | none => simp [hpath] at h
  | some node => rfl

/-- The nodes that such a query finds are elements. -/
theorem website_eq {name : Str} {path : Path} (h : path ∈ feed.website name) :
    ∃ i, path = [i] ∧ feed.typeAt path = .element := by
  cases feed with
  | element website attributes children =>
      simp only [Tree.website] at h
      split at h
      · obtain ⟨⟨child, i⟩, hchild, rfl⟩ := List.mem_map.1 h
        obtain ⟨hmem, hname⟩ := List.mem_filter.1 hchild
        have hget : children[i]? = some child := List.mem_zipIdx_iff_getElem?.1 hmem
        refine ⟨i, rfl, ?_⟩
        cases child with
        | element childName _ _ => simp [typeAt, lookup, Tree.children, hget, type]
        | text content => simp at hname
        | other => simp at hname
      · simp at h
  | text content => simp [Tree.website] at h
  | other => simp [Tree.website] at h

end Tree

end VaeDb
