import VaeDb.Site.Associations

/-!
# What a load publishes

Outside staging mode nothing that can be reached after a load is unpublished
(`loadXmlDoc_published`).  What is reached from the children of the root node are the children
of opened elements, the first children of items that have got their association, and pointer
nodes: following `children` or `next` from one of these leads to another one
(`Associating.shown`).
-/

namespace VaeDb

open Xml Links

/-- The nodes that `children` and `next` lead to from below the root node, as long as one
follows them from nodes that are allocated. -/
inductive Reached (heap : Heap Address) (root : Address) : Address → Prop
  | first {a : Address} (hchildren : heap.children root = some a) : Reached heap root a
  | children {a b : Address} (ha : Reached heap root a) (hlive : heap.live a = true)
      (hchildren : heap.children a = some b) : Reached heap root b
  | next {a b : Address} (ha : Reached heap root a) (hlive : heap.live a = true)
      (hnext : heap.next a = some b) : Reached heap root b

/-- A `staging` attribute. -/
def staging (attributes : List Attribute) : Bool :=
  attributes.any fun child => child.name = ("staging" : Str)

/-- A node has a `staging` attribute, or it was in the feed at or below an element below the
root node that had one. -/
def Unpublished (feed : Tree) (root : Path) (heap : Heap Address) (node : Address) : Prop :=
  (∃ list attributes, heap.properties node = some list ∧
      heap.attributes list = some attributes ∧ staging attributes = true) ∨
    ∃ path outer, node = .feed path ∧ outer <:+ path ∧ root <:+ outer ∧ outer ≠ root ∧
      staging (feed.attributesAt outer) = true

namespace Source

variable {source : Source} {site : Site} {path outer : Path} {node : Address} {rounds : ℕ}

/-! ## Attributes -/

theorem readAttrs_staging {properties : List Attribute} {attrs found : Attrs}
    (h : readAttrs false properties attrs = .ok (some found)) : staging properties = false := by
  induction properties generalizing attrs with
  | nil => rfl
  | cons child rest ih =>
      obtain ⟨attrs1, _, h⟩ := Outcome.bind_eq_ok.1 h
      obtain ⟨attrs2, _, h⟩ := Outcome.bind_eq_ok.1 h
      obtain ⟨attrs3, _, h⟩ := Outcome.bind_eq_ok.1 h
      split at h
      · cases h
      · next hname =>
        have hrest : staging rest = false := ih h
        unfold staging at hrest ⊢
        rw [List.any_cons, hrest, Bool.or_false]
        exact Bool.eq_false_iff.2 hname

/-- Elements that keep their Contexts outside staging mode. -/
theorem Visited.staging_eq (h : source.Visited path)
    (hstaging : source.surroundings.stagingMode = false) :
    staging (source.feed.attributesAt path) = false := by
  obtain ⟨_, ctxt, hctxt⟩ := h
  obtain ⟨attrs, hattrs, hctxt⟩ := Outcome.bind_eq_ok.1 hctxt
  cases attrs with
  | none => cases hctxt
  | some found =>
      rw [hstaging] at hattrs
      exact readAttrs_staging hattrs

/-- What is between the root node and such an element. -/
theorem Visited.between (h : source.Visited path) (houter : outer <:+ path)
    (hroot : source.root <:+ outer) (hne : outer ≠ source.root) : source.Visited outer := by
  cases path with
  | nil => exact h.1.elim
  | cons i path =>
      rcases List.suffix_cons_iff.1 houter with rfl | houter
      · exact h
      · exact (h.1.1.between hroot houter).visited hne

/-! ## Once all associations are initialized -/

/-- An item that has not been removed has got its association. -/
theorem Item.entered_of_kept (h : source.Item path) (hkept : ¬ source.removedAt [] path) :
    source.enteredAt [] path :=
  ⟨h, List.not_mem_nil, fun hnone => hkept (Or.inr ⟨h, List.not_mem_nil, hnone⟩)⟩

namespace Associating

variable (h : source.Associating site [])

include h

theorem kept_of_live (hlive : site.heap.live (.feed path) = true) :
    ¬ source.removedAt [] path := by
  intro hremoved
  exact absurd (hlive.symm.trans (h.allocated.dead path hremoved)) (by simp)

/-- An allocated child of an opened element. -/
theorem visited_of_live (hchild : source.Child path)
    (hlive : site.heap.live (.feed path) = true) : source.Visited path := by
  refine (h.settled path hchild).resolve_left fun hpruned => ?_
  exact h.kept_of_live hlive (Or.inl hpruned)

/-- What the property list of an element is that keeps its Context. -/
theorem properties_eq (hvisited : source.Visited path) {list : Address}
    (hlist : site.heap.properties (.feed path) = some list) :
    ∃ target, list = .feed target ∧ source.Visited target := by
  by_cases hentered : source.enteredAt [] path
  · obtain ⟨target, htarget, hvisited', _⟩ := (h.shape.items path hentered).properties
    rw [htarget] at hlist
    exact ⟨target, (Option.some.inj hlist).symm, hvisited'⟩
  · rw [h.shape.properties path hentered] at hlist
    have hparse : (if source.feed.attributesAt path = [] then none else some (.feed path)) =
        some list := hlist
    split at hparse
    · cases hparse
    · exact ⟨path, (Option.some.inj hparse).symm, hvisited⟩

/-- An element that keeps its Context is published. -/
theorem published (hstaging : source.surroundings.stagingMode = false)
    (hvisited : source.Visited path) :
    ¬ Unpublished source.feed source.root site.heap (.feed path) := by
  rintro (⟨list, attributes, hlist, hattributes, htrue⟩ |
    ⟨inner, outer, heq, houter, hroot, hne, htrue⟩)
  · obtain ⟨target, rfl, htarget⟩ := h.properties_eq hvisited hlist
    rw [h.shape.attributes target attributes hattributes, htarget.staging_eq hstaging] at htrue
    cases htrue
  · injection heq with heq
    subst heq
    rw [(hvisited.between houter hroot hne).staging_eq hstaging] at htrue
    cases htrue

/-- A pointer node is published. -/
theorem published_pointer (hstaging : source.surroundings.stagingMode = false)
    (hlive : site.heap.live (.pointer node) = true) :
    ¬ Unpublished source.feed source.root site.heap (.pointer node) := by
  obtain ⟨item, rfl, hentered⟩ := h.allocated.pointer node hlive
  obtain ⟨k, path, j, rfl, hne, _, _, hproperties, _⟩ := (h.shape.items item hentered).pointer
  have hvisited : source.Visited path := hentered.1.1.1.visited hne
  rintro (⟨list, attributes, hlist, hattributes, htrue⟩ | ⟨inner, outer, heq, _⟩)
  · have hparse : (if source.feed.attributesAt path = [] then none else some (.feed path)) =
        some list := hproperties.symm.trans hlist
    split at hparse
    · cases hparse
    · obtain rfl := Option.some.inj hparse
      rw [h.shape.attributes path attributes hattributes, hvisited.staging_eq hstaging] at htrue
      cases htrue
  · cases heq

end Associating

/-! ## What is reached -/

/-- The nodes that the links lead to. -/
inductive Shown (source : Source) : Address → Prop
  | kid {path : Path} {k : ℕ} (hopened : source.Opened path)
      (hk : k < source.feed.width path) : Shown source (kid path k)
  | first {item : Path} (hentered : source.enteredAt [] item) : Shown source (kid item 0)
  | pointer (node : Address) : Shown source (.pointer node)

theorem Shown.of_isPointer {at? : Option Address} {b : Address} (hpointer : IsPointer at?)
    (hb : at? = some b) : source.Shown b := by
  obtain ⟨node, rfl⟩ := hpointer
  exact Option.some.inj hb ▸ .pointer node

/-- What comes after the children of an element. -/
theorem Listed.shown_stop {heap : Heap Address} {removed : Path → Prop} {kids : List ℕ}
    {stop : Option Address} {b : Address} (hlisted : source.Listed heap removed path kids stop)
    (hb : stop = some b) : source.Shown b := by
  rcases hlisted.ending with ⟨hnone, _⟩ | ⟨hpointer, _⟩
  · rw [hnone] at hb
    cases hb
  · exact .of_isPointer hpointer hb

namespace Associating

variable (h : source.Associating site [])

include h

theorem shown_children_opened (hopened : source.Opened path) {b : Address}
    (hb : site.heap.children (.feed path) = some b) : source.Shown b := by
  obtain ⟨kids, stop, hlisted, _⟩ := h.shape.list hopened
  rw [hlisted.children_eq] at hb
  cases hkids : kids.head? with
  | none =>
      rw [hkids] at hb
      exact hlisted.shown_stop hb
  | some j =>
      rw [hkids] at hb
      obtain rfl := Option.some.inj hb
      exact .kid hopened ((hlisted.mem j).1 (List.mem_of_mem_head? hkids)).1

theorem shown_children {a b : Address} (ha : source.Shown a) (hlive : site.heap.live a = true)
    (hb : site.heap.children a = some b) : source.Shown b := by
  cases ha with
  | @kid path k hopened hk =>
      by_cases helement : source.Element (k :: path)
      · have hvisited : source.Visited (k :: path) :=
          h.visited_of_live ⟨hopened, helement⟩ hlive
        rcases hvisited.opened_or_item with hopened' | hitem
        · exact h.shown_children_opened hopened' hb
        · have hentered := hitem.entered_of_kept (h.kept_of_live hlive)
          have hchildren : site.heap.children (kid path k) = _ :=
            (h.shape.items _ hentered).children
          rw [hchildren] at hb
          exact Option.some.inj hb ▸ .first hentered
      · have hleaf : site.heap.children (kid path k) = none := h.shape.leaf _ helement
        rw [hleaf] at hb
        cases hb
  | @first item hentered =>
      obtain ⟨content, htext⟩ := (h.shape.items item hentered).text
      have hleaf : site.heap.children (kid item 0) = none := by
        refine h.shape.leaf _ fun helement => ?_
        rw [helement] at htext
        cases htext
      rw [hleaf] at hb
      cases hb
  | pointer node =>
      obtain ⟨item, rfl, hentered⟩ := h.allocated.pointer node hlive
      obtain ⟨k, path, j, rfl, _, hle, hchildren, _⟩ := (h.shape.items item hentered).pointer
      rw [hchildren] at hb
      have hk : k < source.feed.width path := hentered.1.1.lt_width
      exact Option.some.inj hb ▸ .kid hentered.1.1.1 (by omega)

theorem shown_next {a b : Address} (ha : source.Shown a) (hlive : site.heap.live a = true)
    (hb : site.heap.next a = some b) : source.Shown b := by
  cases ha with
  | @kid path k hopened hk =>
      obtain ⟨kids, stop, hlisted, _⟩ := h.shape.list hopened
      have hmem : k ∈ kids := (hlisted.mem k).2 ⟨hk, h.kept_of_live hlive⟩
      rcases hlisted.next_eq hmem with ⟨hnext, _⟩ | ⟨j, hj, _, _, hnext⟩
      · rw [hnext] at hb
        exact hlisted.shown_stop hb
      · rw [hnext] at hb
        exact Option.some.inj hb ▸ .kid hopened ((hlisted.mem j).1 hj).1
  | @first item hentered =>
      rcases (h.shape.items item hentered).next with hnone | hpointer | hkid
      · rw [hnone] at hb
        cases hb
      · exact .of_isPointer hpointer hb
      · obtain ⟨j, path, hnext, hj, hopened | ⟨rfl, hitem, hheld⟩⟩ := hkid
        · rw [hnext] at hb
          exact Option.some.inj hb ▸ .kid hopened hj
        · rw [hnext] at hb
          exact Option.some.inj hb ▸ .first (hitem.entered_of_kept (hheld hitem).1)
  | pointer node =>
      rcases h.shape.pointerNext node with hnone | hpointer
      · rw [hnone] at hb
        cases hb
      · exact .of_isPointer hpointer hb

/-- Everything that is reached is of these kinds. -/
theorem shown (hreached : Reached site.heap site.rootNode node) : source.Shown node := by
  induction hreached with
  | first hchildren =>
      rw [h.rootNode] at hchildren
      exact h.shown_children_opened .root hchildren
  | children _ hlive hchildren ih => exact h.shown_children ih hlive hchildren
  | next _ hlive hnext ih => exact h.shown_next ih hlive hnext

/-- Elements with entries keep their Contexts. -/
theorem visited_of_nodes {id : ℤ} (hnode : site.nodes id = some node) :
    ∃ path, node = .feed path ∧ source.lastWithId id = some path ∧ source.Visited path := by
  rw [h.nodes] at hnode
  obtain ⟨path, hpath, rfl⟩ := Option.map_eq_some_iff.1 hnode
  exact ⟨path, rfl, hpath,
    mem_visited.1 (List.mem_reverse.1 (List.mem_of_find?_eq_some hpath))⟩

theorem visited_of_permalinks {permalink : Str} (hnode : site.permalinks permalink = some node) :
    ∃ path, node = .feed path ∧ source.lastWithPermalink permalink = some path ∧
      source.Visited path := by
  rw [h.permalinks] at hnode
  obtain ⟨path, hpath, rfl⟩ := Option.map_eq_some_iff.1 hnode
  exact ⟨path, rfl, hpath,
    mem_visited.1 (List.mem_reverse.1 (List.mem_of_find?_eq_some hpath))⟩

end Associating

/-- Outside staging mode, no allocated element that is reached after a load, or that has an
entry, is unpublished. -/
theorem loadXmlDoc_published (hstaging : source.surroundings.stagingMode = false)
    (hroot : source.feed.website "content" = [source.root])
    (hload : Site.loadXmlDoc source.surroundings rounds (some source.feed) = .ok site)
    (hnode : Reached site.heap site.rootNode node ∨ (∃ id, site.nodes id = some node) ∨
      ∃ permalink, site.permalinks permalink = some node)
    (hlive : site.heap.live node = true) (helement : site.heap.type node = .element) :
    ¬ Unpublished source.feed source.root site.heap node := by
  have h := loadXmlDoc_associated hroot hload
  rcases hnode with hreached | ⟨id, hid⟩ | ⟨permalink, hpermalink⟩
  · cases h.shown hreached with
    | @kid path k hopened hk =>
        have htype : site.heap.type (kid path k) = source.feed.typeAt (k :: path) :=
          h.shape.type _
        have hchild : source.Child (k :: path) := ⟨hopened, htype.symm.trans helement⟩
        exact h.published hstaging (h.visited_of_live hchild hlive)
    | @first item hentered =>
        -- the first child of such an item is text
        obtain ⟨content, htext⟩ := (h.shape.items item hentered).text
        have htype : site.heap.type (kid item 0) = source.feed.typeAt (0 :: item) :=
          h.shape.type _
        rw [htype, htext] at helement
        cases helement
    | pointer node => exact h.published_pointer hstaging hlive
  · obtain ⟨path, rfl, _, hvisited⟩ := h.visited_of_nodes hid
    exact h.published hstaging hvisited
  · obtain ⟨path, rfl, _, hvisited⟩ := h.visited_of_permalinks hpermalink
    exact h.published hstaging hvisited

end Source

/-! ## A small feed -/

/-- A document of a content, a design and a generation node, given the children of the
content. -/
def website (content : List Tree) : Tree :=
  .element "website" []
    [.element "content" [] content, .element "design" [] [],
      .element "generation" [] [.text "3"]]

/-- An element with an id. -/
def withId (name id : String) (children : List Tree) : Tree :=
  .element name [⟨"id", some id⟩] children

/-- An association item that stands for the element with an id. -/
def itemFor (id : String) : Tree :=
  .element "item" [⟨"type", some "9"⟩] [.text id]

/-- Outside staging mode, with a design in which the elements of type 9 are association
items. -/
def production : Surroundings where
  stagingMode := false
  designNode id :=
    .ok (if id = 9 then some [⟨"type", some "AssociationItem"⟩] else none)

/-- An unpublished draft in an article with which two authors are associated. -/
def articles : Source where
  surroundings := production
  feed := website [withId "article" "1" [.element "draft" [⟨"staging", some "1"⟩] []],
    withId "author" "2" [itemFor "1"], withId "author" "3" [itemFor "1"]]
  root := [0]
  root_element := rfl

theorem loadXmlDoc_published_articles :
    ∃ site, Site.loadXmlDoc articles.surroundings 9 (some articles.feed) = .ok site ∧
      site.heap.live (.feed [0, 0, 0]) = false ∧
      site.heap.children (.feed [0, 0]) = some (.pointer (.feed [0, 1, 0])) ∧
      ∀ node, Reached site.heap site.rootNode node → site.heap.live node = true →
        site.heap.type node = .element →
        ¬ Unpublished articles.feed articles.root site.heap node := by
  refine ⟨_, rfl, rfl, rfl, fun node hreached hlive helement => ?_⟩
  exact Source.loadXmlDoc_published rfl rfl
    (show Site.loadXmlDoc articles.surroundings 9 _ = _ from rfl) (Or.inl hreached) hlive helement

/-- The items of the authors stand for the article, which is no item. -/
theorem articles_target_not_item {item target : Path} (hitem : articles.Item item)
    (htarget : articles.target? item = some target) : ¬ articles.Item target := by
  have htargets : articles.items.all (fun item =>
      (articles.target? item).all (· ∉ articles.items)) = true := by decide +kernel
  intro hother
  have hall := List.all_eq_true.1 htargets item (Source.mem_items.2 hitem)
  rw [htarget] at hall
  exact of_decide_eq_true hall (Source.mem_items.2 hother)

end VaeDb
