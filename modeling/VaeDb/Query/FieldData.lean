import VaeDb.Query.Paths
import VaeDb.Response.OrderOption

/-!
# The data of a field

`Context::getData` looks for a field in a map that `populateData` makes of the children of the
node, and only then evaluates it as a query.  The map keeps what it is told last, and
`Query::getSingleData` takes the first node that the query finds:

```text
<tag>a</tag> <tag>b</tag>     in the map: b     by the query: a
```

libxml2's evaluation of XPath is a parameter.  It is only assumed that a name finds the children
with that name, in their order.

* `IsXmlName.construct_eq` : a name is passed to libxml2 as it is.
* `getData_eq_singleData_iff` : the two ways lead to the same text exactly if the first and the
  last child with the name have the same text.
-/

namespace VaeDb.Query

open Patterns Xml

/-! ## Names -/

/-- A character that a name in XML can begin with, the colon left out.  Beyond ASCII this is
more than XML has. -/
def isXmlNameStart (c : Char) : Bool := c.isAlpha || c = '_' || 128 ≤ c.toNat

/-- A character of a name in XML. -/
def isXmlNameChar (c : Char) : Bool := isXmlNameStart c || c.isDigit || c = '-' || c = '.'

/-- A name in XML. -/
def IsXmlName (text : Str) : Prop :=
  ∃ c rest, text = c :: rest ∧ isXmlNameStart c ∧ ∀ a ∈ rest, isXmlNameChar a

theorem IsXmlName.chars {text : Str} (h : IsXmlName text) : ∀ a ∈ text, isXmlNameChar a := by
  obtain ⟨c, rest, rfl, hc, hrest⟩ := h
  intro a ha
  rcases List.mem_cons.1 ha with rfl | ha
  · simp [isXmlNameChar, hc]
  · exact hrest a ha

theorem IsXmlName.not_mem {text : Str} (h : IsXmlName text) {c : Char}
    (hc : isXmlNameChar c = false) : c ∉ text := by
  intro hmem
  rw [h.chars c hmem] at hc
  cases hc

theorem not_isDigit_of_isXmlNameStart {c : Char} (h : isXmlNameStart c) : c.isDigit = false := by
  rw [isXmlNameStart, Bool.or_eq_true, decide_eq_true_eq] at h
  rcases h with hname | hcode
  · exact not_isDigit_of_isNameStart hname
  · rw [Bool.eq_false_iff]
    intro hdigit
    have hle : c.toNat ≤ '9'.toNat := (Char.isDigit_iff_toNat.1 hdigit).2
    have hnine : '9'.toNat = 57 := rfl
    omega

/-! ## A name as an expression -/

section

variable {text : Str}

/-- The first rule has nothing to do without a slash. -/
theorem idRule_none (h : '/' ∉ text) : (idRule characters).replace text = none := by
  rw [Rule.replace_eq_none_iff]
  intro before pieces rest hfound
  obtain ⟨slash, digits, -, hslash, -, -, htext⟩ := idRule_found hfound
  obtain rfl : slash = '/' := hslash
  exact h (by simp [htext])

theorem isChain_of_not_mem (hopening : '[' ∉ text) (hclosing : ']' ∉ text) (hslash : '/' ∉ text) :
    text.IsChain Neighbours := by
  induction text with
  | nil => exact .nil
  | cons a text ih =>
      have htail : ∀ {c : Char}, c ∉ a :: text → a ≠ c ∧ c ∉ text := fun h =>
        ⟨fun hsame => h (hsame ▸ List.mem_cons_self ..),
          fun hmem => h (List.mem_cons_of_mem _ hmem)⟩
      refine List.isChain_cons.2 ⟨fun b hb => ?_,
        ih (htail hopening).2 (htail hclosing).2 (htail hslash).2⟩
      have hb := List.mem_of_mem_head? hb
      refine ⟨fun ha => absurd ha (htail hopening).1, fun hsame => ?_,
        fun ha => absurd ha (htail hslash).1⟩
      exact absurd (hsame ▸ hb) (htail hclosing).2

theorem IsXmlName.expression_eq (h : IsXmlName text) {rounds : ℕ} (hrounds : 0 < rounds) :
    expression characters rounds text = .ok text := by
  have hslash : '/' ∉ text := h.not_mem (by decide)
  have hspace : ' ' ∉ text := h.not_mem (by decide)
  have hchain : text.IsChain Neighbours :=
    isChain_of_not_mem (h.not_mem (by decide)) (h.not_mem (by decide)) hslash
  have hsplit : splitAt characters '\'' text = [text] := by
    apply List.splitOnP_eq_singleton
    intro c hc
    rw [decide_eq_false_iff_not]
    intro hquote
    obtain rfl : c = '\'' := hquote
    exact h.not_mem (by decide) hc
  have hsegment : rewriteSegment characters rounds text = .ok text := by
    simp only [rewriteSegment, rules, List.foldlM_cons, List.foldlM_nil,
      ComponentPath.whileReplace_of_none hrounds (idRule_none hslash),
      ComponentPath.whileReplace_of_none hrounds (bracketRule_none hchain),
      ComponentPath.whileReplace_of_none hrounds (afterOrAndRule_none hspace),
      ComponentPath.whileReplace_of_none hrounds (beforeOrAndRule_none hspace),
      ComponentPath.whileReplace_of_none hrounds (closingRule_none hchain), bind, Except.bind]
    rfl
  have hcontains : ∀ needle : Str, '/' ∈ needle → contains characters needle text = false := by
    intro needle hneedle
    rw [ComponentPath.contains_characters (h.not_mem (by decide)), decide_eq_false_iff_not]
    exact fun hcontained => hslash (hcontained.subset hneedle)
  have hhack : hackFirst characters text = text := by
    rw [hackFirst, hcontains "/" (by decide)]
    rfl
  have hjoin : join characters '\'' [text] = text := by simp [join]
  rw [expression, hsplit]
  simp only [rewriteParts, hsegment, bind, Except.bind, hcontains "//" (by decide),
    Bool.false_eq_true, if_false, pure, Except.pure, hjoin, hhack]

variable {Node Context : Type} (document : Document Node Context)

theorem IsXmlName.sibling_eq (h : IsXmlName text) {name : Str} (hname : '(' ∈ name)
    (axis error : Str) (context : Option Context) :
    sibling document name axis error context text = pure text := by
  rw [sibling, if_neg]
  intro hcall
  rw [← hcall, Response.cString_eq_self (h.not_mem (by decide))] at hname
  obtain ⟨c, hc, hlower⟩ := List.mem_map.1 hname
  rw [Response.toLower_eq_bracket hlower] at hc
  exact h.not_mem (by decide) hc

theorem IsXmlName.construct_eq (h : IsXmlName text) {rounds : ℕ} (hrounds : 0 < rounds)
    (context : Option Context) :
    construct document rounds context text = .ok (.runQuery context text text) := by
  have hslash : '/' ∉ text := h.not_mem (by decide)
  have hpermalink : permalinkPath text = none := by
    rw [permalinkPath, if_neg]
    exact fun hopening => hslash (hopening.1.subset (by decide))
  have hid : idPath text = none := by
    obtain ⟨c, rest, rfl, hc, -⟩ := h
    have hdigits : (c :: rest).takeWhile Char.isDigit = [] := by
      rw [List.takeWhile_cons_of_neg]
      simp [not_isDigit_of_isXmlNameStart hc]
    rw [idPath, if_neg]
    exact fun hnumber => hnumber.1 hdigits
  have hpath : constructPath document rounds context text text =
      .ok (.runQuery context text text) := by
    simp only [constructPath, h.sibling_eq document (by decide : '(' ∈ ("prev()" : Str)),
      h.sibling_eq document (by decide : '(' ∈ ("next()" : Str)), h.expression_eq hrounds,
      bind, Except.bind, pure, Except.pure]
  unfold construct
  split
  · exact absurd (List.mem_cons_self ..) hslash
  · rw [constructPermalink, hpermalink, constructId, hid]
    exact hpath

end

/-! ## Nodes -/

/-- What libxml2 returns for an expression. -/
inductive XPathObject (Node : Type)
  /-- `xmlXPathNewContext` returns `NULL` -/
  | noContext
  /-- `xmlXPathEvalExpression` returns `NULL` -/
  | failed
  | nodeSet (nodes : List Node)
  /-- an object of another type -/
  | other

/-- A Site with the nodes of its document.  Contexts are made of the root node and of nodes
below it, so that none of their nodes has the root node as its child. -/
structure Nodes (Node Context : Type) where
  document : Document Node Context
  type : Node → NodeType
  name : Node → Option Str
  children : Node → List Node
  evaluate : Node → Str → XPathObject Node
  node : Context → Node
  rootNode : Node
  rootNode_not_mem : ∀ context, rootNode ∉ children (node context)

namespace Nodes

variable {Node Context : Type} [DecidableEq Node] (site : Nodes Node Context)

/-! ## By a query -/

/-- `Query::runRawQuery`: the nodes in `xpathObj`. -/
def runRawQuery (node : Node) (q displayQuery : Str) : Outcome (List Node) :=
  match site.evaluate node (Response.cString q) with
  | .noContext => throw (.vaeDbInternalError "could not create libxml2 XPath Context")
  | .failed =>
      throw (.vaeDbQueryError
        (("could not evaluate XPath expression: '" : Str) ++ displayQuery ++ ("'" : Str)))
  | .other => throw (.vaeDbInternalError "libxml2 returned something other than a nodeset?!")
  | .nodeSet nodes => if nodes.head? = some site.rootNode then return [] else return nodes

/-- The constructor of `Query`: the nodes in `xpathObj`. -/
def query (rounds : ℕ) (context : Option Context) (q : Str) : Outcome (List Node) := do
  match ← construct site.document rounds context q with
  | .result node => return node.toList
  | .runQuery (some context) query displayQuery =>
      site.runRawQuery (site.node context) query displayQuery
  | .runQuery none query displayQuery => site.runRawQuery site.rootNode query displayQuery

omit [DecidableEq Node] in
/-- The first child of a node, if it is text. -/
def text (node : Node) : Str :=
  match (site.children node).head?.map site.type with
  | some (.text content) => content
  | _ => []

/-- `Query::getSingleData`. -/
def getSingleData : List Node → Str
  | [] => []
  | node :: _ => site.text node

/-! ## By the map -/

/-- The inner loop of `populateData`, with the content so far. -/
def childContent : List Node → Option Str → Option Str
  | [], content => content
  | child2 :: rest, _ =>
      match site.type child2 with
      | .text content => childContent rest (some content)
      | _ => some "(collection)"

/-- What the outer loop of `populateData` does with a child. -/
def populate (data : OrderedMap Str Str) (child : Node) : OrderedMap Str Str :=
  if site.type child = .element then
    match site.childContent (site.children child) none, site.name child with
    | some content, some name => data.assign name content
    | _, _ => data
  else data

/-- The fields of a Context. -/
structure FieldData where
  dataPopulated : Bool
  data : OrderedMap Str Str
  cachedQueries : OrderedMap Str Str

/-- A new Context. -/
def FieldData.new : FieldData := ⟨false, OrderedMap.empty, OrderedMap.empty⟩

/-- `Context::populateData`. -/
def populateData (context : Context) (fields : FieldData) : FieldData :=
  if fields.dataPopulated then fields
  else
    { fields with
      data := (site.children (site.node context)).foldl site.populate fields.data
      dataPopulated := true }

/-- `Context::getData`. -/
def getData (rounds : ℕ) (context : Context) (fields : FieldData) (query : Str) :
    Outcome Str × FieldData :=
  let fields := site.populateData context fields
  if query = [] then
    (throw (.vaeDbInternalError "Empty query passed to Context::getData"), fields)
  else
    match fields.data.find query, fields.cachedQueries.find query with
    | some data, _ => (pure data, fields)
    | none, some data => (pure data, fields)
    | none, none =>
        match site.query rounds (some context) query with
        | .ok nodes =>
            let result := site.getSingleData nodes
            (pure result,
              { fields with cachedQueries := fields.cachedQueries.assign query result })
        | .error fault => (throw fault, fields)

/-- The calls of `getData` on a Context. -/
def getDataAll (rounds : ℕ) (context : Context) (queries : List Str) : FieldData :=
  queries.foldl (fun fields query => (site.getData rounds context fields query).2) .new

/-! ## The children with a name -/

/-- The children of a node that are elements with a name. -/
def named (node : Node) (name : Str) : List Node :=
  (site.children node).filter fun child =>
    site.type child = .element ∧ site.name child = some name

/-- The texts of these children. -/
def texts (node : Node) (name : Str) : List Str := (site.named node name).map site.text

/-- A name finds the children with that name, in their order. -/
def FindsNames : Prop :=
  ∀ node name, IsXmlName name → site.evaluate node name = .nodeSet (site.named node name)

/-- A child with one text and nothing else. -/
def IsText (child : Node) : Prop :=
  ∃ only content, site.children child = [only] ∧ site.type only = .text content

variable {site} {context : Context} {rounds : ℕ} {name : Str}

omit [DecidableEq Node] in
theorem IsText.content_eq {child : Node} (h : site.IsText child) :
    site.childContent (site.children child) none = some (site.text child) := by
  obtain ⟨only, content, honly, htype⟩ := h
  rw [text, honly, childContent, htype]
  simp [childContent, htype]

omit [DecidableEq Node] in
/-- A child with another name, or none, leaves the entry of a name alone. -/
theorem find_populate_of_not_named {child : Node}
    (hchild : ¬ (site.type child = .element ∧ site.name child = some name))
    (data : OrderedMap Str Str) : (site.populate data child).find name = data.find name := by
  unfold populate
  split
  · next helement =>
    split
    · next content other hcontent hname =>
      have hne : name ≠ other := fun hsame => hchild ⟨helement, hsame ▸ hname⟩
      rw [OrderedMap.find_assign, if_neg hne]
    · rfl
  · rfl

omit [DecidableEq Node] in
/-- The map keeps the text of the last child with a name. -/
theorem find_foldl_populate {nodes : List Node}
    (htext : ∀ child ∈ nodes, site.type child = .element → site.name child = some name →
      site.IsText child) (data : OrderedMap Str Str) :
    (nodes.foldl site.populate data).find name =
      (((nodes.filter fun child => site.type child = .element ∧ site.name child = some name).map
        site.text).getLast?).or (data.find name) := by
  induction nodes generalizing data with
  | nil => simp
  | cons child rest ih =>
      have hrest := ih fun other hother => htext other (List.mem_cons_of_mem _ hother)
      rw [List.foldl_cons, hrest]
      by_cases hchild : site.type child = .element ∧ site.name child = some name
      · have hpopulate : site.populate data child = data.assign name (site.text child) := by
          have hcontent := (htext child (List.mem_cons_self ..) hchild.1 hchild.2).content_eq
          unfold populate
          rw [if_pos hchild.1, hcontent, hchild.2]
        rw [hpopulate, OrderedMap.find_assign, if_pos rfl,
          List.filter_cons_of_pos (by simp [hchild]), List.map_cons, List.getLast?_cons]
        cases ((rest.filter fun child =>
          site.type child = .element ∧ site.name child = some name).map site.text).getLast? with
        | none => rfl
        | some last => rfl
      · rw [find_populate_of_not_named hchild, List.filter_cons_of_neg (by simpa using hchild)]

/-! ## The two ways -/

/-- The query for a name finds the children with that name. -/
theorem query_name (hfinds : site.FindsNames) (hrounds : 0 < rounds) (hname : IsXmlName name)
    (context : Context) :
    site.query rounds (some context) name = .ok (site.named (site.node context) name) := by
  have hcString : Response.cString name = name :=
    Response.cString_eq_self (hname.not_mem (by decide))
  have hroot : (site.named (site.node context) name).head? ≠ some site.rootNode := fun hhead =>
    site.rootNode_not_mem context (List.mem_of_mem_filter (List.mem_of_mem_head? hhead))
  unfold query
  rw [hname.construct_eq site.document hrounds]
  change site.runRawQuery (site.node context) name name = _
  unfold runRawQuery
  rw [hcString, hfinds _ _ hname]
  simp only
  rw [if_neg hroot]
  rfl

omit [DecidableEq Node] in
theorem getSingleData_named (node : Node) (name : Str) :
    site.getSingleData (site.named node name) = (site.texts node name).head?.getD [] := by
  unfold texts
  cases site.named node name with
  | nil => rfl
  | cons child rest => rfl

/-- The fields are those of a Context that has answered some calls of `getData`. -/
structure Answering (site : Nodes Node Context) (rounds : ℕ) (context : Context)
    (fields : FieldData) : Prop where
  data : fields.data = if fields.dataPopulated then
      (site.children (site.node context)).foldl site.populate OrderedMap.empty
    else OrderedMap.empty
  cachedQueries : ∀ query result, fields.cachedQueries.find query = some result →
    ∃ nodes, site.query rounds (some context) query = .ok nodes ∧
      result = site.getSingleData nodes

theorem answering_new : site.Answering rounds context .new where
  data := rfl
  cachedQueries := fun _ _ hfind => by simp [FieldData.new] at hfind

theorem Answering.populateData {fields : FieldData} (h : site.Answering rounds context fields) :
    site.Answering rounds context (site.populateData context fields) ∧
      (site.populateData context fields).data =
        (site.children (site.node context)).foldl site.populate OrderedMap.empty := by
  have hdata := h.data
  unfold Nodes.populateData
  by_cases hpopulated : fields.dataPopulated = true
  · rw [if_pos hpopulated]
    rw [if_pos hpopulated] at hdata
    exact ⟨h, hdata⟩
  · rw [if_neg hpopulated]
    rw [if_neg hpopulated] at hdata
    rw [hdata]
    exact ⟨⟨rfl, h.cachedQueries⟩, rfl⟩

theorem Answering.getData {fields : FieldData} (h : site.Answering rounds context fields)
    (query : Str) : site.Answering rounds context (site.getData rounds context fields query).2 := by
  obtain ⟨hfields, -⟩ := h.populateData
  unfold Nodes.getData
  simp only
  split
  · exact hfields
  · split
    · exact hfields
    · exact hfields
    · split
      · next nodes hquery =>
        refine ⟨hfields.data, fun other result hfind => ?_⟩
        rw [OrderedMap.find_assign] at hfind
        split at hfind
        · next hsame =>
          obtain rfl := Option.some.inj hfind
          exact ⟨nodes, hsame ▸ hquery, rfl⟩
        · exact hfields.cachedQueries other result hfind
      · exact hfields

theorem answering_getDataAll (queries : List Str) :
    site.Answering rounds context (site.getDataAll rounds context queries) :=
  List.foldlRecOn queries _ answering_new fun _ h query _ => h.getData query

/-- What `getData` returns for a name: the text of the last child with the name, or what the
query gives if there is none. -/
theorem Answering.getData_name {fields : FieldData} (h : site.Answering rounds context fields)
    (hfinds : site.FindsNames) (hrounds : 0 < rounds) (hname : IsXmlName name)
    (htext : ∀ child ∈ site.named (site.node context) name, site.IsText child) :
    (site.getData rounds context fields name).1 =
      .ok ((site.texts (site.node context) name).getLast?.getD []) := by
  obtain ⟨hfields, hdata⟩ := h.populateData
  have hquery := query_name hfinds hrounds hname context
  have hnil : name ≠ [] := by
    obtain ⟨c, rest, rfl, -⟩ := hname
    exact List.cons_ne_nil _ _
  have hfind : (site.populateData context fields).data.find name =
      (site.texts (site.node context) name).getLast? := by
    calc (site.populateData context fields).data.find name
        = ((site.children (site.node context)).foldl site.populate OrderedMap.empty).find name :=
          by rw [hdata]
      _ = (site.texts (site.node context) name).getLast?.or (OrderedMap.empty.find name) :=
          find_foldl_populate (fun child hchild helement hsame =>
            htext child (List.mem_filter.2 ⟨hchild, by simp [helement, hsame]⟩)) _
      _ = (site.texts (site.node context) name).getLast? := by
          rw [OrderedMap.find_empty, Option.or_none]
  unfold Nodes.getData
  simp only
  rw [if_neg hnil, hfind]
  cases hlast : (site.texts (site.node context) name).getLast? with
  | some last => rfl
  | none =>
      have hnone : site.named (site.node context) name = [] :=
        List.map_eq_nil_iff.1 (List.getLast?_eq_none_iff.1 hlast)
      rw [hnone] at hquery
      cases hcached : (site.populateData context fields).cachedQueries.find name with
      | some result =>
          obtain ⟨nodes, hnodes, rfl⟩ := hfields.cachedQueries name result hcached
          rw [hquery] at hnodes
          cases hnodes
          rfl
      | none => simp only [hquery]; rfl

/-- After any calls of `getData` on a Context, the data of a name whose children have one text
each is what the query for the name gives exactly if the first and the last of them have the
same text. -/
theorem getData_eq_singleData_iff (site : Nodes Node Context) (hfinds : site.FindsNames)
    (hrounds : 0 < rounds) (context : Context) (queries : List Str) (hname : IsXmlName name)
    (htext : ∀ child ∈ site.named (site.node context) name, site.IsText child) :
    ∃ nodes, site.query rounds (some context) name = .ok nodes ∧
      ((site.getData rounds context (site.getDataAll rounds context queries) name).1 =
          .ok (site.getSingleData nodes) ↔
        (site.texts (site.node context) name).head? =
          (site.texts (site.node context) name).getLast?) := by
  refine ⟨_, query_name hfinds hrounds hname context, ?_⟩
  rw [(answering_getDataAll queries).getData_name hfinds hrounds hname htext,
    getSingleData_named]
  cases site.texts (site.node context) name with
  | nil => simp
  | cons text rest => simp [List.getLast?_cons, eq_comm]

end Nodes

/-- A root node with two children with the name `tag`, one text in each. -/
def twoTags : Nodes ℕ ℕ where
  document := ⟨fun _ => none, fun _ => none, some, fun _ => none⟩
  type
    | 3 => .text "a"
    | 4 => .text "b"
    | _ => .element
  name
    | 1 => some "tag"
    | 2 => some "tag"
    | _ => none
  children
    | 0 => [1, 2]
    | 1 => [3]
    | 2 => [4]
    | _ => []
  evaluate
    | 0, q => .nodeSet (if q = ("tag" : Str) then [1, 2] else [])
    | _, _ => .nodeSet []
  node := id
  rootNode := 0
  rootNode_not_mem := by
    intro context
    match context with
    | 0 | 1 | 2 => decide
    | _ + 3 => exact List.not_mem_nil

theorem findsNames_twoTags : twoTags.FindsNames := by
  intro node name _
  match node with
  | 0 =>
      by_cases hname : name = ("tag" : Str)
      · subst hname
        rfl
      · have hnone : twoTags.named 0 name = [] := by
          refine List.filter_eq_nil_iff.2 fun child hchild hnamed => hname ?_
          obtain ⟨-, hsome⟩ := of_decide_eq_true hnamed
          have hchild : child = 1 ∨ child = 2 := by simpa [twoTags] using hchild
          rcases hchild with rfl | rfl
          · exact (Option.some.inj hsome).symm
          · exact (Option.some.inj hsome).symm
        rw [hnone]
        exact congrArg XPathObject.nodeSet (if_neg hname)
  | 1 | 2 => rfl
  | _ + 3 => rfl

theorem isXmlName_tag : IsXmlName "tag" := ⟨'t', "ag", rfl, by decide, by decide⟩

theorem isText_twoTags : ∀ child ∈ twoTags.named 0 "tag", twoTags.IsText child := by
  intro child hchild
  have hchild : child = 1 ∨ child = 2 := by
    have hmem : child ∈ [1, 2] := hchild
    simpa using hmem
  rcases hchild with rfl | rfl
  · exact ⟨3, "a", rfl, rfl⟩
  · exact ⟨4, "b", rfl, rfl⟩

theorem getData_eq_singleData_iff_twoTags :
    ∃ nodes, twoTags.query 1 (some 0) "tag" = .ok nodes ∧
      ((twoTags.getData 1 0 (twoTags.getDataAll 1 0 ["tag", ""]) "tag").1 =
          .ok (twoTags.getSingleData nodes) ↔
        (twoTags.texts 0 "tag").head? = (twoTags.texts 0 "tag").getLast?) :=
  Nodes.getData_eq_singleData_iff twoTags findsNames_twoTags (by decide) 0 ["tag", ""]
    isXmlName_tag isText_twoTags

/-- The map has the text of the second child, and the query finds the first. -/
theorem getData_twoTags :
    (twoTags.getData 1 0 .new "tag").1 = .ok ("b" : Str) ∧
      ∃ nodes, twoTags.query 1 (some 0) "tag" = .ok nodes ∧
        twoTags.getSingleData nodes = ("a" : Str) := by
  refine ⟨?_, _, Nodes.query_name findsNames_twoTags (by decide) isXmlName_tag 0, rfl⟩
  rw [Nodes.answering_new.getData_name findsNames_twoTags (by decide) isXmlName_tag
    isText_twoTags]
  rfl

end VaeDb.Query
