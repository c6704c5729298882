import VaeDb.Query.Designs
import VaeDb.Query.Permalinks
import VaeDb.Response.Options
import VaeDb.Response.Replies
import VaeDb.Site.Indexes
import VaeDb.Site.Records

/-!
# From a reply back to its nodes

The object of a Context in the reply to a `get` has the id of the Context, unless it is zero, and
its permalink.  A query that consists of the digits of an id, or of a permalink behind
`permalink/`, leads to the node that `nodes` or `permalinks` has for it, from whatever Context it
is evaluated.

* `atoi_decimal` : `atoi` reads the digits that an id is printed with.
* `Source.Sourced` : the Contexts of a Site keep the id and the permalink of their elements,
  whatever the associations do.
* `handles_lead_back` : for every object of a reply, its id leads to the element with this id
  whose end tag comes last, and its permalink to the last element with this permalink.
-/

namespace VaeDb

open Xml Query

/-! ## Numbers -/

/-- How a number is printed. -/
def decimal (n : ℕ) : Str := (toString n).toList

theorem decimal_eq (n : ℕ) : decimal n = Nat.toDigits 10 n := Nat.toList_repr

theorem isDigit_of_mem_decimal {n : ℕ} {c : Char} (h : c ∈ decimal n) : c.isDigit :=
  Nat.isDigit_of_mem_toDigits (by decide) (by decide) (decimal_eq n ▸ h)

/-- Digits are read as they are written. -/
theorem strtolDigits_eq {digits : Str} (hdigits : ∀ c ∈ digits, c.isDigit) (value : ℕ) :
    strtolDigits digits value = (Nat.ofDigitChars 10 digits value : ℕ) := by
  induction digits generalizing value with
  | nil => simp [strtolDigits]
  | cons c digits ih =>
      have hc : c.isDigit := hdigits c List.mem_cons_self
      have hrest := ih (fun other hother => hdigits other (List.mem_cons_of_mem _ hother))
        (10 * value + (c.toNat - 48))
      rw [strtolDigits, if_pos hc, Nat.ofDigitChars_cons]
      exact_mod_cast hrest

theorem isSpace_of_isDigit {c : Char} (hc : c.isDigit) : isSpace c = false := by
  have hlow : 48 ≤ c.toNat := by
    simp only [Char.isDigit, Bool.and_eq_true, decide_eq_true_eq] at hc
    exact UInt32.le_iff_toNat_le.1 hc.1
  have hne : c ≠ ' ' := by
    rintro rfl
    exact absurd hc (by decide)
  simp only [isSpace, hne, decide_false, Bool.false_or, Bool.and_eq_false_iff,
    decide_eq_false_iff_not]
  omega

/-- A number begins with a digit, so nothing is skipped and no sign is read. -/
theorem strtol_of_digits {digits : Str} (hne : digits ≠ []) (hdigits : ∀ c ∈ digits, c.isDigit) :
    strtol digits =
      max (-2 ^ 63) (min ((Nat.ofDigitChars 10 digits 0 : ℕ) : ℤ) (2 ^ 63 - 1)) := by
  have hvalue : strtolDigits digits 0 = (Nat.ofDigitChars 10 digits 0 : ℕ) := by
    have h := strtolDigits_eq hdigits 0
    exact_mod_cast h
  obtain ⟨c, rest, rfl⟩ := List.exists_cons_of_ne_nil hne
  have hc : c.isDigit := hdigits c List.mem_cons_self
  have hskip : (c :: rest).dropWhile isSpace = c :: rest :=
    List.dropWhile_cons_of_neg (by simp [isSpace_of_isDigit hc])
  simp only [strtol, hskip]
  split
  · next hsign =>
    obtain ⟨rfl, -⟩ := List.cons.inj hsign
    exact absurd hc (by decide)
  · next hsign =>
    obtain ⟨rfl, -⟩ := List.cons.inj hsign
    exact absurd hc (by decide)
  · rw [hvalue]

theorem atoi_decimal {n : ℕ} (hn : n < 2 ^ 31) : atoi (decimal n) = n := by
  have hne : decimal n ≠ [] := decimal_eq n ▸ Nat.toDigits_ne_nil
  have hvalue : Nat.ofDigitChars 10 (decimal n) 0 = n := by
    rw [decimal_eq, Nat.ofDigitChars_ten_toDigits]
  rw [atoi, strtol_of_digits hne fun c => isDigit_of_mem_decimal, hvalue, toInt32]
  omega

/-! ## The queries -/

namespace Query

variable {Node Context : Type} {document : Document Node Context}

theorem permalinkPath_of_digits {digits : Str} (hdigits : ∀ c ∈ digits, c.isDigit) :
    permalinkPath digits = none := by
  unfold permalinkPath
  refine if_neg fun hmatch => ?_
  have hmem : 'p' ∈ digits := hmatch.1.subset (by decide)
  exact absurd (hdigits 'p' hmem) (by decide)

theorem idPath_of_digits {digits : Str} (hne : digits ≠ []) (hdigits : ∀ c ∈ digits, c.isDigit) :
    idPath digits = some (digits, []) := by
  have htake : digits.takeWhile Char.isDigit = digits := List.takeWhile_eq_self_iff.2 hdigits
  have hdrop : digits.dropWhile Char.isDigit = [] := List.dropWhile_eq_nil_iff.2 hdigits
  simp [idPath, htake, hdrop, hne]

/-- A query of digits is the node with the id, from anywhere. -/
theorem construct_decimal {n : ℕ} (hn : n < 2 ^ 31) (rounds : ℕ) (context : Option Context) :
    construct document rounds context (decimal n) = .ok (.result (document.nodes n)) ∧
      construct document rounds context ('/' :: decimal n) = .ok (.result (document.nodes n)) := by
  have hdigits : ∀ c ∈ decimal n, c.isDigit := fun c => isDigit_of_mem_decimal
  have hne : decimal n ≠ [] := decimal_eq n ▸ Nat.toDigits_ne_nil
  -- digits are no permalink, and `atoi` reads what `decimal` has written
  have hresult : ∀ context q, constructPermalink document rounds context (decimal n) q =
      .ok (.result (document.nodes n)) := by
    intro context q
    unfold constructPermalink
    rw [permalinkPath_of_digits hdigits]
    simp only [constructId, idPath_of_digits hne hdigits, atoi_decimal hn]
    cases document.nodes n <;> rfl
  refine ⟨?_, hresult none _⟩
  obtain ⟨c, rest, hcons⟩ := List.exists_cons_of_ne_nil hne
  have hslash : c ≠ '/' := by
    rintro rfl
    exact absurd (hdigits '/' (hcons ▸ List.mem_cons_self)) (by decide)
  have hconstruct : construct document rounds context (c :: rest) =
      constructPermalink document rounds context (c :: rest) (c :: rest) := by
    unfold construct
    split
    · next hsame => exact absurd (List.cons.inj hsame).1 hslash
    · rfl
  rw [hcons, hconstruct, ← hcons]
  exact hresult context _

/-- A permalink is the node that has it, from anywhere. -/
theorem construct_of_permalink {permalink : Str} {node : Node} (hline : '\n' ∉ permalink)
    (hnode : document.permalinks permalink = some node) (rounds : ℕ) (context : Option Context) :
    construct document rounds context (("permalink/" : Str) ++ permalink) =
        .ok (.result (some node)) ∧
      construct document rounds context ('/' :: (("permalink/" : Str) ++ permalink)) =
        .ok (.result (some node)) := by
  have hparts : 1 ≤ (splitAt characters '/' permalink).length :=
    List.length_pos_iff.2 (List.splitOnP_ne_nil _ _)
  have hwhole : permalinkOf document (splitAt characters '/' permalink)
      (splitAt characters '/' permalink).length = some node := by
    have hjoin : join characters '/' (splitAt characters '/' permalink) = permalink :=
      List.intercalate_splitOn '/'
    rw [permalinkOf, List.take_length, hjoin, hnode]
  have hsearch : findPermalink document (splitAt characters '/' permalink)
      (splitAt characters '/' permalink).length = .inl (some node) := by
    rw [findPermalink_of_some hparts hwhole, if_pos rfl]
  constructor
  · rw [construct_permalink hline, hsearch]
    rfl
  · change constructPermalink document rounds none (("permalink/" : Str) ++ permalink) _ = _
    unfold constructPermalink
    rw [permalinkPath_append hline]
    simp only [hsearch]
    rfl

end Query

/-! ## Contexts and their elements -/

namespace Source

variable {source : Source} {site site' : Site} {contexts : Address → Option Context}
  {rounds : ℕ} {todo : List Path}

/-- The Contexts have the ids and the permalinks of their elements. -/
def Sourced (source : Source) (contexts : Address → Option Context) : Prop :=
  ∀ node ctxt, contexts node = some ctxt → ∃ path, node = .feed path ∧ source.Visited path ∧
    source.id? path = some ctxt.id ∧ source.permalink? path = ctxt.permalink

namespace Sourced

theorem of_assigned {made : Path → Prop}
    (h : source.Assigned source.context? made (fun _ => none) contexts) :
    source.Sourced contexts := by
  intro node ctxt hctxt
  rcases h.other node with hnone | ⟨path, hnode, hvisited, hvalue⟩
  · rw [hnone] at hctxt
    cases hctxt
  · have hcontext : source.context? path = some ctxt := hvalue.symm.trans hctxt
    refine ⟨path, hnode, hvisited, ?_, ?_⟩
    · rw [id?, hcontext]
      rfl
    · rw [permalink?, hcontext]
      rfl

/-- A Context that gets a pointer node is still about its element. -/
theorem push (h : source.Sourced contexts) {node : Address} {ctxt : Context}
    (hctxt : contexts node = some ctxt) (pointerNode : Address) :
    source.Sourced (pushPointerNode contexts node ctxt pointerNode) := by
  intro other found hfound
  unfold pushPointerNode at hfound
  by_cases hsame : other = node
  · rw [hsame, Function.update_self] at hfound
    obtain rfl := Option.some.inj hfound
    exact hsame ▸ h node ctxt hctxt
  · rw [Function.update_of_ne hsame] at hfound
    exact h other found hfound

theorem drop (h : source.Sourced contexts) (node : Address) :
    source.Sourced (Function.update contexts node none) := by
  intro other found hfound
  by_cases hsame : other = node
  · rw [hsame, Function.update_self] at hfound
    cases hfound
  · rw [Function.update_of_ne hsame] at hfound
    exact h other found hfound

/-- `initializeAssociation` adds a pointer node to one Context, and deletes another. -/
theorem step (h : source.Sourced site.contexts) {item : Path}
    (hassociating : source.Associating site (item :: todo))
    (hrun : Site.initializeAssociation rounds site (.feed item) = .ok site') :
    source.Sourced site'.contexts := by
  cases hassociating.turn hrun with
  | adopt htarget hrun =>
      obtain ⟨_, _, _, _, _, _, _, hadopting⟩ := hassociating.adopting htarget hrun
      rw [hadopting.run.contexts]
      exact (h.push hadopting.run.parent_context _).drop _
  | remove htarget hunlink hfree => exact h.drop _

end Sourced

/-- After a load every Context is about its element. -/
theorem loadXmlDoc_sourced (hroot : source.feed.website "content" = [source.root])
    (hload : Site.loadXmlDoc source.surroundings rounds (some source.feed) = .ok site) :
    source.Sourced site.contexts := by
  obtain ⟨built, initialized, generation, hbuilt, hinitialized, rfl⟩ := loadXmlDoc_run hroot hload
  obtain ⟨removed, hbuilt, hnoted⟩ := constructContexts_noted hbuilt
  rw [hbuilt.associations] at hinitialized
  have hall := turns_ok
    (P := fun _ todo site => source.Associating site todo ∧ todo.Nodup ∧
      source.Sourced site.contexts)
    (fun _ item todo _ _ hold hnext => ?_) []
    ⟨hbuilt.associating, nodup_items, Sourced.of_assigned hnoted.contexts⟩ hinitialized
  · exact hall.2.2
  · obtain ⟨hassociating, hnodup, hsourced⟩ := hold
    obtain ⟨hitem, hrest⟩ := List.nodup_cons.1 hnodup
    exact ⟨hassociating.step hitem hnext, hrest, hsourced.step hassociating hnext⟩

/-- Of the elements with a property there is a last one, if there is any. -/
theorem exists_last {A : Path → Prop} [DecidablePred A] {path : Path}
    (hvisited : source.Visited path) (hholds : A path) :
    ∃ last, source.visited.reverse.find? (fun path => A path) = some last ∧
      source.Last A last := by
  cases hfind : source.visited.reverse.find? fun path => A path with
  | none =>
      have hnone := List.find?_eq_none.1 hfind path (List.mem_reverse.2 (mem_visited.2 hvisited))
      simp [hholds] at hnone
  | some last => exact ⟨last, rfl, last_of_find? hfind⟩

theorem nodes_of_visited (hroot : source.feed.website "content" = [source.root])
    (hload : Site.loadXmlDoc source.surroundings rounds (some source.feed) = .ok site)
    {path : Path} {id : ℤ} (hvisited : source.Visited path) (hid : source.id? path = some id) :
    ∃ last, site.nodes id = some (.feed last) ∧
      source.Last (fun path => source.id? path = some id) last := by
  obtain ⟨last, hfind, hlast⟩ :=
    exists_last (A := fun path => source.id? path = some id) hvisited hid
  refine ⟨last, ?_, hlast⟩
  rw [(loadXmlDoc_associated hroot hload).nodes, lastWithId, hfind]
  rfl

theorem permalinks_of_visited (hroot : source.feed.website "content" = [source.root])
    (hload : Site.loadXmlDoc source.surroundings rounds (some source.feed) = .ok site)
    {path : Path} {permalink : Str} (hvisited : source.Visited path)
    (hpermalink : source.permalink? path = some permalink) :
    ∃ last, site.permalinks permalink = some (.feed last) ∧
      source.Last (fun path => source.permalink? path = some permalink) last := by
  obtain ⟨last, hfind, hlast⟩ :=
    exists_last (A := fun path => source.permalink? path = some permalink) hvisited hpermalink
  refine ⟨last, ?_, hlast⟩
  rw [(loadXmlDoc_associated hroot hload).permalinks, lastWithPermalink, hfind]
  rfl

end Source

/-! ## Replies -/

open Response Replies

/-- What the replies ask of the Contexts of a Site; how data is read is given. -/
def Query.View.replies (view : View) (getSingleData : Address → Outcome Str)
    (getData : Address → Outcome (OrderedMap Str Str)) : Replies.Contexts Address where
  context := view.contextAt
  getSingleData
  getData

/-- The queries for a handle that is found return one node, whatever they are evaluated from. -/
def Query.View.LeadsTo (view : View) (q : Str) (path : Path) : Prop :=
  ∀ rounds context, view.fetchQuery rounds context q = .ok [.node (.feed path)] ∧
    view.fetchQuery rounds context ('/' :: q) = .ok [.node (.feed path)]

namespace Query.View

variable {view : View}

theorem contextAt_eq_ok {node : Address} {ctxt : Context} :
    view.contextAt node = .ok ctxt ↔ view.site.contexts node = some ctxt := by
  unfold contextAt
  cases view.site.contexts node with
  | none => simp [throw, throwThe, MonadExceptOf.throw]
  | some found => simp [pure, Except.pure]

theorem fetchQuery_of_result {rounds : ℕ} {context : Option Address} {q : Str} {node : Address}
    (h : construct view.document rounds context q = .ok (.result (some node))) :
    view.fetchQuery rounds context q = .ok [.node node] := by
  unfold fetchQuery
  rw [h]
  rfl

theorem leadsTo_decimal {n : ℕ} (hn : n < 2 ^ 31) {path : Path}
    (hentry : view.site.nodes n = some (.feed path)) : view.LeadsTo (decimal n) path := by
  intro rounds context
  have hnode : view.document.nodes n = some (.feed path) := hentry
  obtain ⟨hquery, hslash⟩ := hnode ▸ construct_decimal hn rounds context
  exact ⟨fetchQuery_of_result hquery, fetchQuery_of_result hslash⟩

theorem leadsTo_permalink {permalink : Str} (hline : '\n' ∉ permalink) {path : Path}
    (hentry : view.site.permalinks permalink = some (.feed path)) :
    view.LeadsTo (("permalink/" : Str) ++ permalink) path := by
  intro rounds context
  have hnode : view.document.permalinks permalink = some (.feed path) := hentry
  obtain ⟨hquery, hslash⟩ := construct_of_permalink hline hnode rounds context
  exact ⟨fetchQuery_of_result hquery, fetchQuery_of_result hslash⟩

end Query.View

/-- **Handles lead back.**  The replies of one response are about the same Contexts, in the same
order.  In the reply to a `get`, the id of an object is that of the Context's element, and the
query of its digits returns the element with this id whose end tag comes last; and so for the
permalink. -/
theorem handles_lead_back {source : Source} {rounds : ℕ} {site : Site}
    (hroot : source.feed.website "content" = [source.root])
    (hload : Site.loadXmlDoc source.surroundings rounds (some source.feed) = .ok site)
    {view : View} (hview : view.site = site) {getSingleData : Address → Outcome Str}
    {getData : Address → Outcome (OrderedMap Str Str)} {response : List (ResponseContext Address)} :
    (∀ reply, getJson (view.replies getSingleData getData) response = .ok reply →
      List.Forall₂ (fun node object => ∃ path, node = Address.feed path ∧ source.Visited path ∧
        (∀ n : ℕ, n < 2 ^ 31 → object.member "id" = some (.number n) →
          source.id? path = some n ∧ ∃ last, view.LeadsTo (decimal n) last ∧
            source.Last (fun path => source.id? path = some n) last) ∧
        ∀ permalink, '\n' ∉ permalink → object.member "permalink" = some (.string permalink) →
          source.permalink? path = some permalink ∧
            ∃ last, view.LeadsTo (("permalink/" : Str) ++ permalink) last ∧
              source.Last (fun path => source.permalink? path = some permalink) last)
        (listed response) (objects reply)) ∧
    (∀ reply, Replies.getData (view.replies getSingleData getData) response = .ok reply →
      List.Forall₂ (fun node element => dataJson <$> getData node = .ok element)
        (listed response) reply.elements) ∧
    ∀ reply, getStructures (view.replies getSingleData getData) response = .ok reply →
      List.Forall₂ (fun node element =>
        structureJson <$> Replies.getStructure (view.replies getSingleData getData) node =
          .ok element)
        (listed response) reply.elements := by
  subst hview
  have hsourced := Source.loadXmlDoc_sourced hroot hload
  refine ⟨fun reply hreply => ?_, fun reply hreply => getData_listed hreply,
    fun reply hreply => getStructure_listed hreply⟩
  refine (getJson_listed hreply).imp fun node object hobject => ?_
  obtain ⟨ctxt, hctxt, hid, hpermalink⟩ := toJson_members hobject
  obtain ⟨path, hnode, hvisited, hsameId, hsamePermalink⟩ :=
    hsourced node ctxt (Query.View.contextAt_eq_ok.1 hctxt)
  -- several elements may have the id or the permalink; the handle leads to the last one
  refine ⟨path, hnode, hvisited, fun n hn hmember => ?_, fun permalink hline hmember => ?_⟩
  · have hpath : source.id? path = some n := hsameId.trans (congrArg some (hid n hmember))
    obtain ⟨last, hentry, hlast⟩ := Source.nodes_of_visited hroot hload hvisited hpath
    exact ⟨hpath, last, Query.View.leadsTo_decimal hn hentry, hlast⟩
  · have hpath : source.permalink? path = some permalink :=
      hsamePermalink.trans (hpermalink permalink hmember)
    obtain ⟨last, hentry, hlast⟩ := Source.permalinks_of_visited hroot hload hvisited hpath
    exact ⟨hpath, last, Query.View.leadsTo_permalink hline hentry, hlast⟩

/-- The first of three articles with one id leads to the last one. -/
theorem handles_lead_back_sameIds :
    ∃ (view : View) (reply : Json),
      getJson (view.replies (fun _ => .ok []) fun _ => .ok .empty) [⟨[.feed [0, 0]], 1⟩] =
        .ok reply ∧
      (∃ object, object ∈ objects reply ∧ object.member "id" = some (.number 1)) ∧
      ∃ last, view.LeadsTo "1" last ∧
        sameIds.Last (fun path => sameIds.id? path = some 1) last := by
  have hrun : (fun site : Site => site.contexts (.feed [0, 0])) <$>
      Site.loadXmlDoc sameIds.surroundings 9 (some sameIds.feed) =
        .ok (some ⟨1, none, none, [], []⟩) := by decide +kernel
  obtain ⟨site, hload, hcontext⟩ := Outcome.map_eq_ok.1 hrun
  let view : View := ⟨fun _ _ => .nodeSet [], sameIds.feed, site, .feed [1]⟩
  have hctxt : view.contextAt (.feed [0, 0]) = .ok ⟨1, none, none, [], []⟩ :=
    Query.View.contextAt_eq_ok.2 hcontext
  have hreply : getJson (view.replies (fun _ => .ok []) fun _ => .ok .empty)
      [⟨[.feed [0, 0]], 1⟩] = .ok (.ofMap (noMembers.assign "contexts" (.array
        [.ofMap ((noMembers.assign "totalItems" (.number 1)).assign "contexts" (.array
          [.ofMap (noMembers.assign "id" (.number 1))]))]))) := by
    have hobject : toJson (view.replies (fun _ => .ok []) fun _ => .ok .empty) (.feed [0, 0]) =
        .ok (.ofMap (noMembers.assign "id" (.number 1))) := by
      show (view.contextAt (.feed [0, 0]) >>= _) = _
      rw [hctxt]
      rfl
    simp [getJson, responseContextJson, hobject, bind, Except.bind, pure, Except.pure]
  have hobject : (Json.ofMap (noMembers.assign "id" (.number 1))).member "id" =
      some (.number 1) := by rw [Json.member_ofMap, OrderedMap.find_assign, if_pos rfl]
  have hview : view.site = site := rfl
  have hback := (handles_lead_back rfl hload hview).1 _ hreply
  obtain ⟨path, hpath, -, hid, -⟩ := hback.get (i := 0) (by decide) (by decide)
  obtain ⟨-, last, hleads, hlast⟩ := hid 1 (by decide) hobject
  exact ⟨view, _, hreply, ⟨_, List.mem_singleton_self _, hobject⟩, last, hleads, hlast⟩

end VaeDb
