import Mathlib.Data.Char
import Mathlib.Data.List.Lex
import VaeDb.Library.OrderedMap
import VaeDb.Response.Query
import VaeDb.Site.Load

/-!
# The replies of a response

`Response::getJson`, `getData` and `getStructure` all go through the ResponseContexts of the
response and their Contexts, in the same order, and make a JSON value of each Context.

```text
getJson        { "contexts": [ { "contexts": [ toJson, .. ], "totalItems": n }, .. ] }
getData        [ getData, .. ]
getStructure   [ getStructure, .. ]
```

So the k-th object of one reply and the k-th element of another are about one Context
(`getJson_listed`, `getData_listed`, `getStructure_listed`).  The lists of a response hold no null
pointers, as `query` appends none.
-/

namespace VaeDb.Replies

open Response

/-! ## Values -/

/-- The JSON values that replies are made of. -/
inductive Json
  | number (value : ℤ)
  | string (value : Str)
  | array (elements : List Json)
  | object (members : List (Str × Json))

/-- An object with the members of a map. -/
def Json.ofMap (members : OrderedMap Str Json) : Json := .object members.entries

/-- The member with a name. -/
def Json.member : Json → Str → Option Json
  | .object members, name => (members.find? fun entry => entry.1 = name).map Prod.snd
  | _, _ => none

/-- The elements of an array. -/
def Json.elements : Json → List Json
  | .array elements => elements
  | _ => []

/-- An object without members. -/
def noMembers : OrderedMap Str Json := .empty

@[simp] theorem Json.member_ofMap (members : OrderedMap Str Json) (name : Str) :
    (Json.ofMap members).member name = members.find name := by
  simp only [ofMap, member, OrderedMap.find]
  congr!

/-! ## Contexts -/

/-- What the replies ask of a Context: its fields, the text of its node, and `getData`. -/
structure Contexts (α : Type) where
  context : α → Outcome Context
  getSingleData : α → Outcome Str
  getData : α → Outcome (OrderedMap Str Str)

section

variable {α : Type} (contexts : Contexts α)

/-- The members that `Context::toJson` makes of the structure and the permalink. -/
def described (ctxt : Context) : OrderedMap Str Json :=
  let j :=
    match ctxt.structure? with
    | some found =>
        (noMembers.assign "structure_id" (.number found.id)).assign "type" (.string ctxt.type)
    | none => noMembers
  match ctxt.permalink with
  | some permalink => j.assign "permalink" (.string permalink)
  | none => j

/-- `Context::toJson`. -/
def toJson (a : α) : Outcome Json := do
  let ctxt ← contexts.context a
  if ctxt.id = 0 then do
    let data ← contexts.getSingleData a
    return .ofMap ((described ctxt).assign "data" (.string data))
  else return .ofMap ((described ctxt).assign "id" (.number ctxt.id))

/-- `Context::getStructure`. -/
def getStructure (a : α) : Outcome Structure := do
  let ctxt ← contexts.context a
  return ctxt.structure?.getD ⟨0, [], [], []⟩

/-- `to_json` of a map of data. -/
def dataJson (data : OrderedMap Str Str) : Json :=
  .object (data.entries.map fun entry => (entry.1, .string entry.2))

/-- `to_json` of a `Structure`. -/
def structureJson (found : Structure) : Json :=
  .ofMap ((((noMembers.assign "id" (.number found.id)).assign "name"
    (.string found.name)).assign "type" (.string found.type)).assign "permalink"
      (.string found.permalink))

/-! ## Responses -/

/-- `to_json` of a `ResponseContext`. -/
def responseContextJson (response : ResponseContext α) : Outcome Json := do
  let elements ← response.contexts.mapM (toJson contexts)
  return .ofMap ((noMembers.assign "totalItems" (.number response.total)).assign
    "contexts" (.array elements))

/-- `Response::getJson`. -/
def getJson (response : List (ResponseContext α)) : Outcome Json := do
  let elements ← response.mapM (responseContextJson contexts)
  return .ofMap (noMembers.assign "contexts" (.array elements))

/-- The Contexts of a response, in the order of both loops. -/
def listed (response : List (ResponseContext α)) : List α :=
  response.flatMap ResponseContext.contexts

/-- `Response::getData`. -/
def getData (response : List (ResponseContext α)) : Outcome Json := do
  let maps ← (listed response).mapM contexts.getData
  return .array (maps.map dataJson)

/-- `Response::getStructure`. -/
def getStructures (response : List (ResponseContext α)) : Outcome Json := do
  let structures ← (listed response).mapM (getStructure contexts)
  return .array (structures.map structureJson)

/-! ## What is in the replies -/

/-- The elements of the member `contexts`. -/
def objectsOf (value : Json) : List Json := ((value.member "contexts").map Json.elements).getD []

/-- The objects of a reply to `get`, one for each Context. -/
def objects (reply : Json) : List Json := (objectsOf reply).flatMap objectsOf

variable {contexts} {response : List (ResponseContext α)} {reply : Json}

/-- The calls of a loop that returns have all returned. -/
theorem forall₂_of_mapM {β γ : Type} {f : β → Outcome γ} {list : List β} {values : List γ}
    (h : list.mapM f = .ok values) : List.Forall₂ (fun b c => f b = .ok c) list values := by
  induction list generalizing values with
  | nil =>
      obtain rfl := Outcome.pure_eq_ok.1 h
      exact .nil
  | cons b list ih =>
      rw [List.mapM_cons] at h
      obtain ⟨c, hc, h⟩ := Outcome.bind_eq_ok.1 h
      obtain ⟨others, hothers, h⟩ := Outcome.bind_eq_ok.1 h
      obtain rfl := Outcome.pure_eq_ok.1 h
      exact .cons hc (ih hothers)

/-- The objects of a reply are those of the Contexts, in order. -/
theorem getJson_listed (h : getJson contexts response = .ok reply) :
    List.Forall₂ (fun a object => toJson contexts a = .ok object) (listed response)
      (objects reply) := by
  obtain ⟨elements, helements, hreply⟩ := Outcome.bind_eq_ok.1 h
  obtain rfl := Outcome.pure_eq_ok.1 hreply
  have hobjects : objects (.ofMap (noMembers.assign "contexts" (.array elements))) =
      elements.flatMap objectsOf := by
    simp [objects, objectsOf, Json.elements, OrderedMap.find_assign]
  rw [hobjects]
  have hgroups := forall₂_of_mapM helements
  clear h helements hreply hobjects
  induction hgroups with
  | nil => exact .nil
  | @cons group element others elements hgroup _ ih =>
      obtain ⟨shown, hshown, hgroup⟩ := Outcome.bind_eq_ok.1 hgroup
      obtain rfl := Outcome.pure_eq_ok.1 hgroup
      refine List.rel_append ?_ ih
      simpa [objectsOf, Json.elements, OrderedMap.find_assign] using forall₂_of_mapM hshown

theorem getData_listed (h : getData contexts response = .ok reply) :
    List.Forall₂ (fun a element => dataJson <$> contexts.getData a = .ok element)
      (listed response) reply.elements := by
  obtain ⟨maps, hmaps, h⟩ := Outcome.bind_eq_ok.1 h
  obtain rfl := Outcome.pure_eq_ok.1 h
  refine List.forall₂_map_right_iff.2 ((forall₂_of_mapM hmaps).imp fun a map hmap => ?_)
  rw [hmap]
  rfl

theorem getStructure_listed (h : getStructures contexts response = .ok reply) :
    List.Forall₂ (fun a element => structureJson <$> getStructure contexts a = .ok element)
      (listed response) reply.elements := by
  obtain ⟨structures, hstructures, h⟩ := Outcome.bind_eq_ok.1 h
  obtain rfl := Outcome.pure_eq_ok.1 h
  refine List.forall₂_map_right_iff.2 ((forall₂_of_mapM hstructures).imp fun a found hfound => ?_)
  rw [hfound]
  rfl

theorem find_id_described (ctxt : Context) : (described ctxt).find "id" = none := by
  unfold described
  cases ctxt.structure? <;> cases ctxt.permalink <;> simp [noMembers, OrderedMap.find_assign]

theorem find_permalink_described (ctxt : Context) :
    (described ctxt).find "permalink" = ctxt.permalink.map .string := by
  unfold described
  cases ctxt.structure? <;> cases ctxt.permalink <;> simp [noMembers, OrderedMap.find_assign]

/-- What an object says of its Context. -/
theorem toJson_members {a : α} {object : Json} (h : toJson contexts a = .ok object) :
    ∃ ctxt, contexts.context a = .ok ctxt ∧
      (∀ n, object.member "id" = some (.number n) → ctxt.id = n) ∧
      ∀ permalink, object.member "permalink" = some (.string permalink) →
        ctxt.permalink = some permalink := by
  obtain ⟨ctxt, hctxt, h⟩ := Outcome.bind_eq_ok.1 h
  refine ⟨ctxt, hctxt, ?_⟩
  have hlink : ∀ permalink, (described ctxt).find "permalink" = some (.string permalink) →
      ctxt.permalink = some permalink := by
    intro permalink hpermalink
    rw [find_permalink_described] at hpermalink
    obtain ⟨found, hfound, hsame⟩ := Option.map_eq_some_iff.1 hpermalink
    exact hfound.trans (congrArg some (Json.string.inj hsame))
  split at h
  · obtain ⟨data, _, h⟩ := Outcome.bind_eq_ok.1 h
    obtain rfl := Outcome.pure_eq_ok.1 h
    refine ⟨fun n hn => ?_, fun permalink hpermalink => hlink permalink ?_⟩
    · rw [Json.member_ofMap, OrderedMap.find_assign, if_neg (by decide), find_id_described] at hn
      cases hn
    · rw [Json.member_ofMap, OrderedMap.find_assign, if_neg (by decide)] at hpermalink
      exact hpermalink
  · obtain rfl := Outcome.pure_eq_ok.1 h
    refine ⟨fun n hn => ?_, fun permalink hpermalink => hlink permalink ?_⟩
    · rw [Json.member_ofMap, OrderedMap.find_assign, if_pos rfl] at hn
      exact Json.number.inj (Option.some.inj hn)
    · rw [Json.member_ofMap, OrderedMap.find_assign, if_neg (by decide)] at hpermalink
      exact hpermalink

end

end VaeDb.Replies
