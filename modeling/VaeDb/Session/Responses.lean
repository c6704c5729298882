import VaeDb.Response.Query
import VaeDb.Server.Authentication

/-!
# The responses of a session

A `get` keeps its `Response` in the session's vector and hands out its position, counted
from one; `createInfo`, `data`, `get` and `structure` find it again by that number.  All
four compare the unsigned size of the vector with the signed number and then subtract one.

* A positive number is compared as it is, and the element before it is read.
* A negative number becomes a huge unsigned one, and the methods throw.
* Zero passes every comparison, and minus one is where it leads.  `createInfo` and `get`
  read it as "no parent" before they compare; `data` and `structure` do not
  (`lookUp_inBounds_iff`).
-/

namespace VaeDb

open Server

/-! ## The vector -/

/-- `std::vector< boost::shared_ptr<Response> >::max_size()`. -/
def maxSize : ℕ := (2 ^ 63 - 1) / 16

/-- `Session`, with what its vector points to in place of the pointers. -/
structure Session (α : Type) where
  responses : List α
  size_le : responses.length ≤ maxSize

/-- The value that an integer has as a `size_t`. -/
def sizeT (n : ℤ) : ℕ := (n % 2 ^ 64).toNat

/-- What the methods of `Session` call on: the constructors and methods of `Response`, for
the session's Site. -/
structure ResponseClass (α Reply : Type) where
  create : Option α → Str → List (Str × Str) → Outcome α
  getJson : α → Outcome Reply
  getData : α → Outcome Reply
  getStructure : α → Outcome Reply
  getCreateInfo : Option α → Str → Outcome Reply

namespace Session

variable {α Reply : Type}

/-- A session that has no responses yet. -/
def empty : Session α := ⟨[], Nat.zero_le _⟩

/-- `responses.size()`. -/
def size (session : Session α) : ℕ := session.responses.length

/-- `responses[i]`. -/
def element (session : Session α) (i : ℤ) : Outcome α :=
  match session.responses[sizeT i]? with
  | some response => pure response
  | none => throw (.undefined .outOfBounds)

/-- `responses.push_back(response)`. -/
def push (session : Session α) (response : α) : Outcome (Session α) :=
  if h : session.size + 1 ≤ maxSize then
    pure ⟨session.responses ++ [response], by simpa [size] using h⟩
  else throw .lengthError

/-! ## The methods -/

/-- The guard that the methods repeat, and the element that it guards. -/
def stored (session : Session α) (responseId : Int32) : Outcome α :=
  if session.size ≥ sizeT responseId.toInt then do
    let index ← Response.int32 (responseId.toInt - 1)
    session.element index
  else throw (.vaeDbInternalError "Invalid responseId")

/-- How `createInfo` and `get` find the parent. -/
def parent (session : Session α) (responseId : Int32) : Outcome (Option α) :=
  if responseId ≠ 0 then some <$> session.stored responseId else pure none

variable (responseClass : ResponseClass α Reply)

/-- `Session::createInfo`. -/
def createInfo (session : Session α) (responseId : Int32) (query : Str) : Outcome Reply := do
  let parent ← session.parent responseId
  responseClass.getCreateInfo parent query

/-- `Session::data`. -/
def data (session : Session α) (responseId : Int32) : Outcome Reply := do
  let response ← session.stored responseId
  responseClass.getData response

/-- `Session::get`: the JSON and its member `id`, and the session afterwards. -/
def get (session : Session α) (responseId : Int32) (query : Str) (options : List (Str × Str)) :
    Outcome ((Reply × ℕ) × Session α) := do
  let parent ← session.parent responseId
  let response ← responseClass.create parent query options
  let res ← responseClass.getJson response
  let id := session.size + 1
  let session ← session.push response
  return ((res, id), session)

/-- `Session::structure`. -/
def structure_ (session : Session α) (responseId : Int32) : Outcome Reply := do
  let response ← session.stored responseId
  responseClass.getStructure response

end Session

/-- The `responseId` that a handler of `Server` passes on. -/
def responseIdParam (params : Params) : Outcome Int32 :=
  Int32.ofInt <$> iparam params "responseId"

/-- An absent `responseId` is zero, and a number is cut down to 32 bits. -/
theorem responseIdParam_eq (params : Params) :
    (params "responseId" = .null → responseIdParam params = .ok 0) ∧
      ∀ n, params "responseId" = .number n → responseIdParam params = .ok (Int32.ofInt n) := by
  constructor
  · intro habsent
    unfold responseIdParam iparam
    rw [habsent]
    rfl
  · intro n hnumber
    have hcut : Int32.ofInt (n.bmod (2 ^ 32)) = Int32.ofInt n := by
      apply Int32.toInt.inj
      simp
    unfold responseIdParam iparam
    rw [hnumber, ← hcut]
    rfl

/-! ## Which element is read -/

namespace Session

variable {α : Type} (session : Session α) (responseId : Int32)

theorem sizeT_natCast {n : ℕ} (h : n < 2 ^ 64) : sizeT n = n := by
  unfold sizeT
  omega

/-- The element that a number in range stands for. -/
theorem element_eq {i : ℕ} (h : i < session.responses.length) :
    session.element i = .ok session.responses[i] := by
  have hsize : i < 2 ^ 64 := by
    have hle := session.size_le
    unfold maxSize at hle
    omega
  unfold element
  rw [sizeT_natCast hsize, List.getElem?_eq_getElem h]
  rfl

/-- A positive number is compared with the size, and the element before it is read. -/
theorem stored_of_pos {n : ℕ} (hn : responseId.toInt = n + 1) :
    session.stored responseId =
      if h : n < session.responses.length then .ok session.responses[n]
      else .error (.vaeDbInternalError "Invalid responseId") := by
  have hlt : (n : ℤ) + 1 < 2 ^ 31 := hn ▸ responseId.toInt_lt
  have hsize : sizeT responseId.toInt = n + 1 := by
    rw [hn]
    exact sizeT_natCast (n := n + 1) (by omega)
  have hindex : Response.int32 (responseId.toInt - 1) = .ok (n : ℤ) := by
    have hsub : responseId.toInt - 1 = n := by omega
    rw [hsub, Response.int32, if_pos (by omega)]
    rfl
  unfold stored
  rw [hsize, hindex]
  by_cases h : n < session.responses.length
  · rw [if_pos (show n + 1 ≤ session.size from h), dif_pos h]
    exact session.element_eq h
  · rw [if_neg (show ¬ (n + 1 ≤ session.size) from h), dif_neg h]
    rfl

/-- Zero passes the guard, and the element before the first one is read. -/
theorem stored_zero : session.stored 0 = .error (.undefined .outOfBounds) := by
  have hindex : Response.int32 ((0 : Int32).toInt - 1) = .ok (-1) := by decide
  have hout : session.responses[sizeT (-1)]? = none := by
    rw [List.getElem?_eq_none_iff]
    have hle := session.size_le
    have hhuge : sizeT (-1) = 2 ^ 64 - 1 := by decide
    unfold maxSize at hle
    omega
  unfold stored
  rw [if_pos (show session.size ≥ sizeT (0 : Int32).toInt from Nat.zero_le _), hindex]
  show session.element (-1) = _
  rw [element, hout]
  rfl

/-- A negative number is larger than every size. -/
theorem stored_of_neg (hneg : responseId.toInt < 0) :
    session.stored responseId = .error (.vaeDbInternalError "Invalid responseId") := by
  have hge : -2 ^ 31 ≤ responseId.toInt := responseId.le_toInt
  have hhuge : ¬ (session.size ≥ sizeT responseId.toInt) := by
    have hle := session.size_le
    unfold maxSize at hle
    unfold size sizeT
    omega
  rw [stored, if_neg hhuge]
  rfl

/-! ## Which requests stay in bounds -/

/-- The methods that take a `responseId`. -/
inductive Method
  | createInfo
  | data
  | get
  | structure_
  deriving DecidableEq

/-- The first line of a method: the stored response that it goes on with, if any. -/
def lookUp (session : Session α) : Method → Int32 → Outcome (Option α)
  | .createInfo, responseId => session.parent responseId
  | .data, responseId => some <$> session.stored responseId
  | .get, responseId => session.parent responseId
  | .structure_, responseId => some <$> session.stored responseId

/-- The method throws an exception, or uses no stored response, which `createInfo` and `get`
do for zero, or reads an element of the vector. -/
inductive InBounds (session : Session α) (method : Method) (responseId : Int32) : Prop
  | throws (what : Str)
      (h : session.lookUp method responseId = .error (.vaeDbInternalError what))
  | noParent (hmethod : method = .createInfo ∨ method = .get) (hzero : responseId = 0)
      (h : session.lookUp method responseId = .ok none)
  | element (i : ℕ) (hi : i < session.responses.length)
      (h : session.lookUp method responseId = .ok (some session.responses[i]))

/-- With a number other than zero, all methods look for the element alike. -/
theorem lookUp_of_ne_zero (method : Method) (hne : responseId ≠ 0) :
    session.lookUp method responseId = some <$> session.stored responseId := by
  cases method with
  | createInfo => exact if_pos hne
  | data => rfl
  | get => exact if_pos hne
  | structure_ => rfl

/-- What every method finds under the number of an element. -/
theorem lookUp_of_getElem? (method : Method) {n : ℕ} {response : α}
    (hn : responseId.toInt = n + 1) (hresponse : session.responses[n]? = some response) :
    session.lookUp method responseId = .ok (some response) := by
  have hne : responseId ≠ 0 := by
    intro hzero
    rw [hzero, Int32.toInt_zero] at hn
    omega
  obtain ⟨hsize, hget⟩ := List.getElem?_eq_some_iff.1 hresponse
  rw [session.lookUp_of_ne_zero responseId method hne, session.stored_of_pos responseId hn,
    dif_pos hsize, hget]
  rfl

/-- A method that finds an element was given its number. -/
theorem getElem?_of_lookUp {method : Method} {response : α}
    (h : session.lookUp method responseId = .ok (some response)) :
    ∃ n : ℕ, responseId.toInt = n + 1 ∧ session.responses[n]? = some response := by
  have hne : responseId ≠ 0 := by
    intro hzero
    subst hzero
    cases method with
    | createInfo => cases h
    | data =>
        have hstored : some <$> session.stored 0 = .ok (some response) := h
        rw [stored_zero] at hstored
        cases hstored
    | get => cases h
    | structure_ =>
        have hstored : some <$> session.stored 0 = .ok (some response) := h
        rw [stored_zero] at hstored
        cases hstored
  rw [session.lookUp_of_ne_zero responseId method hne] at h
  have htoInt : responseId.toInt ≠ 0 := fun hzero => hne (Int32.toInt.inj hzero)
  rcases lt_or_gt_of_ne htoInt with hneg | hpos
  · rw [session.stored_of_neg responseId hneg] at h
    cases h
  · obtain ⟨n, hn⟩ : ∃ n : ℕ, responseId.toInt = n + 1 :=
      ⟨(responseId.toInt - 1).toNat, by omega⟩
    refine ⟨n, hn, ?_⟩
    rw [session.stored_of_pos responseId hn] at h
    by_cases hsize : n < session.responses.length
    · rw [dif_pos hsize] at h
      rw [List.getElem?_eq_getElem hsize]
      exact Except.ok.inj h
    · rw [dif_neg hsize] at h
      cases h

/-- A number other than zero never leads out of the vector. -/
theorem inBounds_of_ne_zero (method : Method) (hne : responseId ≠ 0) :
    InBounds session method responseId := by
  have hlookUp := session.lookUp_of_ne_zero responseId method hne
  have htoInt : responseId.toInt ≠ 0 := fun hzero => hne (Int32.toInt.inj hzero)
  rcases lt_or_gt_of_ne htoInt with hneg | hpos
  · rw [session.stored_of_neg responseId hneg] at hlookUp
    exact .throws _ hlookUp
  · obtain ⟨n, hn⟩ : ∃ n : ℕ, responseId.toInt = n + 1 :=
      ⟨(responseId.toInt - 1).toNat, by omega⟩
    rw [session.stored_of_pos responseId hn] at hlookUp
    by_cases hsize : n < session.responses.length
    · rw [dif_pos hsize] at hlookUp
      exact .element n hsize hlookUp
    · rw [dif_neg hsize] at hlookUp
      exact .throws _ hlookUp

/-- Where an element is read that is not there, a method does not stay in bounds. -/
theorem not_inBounds_of_outOfBounds {method : Method}
    (hout : session.lookUp method responseId = .error (.undefined .outOfBounds)) :
    ¬ InBounds session method responseId := by
  intro h
  cases h with
  | throws what h =>
      rw [hout] at h
      cases h
  | noParent hmethod hzero h =>
      rw [hout] at h
      cases h
  | element i hi h =>
      rw [hout] at h
      cases h

/-- A method stays in the vector exactly if it is one of the two that look at zero, or the
number is another one. -/
theorem lookUp_inBounds_iff (method : Method) :
    InBounds session method responseId ↔
      method = .createInfo ∨ method = .get ∨ responseId ≠ 0 := by
  constructor
  · intro h
    by_contra hnot
    obtain ⟨hcreateInfo, hget, hzero⟩ : method ≠ .createInfo ∧ method ≠ .get ∧
        responseId = 0 := by
      simpa only [not_or, not_not] using hnot
    refine session.not_inBounds_of_outOfBounds responseId ?_ h
    -- the two methods that are left read before the first element
    subst hzero
    cases method with
    | createInfo => exact absurd rfl hcreateInfo
    | data => exact congrArg (some <$> ·) session.stored_zero
    | get => exact absurd rfl hget
    | structure_ => exact congrArg (some <$> ·) session.stored_zero
  · intro h
    by_cases hzero : responseId = 0
    · have hmethod : method = .createInfo ∨ method = .get := by
        rcases h with h | h | h
        · exact Or.inl h
        · exact Or.inr h
        · exact absurd hzero h
      refine .noParent hmethod hzero ?_
      rcases hmethod with rfl | rfl
      all_goals exact if_neg (not_not.2 hzero)
    · exact session.inBounds_of_ne_zero responseId method hzero

/-- `data` with no `responseId`, in a session without responses. -/
theorem not_inBounds_data_zero : ¬ InBounds (empty : Session Str) .data 0 :=
  not_inBounds_of_outOfBounds _ _ (congrArg (some <$> ·) (stored_zero _))

end Session

end VaeDb
