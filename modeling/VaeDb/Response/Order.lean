import VaeDb.Library.LexOrder
import VaeDb.Util.NaturalOrder

/-!
# The order of a result

The `order` option of a request names the fields that a result is sorted by;
`Response::sortCallback` is the comparison handed to `std::sort`, which requires a strict
weak order.

* A field `id` decides alone.  With `DESC` its comparison is negated, so that a Context
  comes before itself.
* A `COUNT` or data field that does not decide leaves it to the next field.  Data is
  compared with tolerance for numbers (`Util/NaturalOrder.lean`).

`sortCallback_isStrictWeakOrder_iff` says for which fields, and for which data, the
comparison is a strict weak order.
-/

namespace VaeDb.Response

open LexOrder

/-! ## The `order` option -/

/-- `Response::SortType`. -/
inductive SortType
  | none
  | reverse
  | shuffle
  | specific
  deriving DecidableEq

/-- `Response::SortOrder`. -/
inductive SortOrder
  | asc
  | desc
  deriving DecidableEq

/-- `Response::SortField`. -/
structure SortField where
  field : Str
  count : Bool
  direction : SortOrder
  deriving DecidableEq

/-- A text without its letter case. -/
def caseless (s : Str) : Str := s.map Char.toLower

/-- A C string ends at the first zero byte. -/
def cString (s : Str) : Str := s.takeWhile (· ≠ Char.ofNat 0)

theorem cString_eq_self {s : Str} (h : Char.ofNat 0 ∉ s) : cString s = s := by
  apply List.takeWhile_eq_self_iff.2
  intro c hc
  rw [decide_eq_true_iff]
  rintro rfl
  exact h hc

/-- The characters of `[.@A-Za-z0-9_()\/]`. -/
def isFieldChar (c : Char) : Bool := c.isAlphanum || c ∈ (".@_()/" : Str)

/-- A full match of `name\(([.@A-Za-z0-9_()\/]+)\)`, caseless: what is between the brackets. -/
def bracketed (name text : Str) : Option Str :=
  let opening := name ++ ("(" : Str)
  if caseless (text.take opening.length) = caseless opening ∧ text.getLast? = some ')' then
    let inner := (text.drop opening.length).dropLast
    if inner ≠ [] ∧ inner.all isFieldChar then some inner else none
  else none

/-- Replace the first `REVERSE(`, in any letter case, by `DESC(`. -/
def replaceReverse : Str → Str
  | [] => []
  | c :: cs =>
      if caseless ((c :: cs).take 8) = caseless "REVERSE(" then
        ("DESC(" : Str) ++ (c :: cs).drop 8
      else c :: replaceReverse cs

/-- The field that one term of the option stands for. -/
def sortField (term : Str) : SortField :=
  let (field, direction) :=
    match bracketed "DESC" term with
    | some inner => (inner, SortOrder.desc)
    | none => (term, SortOrder.asc)
  match bracketed "COUNT" field with
  | some inner => { field := inner, count := true, direction }
  | none => { field, count := false, direction }

/-- How the constructor of `Response` reads the `order` option. -/
def readOrder : Option Str → SortType × List SortField
  | none => (.none, [])
  | some order =>
      if order = [] then (.none, [])
      else
        let order := replaceReverse order
        if caseless (cString order) = caseless "DESC()" then (.reverse, [])
        else if caseless (cString order) = caseless "RAND()" then (.shuffle, [])
        else (.specific, (split "," order).map sortField)

/-! ## `sortCallback` -/

/-- What the comparison reads of the Contexts. -/
structure Contexts (α : Type) where
  getId : α → ℤ
  getCount : α → Str → ℤ
  getData : α → Str → Str

/-- `if (direction == Desc) comp = !comp`. -/
def SortField.directed (it : SortField) (comp : Bool) : Bool :=
  if it.direction = .desc then !comp else comp

/-- `field == "id"`. -/
def SortField.isId (it : SortField) : Bool := it.field = ("id" : Str)

variable {α : Type} (contexts : Contexts α)

/-- `Response::sortCallback`, the loop over the sort fields. -/
def sortCallback (lhs rhs : α) : List SortField → Bool
  | [] => false
  | it :: rest =>
      if it.isId then
        it.directed (contexts.getId lhs < contexts.getId rhs)
      else if it.count then
        let lcount := contexts.getCount lhs it.field
        let rcount := contexts.getCount rhs it.field
        if lcount = rcount then sortCallback lhs rhs rest
        else it.directed (lcount < rcount)
      else
        let icomp :=
          strCompareNat (contexts.getData lhs it.field) (contexts.getData rhs it.field)
        if icomp = 0 then sortCallback lhs rhs rest
        else it.directed (icomp > 0)

/-- The relation that `std::sort` is given. -/
def Before (fields : List SortField) (lhs rhs : α) : Prop :=
  sortCallback contexts lhs rhs fields = true

/-! ## Conditions on the fields and on the data -/

/-- The fields that are looked at before a field `id` decides. -/
def fieldsBeforeId (fields : List SortField) : List SortField :=
  fields.takeWhile fun it => !it.isId

/-- If there is a field `id`, the first one is not `DESC`. -/
def IdAscending (fields : List SortField) : Prop :=
  ∀ it, fields.find? SortField.isId = some it → it.direction = .asc

/-- No data field is looked at. -/
def OnlyCounts (fields : List SortField) : Prop :=
  ∀ it ∈ fieldsBeforeId fields, it.count = true

/-- Numbers at the same place in two texts that are compared are equal or at least `eps`
apart. -/
def NumbersApart (fields : List SortField) : Prop :=
  ∀ it ∈ fieldsBeforeId fields, it.count = false → ∀ a b,
    Apart (naturalKey (contexts.getData a it.field)) (naturalKey (contexts.getData b it.field))

/-! ## A field that compares keys -/

/-- Keys in the direction of a field. -/
def KeyBefore {β : Type*} [LinearOrder β] (it : SortField) (key : α → β) (a b : α) : Prop :=
  if it.direction = .desc then key b < key a else key a < key b

theorem weak_keyBefore {β : Type*} [LinearOrder β] (it : SortField) (key : α → β) :
    Weak (KeyBefore it key) := by
  unfold KeyBefore
  by_cases hdesc : it.direction = .desc
  · simp only [if_pos hdesc]
    exact (weak_key key).swap
  · simp only [if_neg hdesc]
    exact weak_key key

/-- A field that compares keys, and leaves what it does not decide to the others. -/
theorem directed_iff_lex {β : Type*} [LinearOrder β] (it : SortField) (key : α → β)
    (rest : α → α → Prop) {a b : α} {undecided : Prop} [Decidable undecided]
    {comp next : Bool} (hundecided : undecided ↔ key a = key b)
    (hcomp : comp = true ↔ key a < key b) (hnext : next = true ↔ rest a b) :
    (if undecided then next else it.directed comp) = true ↔ lex (KeyBefore it key) rest a b := by
  unfold lex KeyBefore SortField.directed
  rcases lt_trichotomy (key a) (key b) with hlt | heq | hgt
  · rw [if_neg fun h => hlt.ne (hundecided.1 h), hcomp.2 hlt]
    by_cases hdesc : it.direction = .desc <;> simp [hdesc, hlt, lt_asymm hlt]
  · rw [if_pos (hundecided.2 heq), hnext]
    by_cases hdesc : it.direction = .desc <;> simp [hdesc, heq]
  · have hnot : comp = false := by
      rw [Bool.eq_false_iff]
      exact fun h => lt_asymm hgt (hcomp.1 h)
    rw [if_neg fun h => hgt.ne' (hundecided.1 h), hnot]
    by_cases hdesc : it.direction = .desc <;> simp [hdesc, hgt, lt_asymm hgt]

variable {contexts} {fields : List SortField} {it : SortField} {rest : List SortField}

theorem before_id (hid : it.isId = true) (hasc : it.direction = .asc) :
    Before contexts (it :: rest) = fun a b => contexts.getId a < contexts.getId b := by
  funext a b
  simp [Before, sortCallback, hid, SortField.directed, hasc]

theorem before_count (hid : it.isId = false) (hcount : it.count = true) :
    Before contexts (it :: rest) =
      lex (KeyBefore it fun a => contexts.getCount a it.field) (Before contexts rest) := by
  funext a b
  simp only [Before, sortCallback, hid, hcount, Bool.false_eq_true, if_false, if_true]
  exact propext (directed_iff_lex it (fun a => contexts.getCount a it.field) _ Iff.rfl
    decide_eq_true_iff Iff.rfl)

theorem before_data (hid : it.isId = false) (hcount : it.count = false)
    (hapart : ∀ a b, Apart (naturalKey (contexts.getData a it.field))
      (naturalKey (contexts.getData b it.field))) :
    Before contexts (it :: rest) =
      lex (KeyBefore it fun a => naturalKey (contexts.getData a it.field))
        (Before contexts rest) := by
  funext a b
  simp only [Before, sortCallback, hid, hcount, Bool.false_eq_true, if_false,
    strCompareNat_eq (hapart a b).toDecide]
  exact propext (directed_iff_lex it (fun a => naturalKey (contexts.getData a it.field)) _
    orderSign_eq_zero (decide_eq_true_iff.trans orderSign_pos) Iff.rfl)

/-! ## Fields one after the other -/

theorem IdAscending.tail (h : IdAscending (it :: rest)) (hid : it.isId = false) :
    IdAscending rest := by
  intro found hfound
  exact h found (by rw [List.find?_cons_of_neg (by simp [hid])]; exact hfound)

theorem fieldsBeforeId_cons (hid : it.isId = false) :
    fieldsBeforeId (it :: rest) = it :: fieldsBeforeId rest :=
  List.takeWhile_cons_of_pos (by simp [hid])

/-- Without `DESC` on the first `id`, and with numbers apart, the fields are compared one
after the other by keys. -/
theorem weak_before (hid : IdAscending fields) (hapart : NumbersApart contexts fields) :
    Weak (Before contexts fields) := by
  induction fields with
  | nil =>
      have hnone : Before contexts [] = fun _ _ => False := by
        funext a b
        simp [Before, sortCallback]
      rw [hnone]
      exact weak_false
  | cons it rest ih =>
      cases hfield : it.isId with
      | true =>
          rw [before_id hfield (hid it (List.find?_cons_of_pos hfield))]
          exact weak_key contexts.getId
      | false =>
          have hbefore : fieldsBeforeId (it :: rest) = it :: fieldsBeforeId rest :=
            fieldsBeforeId_cons hfield
          have hrest : Weak (Before contexts rest) := by
            refine ih (hid.tail hfield) fun found hfound => ?_
            exact hapart found (hbefore ▸ List.mem_cons_of_mem _ hfound)
          cases hcount : it.count with
          | true =>
              rw [before_count hfield hcount]
              exact (weak_keyBefore it _).lex hrest
          | false =>
              rw [before_data hfield hcount
                (hapart it (hbefore ▸ List.mem_cons_self ..) hcount)]
              exact (weak_keyBefore it _).lex hrest

/-! ## What goes wrong -/

/-- With `DESC` on the first `id` every Context comes before itself. -/
theorem before_self (hid : fields.find? SortField.isId = some it)
    (hdesc : it.direction = .desc) (a : α) : Before contexts fields a a := by
  unfold Before
  induction fields with
  | nil => cases hid
  | cons first rest ih =>
      cases hfield : first.isId with
      | true =>
          rw [List.find?_cons_of_pos hfield] at hid
          obtain rfl := Option.some.inj hid
          simp [sortCallback, hfield, SortField.directed, hdesc]
      | false =>
          rw [List.find?_cons_of_neg (by simp [hfield])] at hid
          simp [sortCallback, hfield, strCompareNat_self, ih hid]

/-- Contexts that are told apart by their data only. -/
def dataOnly : Contexts Str where
  getId := fun _ => 0
  getCount := fun _ _ => 0
  getData := fun data _ => data

/-- Equal data leaves everything undecided. -/
theorem not_before_dataOnly (hid : IdAscending fields) {a b : Str}
    (hequal : strCompareNat a b = 0) : ¬ Before dataOnly fields a b := by
  unfold Before
  induction fields with
  | nil => simp [sortCallback]
  | cons it rest ih =>
      cases hfield : it.isId with
      | true =>
          have hasc := hid it (List.find?_cons_of_pos hfield)
          simp [sortCallback, hfield, SortField.directed, hasc, dataOnly]
      | false =>
          simpa [sortCallback, hfield, dataOnly, hequal] using ih (hid.tail hfield)

/-- A data field decides between different data, one way or the other. -/
theorem before_dataOnly (hdata : ¬ OnlyCounts fields) {a b : Str}
    (hab : strCompareNat a b = 1) (hba : strCompareNat b a = -1) :
    Before dataOnly fields a b ∨ Before dataOnly fields b a := by
  unfold Before
  induction fields with
  | nil => exact absurd (by simp [OnlyCounts, fieldsBeforeId]) hdata
  | cons it rest ih =>
      cases hfield : it.isId with
      | true => exact absurd (by simp [OnlyCounts, fieldsBeforeId, hfield]) hdata
      | false =>
          cases hcount : it.count with
          | true =>
              have hrest : ¬ OnlyCounts rest := by
                intro hrest
                apply hdata
                intro found hfound
                rw [fieldsBeforeId_cons hfield] at hfound
                rcases List.mem_cons.1 hfound with rfl | hfound
                · exact hcount
                · exact hrest found hfound
              simpa [sortCallback, hfield, hcount, dataOnly] using ih hrest
          | false =>
              simp only [sortCallback, hfield, hcount, dataOnly, hab, hba]
              unfold SortField.directed
              cases it.direction <;> simp

/-- For which fields `sortCallback` is a strict weak order: for Contexts whose numbers are
apart, exactly if the first `id` is not `DESC`; for all Contexts, exactly if moreover no data
field comes before it. -/
theorem sortCallback_isStrictWeakOrder_iff (fields : List SortField) :
    (∀ (α : Type) [Nonempty α] (contexts : Contexts α), NumbersApart contexts fields →
      (IsStrictWeakOrder α (Before contexts fields) ↔ IdAscending fields)) ∧
    ((∀ (α : Type) (contexts : Contexts α), IsStrictWeakOrder α (Before contexts fields)) ↔
      IdAscending fields ∧ OnlyCounts fields) := by
  have hascending : ∀ (α : Type) [Nonempty α] (contexts : Contexts α),
      IsStrictWeakOrder α (Before contexts fields) → IdAscending fields := by
    intro α hα contexts horder it hid
    cases hdirection : it.direction with
    | asc => rfl
    | desc =>
        obtain ⟨a⟩ := hα
        exact absurd (before_self hid hdirection a) (horder.irrefl a)
  refine ⟨fun α _ contexts hapart => ⟨hascending α contexts, fun hid =>
    (weak_before hid hapart).isStrictWeakOrder⟩, fun horder => ?_,
    fun ⟨hid, hcounts⟩ α contexts => ?_⟩
  · have hid : IdAscending fields := hascending Str dataOnly (horder Str dataOnly)
    refine ⟨hid, ?_⟩
    by_contra hdata
    obtain ⟨h01, h10, h12, h21, h02, h20⟩ := strCompareNat_intransitive
    have hincomparable := (horder Str dataOnly).incomp_trans _ _ _
      ⟨not_before_dataOnly hid h01, not_before_dataOnly hid h10⟩
      ⟨not_before_dataOnly hid h12, not_before_dataOnly hid h21⟩
    rcases before_dataOnly hdata h02 h20 with hbefore | hbefore
    · exact hincomparable.1 hbefore
    · exact hincomparable.2 hbefore
  · refine (weak_before hid fun it hit hdata => ?_).isStrictWeakOrder
    rw [hcounts it hit] at hdata
    cases hdata

/-- Two records with a price. -/
def twoPrices : Contexts Bool where
  getId := fun _ => 0
  getCount := fun _ _ => 0
  getData := fun expensive _ => if expensive then "10" else "9"

/-- Prices that are apart can be sorted by, in both directions. -/
theorem sortCallback_isStrictWeakOrder_iff_prices :
    NumbersApart twoPrices (readOrder (some "DESC(price)")).2 ∧
      IsStrictWeakOrder Bool (Before twoPrices (readOrder (some "DESC(price)")).2) := by
  have hfields : (readOrder (some "DESC(price)")).2 = [⟨"price", false, .desc⟩] := by decide
  rw [hfields]
  have hkey : ∀ expensive, naturalKey (twoPrices.getData expensive "price") =
      [toLex ([], ⊥), toLex ([], ((if expensive then 10 else 9 : ℚ) : WithBot ℚ)),
        toLex ([], ⊥)] := by decide +kernel
  have hapart : NumbersApart twoPrices [⟨"price", false, .desc⟩] := by
    intro it hit _ a b
    obtain rfl := List.mem_singleton.1 hit
    rw [hkey, hkey]
    refine ⟨fun d1 _ hd1 _ => (WithBot.bot_ne_coe hd1).elim, fun d1 d2 hd1 hd2 => ?_,
      fun d1 _ hd1 _ => (WithBot.bot_ne_coe hd1).elim, trivial⟩
    obtain rfl := WithBot.coe_injective hd1
    obtain rfl := WithBot.coe_injective hd2
    cases a <;> cases b <;> norm_num [eps]
  have hascending : IdAscending [⟨"price", false, .desc⟩] := by
    intro it hit
    cases hit
  exact ⟨hapart, ((sortCallback_isStrictWeakOrder_iff _).1 Bool twoPrices hapart).2 hascending⟩

/-- The option `DESC(id)` is read as a field that puts a Context before itself. -/
theorem sortCallback_desc_id :
    readOrder (some "DESC(id)") = (.specific, [⟨"id", false, .desc⟩]) ∧
      ¬ IsStrictWeakOrder Str (Before dataOnly [⟨"id", false, .desc⟩]) := by
  refine ⟨by decide, fun horder => ?_⟩
  exact horder.irrefl ("" : Str) rfl

end VaeDb.Response
