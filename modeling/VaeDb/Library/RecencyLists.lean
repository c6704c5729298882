import Mathlib.Algebra.GroupWithZero.Nat
import Mathlib.Algebra.Order.BigOperators.Group.Finset
import Mathlib.Algebra.Order.BigOperators.Group.List
import Mathlib.Data.List.Infix

/-!
# Least recently used

A cache that keeps what was used last is a list of entries with different keys, the last used
first.  A use moves an entry to the front; a new entry goes to the front, and then entries go
from the end as long as what is left does not fit.

* `begins_trim` : what is left are the longest first entries that fit.
* `value?_foldl_apply` : an entry stays as long as it fits together with all that have been put
  or used after it.
-/

namespace RecencyLists

/-! ## Trimming -/

section

variable {α : Type*} {fits : List α → Bool} {list front : List α}

/-- Of a list that is given from its end, the longest first elements that fit. -/
def trimEnd (fits : List α → Bool) : List α → List α
  | [] => []
  | a :: rest => if fits (a :: rest).reverse then (a :: rest).reverse else trimEnd fits rest

/-- The longest first elements that fit. -/
def trim (fits : List α → Bool) (list : List α) : List α := trimEnd fits list.reverse

@[simp] theorem trim_nil : trim fits [] = [] := rfl

theorem trim_concat (a : α) :
    trim fits (list ++ [a]) = if fits (list ++ [a]) then list ++ [a] else trim fits list := by
  unfold trim
  rw [List.reverse_append, List.reverse_singleton, List.singleton_append, trimEnd,
    List.reverse_cons, List.reverse_reverse]

theorem trim_of_fits (h : fits list) : trim fits list = list := by
  cases list using List.reverseRecOn with
  | nil => rfl
  | append_singleton front a => rw [trim_concat, if_pos h]

theorem trim_begins : trim fits list <+: list := by
  induction list using List.reverseRecOn with
  | nil => exact List.prefix_rfl
  | append_singleton front a ih =>
      rw [trim_concat]
      split
      · exact List.prefix_rfl
      · exact ih.trans (List.prefix_append ..)

theorem fits_trim (hnil : fits []) : fits (trim fits list) := by
  induction list using List.reverseRecOn with
  | nil => exact hnil
  | append_singleton front a ih =>
      rw [trim_concat]
      split
      · assumption
      · exact ih

/-- No longer beginning fits. -/
theorem begins_trim (h : front <+: list) (hfits : fits front) : front <+: trim fits list := by
  induction list using List.reverseRecOn with
  | nil => exact h
  | append_singleton rest a ih =>
      rw [trim_concat]
      split
      · exact h
      · next hlong =>
        rcases List.prefix_concat_iff.1 h with rfl | hshort
        · exact absurd hfits hlong
        · exact ih hshort

end

/-! ## Entries -/

variable {Key Value : Type*} [DecidableEq Key]

/-- The value under a key. -/
def value? (entries : List (Key × Value)) (key : Key) : Option Value :=
  (entries.find? fun entry => entry.1 = key).map Prod.snd

/-- The entries with other keys. -/
def others (key : Key) (entries : List (Key × Value)) : List (Key × Value) :=
  entries.filter fun entry => entry.1 ≠ key

/-- The entry with a key, if there is one. -/
def own (key : Key) (entries : List (Key × Value)) : List (Key × Value) :=
  entries.filter fun entry => entry.1 = key

/-- What can be done to a cache. -/
inductive Change (Key Value : Type*)
  | clear
  | remove (key : Key)
  | use (key : Key)
  | put (key : Key) (value : Value)

/-- Do it. -/
def apply (fits : List (Key × Value) → Bool) (entries : List (Key × Value)) :
    Change Key Value → List (Key × Value)
  | .clear => []
  | .remove key => others key entries
  | .use key => own key entries ++ others key entries
  | .put key value => trim fits ((key, value) :: others key entries)

/-- All keys are different. -/
def Distinct (entries : List (Key × Value)) : Prop := (entries.map Prod.fst).Nodup

variable {fits : List (Key × Value) → Bool} {entries front back : List (Key × Value)} {key : Key}
  {value : Value} {entry : Key × Value}

theorem mem_others : entry ∈ others key entries ↔ entry ∈ entries ∧ entry.1 ≠ key := by
  simp [others]

theorem mem_own : entry ∈ own key entries ↔ entry ∈ entries ∧ entry.1 = key := by
  simp [own]

theorem others_append : others key (front ++ back) = others key front ++ others key back :=
  List.filter_append ..

theorem others_cons_of_ne {k : Key} (h : k ≠ key) :
    others key ((k, value) :: entries) = (k, value) :: others key entries :=
  List.filter_cons_of_pos (by simpa using h)

theorem Distinct.others (h : Distinct entries) : Distinct (others key entries) :=
  h.sublist (List.filter_sublist.map _)

omit [DecidableEq Key] in
theorem Distinct.trim (h : Distinct entries) : Distinct (trim fits entries) :=
  h.sublist (trim_begins.sublist.map _)

theorem Distinct.cons_others (h : Distinct entries) :
    Distinct ((key, value) :: RecencyLists.others key entries) := by
  refine List.nodup_cons.2 ⟨fun hmem => ?_, h.others⟩
  obtain ⟨entry, hentry, hkey⟩ := List.mem_map.1 hmem
  exact (mem_others.1 hentry).2 hkey

/-- With different keys, the entry with a key is one. -/
theorem Distinct.own_eq (h : Distinct (front ++ (key, value) :: back)) :
    own key (front ++ (key, value) :: back) = [(key, value)] := by
  have hparts : ((front ++ (key, value) :: back).map Prod.fst).Nodup := h
  rw [List.map_append, List.map_cons, List.nodup_append] at hparts
  obtain ⟨hkey, -⟩ := List.nodup_cons.1 hparts.2.1
  have hnone : ∀ {list : List (Key × Value)}, key ∉ list.map Prod.fst → own key list = [] :=
    fun hnotin => List.filter_eq_nil_iff.2 fun entry hentry hsame =>
      hnotin (List.mem_map.2 ⟨entry, hentry, of_decide_eq_true hsame⟩)
  have hfront : own key front = [] := hnone fun hmem =>
    hparts.2.2 key hmem key (List.mem_cons_self ..) rfl
  have hback : own key back = [] := hnone hkey
  unfold own at hfront hback ⊢
  rw [List.filter_append, hfront, List.nil_append,
    List.filter_cons_of_pos (by simp), hback]

theorem Distinct.apply (h : Distinct entries) (change : Change Key Value) :
    Distinct (RecencyLists.apply fits entries change) := by
  cases change with
  | clear => exact List.nodup_nil
  | remove key => exact h.others
  | put key value => exact h.cons_others.trim
  | use key =>
      have hperm : (own key entries ++ RecencyLists.others key entries).Perm entries := by
        unfold own RecencyLists.others
        simpa using List.filter_append_perm (fun entry => decide (entry.1 = key)) entries
      exact (hperm.map Prod.fst).nodup_iff.2 h

theorem value?_eq_some (h : Distinct entries) :
    value? entries key = some value ↔ (key, value) ∈ entries := by
  unfold value?
  constructor
  · intro hfind
    obtain ⟨entry, hfound, rfl⟩ := Option.map_eq_some_iff.1 hfind
    have hkey : entry.1 = key := by simpa using List.find?_some hfound
    exact hkey ▸ List.mem_of_find?_eq_some hfound
  · intro hmem
    cases hfind : entries.find? fun entry => entry.1 = key with
    | none => simpa using List.find?_eq_none.1 hfind _ hmem
    | some found =>
        have hkey : found.1 = key := by simpa using List.find?_some hfind
        have hsame : found = (key, value) :=
          List.inj_on_of_nodup_map h (List.mem_of_find?_eq_some hfind) hmem hkey
        rw [hsame]
        rfl

/-! ## What stays -/

/-- The keys that are put or used. -/
def Change.used : Change Key Value → List Key
  | .use key => [key]
  | .put key _ => [key]
  | _ => []

/-- The change does not take an entry away, nor its value. -/
def Change.Leaves (key : Key) : Change Key Value → Prop
  | .clear => False
  | .remove other => other ≠ key
  | .use _ => True
  | .put other _ => other ≠ key

/-- How much entries take. -/
def weight (size : Value → ℕ) (entries : List (Key × Value)) : ℕ :=
  (entries.map fun entry => size entry.2).sum

/-- No entry takes more than its key may. -/
def Bounded (size : Value → ℕ) (bound : Key → ℕ) (entries : List (Key × Value)) : Prop :=
  ∀ entry ∈ entries, size entry.2 ≤ bound entry.1

section

variable {size : Value → ℕ} {bound : Key → ℕ} {limit : ℕ} {keys : List Key}

/-- Entries with different keys take no more than these keys may. -/
theorem weight_le (hdistinct : Distinct entries) (hbounded : Bounded size bound entries)
    (hkeys : ∀ entry ∈ entries, entry.1 ∈ keys) :
    weight size entries ≤ ∑ key ∈ keys.toFinset, bound key := by
  calc weight size entries
      ≤ (entries.map fun entry => bound entry.1).sum := List.sum_le_sum hbounded
    _ = ((entries.map Prod.fst).map bound).sum := by rw [List.map_map]; rfl
    _ = ∑ key ∈ (entries.map Prod.fst).toFinset, bound key :=
        (List.sum_toFinset bound hdistinct).symm
    _ ≤ ∑ key ∈ keys.toFinset, bound key := by
        refine Finset.sum_le_sum_of_subset fun key hkey => ?_
        obtain ⟨entry, hentry, rfl⟩ := List.mem_map.1 (List.mem_toFinset.1 hkey)
        exact List.mem_toFinset.2 (hkeys entry hentry)

/-- An entry, behind entries with some of the keys that were put or used after it. -/
structure Behind (size : Value → ℕ) (bound : Key → ℕ) (key : Key) (value : Value)
    (keys : List Key) (entries : List (Key × Value)) : Prop where
  distinct : Distinct entries
  bounded : Bounded size bound entries
  split : ∃ front back, entries = front ++ (key, value) :: back ∧
    ∀ entry ∈ front, entry.1 ∈ keys

omit [DecidableEq Key] in
theorem Behind.mem (h : Behind size bound key value keys entries) : (key, value) ∈ entries := by
  obtain ⟨front, back, rfl, -⟩ := h.split
  simp

theorem bounded_apply (h : Bounded size bound entries) {change : Change Key Value}
    (hput : ∀ key value, change = .put key value → size value ≤ bound key) :
    Bounded size bound (apply fits entries change) := by
  cases change with
  | clear => exact fun entry hentry => by cases hentry
  | remove key => exact fun entry hentry => h entry (mem_others.1 hentry).1
  | use key =>
      intro entry hentry
      rcases List.mem_append.1 hentry with hown | hother
      · exact h entry (mem_own.1 hown).1
      · exact h entry (mem_others.1 hother).1
  | put key value =>
      intro entry hentry
      rcases List.mem_cons.1 (trim_begins.mem hentry) with rfl | hother
      · exact hput key value rfl
      · exact h entry (mem_others.1 hother).1

/-- One change. -/
theorem Behind.apply (h : Behind size bound key value keys entries) {change : Change Key Value}
    (hleaves : change.Leaves key)
    (hput : ∀ key value, change = .put key value → size value ≤ bound key)
    (hfits : ∀ entries, weight size entries ≤ limit → fits entries)
    (hsmall : ∑ k ∈ (key :: (keys ++ change.used)).toFinset, bound k ≤ limit) :
    Behind size bound key value (keys ++ change.used) (apply fits entries change) := by
  have hdistinct := h.distinct
  have hbounded := h.bounded
  obtain ⟨front, back, rfl, hkeys⟩ := h.split
  refine ⟨hdistinct.apply change, bounded_apply hbounded hput, ?_⟩
  cases change with
  | clear => exact absurd hleaves id
  | remove other =>
      refine ⟨others other front, others other back, ?_, fun entry hentry => ?_⟩
      · show others other (front ++ (key, value) :: back) = _
        rw [others_append, others_cons_of_ne hleaves.symm]
      · exact List.mem_append_left _ (hkeys entry (mem_others.1 hentry).1)
  | use other =>
      by_cases hsame : other = key
      · subst hsame
        refine ⟨[], others other (front ++ (other, value) :: back), ?_, fun entry hentry => ?_⟩
        · show own other _ ++ others other _ = _
          rw [hdistinct.own_eq]
          rfl
        · cases hentry
      · refine ⟨own other (front ++ (key, value) :: back) ++ others other front,
          others other back, ?_, fun entry hentry => ?_⟩
        · show own other _ ++ others other _ = _
          rw [others_append, others_cons_of_ne (Ne.symm hsame), List.append_assoc]
        · rcases List.mem_append.1 hentry with hown | hother
          · exact List.mem_append_right _ (List.mem_singleton.2 (mem_own.1 hown).2)
          · exact List.mem_append_left _ (hkeys entry (mem_others.1 hother).1)
  | put other new =>
      let ahead := (other, new) :: others other front
      have hlist : (other, new) :: others other (front ++ (key, value) :: back) =
          ahead ++ (key, value) :: others other back := by
        rw [others_append, others_cons_of_ne hleaves.symm]
        rfl
      have hahead : ∀ entry ∈ ahead, entry.1 ∈ keys ++ [other] := by
        intro entry hentry
        rcases List.mem_cons.1 hentry with rfl | hother
        · simp
        · exact List.mem_append_left _ (hkeys entry (mem_others.1 hother).1)
      have hbegin : ahead ++ [(key, value)] <+:
          (other, new) :: others other (front ++ (key, value) :: back) := by
        rw [hlist, ← List.singleton_append (l := others other back), ← List.append_assoc]
        exact List.prefix_append ..
      have hdistinct' : Distinct (ahead ++ [(key, value)]) :=
        hdistinct.cons_others.sublist (hbegin.sublist.map _)
      have hbounded' : Bounded size bound (ahead ++ [(key, value)]) := by
        intro entry hentry
        rcases List.mem_cons.1 (hbegin.mem hentry) with rfl | hold
        · exact hput other new rfl
        · exact hbounded entry (mem_others.1 hold).1
      have hkeys' : ∀ entry ∈ ahead ++ [(key, value)], entry.1 ∈ key :: (keys ++ [other]) := by
        intro entry hentry
        rcases List.mem_append.1 hentry with hentry | hentry
        · exact List.mem_cons_of_mem _ (hahead entry hentry)
        · rw [List.mem_singleton.1 hentry]
          exact List.mem_cons_self ..
      have hweight : weight size (ahead ++ [(key, value)]) ≤ limit :=
        (weight_le hdistinct' hbounded' hkeys').trans hsmall
      obtain ⟨rest, hrest⟩ := begins_trim hbegin (hfits _ hweight)
      refine ⟨ahead, rest, ?_, hahead⟩
      show trim fits ((other, new) :: others other (front ++ (key, value) :: back)) = _
      rw [← hrest, List.append_assoc]
      rfl

/-- An entry stays, with its value, as long as it fits together with all that have been put or
used after it. -/
theorem value?_foldl_apply {changes : List (Change Key Value)}
    (hbehind : Behind size bound key value keys entries)
    (hleaves : ∀ change ∈ changes, change.Leaves key)
    (hput : ∀ key value, .put key value ∈ changes → size value ≤ bound key)
    (hfits : ∀ entries, weight size entries ≤ limit → fits entries)
    (hsmall : ∑ k ∈ (key :: (keys ++ changes.flatMap Change.used)).toFinset, bound k ≤ limit) :
    value? (changes.foldl (apply fits) entries) key = some value := by
  induction changes generalizing keys entries with
  | nil => exact (value?_eq_some hbehind.distinct).2 hbehind.mem
  | cons change rest ih =>
      rw [List.flatMap_cons, ← List.append_assoc] at hsmall
      refine ih (hbehind.apply (hleaves change (List.mem_cons_self ..)) ?_ hfits ?_)
        (fun other hother => hleaves other (List.mem_cons_of_mem _ hother))
        (fun k v hmem => hput k v (List.mem_cons_of_mem _ hmem)) hsmall
      · exact fun k v hsame => hput k v (hsame ▸ List.mem_cons_self ..)
      · refine le_trans (Finset.sum_le_sum_of_subset fun k hk => ?_) hsmall
        simp only [List.toFinset_cons, List.toFinset_append, Finset.mem_insert,
          Finset.mem_union, List.mem_toFinset] at hk ⊢
        tauto

end

end RecencyLists
