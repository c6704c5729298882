import Mathlib.Data.Nat.Notation
import Mathlib.Order.Lattice
import VaeDb.Library.KeyedList

/-!
# Maps in the order of their keys

A map is the list of its entries, with keys that increase strictly, as a loop over it meets
them.  Seen through `find` it is a partial function, and that is how its operations are
characterised:

* `assign` puts a value under a key, whatever was there;
* `insert` does so only if the key is free;
* `erase` drops the entry of a key.

Up to the order of the entries, `assign` is a new entry next to what `erase` leaves
(`assign_perm`), which is what counts over the entries need.
-/

/-- The entries of a map, in the order of their keys. -/
structure OrderedMap (Key Value : Type*) [LinearOrder Key] where
  entries : List (Key × Value)
  sorted : entries.Pairwise fun a b => a.1 < b.1

namespace OrderedMap

variable {Key Value : Type*} [LinearOrder Key]

/-- The map without entries. -/
def empty : OrderedMap Key Value := ⟨[], List.Pairwise.nil⟩

/-- The value under a key. -/
def find (map : OrderedMap Key Value) (k : Key) : Option Value :=
  (map.entries.find? fun entry => entry.1 = k).map Prod.snd

/-- Drop the entry of a key. -/
def erase (map : OrderedMap Key Value) (k : Key) : OrderedMap Key Value where
  entries := map.entries.filter fun entry => entry.1 ≠ k
  sorted := map.sorted.sublist List.filter_sublist

/-- The entries with a value under a key, put where the order wants it. -/
def put (k : Key) (v : Value) : List (Key × Value) → List (Key × Value)
  | [] => [(k, v)]
  | entry :: rest =>
      if k < entry.1 then (k, v) :: entry :: rest
      else if k = entry.1 then (k, v) :: rest
      else entry :: put k v rest

/-- What is not the entry of the key stays, and one entry is new. -/
theorem put_perm (k : Key) (v : Value) {entries : List (Key × Value)}
    (hsorted : entries.Pairwise fun a b => a.1 < b.1) :
    (put k v entries).Perm ((k, v) :: entries.filter fun entry => entry.1 ≠ k) := by
  induction entries with
  | nil => exact List.Perm.refl _
  | cons entry rest ih =>
      have hrest : rest.Pairwise fun a b => a.1 < b.1 := hsorted.of_cons
      have hafter : ∀ other ∈ rest, entry.1 < other.1 :=
        fun _ hother => List.rel_of_pairwise_cons hsorted hother
      -- no entry behind one whose key is not smaller has the key
      have hkeep : k ≤ entry.1 → rest.filter (fun entry => entry.1 ≠ k) = rest := by
        intro hle
        refine List.filter_eq_self.2 fun other hother => ?_
        have hne : other.1 ≠ k := (lt_of_le_of_lt hle (hafter other hother)).ne'
        simpa using hne
      unfold put
      split
      · next hlt =>
        have hne : entry.1 ≠ k := hlt.ne'
        rw [List.filter_cons_of_pos (by simpa using hne), hkeep hlt.le]
      · split
        · next heq =>
          rw [List.filter_cons_of_neg (by simp [heq]), hkeep heq.le]
        · next hne =>
          have hne' : entry.1 ≠ k := fun heq => hne heq.symm
          rw [List.filter_cons_of_pos (by simpa using hne')]
          exact ((ih hrest).cons entry).trans (List.Perm.swap _ _ _)

/-- A strict order is kept by any new entry. -/
theorem put_sorted (k : Key) (v : Value) {entries : List (Key × Value)}
    (hsorted : entries.Pairwise fun a b => a.1 < b.1) :
    (put k v entries).Pairwise fun a b => a.1 < b.1 := by
  induction entries with
  | nil => exact List.pairwise_singleton _ _
  | cons entry rest ih =>
      have hrest : rest.Pairwise fun a b => a.1 < b.1 := hsorted.of_cons
      have hafter : ∀ other ∈ rest, entry.1 < other.1 :=
        fun _ hother => List.rel_of_pairwise_cons hsorted hother
      unfold put
      split
      · next hlt =>
        refine List.pairwise_cons.2 ⟨fun other hother => ?_, hsorted⟩
        rcases List.mem_cons.1 hother with rfl | hother
        · exact hlt
        · exact hlt.trans (hafter other hother)
      · split
        · next heq =>
          exact List.pairwise_cons.2 ⟨fun other hother => heq ▸ hafter other hother, hrest⟩
        · next hnot hne =>
          have hlt : entry.1 < k := lt_of_le_of_ne (not_lt.1 hnot) fun heq => hne heq.symm
          refine List.pairwise_cons.2 ⟨fun other hother => ?_, ih hrest⟩
          rcases List.mem_cons.1 ((put_perm k v hrest).mem_iff.1 hother) with rfl | hother
          · exact hlt
          · exact hafter other (List.mem_filter.1 hother).1

/-- `map[k] = v`. -/
def assign (map : OrderedMap Key Value) (k : Key) (v : Value) : OrderedMap Key Value where
  entries := put k v map.entries
  sorted := put_sorted k v map.sorted

/-- Add an entry, unless there is one with its key. -/
def insert (map : OrderedMap Key Value) (k : Key) (v : Value) : OrderedMap Key Value :=
  match map.find k with
  | some _ => map
  | none => map.assign k v

/-! ## The map as a partial function -/

variable {map : OrderedMap Key Value} {k k' : Key} {v v' : Value}

theorem nodup_keys (map : OrderedMap Key Value) : (map.entries.map Prod.fst).Nodup :=
  List.pairwise_map.2 (map.sorted.imp fun hlt => hlt.ne)

/-- Two entries with one key are one. -/
theorem eq_of_mem {entry other : Key × Value} (hentry : entry ∈ map.entries)
    (hother : other ∈ map.entries) (hkey : entry.1 = other.1) : entry = other :=
  List.inj_on_of_nodup_map map.nodup_keys hentry hother hkey

theorem find_eq_some : map.find k = some v ↔ (k, v) ∈ map.entries := by
  unfold find
  rw [Option.map_eq_some_iff]
  constructor
  · intro h
    obtain ⟨entry, hentry, rfl⟩ := h
    obtain ⟨hmem, rfl⟩ := (KeyedList.find?_eq_some map.nodup_keys).1 hentry
    exact hmem
  · intro hmem
    exact ⟨(k, v), (KeyedList.find?_eq_some map.nodup_keys).2 ⟨hmem, rfl⟩, rfl⟩

theorem find_eq_none : map.find k = none ↔ ∀ v, (k, v) ∉ map.entries := by
  rw [Option.eq_none_iff_forall_ne_some]
  exact forall_congr' fun v => not_congr find_eq_some

@[simp] theorem find_empty : (empty : OrderedMap Key Value).find k = none := rfl

theorem find_erase : (map.erase k).find k' = if k' = k then none else map.find k' := by
  refine Option.ext fun v => ?_
  rw [find_eq_some, erase, List.mem_filter, ← find_eq_some]
  by_cases hkey : k' = k
  · simp [hkey]
  · simp [hkey]

/-- The entries after an assignment. -/
theorem assign_perm : (map.assign k v).entries.Perm ((k, v) :: (map.erase k).entries) :=
  put_perm k v map.sorted

theorem find_assign : (map.assign k v).find k' = if k' = k then some v else map.find k' := by
  refine Option.ext fun v' => ?_
  rw [find_eq_some, assign_perm.mem_iff, List.mem_cons, ← find_eq_some, find_erase]
  by_cases hkey : k' = k
  · simp [hkey, eq_comm]
  · simp [hkey]

theorem find_insert : (map.insert k v).find k' =
    if k' = k then some ((map.find k).getD v) else map.find k' := by
  unfold insert
  cases hfind : map.find k with
  | none => exact find_assign
  | some found =>
      by_cases hkey : k' = k
      · simp [hkey, hfind]
      · simp [hkey]

/-- A key that is there has one entry, and the others are what `erase` leaves. -/
theorem perm_of_find (h : map.find k = some v) :
    map.entries.Perm ((k, v) :: (map.erase k).entries) := by
  exact KeyedList.perm_cons_filter map.nodup_keys (find_eq_some.1 h)

end OrderedMap
