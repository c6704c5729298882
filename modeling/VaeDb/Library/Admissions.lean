import Mathlib.Data.Finset.Card
import Mathlib.Data.List.Basic

/-!
# First in, first out

A cache of a bounded size that a hit leaves as it is holds the last keys that were admitted, and
admits a key that it does not hold.  `admitted size keys` are the keys that it has admitted while
`keys` were requested, the last one first; it holds the first `size` of them.

A key is held as long as fewer than `size` keys have been admitted after it
(`mem_take_admitted`).  Requests in between do not count: only if the key was admitted with its
last request, fewer than `size` other keys since then leave it in the cache
(`mem_take_of_admitted`).
-/

namespace Admissions

universe u

variable {Key : Type u} [DecidableEq Key] {size : ℕ} {key : Key} {keys past : List Key}

/-- A request. -/
def request (size : ℕ) (past : List Key) (key : Key) : List Key :=
  if key ∈ past.take size then past else key :: past

/-- The keys that were admitted, the last one first. -/
def admitted (size : ℕ) (keys : List Key) : List Key := keys.foldl (request size) []

theorem request_of_mem (h : key ∈ past.take size) : request size past key = past := if_pos h

theorem request_of_not_mem (h : key ∉ past.take size) : request size past key = key :: past :=
  if_neg h

theorem subset_request (size : ℕ) (past : List Key) (key : Key) : past ⊆ request size past key := by
  unfold request
  split
  · exact List.Subset.refl _
  · exact List.subset_cons_self ..

theorem mem_request (size : ℕ) (past : List Key) (key : Key) : key ∈ request size past key := by
  by_cases h : key ∈ past.take size
  · rw [request_of_mem h]
    exact List.mem_of_mem_take h
  · rw [request_of_not_mem h]
    exact List.mem_cons_self ..

/-- Every key that was requested has been admitted. -/
theorem subset_foldl_request (keys past : List Key) :
    past ⊆ keys.foldl (request size) past ∧ keys ⊆ keys.foldl (request size) past := by
  induction keys generalizing past with
  | nil => exact ⟨List.Subset.refl _, List.nil_subset _⟩
  | cons key keys ih =>
      obtain ⟨hpast, hkeys⟩ := ih (request size past key)
      refine ⟨fun k hk => hpast (subset_request size past key hk), fun k hk => ?_⟩
      rcases List.mem_cons.1 hk with rfl | hk
      · exact hpast (mem_request size past k)
      · exact hkeys hk

/-- What a requested key is held by: fewer than `size` admissions after its own. -/
theorem mem_take_admitted (hkey : key ∈ keys) :
    key ∈ (admitted size keys).take size ↔ (admitted size keys).idxOf key < size :=
  List.mem_take_iff_idxOf_lt ((subset_foldl_request keys []).2 hkey)

/-- New keys are admitted in turn. -/
theorem foldl_request_of_nodup (hnodup : keys.Nodup) (hnew : ∀ key ∈ keys, key ∉ past) :
    keys.foldl (request size) past = keys.reverse ++ past := by
  induction keys generalizing past with
  | nil => rfl
  | cons key keys ih =>
      obtain ⟨hkey, hnodup⟩ := List.nodup_cons.1 hnodup
      have hmiss : key ∉ past.take size := fun hmem =>
        hnew key (List.mem_cons_self ..) (List.mem_of_mem_take hmem)
      rw [List.foldl_cons, request_of_not_mem hmiss, ih hnodup, List.reverse_cons,
        List.append_assoc, List.singleton_append]
      intro other hother hmem
      rcases List.mem_cons.1 hmem with rfl | hmem
      · exact hkey hother
      · exact hnew other (List.mem_cons_of_mem _ hother) hmem

theorem length_le_card {few : Finset Key} {new : List Key} (hnodup : new.Nodup)
    (hnew : ∀ key ∈ new, key ∈ few) : new.length ≤ few.card :=
  calc new.length = new.toFinset.card := (List.toFinset_card_of_nodup hnodup).symm
    _ ≤ few.card := Finset.card_le_card fun key hkey => hnew key (List.mem_toFinset.1 hkey)

/-- Requests of few keys request every one of them once at most. -/
theorem foldl_request_of_subset {few : Finset Key} (hfew : few.card < size) {others new : List Key}
    (hothers : ∀ key ∈ others, key ∈ few) (hnodup : new.Nodup) (hnew : ∀ key ∈ new, key ∈ few)
    (past : List Key) :
    ∃ new', others.foldl (request size) (new ++ past) = new' ++ past ∧ new'.length ≤ few.card := by
  induction others generalizing new with
  | nil => exact ⟨new, rfl, length_le_card hnodup hnew⟩
  | cons other others ih =>
      have hrest : ∀ key ∈ others, key ∈ few :=
        fun key hkey => hothers key (List.mem_cons_of_mem _ hkey)
      rw [List.foldl_cons]
      by_cases hheld : other ∈ (new ++ past).take size
      · rw [request_of_mem hheld]
        exact ih hrest hnodup hnew
      · -- all that is new is held
        have hlength := length_le_card hnodup hnew
        have hother : other ∉ new := fun hmem => hheld <| by
          rw [List.take_append, List.take_of_length_le (by omega)]
          exact List.mem_append_left _ hmem
        rw [request_of_not_mem hheld, ← List.cons_append]
        refine ih hrest (List.nodup_cons.2 ⟨hother, hnodup⟩) fun key hkey => ?_
        rcases List.mem_cons.1 hkey with rfl | hkey
        · exact hothers key (List.mem_cons_self ..)
        · exact hnew key hkey

/-- A key that was admitted with its last request is held while fewer than `size` other keys
are requested. -/
theorem mem_take_of_admitted {before between : List Key}
    (hadmitted : key ∉ (admitted size before).take size) (hfew : between.toFinset.card < size) :
    key ∈ (admitted size (before ++ key :: between)).take size := by
  have hrun : admitted size (before ++ key :: between) =
      between.foldl (request size) ([] ++ key :: admitted size before) := by
    rw [admitted, List.foldl_append, List.foldl_cons, ← admitted, request_of_not_mem hadmitted]
    rfl
  obtain ⟨new, hnew, hlength⟩ := foldl_request_of_subset hfew
    (fun key hkey => List.mem_toFinset.2 hkey) List.nodup_nil (fun _ hkey => by cases hkey)
    (key :: admitted size before)
  obtain ⟨more, hmore⟩ : ∃ more, size - new.length = more + 1 :=
    ⟨size - new.length - 1, by omega⟩
  rw [hrun, hnew, List.take_append, hmore, List.take_succ_cons]
  exact List.mem_append_right _ (List.mem_cons_self ..)

/-- A full cache drops its first key for a new one, even if the first has just been requested. -/
theorem not_mem_take_of_full {first last : Key} {rest : List Key}
    (hnodup : (first :: rest).Nodup) (hlast : last ∉ first :: rest) :
    first ∉ (admitted (rest.length + 1) (first :: rest ++ first :: [last])).take
      (rest.length + 1) := by
  have hfull : (first :: rest).foldl (request (rest.length + 1)) [] = rest.reverse ++ [first] := by
    rw [foldl_request_of_nodup hnodup fun _ _ => List.not_mem_nil]
    simp
  have hfirst : first ∈ (rest.reverse ++ [first]).take (rest.length + 1) := by
    rw [List.take_of_length_le (by simp)]
    exact List.mem_append_right _ (List.mem_singleton_self _)
  have hmiss : last ∉ (rest.reverse ++ [first]).take (rest.length + 1) := fun hmem => by
    have hmem := List.mem_of_mem_take hmem
    simp only [List.mem_append, List.mem_reverse, List.mem_singleton] at hmem
    exact hlast (List.mem_cons.2 hmem.symm)
  rw [admitted, List.foldl_append, hfull, List.foldl_cons, request_of_mem hfirst, List.foldl_cons,
    request_of_not_mem hmiss, List.foldl_nil, List.take_succ_cons, List.take_left' (by simp)]
  intro hmem
  rcases List.mem_cons.1 hmem with hsame | hmem
  · exact hlast (hsame ▸ List.mem_cons_self ..)
  · exact (List.nodup_cons.1 hnodup).1 (List.mem_reverse.1 hmem)

end Admissions
