import VaeDb.Locks.SitewideLock

/-!
# What the sitewide locks guarantee

A lock is a lease of one minute, and nothing but the name is checked when it is given
back.  Two guarantees follow from `Kept`.

* **Exclusion.**  If clients unlock only while their minute lasts, a name has at most one
  holder at any moment (`sitewideLock_exclusive`).  The cleanups of failed attempts delete
  the rows of all names, but only rows that are older than a minute, and a row's holder is
  not the holder any more by then.
* **Ownership.**  A client that unlocks later than that still deletes its own row, as long
  as no cleanup has come in between (`sitewideUnlock_removesOwn`).  After one has, or after
  an unlock before, the row under the name may be another client's
  (`sitewideUnlock_removes_foreign`).
-/

namespace VaeDb.Locks

open Transition Cache

variable {collation : Collation} {Client : Type}

/-! ## Exclusion -/

/-- The client's `INSERT` succeeded, it has not unlocked since, and the clock is at most a
minute past the `INSERT`. -/
def State.Holder (state : State collation Client) (client : Client) (name : Str) : Prop :=
  ∃ t, state.held client name = some t ∧ state.now ≤ t + 60

/-- A client unlocks a name only while it is the holder. -/
def UnlocksAsHolder (state : State collation Client) : Label Client → Prop
  | .unlock client name _ => state.Holder client name
  | _ => True

/-- No cleanup so far can have deleted the row of a holder. -/
theorem State.Holder.owner {state : State collation Client} {client : Client} {name n : Str}
    (hholder : state.Holder client n) (h : Kept name state) : state.Owner client n := by
  obtain ⟨t, hheld, hage⟩ := hholder
  refine ⟨t, hheld, fun time htime => ?_⟩
  have hbefore : time ≤ state.now := h.cleaned_le time htime
  omega

variable [DecidableEq Client]

/-- In every run in which clients unlock only what they hold, every name has at most one
holder in every state. -/
theorem sitewideLock_exclusive (collation : Collation) (locks : LockTable collation) (now : ℤ)
    {labels : List (Label Client)} {state : State collation Client}
    (hrun : run step (State.initial locks now) labels = some state)
    (hok : Meets step UnlocksAsHolder (State.initial locks now) labels)
    (name : Str) {client other : Client} (hclient : state.Holder client name)
    (hother : state.Holder other name) : client = other := by
  have hstep : ∀ (state : State collation Client) label next, Kept name state →
      UnlocksAsHolder state label → step state label = some next → Kept name next := by
    intro state label next hkept hholder hnext
    have hok : UnlocksOwn name state label := by
      cases label with
      | unlock client n sqlError => exact fun _ => hholder.owner hkept
      | insert client n sqlError => trivial
      | cleanup client sqlError => trivial
      | tick seconds => trivial
    exact hkept.step hok hnext
  have hkept : Kept name state :=
    invariant_of_meets hstep (Kept.initial locks now) hok hrun
  exact (hkept.owner_unique rfl rfl (hclient.owner hkept) (hother.owner hkept)).1

/-- A second client tries for a lock for a whole minute; a third name is cleaned up. -/
def busyMinute : List (Label ℕ) :=
  [sitewideLock 3 "blog" "feed", .tick 1, sitewideLock 1 "shop" "feed", .tick 30,
    sitewideLock 2 "shop" "feed", .cleanup 2 false, .tick 30,
    sitewideLock 2 "shop" "feed", .cleanup 2 false]

theorem sitewideLock_exclusive_busyMinute :
    ∃ state : State .caseInsensitive ℕ, run step (State.initial Table.empty 0) busyMinute =
        some state ∧ state.Holder 1 (fullKey "shop" "feed") ∧
      ∀ other, state.Holder other (fullKey "shop" "feed") → 1 = other := by
  have hok : Meets step UnlocksAsHolder
      (State.initial Table.empty 0 : State .caseInsensitive ℕ) busyMinute := by
    refine meets_of_forall_mem fun label hlabel state => ?_
    simp only [busyMinute, List.mem_cons, List.not_mem_nil, or_false] at hlabel
    rcases hlabel with rfl | rfl | rfl | rfl | rfl | rfl | rfl | rfl | rfl <;> trivial
  refine ⟨_, rfl, ⟨1, rfl, by decide⟩, fun other hother => ?_⟩
  exact sitewideLock_exclusive .caseInsensitive Table.empty 0 rfl hok _ ⟨1, rfl, by decide⟩
    hother

/-! ## Ownership -/

/-- In every run in which a name is unlocked only by a client that got the lock, has not
unlocked it since and was spared by the cleanups, such an unlock deletes no row but the one
the client inserted. -/
theorem sitewideUnlock_removesOwn (collation : Collation) (locks : LockTable collation)
    (now : ℤ) (name : Str) {labels : List (Label Client)} {state : State collation Client}
    (hrun : run step (State.initial locks now) labels = some state)
    (hok : Meets step (UnlocksOwn name) (State.initial locks now) labels)
    {client : Client} {sqlError : Bool} {next : State collation Client}
    (howner : state.Owner client name)
    (hunlock : step state (.unlock client name sqlError) = some next)
    {row : LockRow} (hrow : row ∈ state.locks.rows) (hremoved : row ∉ next.locks.rows) :
    state.insertedBy (row.key collation) = some (client, name) := by
  have hstep : ∀ (state : State collation Client) label next, Kept name state →
      UnlocksOwn name state label → step state label = some next → Kept name next :=
    fun _ _ _ hkept hown hnext => hkept.step hown hnext
  have hkept : Kept name state :=
    invariant_of_meets hstep (Kept.initial locks now) hok hrun
  obtain ⟨t, hheld, hspared⟩ := howner
  obtain ⟨_, _, _, hby⟩ := hkept.row client name t rfl hheld hspared
  cases sqlError with
  | true =>
      obtain rfl := Option.some.inj hunlock
      exact absurd hrow hremoved
  | false =>
      obtain rfl := Option.some.inj hunlock
      -- only a row with the name's key is deleted
      have hkey : row.key collation = collation name := by
        by_contra hother
        refine hremoved (List.mem_filter.2 ⟨hrow, ?_⟩)
        simp [hother]
      rw [hkey]
      exact hby

/-- A client that comes back late, but before anyone has cleaned up. -/
def lateButFirst : List (Label ℕ) :=
  [sitewideLock 1 "shop" "feed", .tick 200, sitewideLock 2 "blog" "feed"]

theorem sitewideUnlock_removesOwn_lateButFirst :
    ∃ (state next : State .binary ℕ) (row : LockRow), run step (State.initial Table.empty 0)
        lateButFirst = some state ∧
      step state (sitewideUnlock 1 "shop" "feed") = some next ∧ row ∈ state.locks.rows ∧
      row ∉ next.locks.rows ∧
      state.insertedBy (row.key .binary) = some (1, fullKey "shop" "feed") := by
  have hok : Meets step (UnlocksOwn (fullKey "shop" "feed"))
      (State.initial Table.empty 0 : State .binary ℕ) lateButFirst := by
    refine meets_of_forall_mem fun label hlabel state => ?_
    simp only [lateButFirst, List.mem_cons, List.not_mem_nil, or_false] at hlabel
    rcases hlabel with rfl | rfl | rfl <;> trivial
  have hrow : (⟨fullKey "shop" "feed", 0⟩ : LockRow) ∈
      [(⟨fullKey "shop" "feed", 0⟩ : LockRow), ⟨fullKey "blog" "feed", 200⟩] := by simp
  have hremoved : (⟨fullKey "shop" "feed", 0⟩ : LockRow) ∉
      [(⟨fullKey "blog" "feed", 200⟩ : LockRow)] := by simp
  have hunlock : ∀ state : State .binary ℕ, step state (sitewideUnlock 1 "shop" "feed") =
      some (state.release 1 (fullKey "shop" "feed")) := fun _ => rfl
  refine ⟨_, _, _, rfl, hunlock _, hrow, hremoved, ?_⟩
  refine sitewideUnlock_removesOwn .binary Table.empty 0 _ rfl hok ?_ (hunlock _) hrow ?_
  · exact ⟨0, rfl, fun time htime => by cases htime⟩
  · exact hremoved

/-- A holder that is late: another client's attempts clean up and get the lock. -/
def slowHolder : List (Label ℕ) :=
  [sitewideLock 1 "shop" "feed", .tick 61, sitewideLock 2 "shop" "feed", .cleanup 2 false,
    sitewideLock 2 "shop" "feed"]

theorem sitewideUnlock_removes_foreign :
    ∃ (state next : State .binary ℕ) (row : LockRow), run step (State.initial Table.empty 0)
        slowHolder = some state ∧ state.status 1 = some 1 ∧
      step state (sitewideUnlock 1 "shop" "feed") = some next ∧ row ∈ state.locks.rows ∧
      row ∉ next.locks.rows ∧
      state.insertedBy (row.key .binary) = some (2, fullKey "shop" "feed") := by
  have hrow : (⟨fullKey "shop" "feed", 61⟩ : LockRow) ∈
      [(⟨fullKey "shop" "feed", 61⟩ : LockRow)] := by simp
  have hremoved : (⟨fullKey "shop" "feed", 61⟩ : LockRow) ∉ ([] : List LockRow) := by simp
  exact ⟨_, _, _, rfl, rfl, rfl, hrow, hremoved, rfl⟩

end VaeDb.Locks
