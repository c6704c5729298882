import VaeDb.Cache.Stores
import VaeDb.Library.Transition

/-!
# Sitewide locks

A lock is a row of the table `locks`, whose unique key is the lock's name.
`MysqlProxy::lock` inserts the row; where that fails, because the name is taken or for any
other reason, it deletes every row that is more than a minute old, of whatever name, and
reports that the lock was not obtained.  `MysqlProxy::unlock` deletes the row with the
name.  No column says who inserted a row.

Every statement is one step, and NOW() is a clock in seconds that steps of its own move
forward.  Between the `INSERT` and the `DELETE` of a failed attempt other requests run.

`Kept` is the invariant behind all that is proved about the locks: a client that got a
lock, and that no cleanup has come too late for since, still owns the row under the name,
provided that whoever unlocks the name is such a client.
-/

namespace VaeDb.Locks

open Transition Cache

/-! ## `locks` -/

/-- A row of `locks`. -/
structure LockRow where
  subdomain : Str
  createdAt : ℤ

/-- The unique key of a row. -/
def LockRow.key (collation : Collation) (row : LockRow) : Str := collation row.subdomain

/-- The table `locks`. -/
abbrev LockTable (collation : Collation) := Table (LockRow.key collation)

variable {collation : Collation}

namespace LockTable

/-- ``INSERT .. VALUES(?,NOW())``; nothing if the unique key is taken. -/
def insertRow (table : LockTable collation) (now : ℤ) (subdomain : Str) :
    Option (LockTable collation) :=
  table.insert ⟨subdomain, now⟩

/-- ``DELETE .. WHERE created_at<DATE_SUB(NOW(), INTERVAL 1 MINUTE)`` -/
def deleteOld (table : LockTable collation) (now : ℤ) : LockTable collation :=
  table.delete fun row => row.createdAt < now - 60

/-- ``DELETE .. WHERE `subdomain`=?`` -/
def deleteName (table : LockTable collation) (subdomain : Str) : LockTable collation :=
  table.delete fun row => row.key collation = collation subdomain

/-- A cleanup spares the rows that are at most a minute old. -/
theorem find_deleteOld {table : LockTable collation} {now : ℤ} {k : Str} {row : LockRow}
    (hfind : table.find k = some row) (hage : now ≤ row.createdAt + 60) :
    (table.deleteOld now).find k = some row := by
  have hkept : decide (row.createdAt < now - 60) = false := by
    simp only [decide_eq_false_iff_not]
    omega
  exact Table.find_delete_of_keep hfind hkept

/-- An unlock spares the rows of other names. -/
theorem find_deleteName {table : LockTable collation} {subdomain k : Str}
    (hother : collation subdomain ≠ k) : (table.deleteName subdomain).find k = table.find k := by
  cases hfind : table.find k with
  | none => exact Table.find_delete_of_none hfind
  | some row =>
      have hkept : decide (row.key collation = collation subdomain) = false := by
        rw [Table.key_of_find hfind, decide_eq_false_iff_not]
        exact hother.symm
      exact Table.find_delete_of_keep hfind hkept

end LockTable

/-- The name of a lock: `fullKey` in `Server::sitewideLock` and `Server::sitewideUnlock`. -/
def fullKey (subdomain iden : Str) : Str := subdomain ++ (":" : Str) ++ iden

/-! ## Clients, statements and the clock -/

/-- The database, the requests that are between two statements, the answers that the
clients got, and the history that the results speak about. -/
structure State (collation : Collation) (Client : Type) where
  /-- The table. -/
  locks : LockTable collation
  /-- NOW(). -/
  now : ℤ
  /-- The requests of a client whose `INSERT` failed and whose cleanup is to come. -/
  failed : Client → ℕ
  /-- The last status that a client was sent. -/
  status : Client → Option ℤ
  /-- When a client inserted a row under a name that it has not unlocked since. -/
  held : Client → Str → Option ℤ
  /-- Who inserted the last row under a unique key, and under which name. -/
  insertedBy : Str → Option (Client × Str)
  /-- When the last cleanup took place. -/
  cleaned : Option ℤ

/-- Before the first request; the table may hold rows of earlier days. -/
def State.initial {Client : Type} (locks : LockTable collation) (now : ℤ) :
    State collation Client where
  locks := locks
  now := now
  failed := fun _ => 0
  status := fun _ => none
  held := fun _ _ => none
  insertedBy := fun _ => none
  cleaned := none

/-- A statement of a client, or time that passes.  `sqlError` says that the statement fails
whatever the table holds. -/
inductive Label (Client : Type)
  | insert (client : Client) (name : Str) (sqlError : Bool)
  | cleanup (client : Client) (sqlError : Bool)
  | unlock (client : Client) (name : Str) (sqlError : Bool)
  | tick (seconds : ℕ)

section

variable {Client : Type} [DecidableEq Client]

/-- A client's row is in the table: `gotLock = 1`. -/
def State.acquire (state : State collation Client) (client : Client) (name : Str)
    (locks : LockTable collation) : State collation Client :=
  { state with
    locks
    status := Function.update state.status client (some 1)
    held := fun c n => if c = client ∧ n = name then some state.now else state.held c n
    insertedBy := Function.update state.insertedBy (collation name) (some (client, name)) }

/-- A client's row, or another's, is deleted. -/
def State.release (state : State collation Client) (client : Client) (name : Str) :
    State collation Client :=
  { state with
    locks := state.locks.deleteName name
    status := Function.update state.status client (some 1)
    held := fun c n => if c = client ∧ n = name then none else state.held c n }

/-- `MysqlProxy::lock` in its two statements, and `MysqlProxy::unlock`. -/
def step (state : State collation Client) : Label Client → Option (State collation Client)
  | .insert client name sqlError =>
      match if sqlError then none else state.locks.insertRow state.now name with
      | some locks => some (state.acquire client name locks)
      | none =>
          some { state with
            failed := Function.update state.failed client (state.failed client + 1) }
  | .cleanup client sqlError =>
      if state.failed client = 0 then none
      else
        some { state with
          locks := if sqlError then state.locks else state.locks.deleteOld state.now
          failed := Function.update state.failed client (state.failed client - 1)
          status := Function.update state.status client (some 0)
          cleaned := if sqlError then state.cleaned else some state.now }
  | .unlock client name sqlError =>
      if sqlError then
        some { state with status := Function.update state.status client (some 0) }
      else some (state.release client name)
  | .tick seconds => some { state with now := state.now + seconds }

/-- `Server::sitewideLock`, up to the end of the first statement. -/
def sitewideLock (client : Client) (subdomain iden : Str) : Label Client :=
  .insert client (fullKey subdomain iden) false

/-- `Server::sitewideUnlock`. -/
def sitewideUnlock (client : Client) (subdomain iden : Str) : Label Client :=
  .unlock client (fullKey subdomain iden) false

/-! ## What a step can do -/

/-- Every step that changes the table or its history is one of four. -/
theorem step_cases {state next : State collation Client} {label : Label Client}
    (h : step state label = some next) :
    (∃ client name locks sqlError, label = .insert client name sqlError ∧
      state.locks.insertRow state.now name = some locks ∧
      next = state.acquire client name locks) ∨
    (next.locks = state.locks.deleteOld state.now ∧ next.now = state.now ∧
      next.held = state.held ∧ next.insertedBy = state.insertedBy ∧
      next.cleaned = some state.now) ∨
    (∃ client name, label = .unlock client name false ∧ next = state.release client name) ∨
    (next.locks = state.locks ∧ state.now ≤ next.now ∧ next.held = state.held ∧
      next.insertedBy = state.insertedBy ∧ next.cleaned = state.cleaned) := by
  cases label with
  | insert client name sqlError =>
      simp only [step] at h
      split at h
      · next locks hinsert =>
        have hfree : state.locks.insertRow state.now name = some locks := by
          cases sqlError with
          | true => cases hinsert
          | false => exact hinsert
        exact Or.inl ⟨client, name, locks, sqlError, rfl, hfree, (Option.some.inj h).symm⟩
      · obtain rfl := Option.some.inj h
        exact Or.inr (Or.inr (Or.inr ⟨rfl, Int.le_refl _, rfl, rfl, rfl⟩))
  | cleanup client sqlError =>
      simp only [step] at h
      split at h
      · cases h
      · obtain rfl := Option.some.inj h
        cases sqlError with
        | true => exact Or.inr (Or.inr (Or.inr ⟨rfl, Int.le_refl _, rfl, rfl, rfl⟩))
        | false => exact Or.inr (Or.inl ⟨rfl, rfl, rfl, rfl, rfl⟩)
  | unlock client name sqlError =>
      cases sqlError with
      | true =>
          obtain rfl := Option.some.inj h
          exact Or.inr (Or.inr (Or.inr ⟨rfl, Int.le_refl _, rfl, rfl, rfl⟩))
      | false =>
          exact Or.inr (Or.inr (Or.inl ⟨client, name, rfl, (Option.some.inj h).symm⟩))
  | tick seconds =>
      obtain rfl := Option.some.inj h
      refine Or.inr (Or.inr (Or.inr ⟨rfl, ?_, rfl, rfl, rfl⟩))
      show state.now ≤ state.now + seconds
      omega

/-! ## Who owns a row -/

/-- No cleanup has taken place more than a minute after `t`. -/
def State.SparedSince (state : State collation Client) (t : ℤ) : Prop :=
  ∀ time, state.cleaned = some time → time ≤ t + 60

/-- The client got the lock, has not unlocked it since, and no cleanup since can have
deleted its row. -/
def State.Owner (state : State collation Client) (client : Client) (name : Str) : Prop :=
  ∃ t, state.held client name = some t ∧ state.SparedSince t

/-- A client unlocks a name that compares equal to this one only while it owns the row. -/
def UnlocksOwn (name : Str) (state : State collation Client) : Label Client → Prop
  | .unlock client n _ => collation n = collation name → state.Owner client n
  | _ => True

/-- Whoever owns the row under a name finds it in the table, as inserted. -/
structure Kept (name : Str) (state : State collation Client) : Prop where
  cleaned_le : ∀ time, state.cleaned = some time → time ≤ state.now
  row : ∀ client n t, collation n = collation name → state.held client n = some t →
    state.SparedSince t → ∃ row, state.locks.find (collation name) = some row ∧
      row.createdAt = t ∧ state.insertedBy (collation name) = some (client, n)

namespace Kept

variable {name : Str} {state : State collation Client}

omit [DecidableEq Client] in
theorem initial (locks : LockTable collation) (now : ℤ) :
    Kept name (State.initial locks now : State collation Client) where
  cleaned_le := fun _ h => by cases h
  row := fun _ _ _ _ h => by cases h

omit [DecidableEq Client] in
/-- Two owners of names that compare equal are one, and so are the names. -/
theorem owner_unique (h : Kept name state) {client other : Client} {n n' : Str}
    (hn : collation n = collation name) (hn' : collation n' = collation name)
    (howner : state.Owner client n) (howner' : state.Owner other n') :
    client = other ∧ n = n' := by
  obtain ⟨t, hheld, hspared⟩ := howner
  obtain ⟨t', hheld', hspared'⟩ := howner'
  obtain ⟨_, _, _, hby⟩ := h.row client n t hn hheld hspared
  obtain ⟨_, _, _, hby'⟩ := h.row other n' t' hn' hheld' hspared'
  rw [hby] at hby'
  exact Prod.ext_iff.1 (Option.some.inj hby')

/-- An `INSERT` that succeeds found no row under the name, so nobody owned one. -/
theorem acquire (h : Kept name state) {client : Client} {n : Str}
    {locks : LockTable collation} (hinsert : state.locks.insertRow state.now n = some locks) :
    Kept name (state.acquire client n locks) where
  cleaned_le := h.cleaned_le
  row := by
    intro c m t hm hheld hspared
    have hfind : locks.find (collation name) =
        if collation name = collation n then some ⟨n, state.now⟩
        else state.locks.find (collation name) :=
      Table.insert_eq_some hinsert (collation name)
    simp only [State.acquire] at hheld ⊢
    by_cases hnew : c = client ∧ m = n
    · -- the row that was just inserted
      rw [if_pos hnew] at hheld
      obtain ⟨rfl, rfl⟩ := hnew
      obtain rfl := Option.some.inj hheld
      refine ⟨⟨m, state.now⟩, ?_, rfl, ?_⟩
      · rw [hfind, if_pos hm.symm]
      · rw [hm, Function.update_self]
    · rw [if_neg hnew] at hheld
      obtain ⟨row, hrow, htime, hby⟩ := h.row c m t hm hheld hspared
      have hother : collation name ≠ collation n := by
        intro hsame
        -- the unique key would have been taken
        rw [hsame] at hrow
        have hnone : state.locks.insert ⟨n, state.now⟩ = none := Table.insert_eq_none hrow
        have hsome : state.locks.insert ⟨n, state.now⟩ = some locks := hinsert
        rw [hnone] at hsome
        cases hsome
      refine ⟨row, ?_, htime, ?_⟩
      · rw [hfind, if_neg hother]
        exact hrow
      · rw [Function.update_of_ne hother]
        exact hby

omit [DecidableEq Client] in
/-- A cleanup deletes no row that has an owner afterwards. -/
theorem cleanup (h : Kept name state) {next : State collation Client}
    (hlocks : next.locks = state.locks.deleteOld state.now) (hnow : next.now = state.now)
    (hheld : next.held = state.held) (hby : next.insertedBy = state.insertedBy)
    (hcleaned : next.cleaned = some state.now) : Kept name next where
  cleaned_le := by
    intro time htime
    rw [hcleaned] at htime
    obtain rfl := Option.some.inj htime
    omega
  row := by
    intro c m t hm hc hspared
    have hrecent : state.now ≤ t + 60 := hspared state.now hcleaned
    have hbefore : state.SparedSince t := fun time htime =>
      Int.le_trans (h.cleaned_le time htime) hrecent
    obtain ⟨row, hrow, htime, howner⟩ := h.row c m t hm (hheld ▸ hc) hbefore
    refine ⟨row, ?_, htime, hby ▸ howner⟩
    rw [hlocks]
    exact LockTable.find_deleteOld hrow (htime ▸ hrecent)

/-- An owner that unlocks leaves no other owner behind. -/
theorem release (h : Kept name state) {client : Client} {n : Str}
    (howner : collation n = collation name → state.Owner client n) :
    Kept name (state.release client n) where
  cleaned_le := h.cleaned_le
  row := by
    intro c m t hm hheld hspared
    simp only [State.release] at hheld ⊢
    split at hheld
    · cases hheld
    · next hne =>
      obtain ⟨row, hrow, htime, hby⟩ := h.row c m t hm hheld hspared
      have hother : collation n ≠ collation name := by
        intro hsame
        have hunique := h.owner_unique hm hsame ⟨t, hheld, hspared⟩ (howner hsame)
        exact hne hunique
      refine ⟨row, ?_, htime, hby⟩
      rw [LockTable.find_deleteName hother]
      exact hrow

omit [DecidableEq Client] in
/-- What leaves the table and its history alone keeps the rows. -/
theorem congr (h : Kept name state) {next : State collation Client}
    (hlocks : next.locks = state.locks) (hnow : state.now ≤ next.now)
    (hheld : next.held = state.held) (hby : next.insertedBy = state.insertedBy)
    (hcleaned : next.cleaned = state.cleaned) : Kept name next where
  cleaned_le := fun time htime => Int.le_trans (h.cleaned_le time (hcleaned ▸ htime)) hnow
  row := by
    intro c m t hm hc hspared
    rw [hlocks, hby]
    refine h.row c m t hm (hheld ▸ hc) fun time htime => hspared time ?_
    rw [hcleaned]
    exact htime

/-- Every step keeps the rows of the owners, if a step that unlocks the name is an
owner's. -/
theorem step (h : Kept name state) {label : Label Client} {next : State collation Client}
    (hok : UnlocksOwn name state label) (hstep : step state label = some next) :
    Kept name next := by
  obtain ⟨client, n, locks, sqlError, rfl, hinsert, rfl⟩ | ⟨hlocks, hnow, hheld, hby, hcleaned⟩ |
    ⟨client, n, rfl, rfl⟩ | ⟨hlocks, hnow, hheld, hby, hcleaned⟩ := step_cases hstep
  · exact h.acquire hinsert
  · exact h.cleanup hlocks hnow hheld hby hcleaned
  · exact h.release hok
  · exact h.congr hlocks hnow hheld hby hcleaned

end Kept

end

end VaeDb.Locks
