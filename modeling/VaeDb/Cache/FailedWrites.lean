import VaeDb.Cache.SessionCache

/-!
# Writes that fail

`longTermCacheSet` and `sessionCacheSet` delete the old row and insert the new one.  Each of
the two statements commits on its own, and an exception of either ends the call and is
logged.  So an `INSERT` that fails after a `DELETE` that found a row leaves the table
without the row (`failed_set_iff`).

That the primary key is taken is no such case: whatever row takes it, the `DELETE` would
have removed it or has not found anything (`insert_conflict_unchanged`).
-/

namespace VaeDb.FailedWrites

open Cache SessionCache

/-! ## Statements that throw -/

/-- The calls on the connection that can throw, in their order. -/
inductive Statement
  | prepareDelete
  | prepareInsert
  | delete
  | insert
  deriving DecidableEq

section

variable {Row Key : Type*} {key : Row → Key} [DecidableEq Key]

/-- What both functions do to their table: the rows after the call, and the statement that
threw, if one did.  `throws` says which ones do apart from an `INSERT` whose primary key is
taken. -/
def replaceRow (throws : Statement → Bool) (table : Table key) (drop : Row → Bool) (row : Row) :
    Table key × Option Statement :=
  if throws .prepareDelete then (table, some .prepareDelete)
  else if throws .prepareInsert then (table, some .prepareInsert)
  else if throws .delete then (table, some .delete)
  else
    let deleted := table.delete drop
    if throws .insert then (deleted, some .insert)
    else
      match deleted.insert row with
      | some inserted => (inserted, none)
      | none => (deleted, some .insert)

/-- With statements that throw nothing but a taken key. -/
theorem replaceRow_never (table : Table key) (drop : Row → Bool) (row : Row) :
    (replaceRow (fun _ => false) table drop row).1 =
      ((table.delete drop).insert row).getD (table.delete drop) := by
  simp only [replaceRow, Bool.false_eq_true, if_false]
  cases (table.delete drop).insert row <;> rfl

end

/-- `MysqlProxy::longTermCacheSet`, with statements that throw. -/
def longTermCacheSet {collation : Collation} (throws : Statement → Bool)
    (store : KvStore collation) (now : ℤ) (subdomain key value : Str)
    (expireInterval isFilename : ℤ) : KvStore collation × Option Statement :=
  replaceRow throws store
    (fun row => row.key collation = primaryKey collation subdomain key)
    ⟨subdomain, key, value, now + expireInterval, isFilename⟩

/-- `MysqlProxy::sessionCacheSet`, with statements that throw. -/
def sessionCacheSet {collation : Collation} (throws : Statement → Bool)
    (table : SessionData collation) (now : ℤ) (subdomain key value : Str) :
    SessionData collation × Option Statement :=
  replaceRow throws table (SessionRow.isUnder collation subdomain key)
    ⟨key, subdomain, value, now + 86400 * 2⟩

/-- If nothing throws they are the functions of the stores. -/
theorem longTermCacheSet_eq {collation : Collation} (store : KvStore collation) (now : ℤ)
    (subdomain key value : Str) (expireInterval isFilename : ℤ) :
    (longTermCacheSet (fun _ => false) store now subdomain key value expireInterval
        isFilename).1 =
      MysqlProxy.longTermCacheSet store now subdomain key value expireInterval isFilename := by
  unfold longTermCacheSet MysqlProxy.longTermCacheSet KvStore.insertRow KvStore.deleteKey
  rw [replaceRow_never]
  simp only
  split
  · next hinserted => rw [hinserted]; rfl
  · next hinserted => rw [hinserted]; rfl

theorem sessionCacheSet_eq {collation : Collation} (table : SessionData collation) (now : ℤ)
    (subdomain key value : Str) :
    (sessionCacheSet (fun _ => false) table now subdomain key value).1 =
      SessionCache.MysqlProxy.sessionCacheSet table now subdomain key value := by
  unfold sessionCacheSet SessionCache.MysqlProxy.sessionCacheSet SessionData.insertRow
    SessionData.deleteRow
  rw [replaceRow_never]
  simp only
  split
  · next hinserted => rw [hinserted]; rfl
  · next hinserted => rw [hinserted]; rfl

/-! ## What is left after an exception -/

section

variable {Row Key : Type*} {key : Row → Key} [DecidableEq Key] {throws : Statement → Bool}
  {table after : Table key} {drop : Row → Bool} {row : Row} {statement : Statement}

omit [DecidableEq Key] in
/-- A `DELETE` changes nothing exactly if it finds no row. -/
theorem delete_eq_self_iff : table.delete drop = table ↔ ∀ row ∈ table.rows, drop row = false := by
  constructor
  · intro h row hrow
    have hrows : table.rows.filter (fun row => !drop row) = table.rows := congrArg Table.rows h
    simpa using List.filter_eq_self.1 hrows row hrow
  · intro h
    obtain ⟨rows, hnodup⟩ := table
    have hrows : rows.filter (fun row => !drop row) = rows :=
      List.filter_eq_self.2 fun row hrow => by simp [h row hrow]
    simp [Table.delete, hrows]

/-- Before the `DELETE` an exception leaves the table alone; after it, what the `DELETE`
left. -/
theorem replaceRow_throws (h : replaceRow throws table drop row = (after, some statement)) :
    (statement ≠ .insert ∧ after = table) ∨
      (statement = .insert ∧ after = table.delete drop) := by
  unfold replaceRow at h
  split at h
  · obtain ⟨rfl, hstatement⟩ := Prod.mk.inj h
    obtain rfl := Option.some.inj hstatement
    exact Or.inl ⟨by decide, rfl⟩
  split at h
  · obtain ⟨rfl, hstatement⟩ := Prod.mk.inj h
    obtain rfl := Option.some.inj hstatement
    exact Or.inl ⟨by decide, rfl⟩
  split at h
  · obtain ⟨rfl, hstatement⟩ := Prod.mk.inj h
    obtain rfl := Option.some.inj hstatement
    exact Or.inl ⟨by decide, rfl⟩
  simp only at h
  split at h
  · obtain ⟨rfl, hstatement⟩ := Prod.mk.inj h
    exact Or.inr ⟨(Option.some.inj hstatement).symm, rfl⟩
  split at h
  · cases h
  · obtain ⟨rfl, hstatement⟩ := Prod.mk.inj h
    exact Or.inr ⟨(Option.some.inj hstatement).symm, rfl⟩

/-- An exception leaves the table alone exactly if it does not come from the `INSERT`, or
there was no row to delete. -/
theorem replaceRow_unchanged_iff
    (h : replaceRow throws table drop row = (after, some statement)) :
    after = table ↔ statement ≠ .insert ∨ ∀ row ∈ table.rows, drop row = false := by
  rcases replaceRow_throws h with ⟨hstatement, hafter⟩ | ⟨hstatement, hafter⟩
  · exact ⟨fun _ => Or.inl hstatement, fun _ => hafter⟩
  · rw [hafter, delete_eq_self_iff]
    exact ⟨Or.inr, fun hdrop => hdrop.resolve_left fun hne => hne hstatement⟩

/-- A taken key is no harm where only rows with that key are deleted: the row that takes it
is not deleted, so that none was. -/
theorem insert_conflict_unchanged (hdrop : ∀ other, drop other = true → key other = key row)
    (hthrows : ∀ statement, throws statement = false)
    (h : replaceRow throws table drop row = (after, some statement)) : after = table := by
  have hdeleted : (table.delete drop).insert row = none := by
    unfold replaceRow at h
    simp only [hthrows, Bool.false_eq_true, if_false] at h
    split at h
    · cases h
    · next hnone => exact hnone
  have htaken : ((table.delete drop).find (key row)).isSome := by
    by_contra hfree
    have hinserted := Table.insert_isSome (Option.not_isSome_iff_eq_none.1 hfree)
    rw [hdeleted] at hinserted
    cases hinserted
  refine (replaceRow_unchanged_iff h).2 (Or.inr fun other hother => ?_)
  by_contra hdropped
  rw [Bool.not_eq_false] at hdropped
  have hfind : table.find (key row) = some other :=
    Table.find_eq_some.2 ⟨hother, hdrop other hdropped⟩
  rw [Table.find_delete_of_drop hfind hdropped] at htaken
  cases htaken

end

/-- A Set that fails leaves the table as it was exactly if the `INSERT` is not what failed,
or there was no row under the subdomain and the key. -/
theorem failed_set_iff {collation : Collation} (throws : Statement → Bool)
    (store : KvStore collation) (table : SessionData collation) (now : ℤ)
    (subdomain key value : Str) (expireInterval isFilename : ℤ) (statement : Statement) :
    (∀ after, longTermCacheSet throws store now subdomain key value expireInterval isFilename =
        (after, some statement) →
      (after = store ↔ statement ≠ .insert ∨
        ∀ row ∈ store.rows, row.key collation ≠ primaryKey collation subdomain key)) ∧
    (∀ after, sessionCacheSet throws table now subdomain key value = (after, some statement) →
      (after = table ↔ statement ≠ .insert ∨
        ∀ row ∈ table.rows, ¬ (collation row.id = collation key ∧
          collation row.subdomain = collation subdomain))) := by
  constructor
  · intro after h
    simpa using replaceRow_unchanged_iff h
  · intro after h
    refine (replaceRow_unchanged_iff h).trans (or_congr_right (forall₂_congr fun row _ => ?_))
    exact decide_eq_false_iff_not

/-- `old` under a key of one subdomain. -/
def storedOld : KvStore Collation.binary := ⟨[⟨"acme", "home", "old", 0, 0⟩], by simp⟩

/-- `old` under a session key of one subdomain. -/
def sessionOld (collation : Collation) : SessionData collation :=
  ⟨[⟨"cart", "acme", "old", 0⟩], by simp⟩

theorem failed_set_iff_unchanged :
    (longTermCacheSet (fun statement => statement = .delete) storedOld 0 "acme" "home" "new" 1
      0).1 = storedOld ∧
    (sessionCacheSet (fun _ => false) (sessionOld .binary) 0 "other" "cart" "new").1 =
      sessionOld .binary := by
  have hsession : sessionCacheSet (fun _ => false) (sessionOld .binary) 0 "other" "cart" "new" =
      (_, some .insert) := rfl
  have hstore : longTermCacheSet (fun statement => statement = .delete) storedOld 0 "acme" "home"
      "new" 1 0 = (_, some .delete) := rfl
  have hstored := ((failed_set_iff _ storedOld (sessionOld .binary) 0 "acme" "home" "new" 1 0
    .delete).1 _ hstore).2 (Or.inl (by decide))
  have hkept := ((failed_set_iff _ storedOld (sessionOld .binary) 0 "other" "cart" "new" 1 0
    .insert).2 _ hsession).2 (Or.inr (by decide))
  exact ⟨hstored, hkept⟩

/-- If the `INSERT` throws, the old values are gone; where the collation takes `CART` for
`cart`, so is the value under the other name. -/
theorem failed_set_loses :
    storedOld.value "acme" "home" = "old" ∧
      (longTermCacheSet (fun statement => statement = .insert) storedOld 0 "acme" "home" "new" 1
        0).1.value "acme" "home" = [] ∧
      (sessionOld .binary).value "acme" "cart" = "old" ∧
      (sessionCacheSet (fun statement => statement = .insert) (sessionOld .binary) 0 "acme" "cart"
        "new").1.value "acme" "cart" = [] ∧
      (sessionCacheSet (fun statement => statement = .insert) (sessionOld .caseInsensitive) 0
        "acme" "CART" "new").1.value "acme" "cart" = [] :=
  ⟨rfl, rfl, rfl, rfl, rfl⟩

end VaeDb.FailedWrites
