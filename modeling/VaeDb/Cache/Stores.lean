import VaeDb.Basic
import VaeDb.Library.Table

/-!
# The two stores of the long-term cache

Values live in the MySQL table `kvstore` and, for a day, in memcached.  The statements of
`MysqlProxy` are modelled one by one on a table with the primary key
(`subdomain`, `k`) of the schema, the commands of `MemcacheProxy` on a partial map; the
handlers of `Server` are put together from them.

MySQL compares the two columns by their collation, which the schema leaves to the
server's default.  A collation is given here by the weights that it compares
(`WEIGHT_STRING`); case-insensitive ones give several strings the same weights.

Every statement and command succeeds, and no entry of memcached is evicted or expires.
-/

namespace VaeDb.Cache

/-! ## `kvstore` -/

/-- What a collation compares in place of a string. -/
abbrev Collation := Str → Str

/-- Strings as they are. -/
def Collation.binary : Collation := fun s => s

/-- Letters without their case. -/
def Collation.caseInsensitive : Collation := List.map Char.toLower

/-- A row of `kvstore`; `expireAt` counts days. -/
structure KvRow where
  subdomain : Str
  k : Str
  v : Str
  expireAt : ℤ
  isFilename : ℤ

/-- The primary key that a subdomain and a key stand for. -/
def primaryKey (collation : Collation) (subdomain k : Str) : Str × Str :=
  (collation subdomain, collation k)

/-- The primary key of a row. -/
def KvRow.key (collation : Collation) (row : KvRow) : Str × Str :=
  primaryKey collation row.subdomain row.k

/-- A row with a new expiry. -/
def KvRow.expiringAt (expireAt : ℤ) (row : KvRow) : KvRow := { row with expireAt }

theorem KvRow.key_expiringAt (collation : Collation) (expireAt : ℤ) (row : KvRow) :
    (row.expiringAt expireAt).key collation = row.key collation := rfl

/-- The table `kvstore`. -/
abbrev KvStore (collation : Collation) := Table (KvRow.key collation)

variable {collation : Collation}

namespace KvStore

/-- ``SELECT `v`, .. WHERE `k`=? AND `subdomain`=?`` -/
def selectRows (store : KvStore collation) (subdomain key : Str) : List KvRow :=
  store.select (primaryKey collation subdomain key)

/-- ``UPDATE .. SET `expire_at`=DATE_ADD(NOW(),INTERVAL ? DAY) WHERE `k`=? AND `subdomain`=?`` -/
def renew (store : KvStore collation) (now : ℤ) (subdomain key : Str) (renewExpiry : ℤ) :
    KvStore collation :=
  store.update (fun row => row.key collation = primaryKey collation subdomain key)
    (KvRow.expiringAt (now + renewExpiry)) (KvRow.key_expiringAt collation _)

/-- ``DELETE .. WHERE `subdomain`=? AND `k`=?`` -/
def deleteKey (store : KvStore collation) (subdomain key : Str) : KvStore collation :=
  store.delete fun row => row.key collation = primaryKey collation subdomain key

/-- ``DELETE .. WHERE `subdomain`=?`` -/
def deleteSubdomain (store : KvStore collation) (subdomain : Str) : KvStore collation :=
  store.delete fun row => collation row.subdomain = collation subdomain

/-- ``INSERT .. VALUES(?,?,?,DATE_ADD(NOW(), INTERVAL ? DAY),?)``; nothing if the primary
key is taken. -/
def insertRow (store : KvStore collation) (now : ℤ) (subdomain key value : Str)
    (expireInterval isFilename : ℤ) : Option (KvStore collation) :=
  store.insert ⟨subdomain, key, value, now + expireInterval, isFilename⟩

/-- The value under a subdomain and a key, empty if there is none. -/
def value (store : KvStore collation) (subdomain key : Str) : Str :=
  match store.find (primaryKey collation subdomain key) with
  | some row => row.v
  | none => []

end KvStore

namespace MysqlProxy

/-- `DATEDIFF(expire_at, NOW())`. -/
def remainingDays (now : ℤ) (row : KvRow) : ℤ := row.expireAt - now

/-- The body of the loop over the result set; the remaining days were computed by the
`SELECT`, the new expiry is computed by the `UPDATE`. -/
def visitRow (selected now : ℤ) (subdomain key : Str) (renewExpiry : ℤ)
    (found : Str × KvStore collation) (row : KvRow) : Str × KvStore collation :=
  if renewExpiry > 0 ∧ remainingDays selected row < 10 then
    (row.v, found.2.renew now subdomain key renewExpiry)
  else (row.v, found.2)

/-- `MysqlProxy::longTermCacheGet`. -/
def longTermCacheGet (store : KvStore collation) (now : ℤ) (subdomain key : Str)
    (renewExpiry : ℤ) : Str × KvStore collation :=
  (store.selectRows subdomain key).foldl (visitRow now now subdomain key renewExpiry)
    ([], store)

/-- `MysqlProxy::longTermCacheSet`.  A failing statement is logged and ends the call. -/
def longTermCacheSet (store : KvStore collation) (now : ℤ) (subdomain key value : Str)
    (expireInterval isFilename : ℤ) : KvStore collation :=
  let deleted := store.deleteKey subdomain key
  match deleted.insertRow now subdomain key value expireInterval isFilename with
  | some inserted => inserted
  | none => deleted

/-- `MysqlProxy::longTermCacheDelete`. -/
def longTermCacheDelete (store : KvStore collation) (subdomain key : Str) : KvStore collation :=
  store.deleteKey subdomain key

/-- `MysqlProxy::longTermCacheEmpty`. -/
def longTermCacheEmpty (store : KvStore collation) (subdomain : Str) : KvStore collation :=
  store.deleteSubdomain subdomain

end MysqlProxy

/-! ## memcached -/

/-- What memcached holds. -/
abbrev Memcached := Str → Option Str

namespace MemcacheProxy

/-- `MemcacheProxy::get`; a key without an entry reads as the empty string. -/
def get (memcached : Memcached) (key : Str) : Str :=
  match memcached key with
  | some value => value
  | none => []

/-- `MemcacheProxy::set`. -/
def set (memcached : Memcached) (key value : Str) : Memcached :=
  Function.update memcached key (some value)

/-- `MemcacheProxy::remove`. -/
def remove (memcached : Memcached) (key : Str) : Memcached :=
  Function.update memcached key none

end MemcacheProxy

/-! ## The handlers of `Server` -/

/-- Both stores. -/
structure Stores (collation : Collation) where
  kvstore : KvStore collation
  memcached : Memcached

/-- Nothing has been stored yet. -/
def Stores.initial (collation : Collation) : Stores collation :=
  ⟨Table.empty, fun _ => none⟩

/-- The JSON that a handler answers with. -/
inductive Reply
  | value (key value : Str)
  | key (key : Str)
  | empty
  deriving DecidableEq

/-- `Server::longTermKey`. -/
def longTermKey (subdomain key : Str) : Str :=
  ("VaedbProxy:" : Str) ++ subdomain ++ ("LongTerm2:" : Str) ++ key

namespace Stores

/-- `Server::longTermCacheGet`. -/
def longTermCacheGet (stores : Stores collation) (now : ℤ) (subdomain key : Str)
    (renewExpiry useShortTermCache : ℤ) : Reply × Stores collation :=
  let answer :=
    if useShortTermCache ≠ 0 then
      MemcacheProxy.get stores.memcached (longTermKey subdomain key)
    else []
  if answer.length > 0 then (.value key answer, stores)
  else
    let found := MysqlProxy.longTermCacheGet stores.kvstore now subdomain key renewExpiry
    (.value key found.1,
      { kvstore := found.2
        memcached :=
          MemcacheProxy.set stores.memcached (longTermKey subdomain key) found.1 })

/-- `Server::longTermCacheSet`. -/
def longTermCacheSet (stores : Stores collation) (now : ℤ) (subdomain key value : Str)
    (expireInterval isFilename : ℤ) : Reply × Stores collation :=
  (.value key value,
    { kvstore :=
        MysqlProxy.longTermCacheSet stores.kvstore now subdomain key value expireInterval
          isFilename
      memcached := MemcacheProxy.set stores.memcached (longTermKey subdomain key) value })

/-- `Server::longTermCacheDelete`. -/
def longTermCacheDelete (stores : Stores collation) (subdomain key : Str) :
    Reply × Stores collation :=
  (.key key,
    { kvstore := MysqlProxy.longTermCacheDelete stores.kvstore subdomain key
      memcached := MemcacheProxy.remove stores.memcached (longTermKey subdomain key) })

/-- `Server::longTermCacheEmpty`.  memcached is not touched. -/
def longTermCacheEmpty (stores : Stores collation) (subdomain : Str) :
    Reply × Stores collation :=
  (.empty,
    { stores with kvstore := MysqlProxy.longTermCacheEmpty stores.kvstore subdomain })

end Stores

/-! ## What the statements do to the values -/

namespace KvStore

variable (store : KvStore collation) (s k : Str)

theorem value_renew (now : ℤ) (subdomain key : Str) (renewExpiry : ℤ) :
    (store.renew now subdomain key renewExpiry).value s k = store.value s k := by
  unfold value renew
  rw [Table.find_update]
  cases store.find (primaryKey collation s k) with
  | none => rfl
  | some row =>
      simp only [Option.map_some]
      split <;> rfl

theorem value_deleteKey (subdomain key : Str) :
    (store.deleteKey subdomain key).value s k =
      if primaryKey collation s k = primaryKey collation subdomain key then []
      else store.value s k := by
  unfold value deleteKey
  rw [Table.find_delete]
  cases hfind : store.find (primaryKey collation s k) with
  | none => simp
  | some row =>
      have hkey := Table.key_of_find hfind
      by_cases hsame : primaryKey collation s k = primaryKey collation subdomain key
      · simp [Option.filter, hkey, hsame]
      · simp [Option.filter, hkey, hsame]

theorem value_deleteSubdomain (subdomain : Str) :
    (store.deleteSubdomain subdomain).value s k =
      if collation s = collation subdomain then [] else store.value s k := by
  unfold value deleteSubdomain
  rw [Table.find_delete]
  cases hfind : store.find (primaryKey collation s k) with
  | none => simp
  | some row =>
      have hkey : collation row.subdomain = collation s :=
        (Prod.ext_iff.1 (Table.key_of_find hfind)).1
      by_cases hsame : collation s = collation subdomain
      · simp [Option.filter, hkey, hsame]
      · simp [Option.filter, hkey, hsame]

theorem value_insertRow {next : KvStore collation} {now expireInterval isFilename : ℤ}
    {subdomain key inserted : Str}
    (h : store.insertRow now subdomain key inserted expireInterval isFilename = some next) :
    next.value s k =
      if primaryKey collation s k = primaryKey collation subdomain key then inserted
      else store.value s k := by
  unfold value
  rw [Table.insert_eq_some h, KvRow.key]
  by_cases hsame : primaryKey collation s k = primaryKey collation subdomain key
  · rw [if_pos hsame, if_pos hsame]
  · rw [if_neg hsame, if_neg hsame]

/-- After the `DELETE` the `INSERT` finds its primary key free. -/
theorem insertRow_deleteKey (now : ℤ) (subdomain key inserted : Str)
    (expireInterval isFilename : ℤ) :
    ∃ next, (store.deleteKey subdomain key).insertRow now subdomain key inserted
      expireInterval isFilename = some next := by
  refine Option.isSome_iff_exists.1 (Table.insert_isSome ?_)
  unfold deleteKey
  rw [Table.find_delete]
  cases hfind : store.find (KvRow.key collation
      ⟨subdomain, key, inserted, now + expireInterval, isFilename⟩) with
  | none => rfl
  | some row =>
      have hkey := Table.key_of_find hfind
      simp only [KvRow.key] at hkey
      simp [Option.filter, KvRow.key, hkey]

end KvStore

namespace MysqlProxy

variable (store : KvStore collation)

/-- Visiting a row reads its value and changes no value of the table. -/
theorem visitRow_eq (selected now : ℤ) (subdomain key : Str) (renewExpiry : ℤ)
    (found : Str × KvStore collation) (row : KvRow) :
    (visitRow selected now subdomain key renewExpiry found row).1 = row.v ∧
      ∀ s k, (visitRow selected now subdomain key renewExpiry found row).2.value s k =
        found.2.value s k := by
  unfold visitRow
  split
  · exact ⟨rfl, fun s k => KvStore.value_renew found.2 s k now subdomain key renewExpiry⟩
  · exact ⟨rfl, fun _ _ => rfl⟩

/-- A Get reads the value and changes no value. -/
theorem longTermCacheGet_eq (now : ℤ) (subdomain key : Str) (renewExpiry : ℤ) :
    (longTermCacheGet store now subdomain key renewExpiry).1 = store.value subdomain key ∧
      ∀ s k, (longTermCacheGet store now subdomain key renewExpiry).2.value s k =
        store.value s k := by
  unfold longTermCacheGet KvStore.selectRows
  rw [Table.select_eq]
  cases hfind : store.find (primaryKey collation subdomain key) with
  | none => exact ⟨by simp [KvStore.value, hfind], fun _ _ => rfl⟩
  | some row =>
      simp only [Option.toList_some, List.foldl_cons, List.foldl_nil]
      obtain ⟨hvalue, hvalues⟩ :=
        visitRow_eq now now subdomain key renewExpiry ([], store) row
      exact ⟨by rw [hvalue]; simp [KvStore.value, hfind], hvalues⟩

theorem value_longTermCacheSet (now : ℤ) (subdomain key inserted : Str)
    (expireInterval isFilename : ℤ) (s k : Str) :
    (longTermCacheSet store now subdomain key inserted expireInterval isFilename).value s k =
      if primaryKey collation s k = primaryKey collation subdomain key then inserted
      else store.value s k := by
  obtain ⟨next, hinsert⟩ := KvStore.insertRow_deleteKey store now subdomain key inserted
    expireInterval isFilename
  unfold longTermCacheSet
  simp only [hinsert]
  rw [KvStore.value_insertRow _ s k hinsert, KvStore.value_deleteKey]
  split <;> rfl

end MysqlProxy

namespace MemcacheProxy

theorem get_set (memcached : Memcached) (key value other : Str) :
    get (set memcached key value) other = if key = other then value else get memcached other := by
  unfold get set
  by_cases hkey : key = other
  · subst hkey
    simp
  · simp [hkey, Ne.symm hkey]

theorem get_remove (memcached : Memcached) (key other : Str) :
    get (remove memcached key) other = if key = other then [] else get memcached other := by
  unfold get remove
  by_cases hkey : key = other
  · subst hkey
    simp
  · simp [hkey, Ne.symm hkey]

end MemcacheProxy

/-- The keys of one subdomain have different entries in memcached. -/
theorem longTermKey_inj {subdomain key other : Str} :
    longTermKey subdomain key = longTermKey subdomain other ↔ key = other := by
  unfold longTermKey
  exact List.append_right_inj _

namespace Stores

variable (stores : Stores collation) (now : ℤ) (subdomain key : Str)
  (renewExpiry useShortTermCache : ℤ)

/-- A Get that finds a value in memcached answers with it. -/
theorem longTermCacheGet_of_hit (huse : useShortTermCache ≠ 0)
    (hhit : MemcacheProxy.get stores.memcached (longTermKey subdomain key) ≠ []) :
    stores.longTermCacheGet now subdomain key renewExpiry useShortTermCache =
      (.value key (MemcacheProxy.get stores.memcached (longTermKey subdomain key)), stores) := by
  unfold longTermCacheGet
  simp only [if_pos huse]
  rw [if_pos (List.length_pos_iff.2 hhit)]

/-- Otherwise it asks MySQL, and copies the answer to memcached. -/
theorem longTermCacheGet_eq_fill (hmiss : useShortTermCache = 0 ∨
      MemcacheProxy.get stores.memcached (longTermKey subdomain key) = []) :
    let found := MysqlProxy.longTermCacheGet stores.kvstore now subdomain key renewExpiry
    stores.longTermCacheGet now subdomain key renewExpiry useShortTermCache =
      (.value key found.1,
        { kvstore := found.2
          memcached :=
            MemcacheProxy.set stores.memcached (longTermKey subdomain key) found.1 }) := by
  have hanswer : (if useShortTermCache ≠ 0 then
      MemcacheProxy.get stores.memcached (longTermKey subdomain key) else []) = [] := by
    rcases hmiss with hzero | hnone
    · rw [if_neg (not_not.2 hzero)]
    · rw [hnone, ite_self]
  unfold longTermCacheGet
  simp only [hanswer]
  exact if_neg (Nat.lt_irrefl 0)

/-- So the value in MySQL is what it answers with. -/
theorem longTermCacheGet_of_miss (hmiss : useShortTermCache = 0 ∨
      MemcacheProxy.get stores.memcached (longTermKey subdomain key) = []) :
    ∃ kvstore, (∀ s k, kvstore.value s k = stores.kvstore.value s k) ∧
      stores.longTermCacheGet now subdomain key renewExpiry useShortTermCache =
        (.value key (stores.kvstore.value subdomain key),
          { kvstore
            memcached := MemcacheProxy.set stores.memcached (longTermKey subdomain key)
              (stores.kvstore.value subdomain key) }) := by
  obtain ⟨hvalue, hvalues⟩ :=
    MysqlProxy.longTermCacheGet_eq stores.kvstore now subdomain key renewExpiry
  refine ⟨_, hvalues, ?_⟩
  rw [longTermCacheGet_eq_fill stores now subdomain key renewExpiry useShortTermCache hmiss, hvalue]

/-- A Get does one or the other. -/
theorem hit_or_miss :
    (useShortTermCache ≠ 0 ∧
      MemcacheProxy.get stores.memcached (longTermKey subdomain key) ≠ []) ∨
    (useShortTermCache = 0 ∨
      MemcacheProxy.get stores.memcached (longTermKey subdomain key) = []) := by
  by_cases hmiss : useShortTermCache = 0 ∨
      MemcacheProxy.get stores.memcached (longTermKey subdomain key) = []
  · exact Or.inr hmiss
  · exact Or.inl (not_or.1 hmiss)

end Stores

end VaeDb.Cache
