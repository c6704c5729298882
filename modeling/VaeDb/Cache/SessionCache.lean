import VaeDb.Cache.Agreement

/-!
# The session cache

The rows of `session_data` carry the subdomain that stored them, and every statement of
`MysqlProxy` on the table names the subdomain along with the key; but the primary key of
the schema is the column `id` alone.  So a row of one subdomain keeps every other one from
inserting under the same key: its `INSERT` fails, the exception is logged, and the value is
gone.

`sessionCacheSet_iff` says when a Set stores its value.  In a run in which every Set of a
key does, a Get of the key answers with the last value set and not deleted
(`sessionCacheGet_lastSet`).  The requests of one subdomain leave the answers of all others
alone in any case (`SessionData.value_serve_of_ne`).

Names are compared with a collation; the runs here are with exact comparisons.  Keys and values
fit their columns, and rows do not expire.
-/

namespace VaeDb.SessionCache

open Transition Cache

variable {collation : Collation}

/-! ## `session_data` -/

/-- A row of `session_data`. -/
structure SessionRow where
  id : Str
  subdomain : Str
  data : Str
  expires : ℤ

/-- The primary key of a row. -/
def SessionRow.key (collation : Collation) (row : SessionRow) : Str := collation row.id

/-- The table `session_data`, with its primary key. -/
abbrev SessionData (collation : Collation) := Table (SessionRow.key collation)

/-- ``WHERE `id`=? AND `subdomain`=?`` -/
def SessionRow.isUnder (collation : Collation) (subdomain key : Str) (row : SessionRow) : Bool :=
  row.key collation = collation key ∧ collation row.subdomain = collation subdomain

namespace SessionData

/-- ``SELECT `data` .. WHERE `id`=? AND `subdomain`=?`` -/
def selectRows (table : SessionData collation) (subdomain key : Str) : List SessionRow :=
  table.rows.filter (SessionRow.isUnder collation subdomain key)

/-- ``DELETE .. WHERE `id`=? AND `subdomain`=?`` -/
def deleteRow (table : SessionData collation) (subdomain key : Str) : SessionData collation :=
  table.delete (SessionRow.isUnder collation subdomain key)

/-- ``INSERT .. VALUES(?,?,?,UNIX_TIMESTAMP()+?)``; nothing if the primary key is taken. -/
def insertRow (table : SessionData collation) (now : ℤ) (subdomain key value : Str)
    (lifetime : ℤ) : Option (SessionData collation) :=
  table.insert ⟨key, subdomain, value, now + lifetime⟩

/-- The value under a subdomain and a key, empty if there is none. -/
def value (table : SessionData collation) (subdomain key : Str) : Str :=
  match table.find (collation key) with
  | some row => if collation row.subdomain = collation subdomain then row.data else []
  | none => []

/-- No other subdomain has a row under the key. -/
def Unclaimed (table : SessionData collation) (subdomain key : Str) : Prop :=
  ∀ row, table.find (collation key) = some row → collation row.subdomain = collation subdomain

end SessionData

namespace MysqlProxy

/-- `MysqlProxy::sessionCacheGet`: the data of the last row that is selected. -/
def sessionCacheGet (table : SessionData collation) (subdomain key : Str) : Str :=
  (table.selectRows subdomain key).foldl (fun _ row => row.data) []

/-- `MysqlProxy::sessionCacheSet`.  A failing statement is logged and ends the call. -/
def sessionCacheSet (table : SessionData collation) (now : ℤ) (subdomain key value : Str) :
    SessionData collation :=
  let deleted := table.deleteRow subdomain key
  match deleted.insertRow now subdomain key value (86400 * 2) with
  | some inserted => inserted
  | none => deleted

/-- `MysqlProxy::sessionCacheDelete`. -/
def sessionCacheDelete (table : SessionData collation) (subdomain key : Str) :
    SessionData collation :=
  table.deleteRow subdomain key

end MysqlProxy

/-! ## The handlers of `Server` -/

/-- A request to the session cache, with the subdomain of the session's Site. -/
inductive Request
  | get (subdomain key : Str)
  | set (subdomain key value : Str)
  | delete (subdomain key : Str)

/-- The subdomain a request comes from. -/
def Request.subdomain : Request → Str
  | .get subdomain _ => subdomain
  | .set subdomain _ _ => subdomain
  | .delete subdomain _ => subdomain

namespace SessionData

/-- `Server::sessionCacheGet`. -/
def sessionCacheGet (table : SessionData collation) (subdomain key : Str) :
    Reply × SessionData collation :=
  (.value key (MysqlProxy.sessionCacheGet table subdomain key), table)

/-- `Server::sessionCacheSet`. -/
def sessionCacheSet (table : SessionData collation) (now : ℤ) (subdomain key value : Str) :
    Reply × SessionData collation :=
  (.value key value, MysqlProxy.sessionCacheSet table now subdomain key value)

/-- `Server::sessionCacheDelete`. -/
def sessionCacheDelete (table : SessionData collation) (subdomain key : Str) :
    Reply × SessionData collation :=
  (.key key, MysqlProxy.sessionCacheDelete table subdomain key)

/-- The handler that a request is dispatched to. -/
def serve (table : SessionData collation) (now : ℤ) : Request → Reply × SessionData collation
  | .get subdomain key => table.sessionCacheGet subdomain key
  | .set subdomain key value => table.sessionCacheSet now subdomain key value
  | .delete subdomain key => table.sessionCacheDelete subdomain key

/-! ## What the statements do to the values -/

variable (table : SessionData collation) (subdomain key : Str)

/-- The `SELECT` finds the one row with the key, if it is the subdomain's. -/
theorem selectRows_eq : table.selectRows subdomain key =
    ((table.find (collation key)).filter fun row =>
      collation row.subdomain = collation subdomain).toList := by
  have hand : SessionRow.isUnder collation subdomain key =
      fun row => (decide (collation row.subdomain = collation subdomain)) &&
        (decide (row.key collation = collation key)) := by
    funext row
    simp [SessionRow.isUnder, Bool.and_comm]
  have hselect : table.rows.filter (fun row => row.key collation = collation key) =
      (table.find (collation key)).toList := table.select_eq (collation key)
  unfold selectRows
  rw [hand, ← List.filter_filter, hselect]
  cases table.find (collation key) with
  | none => rfl
  | some row =>
      by_cases hrow : collation row.subdomain = collation subdomain
      · simp [Option.filter, hrow]
      · simp [Option.filter, hrow]

/-- A Get reads the value. -/
theorem sessionCacheGet_eq :
    MysqlProxy.sessionCacheGet table subdomain key = table.value subdomain key := by
  unfold MysqlProxy.sessionCacheGet value
  rw [selectRows_eq]
  cases table.find (collation key) with
  | none => rfl
  | some row =>
      by_cases hrow : collation row.subdomain = collation subdomain
      · simp [Option.filter, hrow]
      · simp [Option.filter, hrow]

/-- A row under another key, or of another subdomain, survives a `DELETE`. -/
theorem find_deleteRow_of_ne {k : Str} {row : SessionRow} (hfind : table.find k = some row)
    (hother : ¬ (collation row.subdomain = collation subdomain ∧ k = collation key)) :
    (table.deleteRow subdomain key).find k = some row := by
  have hkey : row.key collation = k := Table.key_of_find hfind
  have hkept : SessionRow.isUnder collation subdomain key row = false := by
    simp only [SessionRow.isUnder, decide_eq_false_iff_not, hkey]
    exact fun hsame => hother hsame.symm
  exact Table.find_delete_of_keep hfind hkept

/-- The subdomain's own row under the key does not. -/
theorem find_deleteRow_of_unclaimed (hclaim : table.Unclaimed subdomain key) :
    (table.deleteRow subdomain key).find (collation key) = none := by
  cases hfind : table.find (collation key) with
  | none => exact Table.find_delete_of_none hfind
  | some row =>
      have hdropped : SessionRow.isUnder collation subdomain key row = true := by
        simp only [SessionRow.isUnder, decide_eq_true_eq]
        exact ⟨Table.key_of_find hfind, hclaim row hfind⟩
      exact Table.find_delete_of_drop hfind hdropped

theorem value_deleteRow (s k : Str) : (table.deleteRow subdomain key).value s k =
    if collation s = collation subdomain ∧ collation k = collation key then []
    else table.value s k := by
  by_cases hclaim : collation k = collation key ∧ table.Unclaimed subdomain key
  · obtain ⟨hkey, hclaim⟩ := hclaim
    simp only [value, hkey, find_deleteRow_of_unclaimed table subdomain key hclaim]
    -- a row under the key is the subdomain's
    cases hfind : table.find (collation key) with
    | none => simp
    | some row =>
        have hrow : collation row.subdomain = collation subdomain := hclaim row hfind
        by_cases hsame : collation s = collation subdomain
        · simp [hsame]
        · simp [hsame, hrow, Ne.symm hsame]
  · cases hfind : table.find (collation k) with
    | none =>
        have hnone : (table.deleteRow subdomain key).find (collation k) = none :=
          Table.find_delete_of_none hfind
        simp [value, hnone, hfind]
    | some row =>
        have hother :
            ¬ (collation row.subdomain = collation subdomain ∧ collation k = collation key) := by
          intro hsame
          refine hclaim ⟨hsame.2, fun found hfound => ?_⟩
          rw [← hsame.2, hfind] at hfound
          exact Option.some.inj hfound ▸ hsame.1
        have hkept := find_deleteRow_of_ne table subdomain key hfind hother
        simp only [value, hkept, hfind]
        by_cases hsame : collation s = collation subdomain ∧ collation k = collation key
        · have hforeign : collation row.subdomain ≠ collation s :=
            fun hs => hother ⟨hs.trans hsame.1, hsame.2⟩
          rw [if_pos hsame, if_neg hforeign]
        · rw [if_neg hsame]

end SessionData

namespace MysqlProxy

variable (table : SessionData collation) (now : ℤ) (subdomain key inserted : Str)

/-- Where no other subdomain has a row under the key, a Set stores its value. -/
theorem value_sessionCacheSet_of_unclaimed (hclaim : table.Unclaimed subdomain key)
    (s k : Str) : (sessionCacheSet table now subdomain key inserted).value s k =
      if collation s = collation subdomain ∧ collation k = collation key then inserted
      else table.value s k := by
  have hfree := table.find_deleteRow_of_unclaimed subdomain key hclaim
  obtain ⟨next, hinsert⟩ : ∃ next,
      (table.deleteRow subdomain key).insertRow now subdomain key inserted (86400 * 2) =
        some next :=
    Option.isSome_iff_exists.1 (Table.insert_isSome hfree)
  have hfind : ∀ k, next.find (collation k) =
      if collation k = collation key then
        some ⟨key, subdomain, inserted, now + 86400 * 2⟩
      else (table.deleteRow subdomain key).find (collation k) :=
    fun k => Table.insert_eq_some hinsert (collation k)
  unfold sessionCacheSet
  simp only [hinsert]
  by_cases hkey : collation k = collation key
  · by_cases hsame : collation s = collation subdomain
    · simp [SessionData.value, hfind, hkey, hsame]
    · -- the key's only row is the subdomain's, before and after
      have hbefore : table.value s k = [] := by
        have hvalue := table.value_deleteRow subdomain key s k
        rw [if_neg fun h => hsame h.1] at hvalue
        rw [← hvalue, SessionData.value, hkey, hfree]
      rw [hbefore]
      simp [SessionData.value, hfind, hkey, hsame, Ne.symm hsame]
  · rw [if_neg fun hsame => hkey hsame.2]
    have hvalue := table.value_deleteRow subdomain key s k
    rw [if_neg fun hsame => hkey hsame.2] at hvalue
    rw [← hvalue]
    simp [SessionData.value, hfind, hkey]

/-- Where one has, the `INSERT` fails. -/
theorem sessionCacheSet_of_claimed (hclaim : ¬ table.Unclaimed subdomain key) :
    sessionCacheSet table now subdomain key inserted = table.deleteRow subdomain key := by
  obtain ⟨row, hfind, hforeign⟩ : ∃ row, table.find (collation key) = some row ∧
      collation row.subdomain ≠ collation subdomain := by
    simpa [SessionData.Unclaimed] using hclaim
  have hkept := table.find_deleteRow_of_ne subdomain key hfind fun hsame => hforeign hsame.1
  have hinsert : (table.deleteRow subdomain key).insertRow now subdomain key inserted
      (86400 * 2) = none := Table.insert_eq_none hkept
  unfold sessionCacheSet
  simp only [hinsert]

/-- A Set changes no other value. -/
theorem value_sessionCacheSet_of_ne {s k : Str}
    (hother : ¬ (collation s = collation subdomain ∧ collation k = collation key)) :
    (sessionCacheSet table now subdomain key inserted).value s k = table.value s k := by
  by_cases hclaim : table.Unclaimed subdomain key
  · rw [value_sessionCacheSet_of_unclaimed table now subdomain key inserted hclaim,
      if_neg hother]
  · rw [sessionCacheSet_of_claimed table now subdomain key inserted hclaim,
      SessionData.value_deleteRow, if_neg hother]

/-- When a Get after a Set reads the value that was set. -/
theorem sessionCacheSet_iff :
    (sessionCacheSet table now subdomain key inserted).value subdomain key = inserted ↔
      inserted = [] ∨ table.Unclaimed subdomain key := by
  by_cases hclaim : table.Unclaimed subdomain key
  · rw [value_sessionCacheSet_of_unclaimed table now subdomain key inserted hclaim]
    simp [hclaim]
  · rw [sessionCacheSet_of_claimed table now subdomain key inserted hclaim,
      SessionData.value_deleteRow]
    simp [hclaim, eq_comm]

end MysqlProxy

/-! ## What the cache is for -/

/-- A Set counts until a Delete of its key. -/
def lastSet (contents : Contents) : Request → Contents
  | .get _ _ => contents
  | .set subdomain key value =>
      fun s k => if s = subdomain ∧ k = key then value else contents s k
  | .delete subdomain key => fun s k => if s = subdomain ∧ k = key then [] else contents s k

/-- Serve a request at a time, and note what the cache should hold from then on. -/
def serveStep (state : SessionData .binary × Contents) (label : ℤ × Request) :
    Option (SessionData .binary × Contents) :=
  some ((state.1.serve label.1 label.2).2, lastSet state.2 label.2)

/-- Before the first request. -/
def serveInitial : SessionData .binary × Contents := ⟨Table.empty, fun _ _ => []⟩

/-- A Set of the key stores nothing that another subdomain's row keeps out. -/
def StoresValue (subdomain key : Str) (table : SessionData .binary) : Request → Prop
  | .set s k value =>
      s = subdomain ∧ k = key → value = [] ∨ table.Unclaimed subdomain key
  | _ => True

/-- The requests of one subdomain leave what all others read alone. -/
theorem SessionData.value_serve_of_ne (table : SessionData .binary) (now : ℤ)
    (request : Request) {s : Str} (hother : s ≠ request.subdomain) (k : Str) :
    (table.serve now request).2.value s k = table.value s k := by
  cases request with
  | get subdomain key => rfl
  | set subdomain key value =>
      exact MysqlProxy.value_sessionCacheSet_of_ne table now subdomain key value
        fun hsame => hother hsame.1
  | delete subdomain key =>
      show (table.deleteRow subdomain key).value s k = _
      rw [value_deleteRow, if_neg fun hsame => hother hsame.1]

/-- A request that stores what it should keeps the value of a key at what was last set. -/
theorem value_serve {table : SessionData .binary} {contents : Contents} {subdomain key : Str}
    (h : table.value subdomain key = contents subdomain key) {now : ℤ} {request : Request}
    (hok : StoresValue subdomain key table request) :
    (table.serve now request).2.value subdomain key =
      lastSet contents request subdomain key := by
  cases request with
  | get s k => exact h
  | set s k value =>
      show (MysqlProxy.sessionCacheSet table now s k value).value subdomain key =
        if subdomain = s ∧ key = k then value else contents subdomain key
      by_cases hsame : subdomain = s ∧ key = k
      · obtain ⟨rfl, rfl⟩ := hsame
        rw [if_pos ⟨rfl, rfl⟩]
        exact (MysqlProxy.sessionCacheSet_iff table now subdomain key value).2 (hok ⟨rfl, rfl⟩)
      · rw [MysqlProxy.value_sessionCacheSet_of_ne table now s k value hsame, if_neg hsame, h]
  | delete s k =>
      show (table.deleteRow s k).value subdomain key =
        if subdomain = s ∧ key = k then [] else contents subdomain key
      rw [SessionData.value_deleteRow, h]
      rfl

/-- In a run in which every Set of a key stores its value, a Get of the key answers with
the last value set and not deleted.  No request of another subdomain changes the answer. -/
theorem sessionCacheGet_lastSet (subdomain key : Str) {labels : List (ℤ × Request)}
    {table : SessionData .binary} {contents : Contents}
    (hrun : run serveStep serveInitial labels = some (table, contents))
    (hok : Meets serveStep (fun state label => StoresValue subdomain key state.1 label.2)
      serveInitial labels) :
    (table.sessionCacheGet subdomain key).1 = .value key (contents subdomain key) ∧
      ∀ now request, subdomain ≠ request.subdomain →
        ((table.serve now request).2.sessionCacheGet subdomain key).1 =
          (table.sessionCacheGet subdomain key).1 := by
  have hstep : ∀ (state : SessionData .binary × Contents) label next,
      state.1.value subdomain key = state.2 subdomain key →
      StoresValue subdomain key state.1 label.2 → serveStep state label = some next →
      next.1.value subdomain key = next.2 subdomain key := by
    intro state label next hvalue hstores hnext
    obtain rfl := Option.some.inj hnext
    exact value_serve hvalue hstores
  have hvalue : table.value subdomain key = contents subdomain key :=
    invariant_of_meets hstep rfl hok hrun
  constructor
  · rw [SessionData.sessionCacheGet, SessionData.sessionCacheGet_eq, hvalue]
  · intro now request hother
    simp only [SessionData.sessionCacheGet, SessionData.sessionCacheGet_eq]
    rw [SessionData.value_serve_of_ne table now request hother]

/-- Two subdomains with keys of their own. -/
def ownKeys : List (ℤ × Request) :=
  [(0, .set "shop" "a" "1"), (1, .set "blog" "b" "2"), (2, .set "shop" "a" "3"),
    (3, .delete "blog" "b"), (4, .get "shop" "a")]

theorem sessionCacheGet_lastSet_ownKeys :
    ∃ table contents, run serveStep serveInitial ownKeys = some (table, contents) ∧
      (table.sessionCacheGet "shop" "a").1 = .value "a" "3" := by
  have hok : Meets serveStep (fun state label => StoresValue "shop" "a" state.1 label.2)
      serveInitial ownKeys := by
    refine (meets_cons_of_step rfl).2 ⟨fun _ => Or.inr ?_, (meets_cons_of_step rfl).2 ⟨?_,
      (meets_cons_of_step rfl).2 ⟨fun _ => Or.inr ?_, (meets_cons_of_step rfl).2 ⟨trivial,
      (meets_cons_of_step rfl).2 ⟨trivial, trivial⟩⟩⟩⟩⟩
    · intro row hrow
      cases hrow
    · intro hsame
      exact absurd hsame.1 (by decide)
    · intro row hrow
      obtain rfl := Option.some.inj hrow
      rfl
  exact ⟨_, _, rfl, (sessionCacheGet_lastSet "shop" "a" rfl hok).1⟩

/-- Two subdomains with the same key. -/
def sharedKey : List (ℤ × Request) :=
  [(0, .set "shop" "a" "1"), (1, .set "blog" "a" "2")]

theorem sessionCacheGet_after_foreignSet :
    ∃ table contents, run serveStep serveInitial sharedKey = some (table, contents) ∧
      (table.sessionCacheGet "blog" "a").1 = .value "a" "" ∧ contents "blog" "a" = "2" :=
  ⟨_, _, rfl, by decide, by decide⟩

end VaeDb.SessionCache
