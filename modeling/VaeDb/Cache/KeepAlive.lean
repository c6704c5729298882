import VaeDb.Cache.Storage
import VaeDb.Library.Leases

/-!
# Entries in use are kept

The Sweeper deletes a row of `kvstore` once it has expired.  A Get with a `renewExpiry` puts the
expiry off when fewer than ten days remain, but only if it gets to MySQL: what memcached answers
is not renewed, and memcached holds a value for a day.  So an entry has to be read more often
than it is renewed for.

After a Get from MySQL a row stays for `reach`: the days it was renewed for, or what lies between
now and the tenth midnight from now.  If an entry is never left alone for longer than that less
the day in memcached (`slack`), it is kept, with its value, and the Sweeper is told of it
(`entry_in_use_kept`), whatever happens to other entries and other sites, and whatever memcached
drops.  Requests come one after another here.
-/

namespace VaeDb.Storage

open Cache (Collation primaryKey longTermKey shortTermKey)
open Leases Threads

variable {collation : Collation}

/-- How long a row stays after a Get from MySQL that renews it for some days. -/
def reach (renewal : ℤ) : ℤ := min (86400 * renewal) (86400 * 9 + 1)

/-- How long an entry may be left alone: memcached may have answered for a day. -/
def slack (renewal : ℤ) : ℤ := reach renewal - 86399

/-- An expiry of ten days from now, in days, is more than nine days from now. -/
theorem lt_of_dateDiff {expireAt now : ℤ} (h : ¬ dateDiff expireAt now < 10) :
    now + 86400 * 9 < expireAt := by
  unfold dateDiff at h
  omega

section

variable (site key value : Str) (isFilename renewal filled used : ℤ)

/-- The entry: its row was last renewed when `filled`, memcached has its value from then, and it
was last used when `used`. -/
structure Alive (memory : Memory collation) : Prop where
  row : Lasts KvRow.expireAt (fun row => row.v = value ∧ row.k = key ∧ row.isFilename = isFilename)
    memory.kvstore (primaryKey collation site key) (filled + reach renewal)
  item : ∀ item, memory.memcached (longTermKey site key) = some item → item.value = value ∧
    ∃ time, item.exptime = some time ∧ time ≤ filled + 86400
  used_le : used ≤ filled + 86399
  now_le : memory.now ≤ used + slack renewal

/-! ## What leaves the entry alone -/

/-- Nobody takes the names of another entry for those of this one. -/
structure Other (collation : Collation) (subdomain k : Str) : Prop where
  primaryKey_ne : primaryKey collation subdomain k ≠ primaryKey collation site key
  longTermKey_ne : longTermKey subdomain k ≠ longTermKey site key

/-- What may happen while the entry is in use: a Get renews it, and is never too late; no request
sets or deletes it, and none is for an entry that is taken for it. -/
def Sustains (collation : Collation) (state : Memory collation × ℤ) : Event → Prop
  | .pass seconds => state.1.now + seconds ≤ state.2 + slack renewal
  | .serve subdomain (.longTermCacheGet k renewExpiry _) =>
      (subdomain = site ∧ k = key ∧ renewal ≤ renewExpiry) ∨ Other site key collation subdomain k
  | .serve subdomain (.longTermCacheSet k _ _ _) => Other site key collation subdomain k
  | .serve subdomain (.longTermCacheDelete k) =>
      primaryKey collation subdomain k ≠ primaryKey collation site key
  | .serve subdomain .longTermCacheEmpty => collation subdomain ≠ collation site
  | .serve subdomain (.shortTermCacheSet k _ _) => shortTermKey subdomain k ≠ longTermKey site key
  | _ => True

/-- A statement that is not about the entry. -/
def Statement.Spares (collation : Collation) : Statement → Prop
  | .renew subdomain k _ => primaryKey collation subdomain k ≠ primaryKey collation site key
  | .deleteKey subdomain k => primaryKey collation subdomain k ≠ primaryKey collation site key
  | .deleteSubdomain subdomain => collation subdomain ≠ collation site
  | .set name _ _ => name ≠ longTermKey site key
  | .pass _ => False
  | _ => True

/-- The entry is used. -/
def Event.uses : Event → Bool
  | .serve subdomain (.longTermCacheGet k _ _) => subdomain = site ∧ k = key
  | _ => false

/-- What happens, one after the other, and when the entry was last used. -/
def useStep (state : Memory collation × ℤ) (event : Event) : Option (Memory collation × ℤ) :=
  (event.code.alone state.1).map fun result =>
    (result.2, if event.uses site key then state.1.now else state.2)

end

section

variable {site key value : Str} {isFilename renewal filled used : ℤ}

/-- What a request executes that is no use of the entry leaves it alone. -/
theorem spares_of_issues {state : Memory collation × ℤ} {subdomain : Str} {request : Request}
    (hok : Sustains site key renewal collation state (.serve subdomain request))
    (huses : Event.uses site key (.serve subdomain request) = false) {statement : Statement}
    (hissues : (Event.serve subdomain request).Issues statement) :
    statement.Spares site key collation := by
  cases request with
  | shortTermCacheGet k => exact hissues.elim
  | shortTermCacheSet k text expireInterval =>
      obtain rfl := hissues
      exact hok
  | shortTermCacheDelete k =>
      obtain rfl := hissues
      trivial
  | sessionCacheGet k => exact hissues.elim
  | sessionCacheSet k text => rcases hissues with rfl | rfl <;> trivial
  | sessionCacheDelete k =>
      obtain rfl := hissues
      trivial
  | longTermCacheGet k renewExpiry useShortTermCache =>
      have hother : Other site key collation subdomain k :=
        hok.resolve_left fun hown => of_decide_eq_false huses ⟨hown.1, hown.2.1⟩
      rcases hissues with rfl | ⟨text, rfl⟩
      · exact hother.primaryKey_ne
      · exact hother.longTermKey_ne
  | longTermCacheSet k text expireInterval isFile =>
      rcases hissues with rfl | rfl | rfl
      · exact hok.primaryKey_ne
      · trivial
      · exact hok.longTermKey_ne
  | longTermCacheDelete k =>
      rcases hissues with rfl | rfl
      · exact hok
      · trivial
  | longTermCacheEmpty =>
      obtain rfl := hissues
      exact hok
  | longTermCacheSweeperInfo =>
      obtain rfl := hissues
      trivial
  | sitewideLock iden => rcases hissues with rfl | rfl <;> trivial
  | sitewideUnlock iden =>
      obtain rfl := hissues
      trivial

namespace Alive

variable {memory : Memory collation}

theorem now_le_filled (h : Alive site key value isFilename renewal filled used memory) :
    memory.now ≤ filled + reach renewal := by
  have hused := h.used_le
  have hnow := h.now_le
  unfold slack at hnow
  omega

/-- What leaves the entry alone does not end its life. -/
theorem apply (h : Alive site key value isFilename renewal filled used memory)
    {statement : Statement} (hspares : statement.Spares site key collation) :
    Alive site key value isFilename renewal filled used (statement.apply memory) := by
  have hkvstore : ∀ kvstore : KvStore collation, Lasts KvRow.expireAt
      (fun row => row.v = value ∧ row.k = key ∧ row.isFilename = isFilename) kvstore
        (primaryKey collation site key) (filled + reach renewal) →
      Alive site key value isFilename renewal filled used { memory with kvstore } :=
    fun _ hrow => ⟨hrow, h.item, h.used_le, h.now_le⟩
  cases statement with
  | renew subdomain k renewExpiry =>
      refine hkvstore _ (h.row.update fun row hkey _ hchange => ?_)
      exact absurd ((of_decide_eq_true hchange).symm.trans hkey) hspares
  | deleteKey subdomain k =>
      exact hkvstore _ (h.row.delete fun _ hkey _ _ =>
        decide_eq_false fun hsame => hspares (hsame.symm.trans hkey))
  | deleteSubdomain subdomain =>
      refine hkvstore _ (h.row.delete fun row hkey _ _ => decide_eq_false fun hsame => ?_)
      have hsite : collation row.subdomain = collation site := (Prod.ext_iff.1 hkey).1
      exact hspares (hsame.symm.trans hsite)
  | insertRow subdomain k text expireInterval isFile => exact hkvstore _ (h.row.insert_getD _)
  | deleteExpired subdomain =>
      exact hkvstore _
        (h.row.sweep (fun _ hdrop => (of_decide_eq_true hdrop).1) h.now_le_filled)
  | set name text expireInterval =>
      refine ⟨h.row, fun item hitem => ?_, h.used_le, h.now_le⟩
      exact h.item item ((Function.update_of_ne (Ne.symm hspares) _ _).symm.trans hitem)
  | remove name =>
      refine ⟨h.row, fun item hitem => ?_, h.used_le, h.now_le⟩
      have hitem : Function.update memory.memcached name none (longTermKey site key) = some item :=
        hitem
      by_cases hname : longTermKey site key = name
      · rw [hname, Function.update_self] at hitem
        cases hitem
      · exact h.item item ((Function.update_of_ne hname _ _).symm.trans hitem)
  | pass seconds => exact hspares.elim
  | _ => exact ⟨h.row, h.item, h.used_le, h.now_le⟩

end Alive

/-! ## Uses of the entry -/

/-- A Get from MySQL gives the value of the row, and may renew it. -/
theorem MysqlProxy.alone_longTermCacheGet {memory : Memory collation} {row : KvRow}
    (hfind : memory.kvstore.find (primaryKey collation site key) = some row) (renewExpiry : ℤ) :
    (MysqlProxy.longTermCacheGet site key renewExpiry).alone memory = some (row.v,
      if renewExpiry > 0 ∧ dateDiff row.expireAt memory.now < 10 then
        { memory with kvstore := memory.kvstore.renew memory.now site key renewExpiry }
      else memory) := by
  unfold MysqlProxy.longTermCacheGet KvStore.selectRows
  rw [Program.alone_bind, Program.alone_read, Option.bind_some, Table.select_eq, hfind]
  simp only [Option.toList_some, List.map_cons, List.map_nil, List.foldlM_cons, List.foldlM_nil,
    Program.alone_bind, MysqlProxy.visitRow]
  split <;> rfl

namespace Alive

variable {memory : Memory collation}

/-- After a Get that renews it for long enough, the row reaches far enough from now. -/
theorem row_renewed (h : Alive site key value isFilename renewal filled used memory)
    (hrenewal : 0 < renewal) {renewExpiry : ℤ} (hrenew : renewal ≤ renewExpiry) :
    ∃ row, memory.kvstore.find (primaryKey collation site key) = some row ∧ row.v = value ∧
      Lasts KvRow.expireAt (fun row => row.v = value ∧ row.k = key ∧ row.isFilename = isFilename)
        (if renewExpiry > 0 ∧ dateDiff row.expireAt memory.now < 10 then
          { memory with kvstore := memory.kvstore.renew memory.now site key renewExpiry }
        else memory).kvstore (primaryKey collation site key) (memory.now + reach renewal) := by
  obtain ⟨row, hfind, hrow, -⟩ := h.row
  have hreach : reach renewal ≤ 86400 * renewal := min_le_left _ _
  have hreach' : reach renewal ≤ 86400 * 9 + 1 := min_le_right _ _
  refine ⟨row, hfind, hrow.1, ?_⟩
  split
  · next hshort =>
    refine ⟨row.expiringAt (dateAdd memory.now renewExpiry), ?_, hrow, ?_⟩
    · show (memory.kvstore.renew memory.now site key renewExpiry).find _ = _
      rw [KvStore.renew, Table.find_update, hfind, Option.map_some,
        if_pos (decide_eq_true (Table.key_of_find hfind))]
    · show memory.now + reach renewal ≤ memory.now + 86400 * renewExpiry
      omega
  · next hlong =>
    refine ⟨row, hfind, hrow, ?_⟩
    have hremaining : ¬ dateDiff row.expireAt memory.now < 10 := fun hdays =>
      hlong ⟨by omega, hdays⟩
    have hlater := lt_of_dateDiff hremaining
    omega

/-- A Get that finds the value in memcached. -/
theorem live_of_get (h : Alive site key value isFilename renewal filled used memory)
    {item : Item} (hitem : memory.memcached (longTermKey site key) = some item)
    (hlive : item.isLive memory.now = true) :
    item.value = value ∧ memory.now < filled + 86400 := by
  obtain ⟨hvalue, time, htime, hle⟩ := h.item item hitem
  have hnow : memory.now < time := by
    simpa [Item.isLive, htime] using hlive
  exact ⟨hvalue, by omega⟩

theorem slack_nonneg (hrenewal : 0 < renewal) : 0 ≤ slack renewal := by
  unfold slack reach
  omega

/-- What a Get does that has to ask MySQL. -/
theorem fill (h : Alive site key value isFilename renewal filled used memory)
    (hrenewal : 0 < renewal) (renewExpiry : ℤ) :
    ∃ next, (do
        let text ← MysqlProxy.longTermCacheGet site key renewExpiry
        MemcacheProxy.set (longTermKey site key) text 86400
        return .value key text : Code collation Reply).alone memory =
          some (.value key value, next) ∧
      (renewal ≤ renewExpiry →
        Alive site key value isFilename renewal memory.now memory.now next) := by
  obtain ⟨row, hfind, hrow, -⟩ := h.row
  have hslack := slack_nonneg hrenewal
  simp only [Program.alone_bind, MysqlProxy.alone_longTermCacheGet hfind, MemcacheProxy.set,
    execute, Program.alone_write, Program.alone_pure, Option.bind_some, hrow.1]
  refine ⟨_, rfl, fun hrenew => ?_⟩
  obtain ⟨row', hfind', -, hlasts⟩ := h.row_renewed hrenewal hrenew
  obtain rfl : row = row' := Option.some.inj (hfind.symm.trans hfind')
  have hnow : ∀ condition : Prop, [Decidable condition] → ∀ kvstore : KvStore collation,
      (if condition then { memory with kvstore } else memory).now = memory.now := by
    intro condition _ kvstore
    split <;> rfl
  refine ⟨hlasts, fun item hitem => ?_, by omega, ?_⟩
  · have hset := (Function.update_self (longTermKey site key) _ _).symm.trans hitem
    obtain rfl := Option.some.inj hset
    exact ⟨rfl, _, exptime_day _, by rw [hnow]⟩
  · show (if _ then _ else memory).now ≤ _
    rw [hnow]
    omega

/-- A Get answers with the value, and is a use if it renews the row for long enough. -/
theorem get (h : Alive site key value isFilename renewal filled used memory)
    (hrenewal : 0 < renewal) (renewExpiry useShortTermCache : ℤ) :
    ∃ next, (longTermCacheGet site key renewExpiry useShortTermCache).alone memory =
        some (.value key value, next) ∧
      (renewal ≤ renewExpiry →
        ∃ filled', Alive site key value isFilename renewal filled' memory.now next) := by
  obtain ⟨next, hfill, halive⟩ := h.fill hrenewal renewExpiry
  have hslack := slack_nonneg hrenewal
  unfold longTermCacheGet
  split
  · rw [Program.alone_bind, MemcacheProxy.get, Program.alone_read, Option.bind_some]
    cases hitem : memory.memcached (longTermKey site key) with
    | none => exact ⟨next, hfill, fun hrenew => ⟨_, halive hrenew⟩⟩
    | some item =>
        cases hlive : item.isLive memory.now with
        | false =>
            simp only [hlive, Bool.false_eq_true, if_false, List.length_nil, gt_iff_lt,
              Nat.lt_irrefl]
            exact ⟨next, hfill, fun hrenew => ⟨_, halive hrenew⟩⟩
        | true =>
            obtain ⟨hvalue, hnow⟩ := h.live_of_get hitem hlive
            simp only [hlive, if_true, hvalue]
            split
            · exact ⟨memory, rfl, fun _ => ⟨filled, h.row, h.item, by omega, by omega⟩⟩
            · exact ⟨next, hfill, fun hrenew => ⟨_, halive hrenew⟩⟩
  · exact ⟨next, hfill, fun hrenew => ⟨_, halive hrenew⟩⟩

/-- Time passes while the entry is not left alone for too long. -/
theorem pass (h : Alive site key value isFilename renewal filled used memory) {seconds : ℕ}
    (hpass : memory.now + seconds ≤ used + slack renewal) :
    Alive site key value isFilename renewal filled used
      { memory with now := memory.now + seconds } := ⟨h.row, h.item, h.used_le, hpass⟩

/-- Whatever happens, the entry is kept. -/
theorem step (hrenewal : 0 < renewal) {state next : Memory collation × ℤ}
    (h : ∃ filled, Alive site key value isFilename renewal filled state.2 state.1) {event : Event}
    (hok : Sustains site key renewal collation state event)
    (hstep : useStep site key state event = some next) :
    ∃ filled, Alive site key value isFilename renewal filled next.2 next.1 := by
  obtain ⟨filled, halive⟩ := h
  obtain ⟨result, halone, rfl⟩ := Option.map_eq_some_iff.1 hstep
  -- statements that spare the entry keep it alive
  have hspared : ∀ {event : Event},
      (∀ statement, event.Issues statement → statement.Spares site key collation) →
      ∀ result, event.code.alone state.1 = some result →
        Alive site key value isFilename renewal filled state.2 result.2 := by
    intro event hspares result halone
    have hkeeps : Keeps (Alive site key value isFilename renewal filled state.2)
        (event.code : Code collation _) :=
      Event.keeps_code fun statement hissues _ h => h.apply (hspares statement hissues)
    exact hkeeps.alone halive halone
  cases event with
  | garbageCollect =>
      refine ⟨filled, hspared (fun statement hissues => ?_) result halone⟩
      obtain rfl := hissues
      trivial
  | drop name =>
      refine ⟨filled, hspared (fun statement hissues => ?_) result halone⟩
      obtain rfl := hissues
      trivial
  | pass seconds =>
      obtain rfl := Option.some.inj halone
      exact ⟨filled, halive.pass hok⟩
  | serve subdomain request =>
      cases huses : Event.uses site key (.serve subdomain request) with
      | false =>
          exact ⟨filled, hspared (fun _ hissues => spares_of_issues hok huses hissues) result
            halone⟩
      | true =>
          cases request with
          | longTermCacheGet k renewExpiry useShortTermCache =>
              obtain ⟨rfl, rfl⟩ := of_decide_eq_true huses
              have hrenew : renewal ≤ renewExpiry := by
                rcases hok with hown | hother
                · exact hown.2.2
                · exact absurd rfl hother.primaryKey_ne
              obtain ⟨memory, hget, hused⟩ := halive.get hrenewal renewExpiry useShortTermCache
              have hserve : (Event.serve subdomain
                  (.longTermCacheGet k renewExpiry useShortTermCache)).code.alone state.1 =
                    some (some (.value k value), memory) := by
                show ((longTermCacheGet subdomain k renewExpiry useShortTermCache) >>= _).alone _ =
                  _
                rw [Program.alone_bind, hget]
                rfl
              obtain rfl := Option.some.inj (halone.symm.trans hserve)
              exact hused hrenew
          | _ => cases huses

end Alive

/-- A Set begins the life of an entry. -/
theorem alone_longTermCacheSet (memory : Memory collation) (site key value : Str)
    (isFilename : ℤ) (hrenewal : 0 < renewal) {expireInterval : ℤ}
    (hinterval : renewal ≤ expireInterval) :
    ∃ next, (longTermCacheSet site key value expireInterval isFilename).alone memory =
        some (.value key value, next) ∧
      Alive site key value isFilename renewal memory.now memory.now next := by
  have hreach : reach renewal ≤ 86400 * renewal := min_le_left _ _
  have hslack := Alive.slack_nonneg hrenewal
  -- the `DELETE` has made room for the row
  obtain ⟨kvstore, hinsert⟩ : ∃ kvstore, (memory.kvstore.deleteKey site key).insertRow memory.now
      site key value expireInterval isFilename = some kvstore := by
    refine Option.isSome_iff_exists.1 (Table.insert_isSome ?_)
    unfold KvStore.deleteKey
    cases hfind : memory.kvstore.find (primaryKey collation site key) with
    | none => exact Table.find_delete_of_none hfind
    | some row =>
        exact Table.find_delete_of_drop hfind (decide_eq_true (Table.key_of_find hfind))
  unfold longTermCacheSet MysqlProxy.longTermCacheSet
  simp only [Program.alone_bind, execute, Program.alone_write, Statement.apply, MemcacheProxy.set,
    Program.alone_pure, Option.bind_some, hinsert, Option.getD_some]
  refine ⟨_, rfl, ?_, fun item hitem => ?_, by omega, ?_⟩
  · refine (lasts_insert hinsert ⟨rfl, rfl, rfl⟩).mono ?_
    show memory.now + reach renewal ≤ memory.now + 86400 * expireInterval
    omega
  · have hset := (Function.update_self (longTermKey site key) _ _).symm.trans hitem
    obtain rfl := Option.some.inj hset
    exact ⟨rfl, _, rfl, Int.le_refl _⟩
  · show memory.now ≤ memory.now + slack renewal
    omega

/-! ## The Sweeper -/

/-- Where all rows with a name have one value, the map has it. -/
theorem find_foldl_assign {rows : List KvRow} {data : OrderedMap Str Str} {k v : Str}
    (hsame : ∀ row ∈ rows, row.k = k → row.v = v)
    (hfound : data.find k = some v ∨ ∃ row ∈ rows, row.k = k) :
    (rows.foldl (fun data row => data.assign row.k row.v) data).find k = some v := by
  induction rows generalizing data with
  | nil =>
      rcases hfound with hdata | ⟨row, hmem, -⟩
      · exact hdata
      · cases hmem
  | cons row rest ih =>
      refine ih (fun other hother => hsame other (List.mem_cons_of_mem _ hother)) ?_
      rw [OrderedMap.find_assign]
      by_cases hrow : row.k = k
      · exact .inl (by rw [if_pos hrow.symm, hsame row (List.mem_cons_self ..) hrow])
      · rw [if_neg (Ne.symm hrow)]
        refine hfound.imp_right fun hother => ?_
        obtain ⟨other, hmem, hkey⟩ := hother
        rcases List.mem_cons.1 hmem with rfl | hlater
        · exact absurd hkey hrow
        · exact ⟨other, hlater, hkey⟩

/-- The Sweeper is told of an entry that is a file. -/
theorem Alive.sweeperInfo {memory : Memory collation}
    (h : Alive site key value 1 renewal filled used memory) :
    ∃ data next, (MysqlProxy.longTermCacheSweeperInfo site).alone memory = some (data, next) ∧
      data.find key = some value := by
  unfold MysqlProxy.longTermCacheSweeperInfo
  simp only [Program.alone_bind, execute, Program.alone_write, Program.alone_read,
    Program.alone_pure, Option.bind_some]
  refine ⟨_, _, rfl, ?_⟩
  obtain ⟨row, hfind, ⟨hvalue, hkey, hfile⟩, -⟩ : Lasts KvRow.expireAt
      (fun row => row.v = value ∧ row.k = key ∧ row.isFilename = 1)
      (memory.kvstore.deleteExpired memory.now site) (primaryKey collation site key)
      (filled + reach renewal) :=
    h.row.sweep (fun _ hdrop => (of_decide_eq_true hdrop).1) h.now_le_filled
  have hmem := (Table.find_eq_some.1 hfind).1
  have hsite : collation row.subdomain = collation site :=
    (Prod.ext_iff.1 (Table.key_of_find hfind)).1
  refine find_foldl_assign (fun other hother hname => ?_) (.inr ⟨row, ?_, hkey⟩)
  · -- a row of the site under the same name is the same row
    obtain ⟨hother, hof⟩ := List.mem_filter.1 hother
    have hprimary : other.key collation = primaryKey collation site key := by
      rw [KvRow.key, primaryKey, (of_decide_eq_true hof).2, hname, primaryKey]
    have hfound := Table.find_eq_some.2 ⟨hother, hprimary⟩
    obtain rfl : row = other := Option.some.inj (hfind.symm.trans hfound)
    exact hvalue
  · exact List.mem_filter.2 ⟨hmem, decide_eq_true ⟨hfile, hsite⟩⟩

/-- **Entries in use are kept.**  An entry that is set for at least `renewal` days and is never
left alone for longer than `slack renewal` seconds, by Gets that renew it for at least `renewal`
days, is there in the end: a Get answers with the value, and the Sweeper is told of the file. -/
theorem entry_in_use_kept (memory : Memory collation) (site key value : Str)
    {expireInterval isFilename renewal : ℤ} (hrenewal : 0 < renewal)
    (hinterval : renewal ≤ expireInterval) {events : List Event}
    {first : Reply × Memory collation} {final : Memory collation × ℤ}
    (hset : (longTermCacheSet site key value expireInterval isFilename).alone memory = some first)
    (hrun : Transition.run (useStep site key) (first.2, memory.now) events = some final)
    (hok : Transition.Meets (useStep site key) (Sustains site key renewal collation)
      (first.2, memory.now) events) :
    (∀ renewExpiry useShortTermCache, ∃ next,
      (longTermCacheGet site key renewExpiry useShortTermCache).alone final.1 =
        some (.value key value, next)) ∧
    (isFilename = 1 → ∃ data next,
      (MysqlProxy.longTermCacheSweeperInfo site).alone final.1 = some (data, next) ∧
        data.find key = some value) := by
  obtain ⟨next, hnext, halive⟩ :=
    alone_longTermCacheSet memory site key value isFilename hrenewal hinterval
  obtain rfl := Option.some.inj (hnext.symm.trans hset)
  obtain ⟨filled, hfinal⟩ :
      ∃ filled, Alive site key value isFilename renewal filled final.2 final.1 :=
    Transition.invariant_of_meets
      (fun _ _ _ hinv hsustains hstep => Alive.step hrenewal hinv hsustains hstep)
      ⟨memory.now, halive⟩ hok hrun
  refine ⟨fun renewExpiry useShortTermCache => ?_, fun hfile => ?_⟩
  · obtain ⟨after, hget, -⟩ := hfinal.get hrenewal renewExpiry useShortTermCache
    exact ⟨after, hget⟩
  · subst hfile
    exact hfinal.sweeperInfo

end

/-- A file that is read every second day. -/
def everySecondDay : List Event :=
  [.pass 170000, .serve "blog" (.longTermCacheGet "logo" 3 1), .serve "shop" .longTermCacheEmpty,
    .drop (longTermKey "blog" "logo"), .pass 170000, .serve "blog" (.longTermCacheGet "logo" 3 1),
    .serve "blog" .longTermCacheSweeperInfo, .pass 2000]

theorem entry_in_use_kept_everySecondDay :
    ∃ (first : Reply × Memory .binary) (final : Memory .binary × ℤ) (next : Memory .binary),
      (longTermCacheSet "blog" "logo" "logo.png" 3 1).alone
        ⟨0, Table.empty, Table.empty, Table.empty, fun _ => none⟩ = some first ∧
      Transition.run (useStep "blog" "logo") (first.2, 0) everySecondDay = some final ∧
      (longTermCacheGet "blog" "logo" 0 0).alone final.1 =
        some (.value "logo" "logo.png", next) := by
  let memory : Memory .binary := ⟨0, Table.empty, Table.empty, Table.empty, fun _ => none⟩
  obtain ⟨first, hset⟩ : ∃ first,
      (longTermCacheSet "blog" "logo" "logo.png" 3 1).alone memory = some first := ⟨_, rfl⟩
  obtain ⟨final, hrun⟩ : ∃ final,
      Transition.run (useStep "blog" "logo") (first.2, 0) everySecondDay = some final := by
    obtain rfl := Option.some.inj hset
    exact ⟨_, rfl⟩
  have hok : Transition.Meets (useStep "blog" "logo") (Sustains "blog" "logo" 3 .binary)
      (first.2, 0) everySecondDay := by
    obtain rfl := Option.some.inj hset
    have hother : Cache.Collation.binary "shop" ≠ Cache.Collation.binary "blog" := by decide
    refine ⟨(by decide : (0 : ℤ) + 170000 ≤ 0 + slack 3), fun next hnext => ?_⟩
    obtain rfl := Option.some.inj hnext
    refine ⟨.inl ⟨rfl, rfl, Int.le_refl 3⟩, fun next hnext => ?_⟩
    obtain rfl := Option.some.inj hnext
    refine ⟨hother, fun next hnext => ?_⟩
    obtain rfl := Option.some.inj hnext
    refine ⟨trivial, fun next hnext => ?_⟩
    obtain rfl := Option.some.inj hnext
    refine ⟨(by decide : (170000 : ℤ) + 170000 ≤ 170000 + slack 3), fun next hnext => ?_⟩
    obtain rfl := Option.some.inj hnext
    refine ⟨.inl ⟨rfl, rfl, Int.le_refl 3⟩, fun next hnext => ?_⟩
    obtain rfl := Option.some.inj hnext
    refine ⟨trivial, fun next hnext => ?_⟩
    obtain rfl := Option.some.inj hnext
    exact ⟨(by decide : (340000 : ℤ) + 2000 ≤ 340000 + slack 3), fun _ _ => trivial⟩
  obtain ⟨next, hget⟩ :=
    (entry_in_use_kept memory "blog" "logo" "logo.png" (by decide) (Int.le_refl 3) hset hrun
      hok).1 0 0
  exact ⟨first, final, next, hset, hrun, hget⟩

end VaeDb.Storage
