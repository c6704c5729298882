import Mathlib.Tactic.FinCases
import VaeDb.Cache.Storage
import VaeDb.Library.Leases

/-!
# How long a session's value lasts

A row of `session_data` expires two days after the Set, and the Reaper deletes what has expired
after each of its passes.  Until then the row stays, whatever statements of other requests come
in between and however often the Reaper passes, as long as no request of its own site is left
that sets or deletes the key.  As the table has one row for a key, the key is closed to all other
sites for that time: they read nothing there, whatever they set (`session_key_kept`).

After a pass of the Reaper no row has expired, so two days after the last Set the key is free
again (`find_deleteExpired`).
-/

namespace VaeDb.Storage

open Cache (Collation)
open Leases SessionCache Threads

variable {collation : Collation}

/-- MySQL takes the names for those of the site and of the key. -/
def Names (collation : Collation) (site key subdomain k : Str) : Prop :=
  collation subdomain = collation site ∧ collation k = collation key

/-- The request does not set or delete the key for the site. -/
def Event.SparesKey (collation : Collation) (site key : Str) : Event → Prop
  | .serve subdomain (.sessionCacheSet k _) => ¬ Names collation site key subdomain k
  | .serve subdomain (.sessionCacheDelete k) => ¬ Names collation site key subdomain k
  | _ => True

/-- Neither does the statement. -/
def Statement.SparesKey (collation : Collation) (site key : Str) : Statement → Prop
  | .deleteSession subdomain k => ¬ Names collation site key subdomain k
  | _ => True

/-- The row of the site is under the key until it expires. -/
def Row (site key value : Str) (expires : ℤ) (table : SessionData collation) : Prop :=
  Lasts SessionRow.expires
    (fun row => collation row.subdomain = collation site ∧ row.data = value) table (collation key)
    expires

section

variable {site key value : Str} {expires : ℤ}

theorem sparesKey_of_issues {event : Event} (h : event.SparesKey collation site key)
    {statement : Statement} (hissues : event.Issues statement) :
    statement.SparesKey collation site key := by
  cases event with
  | garbageCollect =>
      obtain rfl := hissues
      trivial
  | pass seconds =>
      obtain rfl := hissues
      trivial
  | drop name =>
      obtain rfl := hissues
      trivial
  | serve subdomain request =>
      cases request with
      | sessionCacheSet k text =>
          rcases hissues with rfl | rfl
          · exact h
          · trivial
      | sessionCacheDelete k =>
          obtain rfl := hissues
          exact h
      | shortTermCacheGet k => exact hissues.elim
      | sessionCacheGet k => exact hissues.elim
      | longTermCacheGet k renewExpiry useShortTermCache =>
          rcases hissues with rfl | ⟨text, rfl⟩ <;> trivial
      | longTermCacheSet k text expireInterval isFilename =>
          rcases hissues with rfl | rfl | rfl <;> trivial
      | longTermCacheDelete k => rcases hissues with rfl | rfl <;> trivial
      | sitewideLock iden => rcases hissues with rfl | rfl <;> trivial
      | _ =>
          obtain rfl := hissues
          trivial

/-- Before the row expires, no statement deletes it that spares the key. -/
theorem row_apply {memory : Memory collation} {statement : Statement}
    (h : memory.now ≤ expires → Row site key value expires memory.sessionData)
    (hspares : statement.SparesKey collation site key)
    (hnow : (statement.apply memory).now ≤ expires) :
    Row site key value expires (statement.apply memory).sessionData := by
  cases statement with
  | deleteSession subdomain k =>
      exact (h hnow).delete fun _ hkey hrow _ => decide_eq_false fun hsame =>
        hspares ⟨hsame.2.symm.trans hrow.1, hsame.1.symm.trans hkey⟩
  | insertSession subdomain k text => exact (h hnow).insert_getD _
  | deleteExpiredSessions => exact (h hnow).sweep (fun _ hdrop => of_decide_eq_true hdrop) hnow
  | pass seconds =>
      have hlater : memory.now + (seconds : ℤ) ≤ expires := hnow
      exact h (by omega)
  | _ => exact h hnow

/-- The value is there for the site, and nothing for any other. -/
theorem Row.sessionCacheGet {memory : Memory collation}
    (h : Row site key value expires memory.sessionData) (other : Str) {k : Str}
    (hk : collation k = collation key) :
    (MysqlProxy.sessionCacheGet other k).alone memory =
      some (if collation other = collation site then value else [], memory) := by
  obtain ⟨row, hfind, ⟨hsite, rfl⟩, -⟩ := h
  have hvalue : memory.sessionData.value other k =
      if collation other = collation site then row.data else [] := by
    simp only [SessionData.value, hk, hfind, hsite, eq_comm]
  have hget := (SessionData.sessionCacheGet_eq memory.sessionData other k).trans hvalue
  exact congrArg (fun text => some (text, memory)) hget

/-- The row is not deleted before it expires. -/
def RowKept (site key value : Str) (expires : ℤ) (memory : Memory collation) : Prop :=
  memory.now ≤ expires → Row site key value expires memory.sessionData

/-- The code for an event that spares the key does not delete the row. -/
theorem keeps_rowKept {event : Event} (h : event.SparesKey collation site key) :
    Keeps (RowKept site key value expires : Memory collation → Prop) event.code :=
  Event.keeps_code fun _ hissues _ hrow => row_apply hrow (sparesKey_of_issues h hissues)

/-- **A key belongs to its site for two days.**  From a moment at which the site has its row
under the key, and until the row expires, the `SELECT` of a Get finds the value for the site and
nothing for any other site, however the statements of all requests and the passes of the Reaper
interleave.  Only a request of the site that sets or deletes the key may not be under way, other
than with all its statements executed, nor begin. -/
theorem session_key_kept {Client : Type} [DecidableEq Client] {memory : Memory collation}
    {before labels : List (Label Client Event)}
    {state final : State Client (Memory collation) Event (Option Reply)}
    (hbefore : Transition.run (step fun _ => Event.code) (State.initial memory) before = some state)
    {site key value : Str} {expires : ℤ}
    (hrow : state.memory.sessionData.find (collation key) = some ⟨key, site, value, expires⟩)
    (hunderWay : ∀ client event program, state.running client = some (event, program) →
      event.SparesKey collation site key ∨ ∃ answer, program = .done answer)
    (hrun : Transition.run (step fun _ => Event.code) state labels = some final)
    (hspares : ∀ client event, .start client event ∈ labels →
      event.SparesKey collation site key)
    (hnow : final.memory.now ≤ expires) (subdomain : Str) {k : Str}
    (hk : collation k = collation key) :
    (MysqlProxy.sessionCacheGet subdomain k).alone final.memory =
      some (if collation subdomain = collation site then value else [], final.memory) := by
  -- whoever is about to answer executes nothing any more
  have hstart : Kept (RowKept site key value expires) state := by
    refine ⟨fun _ => ⟨_, hrow, ⟨rfl, rfl⟩, Int.le_refl _⟩, fun client event program hrunning => ?_⟩
    rcases hunderWay client event program hrunning with hevent | ⟨answer, rfl⟩
    · exact keeps_of_run hbefore hrunning fun _ => keeps_rowKept hevent
    · trivial
  have hkept : Kept (RowKept site key value expires) final :=
    hstart.run (fun client event hmem => keeps_rowKept (hspares client event hmem)) hrun
  have hfinal : Row site key value expires final.memory.sessionData := hkept.memory hnow
  exact hfinal.sessionCacheGet subdomain hk

/-- A Set of the site, and one of another site that has deleted nothing so far. -/
def twoSets : List (Label (Fin 4) Event) :=
  [.start 1 (.serve "blog" (.sessionCacheSet "ID" "none")), .act 1,
    .start 0 (.serve "shop" (.sessionCacheSet "id" "cart")), .act 0, .act 0]

/-- Two days and a pass of the Reaper come before the other `INSERT`. -/
def slowInsert : List (Label (Fin 4) Event) :=
  [.start 2 (.pass 172800), .act 2, .start 3 .garbageCollect, .act 3, .act 1]

theorem session_key_kept_slowInsert :
    ∃ state final : State (Fin 4) (Memory .caseInsensitive) Event (Option Reply),
      Transition.run (step fun _ => Event.code)
        (State.initial ⟨0, Table.empty, Table.empty, Table.empty, fun _ => none⟩) twoSets =
          some state ∧
      Transition.run (step fun _ => Event.code) state slowInsert = some final ∧
      (MysqlProxy.sessionCacheGet "shop" "id").alone final.memory =
        some (("cart" : Str), final.memory) ∧
      (MysqlProxy.sessionCacheGet "blog" "ID").alone final.memory =
        some (("" : Str), final.memory) := by
  let memory : Memory .caseInsensitive :=
    ⟨0, Table.empty, Table.empty, Table.empty, fun _ => none⟩
  obtain ⟨state, final, hbefore, hrow, hrunning, hrun, hnow⟩ :
      ∃ state final : State (Fin 4) (Memory .caseInsensitive) Event (Option Reply),
        Transition.run (step fun _ => Event.code) (State.initial memory) twoSets = some state ∧
        state.memory.sessionData.find (Collation.caseInsensitive "id") =
          some ⟨"id", "shop", "cart", 172800⟩ ∧
        (∀ client event program, state.running client = some (event, program) →
          event.SparesKey .caseInsensitive "shop" "id" ∨ ∃ answer, program = .done answer) ∧
        Transition.run (step fun _ => Event.code) state slowInsert = some final ∧
        final.memory.now = 172800 := by
    refine ⟨_, _, rfl, rfl, fun client event program hrunning => ?_, rfl, rfl⟩
    fin_cases client
    · obtain ⟨-, rfl⟩ := Prod.mk.inj (Option.some.inj hrunning)
      exact .inr ⟨_, rfl⟩
    · obtain ⟨rfl, -⟩ := Prod.mk.inj (Option.some.inj hrunning)
      exact .inl fun hnames => absurd hnames.1 (by decide)
    · cases hrunning
    · cases hrunning
  have hspares : ∀ client event, .start client event ∈ slowInsert →
      event.SparesKey .caseInsensitive "shop" "id" := by
    intro client event h
    simp only [slowInsert, List.mem_cons, Label.start.injEq, reduceCtorEq, List.not_mem_nil,
      or_false, false_or] at h
    rcases h with ⟨-, rfl⟩ | ⟨-, rfl⟩ <;> trivial
  have hkept := session_key_kept hbefore hrow hrunning hrun hspares (by rw [hnow])
  exact ⟨state, final, hbefore, hrun, hkept "shop" rfl, hkept "blog" rfl⟩

/-- After a pass of the Reaper a key is free, or its row has not expired. -/
theorem find_deleteExpired (table : SessionData collation) (now : ℤ) (key : Str) :
    (deleteExpired table now).find key = none ∨
      ∃ row, (deleteExpired table now).find key = some row ∧ now ≤ row.expires := by
  cases hfind : (deleteExpired table now).find key with
  | none => exact .inl rfl
  | some row =>
      exact .inr ⟨row, rfl, le_deadline_of_mem_sweep (fun _ hover => decide_eq_true hover)
        (Table.find_eq_some.1 hfind).1⟩

end

end VaeDb.Storage
