import VaeDb.Library.Threads
import VaeDb.Query.FieldData

/-!
# The caches that requests share

All requests on a Site use the same Contexts and the same `query_cache`.  A Context remembers
the sizes and the data that queries gave it, and fills a map with the data of its children when
it is asked for the first time.  Its mutex guards all of this but two reads: `dataPopulated` is
looked at before the mutex is taken, and `DataMap Context::getData()` copies the map without it.

The calls are programs of atomic actions; an entry of the map is one action, and so is what
`LRUCache` does under its own mutex.  Threads may do their actions in any order.  Still every
call returns what the document alone determines:

* `getCount_returns`, `getData_returns`, `getDataMap_returns` : the calls of a Context.
* `fetchQuery_returns` : `Site::fetch_query`.

libxml2's evaluation of XPath is a parameter, a function of the node and the expression.
-/

namespace VaeDb.Query.Shared

open Threads

/-! ## Memory -/

/-- What changes of a Context after the loading: who holds its mutex, and what it remembers. -/
structure ContextFields (Client : Type) extends Nodes.FieldData where
  mutex : Option Client
  cachedCounts : OrderedMap Str ℤ

/-- What requests share: the Contexts, by their addresses, and the `query_cache`. -/
structure SiteMemory (Client Node : Type) where
  query_cache : LRUCache LRUKey (Query Node)
  contexts : ℕ → ContextFields Client

namespace SiteMemory

variable {Client Node : Type}

/-- Change the fields of a Context. -/
def modify (memory : SiteMemory Client Node) (context : ℕ)
    (change : ContextFields Client → ContextFields Client) : SiteMemory Client Node :=
  { memory with
    contexts := Function.update memory.contexts context (change (memory.contexts context)) }

/-- After the loading. -/
def initial (size : ℕ) : SiteMemory Client Node where
  query_cache := LRUCache.new size
  contexts _ := { Nodes.FieldData.new with mutex := none, cachedCounts := OrderedMap.empty }

variable {memory : SiteMemory Client Node} {context : ℕ}
  {change : ContextFields Client → ContextFields Client}

@[simp] theorem modify_query_cache :
    (memory.modify context change).query_cache = memory.query_cache := rfl

@[simp] theorem modify_same :
    (memory.modify context change).contexts context = change (memory.contexts context) :=
  Function.update_self ..

theorem modify_of_ne {other : ℕ} (h : other ≠ context) :
    (memory.modify context change).contexts other = memory.contexts other :=
  Function.update_of_ne h ..

end SiteMemory

/-- A program of a thread that requests run in. -/
abbrev Code (Client Node : Type) := Throwing Fault (SiteMemory Client Node)

/-! ## The calls of a Context -/

section

variable {Client Node Value : Type}

/-- Read from the fields of a Context. -/
def readFields (context : ℕ) (view : ContextFields Client → Value) : Code Client Node Value :=
  Throwing.read fun memory => view (memory.contexts context)

/-- Write to the fields of a Context. -/
def writeFields (context : ℕ) (change : ContextFields Client → ContextFields Client) :
    Code Client Node Unit :=
  Throwing.write fun memory => memory.modify context change

/-- `boost::unique_lock<boost::mutex> lock(mutex)` around a block. -/
def locked (me : Client) (context : ℕ) (block : Code Client Node Value) :
    Code Client Node Value :=
  ExceptT.mk do
    Program.await (fun memory => (memory.contexts context).mutex.isNone)
      fun memory => memory.modify context fun fields => { fields with mutex := some me }
    let ended ← block.run
    Program.write fun memory => memory.modify context fun fields => { fields with mutex := none }
    return ended

variable [DecidableEq Node] (site : Nodes Node ℕ) (rounds : ℕ)

/-- What a query finds below a Context. -/
def evaluated (context : ℕ) (query : Str) : Code Client Node (List Node) :=
  ExceptT.mk (pure (site.query rounds (some context) query))

/-- `Context::getCount` under the mutex. -/
def getCountLocked (context : ℕ) (query : Str) : Code Client Node ℤ := do
  match ← readFields context fun fields => fields.cachedCounts.find query with
  | some count => return count
  | none => do
      let nodes ← evaluated site rounds context query
      let result : ℤ := nodes.length
      writeFields context fun fields =>
        { fields with cachedCounts := fields.cachedCounts.assign query result }
      return result

/-- `Context::getCount`. -/
def getCount (me : Client) (context : ℕ) (query : Str) : Code Client Node ℤ :=
  locked me context (getCountLocked site rounds context query)

/-- The loop of `Context::populateData`, over some children. -/
def populateChildren (context : ℕ) : List Node → Code Client Node Unit
  | [] => return
  | child :: rest => do
      writeFields context fun fields => { fields with data := site.populate fields.data child }
      populateChildren context rest

/-- `Context::populateData` under the mutex. -/
def populateDataLocked (context : ℕ) : Code Client Node Unit := do
  if ← readFields context fun fields => fields.dataPopulated then return
  else
    populateChildren site context (site.children (site.node context))
    writeFields context fun fields => { fields with dataPopulated := true }

/-- `Context::populateData`. -/
def populateData (me : Client) (context : ℕ) : Code Client Node Unit :=
  locked me context (populateDataLocked site context)

/-- `if (!dataPopulated) populateData()`. -/
def ensurePopulated (me : Client) (context : ℕ) : Code Client Node Unit := do
  if ← readFields context fun fields => fields.dataPopulated then return
  else populateData site me context

/-- `Context::getData` of a query, under the mutex. -/
def getDataLocked (context : ℕ) (query : Str) : Code Client Node Str := do
  if query = [] then
    throw (.vaeDbInternalError "Empty query passed to Context::getData")
  else
    match ← readFields context fun fields => fields.data.find query with
    | some data => return data
    | none =>
        match ← readFields context fun fields => fields.cachedQueries.find query with
        | some data => return data
        | none => do
            let nodes ← evaluated site rounds context query
            let result := site.getSingleData nodes
            writeFields context fun fields =>
              { fields with cachedQueries := fields.cachedQueries.assign query result }
            return result

/-- `Context::getData` of a query. -/
def getData (me : Client) (context : ℕ) (query : Str) : Code Client Node Str := do
  ensurePopulated site me context
  locked me context (getDataLocked site rounds context query)

/-- `DataMap Context::getData()`. -/
def getDataMap (me : Client) (context : ℕ) : Code Client Node (OrderedMap Str Str) := do
  ensurePopulated site me context
  readFields context fun fields => fields.data

/-! ## `Site::fetch_query` -/

/-- `query_cache.fetch(key, false)`. -/
def fetchCached (key : LRUKey) : Code Client Node (Option (Query Node)) :=
  ExceptT.mk (Program.step fun memory =>
    match memory.query_cache.fetch key false with
    | .ok (found, query_cache) => (.ok found, { memory with query_cache })
    | .error fault => (.error fault, memory))

/-- `query_cache.insert(key, p_query)`. -/
def insertCached (key : LRUKey) (p_query : Query Node) : Code Client Node Unit :=
  ExceptT.mk (Program.step fun memory =>
    match memory.query_cache.insert key p_query with
    | .ok query_cache => (.ok (), { memory with query_cache })
    | .error fault => (.error fault, memory))

/-- The Context of a key. -/
def contextOf (key : LRUKey) : Option ℕ := if key.p = 0 then none else some key.p

/-- `new Query(this, key.p, key.s)`. -/
def newQuery (key : LRUKey) : Outcome (Query Node) :=
  Query.mk <$> site.query rounds (contextOf key) key.s

/-- `Site::fetch_query`. -/
def fetchQuery (key : LRUKey) : Code Client Node (Query Node) := do
  match ← fetchCached key with
  | some p_query => return p_query
  | none => do
      let p_query ← (ExceptT.mk (pure (newQuery site rounds key)) : Code Client Node _)
      insertCached key p_query
      return p_query

/-! ## What the document determines -/

/-- The size of a query below a Context. -/
def documentCount (context : ℕ) (query : Str) : Outcome ℤ := do
  let nodes ← site.query rounds (some context) query
  return nodes.length

/-- The data that a new Context gives for a query. -/
def documentData (context : ℕ) (query : Str) : Outcome Str :=
  (site.getData rounds context .new query).1

omit [DecidableEq Node] in
/-- The map that is made of the children of a Context. -/
def documentMap (context : ℕ) : OrderedMap Str Str :=
  (site.children (site.node context)).foldl site.populate OrderedMap.empty

end

/-! ## How threads use the memory -/

section

variable {Client Node Value : Type} [DecidableEq Node] {site : Nodes Node ℕ} {rounds : ℕ}

/-- The fields are those of a Context that has answered some calls. -/
structure Settled (site : Nodes Node ℕ) (rounds context : ℕ) (fields : ContextFields Client) :
    Prop where
  data : site.Answering rounds context fields.toFieldData
  counts : ∀ query count, fields.cachedCounts.find query = some count →
    documentCount site rounds context query = .ok count

/-- What holds of the fields of a Context between two actions: while its mutex is free it has
answered some calls, and its map is complete once it is said to be populated. -/
structure Guarded (site : Nodes Node ℕ) (rounds context : ℕ) (fields : ContextFields Client) :
    Prop where
  settled : fields.mutex = none → Settled site rounds context fields
  data : fields.dataPopulated = true → fields.data = documentMap site context

/-- What a client may do to the fields of a Context. -/
def MayChange (client : Client) (fields fields' : ContextFields Client) : Prop :=
  fields' = fields ∨
    (fields.mutex = none ∨ fields.mutex = some client) ∧
      (fields'.mutex = none ∨ fields'.mutex = some client) ∧
      (fields.dataPopulated = true → fields'.dataPopulated = true)

/-- How the threads of the server use a Site. -/
def protocol (site : Nodes Node ℕ) (rounds : ℕ) : Protocol Client (SiteMemory Client Node) where
  Inv memory :=
    memory.query_cache.Coherent ∧
      (∀ node ∈ memory.query_cache.list, newQuery site rounds node.key = .ok node.data) ∧
      ∀ context, Guarded site rounds context (memory.contexts context)
  May client memory memory' :=
    ∀ context, MayChange client (memory.contexts context) (memory'.contexts context)
  may_refl _ _ := fun _ => Or.inl rfl
  Owns client memory := ∃ context, (memory.contexts context).mutex = some client
  owns_iff := by
    intro me other memory memory' hother _ hmay
    refine exists_congr fun context => ?_
    rcases hmay context with hsame | hchange
    · rw [hsame]
    · obtain ⟨hbefore, hafter, -⟩ := hchange
      have hne : ∀ {holder : Option Client}, holder = none ∨ holder = some other →
          holder ≠ some me := by
        intro holder hholder hsame
        rcases hholder with rfl | rfl
        · cases hsame
        · exact hother (Option.some.inj hsame)
      exact iff_of_false (hne hafter) (hne hbefore)

/-- A Context that is populated has the whole map. -/
theorem Settled.map_eq {context : ℕ} {fields : ContextFields Client}
    (h : Settled site rounds context fields) (hpopulated : fields.dataPopulated = true) :
    fields.data = documentMap site context := by
  rw [h.data.data, if_pos hpopulated]
  rfl

theorem inv_initial (size : ℕ) :
    (protocol site rounds).Inv (SiteMemory.initial size : SiteMemory Client Node) := by
  refine ⟨LRUCache.coherent_new size, fun _ hnode => (by cases hnode), fun context => ?_⟩
  refine ⟨fun _ => ⟨Nodes.answering_new, fun query count hfind => ?_⟩, fun hpopulated => ?_⟩
  · cases hfind
  · cases hpopulated

theorem not_owns_initial (size : ℕ) (client : Client) :
    ¬ (protocol site rounds).Owns client (SiteMemory.initial size : SiteMemory Client Node) := by
  intro howns
  obtain ⟨context, hmutex⟩ := howns
  cases hmutex

/-- A client holds the mutex of one Context only, and its fields are these. -/
structure Holding (me : Client) (context : ℕ) (fields : ContextFields Client)
    (memory : SiteMemory Client Node) : Prop where
  fields_eq : memory.contexts context = fields
  mutex : fields.mutex = some me
  others : ∀ other, other ≠ context → (memory.contexts other).mutex ≠ some me

/-- If it is known that a Context is populated, it is. -/
def Seen (context : ℕ) (known : Bool) (memory : SiteMemory Client Node) : Prop :=
  known = true → (memory.contexts context).dataPopulated = true

variable {me : Client} {context : ℕ} {fields : ContextFields Client} {known : Bool}

theorem stable_holding :
    (protocol site rounds).Stable me (Holding me context fields : SiteMemory Client Node → _) := by
  intro other hother memory memory' _ h hmay
  have hkept : ∀ at_, (memory.contexts at_).mutex = some me →
      memory'.contexts at_ = memory.contexts at_ := by
    intro at_ hmine
    rcases hmay at_ with hsame | hchange
    · exact hsame
    · rcases hchange.1 with hnone | hheld
      · rw [hmine] at hnone
        cases hnone
      · rw [hmine] at hheld
        exact absurd (Option.some.inj hheld).symm hother
  have hmine : (memory.contexts context).mutex = some me := h.fields_eq ▸ h.mutex
  refine ⟨(hkept context hmine).trans h.fields_eq, h.mutex, fun at_ hne hmutex => ?_⟩
  rcases hmay at_ with hsame | hchange
  · exact h.others at_ hne (hsame ▸ hmutex)
  · rcases hchange.2.1 with hnone | hheld
    · rw [hmutex] at hnone
      cases hnone
    · rw [hmutex] at hheld
      exact hother (Option.some.inj hheld).symm

theorem stable_seen :
    (protocol site rounds).Stable me (Seen context known : SiteMemory Client Node → Prop) := by
  intro other _ memory memory' _ h hmay hknown
  rcases hmay context with hsame | hchange
  · rw [hsame]
    exact h hknown
  · exact hchange.2.2 (h hknown)

/-! ## Blocks under a mutex -/

theorem readFields_held {view : ContextFields Client → Value} {value : Value}
    (hvalue : view fields = value) :
    Triple (protocol site rounds) me (readFields context view) (Holding me context fields)
      (.ok value) (Holding me context fields) := by
  refine Triple.read stable_holding fun memory _ h => ?_
  rw [h.fields_eq, hvalue]

/-- A change of the fields of one Context. -/
theorem modify_keeps {memory : SiteMemory Client Node} (hinv : (protocol site rounds).Inv memory)
    (hfields : memory.contexts context = fields)
    (change : ContextFields Client → ContextFields Client)
    (hguarded : Guarded site rounds context (change fields))
    (hmay : MayChange me fields (change fields)) :
    (protocol site rounds).Inv (memory.modify context change) ∧
      (protocol site rounds).May me memory (memory.modify context change) := by
  subst hfields
  refine ⟨⟨hinv.1, hinv.2.1, fun other => ?_⟩, fun other => ?_⟩
  · by_cases hother : other = context
    · subst hother
      rwa [SiteMemory.modify_same]
    · rw [SiteMemory.modify_of_ne hother]
      exact hinv.2.2 other
  · by_cases hother : other = context
    · subst hother
      rwa [SiteMemory.modify_same]
    · exact Or.inl (SiteMemory.modify_of_ne hother)

/-- Writing under the mutex: the map has to be complete when it is said to be populated. -/
theorem writeFields_held {change : ContextFields Client → ContextFields Client}
    (hmutex : (change fields).mutex = some me)
    (hpopulated : fields.dataPopulated = true → (change fields).dataPopulated = true)
    (hdata : (change fields).dataPopulated = true →
      (change fields).data = documentMap site context) :
    Triple (protocol site rounds) me (writeFields context change) (Holding me context fields)
      (.ok ()) (Holding me context (change fields) : SiteMemory Client Node → Prop) := by
  refine Triple.write stable_holding fun memory hinv h => ?_
  have hguarded : Guarded site rounds context (change fields) := by
    refine ⟨fun hfree => ?_, hdata⟩
    rw [hmutex] at hfree
    cases hfree
  obtain ⟨hinv', hmay⟩ := modify_keeps hinv h.fields_eq change hguarded
    (Or.inr ⟨Or.inr h.mutex, Or.inr hmutex, hpopulated⟩)
  refine ⟨hinv', hmay, ?_, hmutex, fun other hother => ?_⟩
  · rw [SiteMemory.modify_same, h.fields_eq]
  · rw [SiteMemory.modify_of_ne hother]
    exact h.others other hother

variable {outcome : Outcome Value} {block : Code Client Node Value} {known' : Bool}

/-- Taking a mutex that another client has to give back first. -/
theorem lock_meets :
    (protocol site rounds).Meets me
      (.await (fun memory : SiteMemory Client Node => (memory.contexts context).mutex.isNone)
        fun memory => memory.modify context fun fields => { fields with mutex := some me })
      (fun memory => ¬ (protocol site rounds).Owns me memory ∧ Seen context known memory)
      fun _ memory => ∃ fields, (Settled site rounds context fields ∧ fields.mutex = some me ∧
        (known = true → fields.dataPopulated = true)) ∧ Holding me context fields memory := by
  refine Protocol.Meets.await ?_ (fun memory _ hpre hheld => ?_) fun memory hinv hpre hfree => ?_
  · intro other hother memory memory' hinv h hmay
    obtain ⟨fields, hfields, hholding⟩ := h
    exact ⟨fields, hfields, stable_holding hother hinv hholding hmay⟩
  · refine ⟨hpre.1, ?_⟩
    cases hmutex : (memory.contexts context).mutex with
    | none => simp [hmutex] at hheld
    | some holder => exact ⟨holder, context, hmutex⟩
  · have hmutex : (memory.contexts context).mutex = none := Option.isNone_iff_eq_none.1 hfree
    have hguarded := hinv.2.2 context
    have hsettled := hguarded.settled hmutex
    let taken : ContextFields Client := { memory.contexts context with mutex := some me }
    have htaken : Guarded site rounds context taken :=
      ⟨fun hnone => (by cases hnone), hguarded.data⟩
    have hmay : MayChange me (memory.contexts context) taken :=
      Or.inr ⟨Or.inl hmutex, Or.inr rfl, fun hpopulated => hpopulated⟩
    obtain ⟨hinv', hmay'⟩ := modify_keeps hinv rfl (fun fields => { fields with mutex := some me })
      htaken hmay
    refine ⟨hinv', hmay', taken, ⟨⟨hsettled.data, hsettled.counts⟩, rfl, hpre.2⟩,
      SiteMemory.modify_same, rfl, fun other hother hmine => ?_⟩
    rw [SiteMemory.modify_of_ne hother] at hmine
    exact hpre.1 ⟨other, hmine⟩

/-- Giving the mutex back. -/
theorem unlock_meets (hsettled : Settled site rounds context fields)
    (hknown : known = true → fields.dataPopulated = true) :
    (protocol site rounds).Meets me
      (.write fun memory : SiteMemory Client Node =>
        memory.modify context fun fields => { fields with mutex := none })
      (Holding me context fields)
      fun _ memory => ¬ (protocol site rounds).Owns me memory ∧ Seen context known memory := by
  refine Protocol.Meets.write (Protocol.stable_not_owns.and stable_seen) fun memory hinv h => ?_
  have hguarded := hinv.2.2 context
  rw [h.fields_eq] at hguarded
  let freed : ContextFields Client := { fields with mutex := none }
  have hfreed : Guarded site rounds context freed :=
    ⟨fun _ => ⟨hsettled.data, hsettled.counts⟩, hguarded.data⟩
  have hmay : MayChange me fields freed :=
    Or.inr ⟨Or.inr h.mutex, Or.inl rfl, fun hpopulated => hpopulated⟩
  obtain ⟨hinv', hmay'⟩ := modify_keeps hinv h.fields_eq
    (fun fields => { fields with mutex := none }) hfreed hmay
  refine ⟨hinv', hmay', fun howns => ?_, fun hseen => ?_⟩
  · obtain ⟨other, hmutex⟩ := howns
    by_cases hother : other = context
    · subst hother
      rw [SiteMemory.modify_same] at hmutex
      cases hmutex
    · rw [SiteMemory.modify_of_ne hother] at hmutex
      exact h.others other hother hmutex
  · rw [SiteMemory.modify_same, h.fields_eq]
    exact hknown hseen

/-- A block under the mutex of a Context.  It finds the fields of a Context that has answered
some calls, and has to leave such fields. -/
theorem locked_runs
    (h : ∀ fields, Settled site rounds context fields → fields.mutex = some me →
      (known = true → fields.dataPopulated = true) →
      ∃ fields', Settled site rounds context fields' ∧
        (known' = true → fields'.dataPopulated = true) ∧
        Triple (protocol site rounds) me block (Holding me context fields) outcome
          (Holding me context fields')) :
    Triple (protocol site rounds) me (locked me context block)
      (fun memory => ¬ (protocol site rounds).Owns me memory ∧ Seen context known memory) outcome
      fun memory => ¬ (protocol site rounds).Owns me memory ∧ Seen context known' memory := by
  refine Protocol.Meets.bind lock_meets fun _ => ?_
  refine Protocol.Meets.of_exists fun fields => Protocol.Meets.of_and fun hfields => ?_
  obtain ⟨hsettled, hmutex, hknown⟩ := hfields
  obtain ⟨fields', hsettled', hknown', hblock⟩ := h fields hsettled hmutex hknown
  refine Protocol.Meets.bind hblock fun ended => Protocol.Meets.of_and fun hended => ?_
  refine Protocol.Meets.bind (unlock_meets hsettled' hknown') fun _ => ?_
  exact fun memory _ hmemory => ⟨hended, hmemory⟩

/-- A block under the mutex of a client that does not know whether the Context is populated. -/
theorem locked_seen
    (h : ∀ fields, Settled site rounds context fields → fields.mutex = some me →
      ∃ fields', Settled site rounds context fields' ∧
        (known' = true → fields'.dataPopulated = true) ∧
        Triple (protocol site rounds) me block (Holding me context fields) outcome
          (Holding me context fields')) :
    Triple (protocol site rounds) me (locked me context block)
      (fun memory => ¬ (protocol site rounds).Owns me memory) outcome
      fun memory => ¬ (protocol site rounds).Owns me memory ∧ Seen context known' memory := by
  have hunknown : ∀ memory : SiteMemory Client Node, Seen context false memory :=
    fun _ hknown => absurd hknown Bool.false_ne_true
  have hruns : Triple (protocol site rounds) me (locked me context block)
      (fun memory => ¬ (protocol site rounds).Owns me memory ∧ Seen context false memory) outcome
      fun memory => ¬ (protocol site rounds).Owns me memory ∧ Seen context known' memory :=
    locked_runs fun fields hsettled hmutex _ => h fields hsettled hmutex
  exact hruns.weaken (fun memory _ hfree => ⟨hfree, hunknown memory⟩) fun _ _ h => h

/-! ## The calls -/

theorem evaluated_held {query : Str} {outcome : Outcome (List Node)}
    (h : site.query rounds (some context) query = outcome) :
    Triple (protocol site rounds) me (evaluated site rounds context query)
      (Holding me context fields) outcome (Holding me context fields) := by
  subst h
  exact Triple.of_outcome _ fun _ _ hheld => hheld

/-- The count is there, or it is counted and remembered. -/
theorem getCountLocked_runs (hsettled : Settled site rounds context fields)
    (hmutex : fields.mutex = some me) (query : Str) :
    ∃ fields', Settled site rounds context fields' ∧
      Triple (protocol site rounds) me (getCountLocked site rounds context query)
        (Holding me context fields) (documentCount site rounds context query)
        (Holding me context fields' : SiteMemory Client Node → Prop) := by
  cases hfind : fields.cachedCounts.find query with
  | some count =>
      rw [hsettled.counts query count hfind]
      exact ⟨fields, hsettled, Triple.bind (readFields_held hfind) (Triple.pure count)⟩
  | none =>
      unfold documentCount
      cases hquery : site.query rounds (some context) query with
      | error fault =>
          exact ⟨fields, hsettled, Triple.bind (readFields_held hfind)
            (Triple.bind_error (evaluated_held hquery))⟩
      | ok nodes =>
          let counted : ContextFields Client :=
            { fields with cachedCounts := fields.cachedCounts.assign query nodes.length }
          have hcounted : Settled site rounds context counted := by
            refine ⟨hsettled.data, fun other count hcount => ?_⟩
            rw [OrderedMap.find_assign] at hcount
            split at hcount
            · next hsame =>
              obtain rfl := Option.some.inj hcount
              unfold documentCount
              rw [hsame, hquery]
              rfl
            · exact hsettled.counts other count hcount
          exact ⟨counted, hcounted, Triple.bind (readFields_held hfind)
            (Triple.bind (evaluated_held hquery)
              (Triple.bind (writeFields_held hmutex (fun hpopulated => hpopulated) hsettled.map_eq)
                (Triple.pure _)))⟩

theorem getCount_returns (me : Client) (context : ℕ) (query : Str) :
    Returns (protocol site rounds) me (getCount site rounds me context query)
      (documentCount site rounds context query) := by
  have hlocked : Triple (protocol site rounds) me (getCount site rounds me context query)
      (fun memory => ¬ (protocol site rounds).Owns me memory)
      (documentCount site rounds context query)
      fun memory => ¬ (protocol site rounds).Owns me memory ∧ Seen context false memory := by
    refine locked_seen fun fields hsettled hmutex => ?_
    obtain ⟨fields', hsettled', hblock⟩ := getCountLocked_runs hsettled hmutex query
    exact ⟨fields', hsettled', fun hknown => absurd hknown Bool.false_ne_true, hblock⟩
  exact hlocked.weaken (fun _ _ hfree => hfree) fun _ _ h => h.1

theorem populateChildren_runs (site : Nodes Node ℕ) (rounds context : ℕ) (children : List Node)
    (hmutex : fields.mutex = some me)
    (hpopulated : fields.dataPopulated = false) :
    Triple (protocol site rounds) me (populateChildren site context children)
      (Holding me context fields) (.ok ())
      (Holding me context { fields with data := children.foldl site.populate fields.data } :
        SiteMemory Client Node → Prop) := by
  induction children generalizing fields with
  | nil => exact Triple.pure ()
  | cons child rest ih =>
      have hunpopulated : ∀ {A : Prop}, fields.dataPopulated = true → A := fun htrue => by
        rw [hpopulated] at htrue
        cases htrue
      exact Triple.bind (writeFields_held hmutex hunpopulated hunpopulated) (ih hmutex hpopulated)

theorem populateDataLocked_runs (hsettled : Settled site rounds context fields)
    (hmutex : fields.mutex = some me) :
    ∃ fields', Settled site rounds context fields' ∧ fields'.dataPopulated = true ∧
      Triple (protocol site rounds) me (populateDataLocked site context)
        (Holding me context fields) (.ok ())
        (Holding me context fields' : SiteMemory Client Node → Prop) := by
  cases hpopulated : fields.dataPopulated with
  | true =>
      exact ⟨fields, hsettled, hpopulated,
        Triple.bind (readFields_held hpopulated) (Triple.pure ())⟩
  | false =>
      have hempty : fields.data = OrderedMap.empty := by
        rw [hsettled.data.data, hpopulated]
        rfl
      let filled : ContextFields Client :=
        { fields with data := documentMap site context, dataPopulated := true }
      have hfilled : Settled site rounds context filled :=
        ⟨⟨rfl, hsettled.data.cachedQueries⟩, hsettled.counts⟩
      have hchildren := populateChildren_runs site rounds context
        (site.children (site.node context)) hmutex hpopulated
      rw [hempty] at hchildren
      exact ⟨filled, hfilled, rfl, Triple.bind (readFields_held hpopulated)
        (Triple.bind hchildren (writeFields_held hmutex (fun _ => rfl) fun _ => rfl))⟩

/-- Whoever has called `populateData` finds the Context populated. -/
theorem populateData_runs (me : Client) (context : ℕ) :
    Triple (protocol site rounds) me (populateData site me context)
      (fun memory => ¬ (protocol site rounds).Owns me memory) (.ok ())
      fun memory => ¬ (protocol site rounds).Owns me memory ∧ Seen context true memory := by
  refine locked_seen fun fields hsettled hmutex => ?_
  obtain ⟨fields', hsettled', hpopulated, hblock⟩ := populateDataLocked_runs hsettled hmutex
  exact ⟨fields', hsettled', fun _ => hpopulated, hblock⟩

theorem ensurePopulated_runs (me : Client) (context : ℕ) :
    Triple (protocol site rounds) me (ensurePopulated site me context)
      (fun memory => ¬ (protocol site rounds).Owns me memory) (.ok ())
      fun memory => ¬ (protocol site rounds).Owns me memory ∧ Seen context true memory := by
  have hstable : ∀ populated, (protocol site rounds).Stable me fun memory =>
      ¬ (protocol site rounds).Owns me memory ∧ Seen context populated memory :=
    fun populated => Protocol.stable_not_owns.and stable_seen
  refine Triple.read_bind hstable (fun memory _ hfree => ⟨hfree, fun hseen => hseen⟩)
    fun populated => ?_
  cases populated with
  | true => exact Triple.pure ()
  | false => exact (populateData_runs me context).weaken (fun _ _ h => h.1) fun _ _ h => h

/-- What a Context gives that is populated and has nothing remembered. -/
theorem documentData_eq (context : ℕ) (query : Str) :
    documentData site rounds context query =
      if query = [] then .error (.vaeDbInternalError "Empty query passed to Context::getData")
      else
        match (documentMap site context).find query with
        | some data => .ok data
        | none => site.getSingleData <$> site.query rounds (some context) query := by
  have hdata : (site.populateData context .new).data = documentMap site context := rfl
  have hremembered : (site.populateData context .new).cachedQueries.find query = none := rfl
  by_cases hquery : query = []
  · simp only [documentData, Nodes.getData, if_pos hquery]
    rfl
  · rw [if_neg hquery, documentData, Nodes.getData, if_neg hquery, hdata, hremembered]
    cases (documentMap site context).find query with
    | some data => rfl
    | none => cases site.query rounds (some context) query <;> rfl

/-- The data is in the map or remembered, or a query is evaluated and remembered. -/
theorem getDataLocked_runs (hsettled : Settled site rounds context fields)
    (hmutex : fields.mutex = some me) (hpopulated : fields.dataPopulated = true) (query : Str) :
    ∃ fields', Settled site rounds context fields' ∧
      Triple (protocol site rounds) me (getDataLocked site rounds context query)
        (Holding me context fields) (documentData site rounds context query)
        (Holding me context fields' : SiteMemory Client Node → Prop) := by
  rw [documentData_eq]
  unfold getDataLocked
  by_cases hempty : query = []
  · rw [if_pos hempty, if_pos hempty]
    exact ⟨fields, hsettled, Triple.throw _⟩
  · rw [if_neg hempty, if_neg hempty, ← hsettled.map_eq hpopulated]
    cases hdata : fields.data.find query with
    | some data => exact ⟨fields, hsettled, Triple.bind (readFields_held hdata) (Triple.pure data)⟩
    | none =>
        cases hcached : fields.cachedQueries.find query with
        | some data =>
            obtain ⟨nodes, hquery, rfl⟩ := hsettled.data.cachedQueries query data hcached
            rw [hquery]
            exact ⟨fields, hsettled, Triple.bind (readFields_held hdata)
              (Triple.bind (readFields_held hcached) (Triple.pure _))⟩
        | none =>
            cases hquery : site.query rounds (some context) query with
            | error fault =>
                exact ⟨fields, hsettled, Triple.bind (readFields_held hdata)
                  (Triple.bind (readFields_held hcached)
                    (Triple.bind_error (evaluated_held hquery)))⟩
            | ok nodes =>
                let remembered : ContextFields Client :=
                  { fields with
                    cachedQueries := fields.cachedQueries.assign query (site.getSingleData nodes) }
                have hremembered : Settled site rounds context remembered := by
                  refine ⟨⟨hsettled.data.data, fun other result hfind => ?_⟩, hsettled.counts⟩
                  rw [OrderedMap.find_assign] at hfind
                  split at hfind
                  · next hsame =>
                    obtain rfl := Option.some.inj hfind
                    exact ⟨nodes, hsame ▸ hquery, rfl⟩
                  · exact hsettled.data.cachedQueries other result hfind
                exact ⟨remembered, hremembered, Triple.bind (readFields_held hdata)
                  (Triple.bind (readFields_held hcached) (Triple.bind (evaluated_held hquery)
                    (Triple.bind
                      (writeFields_held hmutex (fun hpopulated => hpopulated) hsettled.map_eq)
                      (Triple.pure _))))⟩

theorem getData_returns (me : Client) (context : ℕ) (query : Str) :
    Returns (protocol site rounds) me (getData site rounds me context query)
      (documentData site rounds context query) := by
  have hlocked : Triple (protocol site rounds) me
      (locked me context (getDataLocked site rounds context query))
      (fun memory => ¬ (protocol site rounds).Owns me memory ∧ Seen context true memory)
      (documentData site rounds context query)
      fun memory => ¬ (protocol site rounds).Owns me memory ∧ Seen context false memory := by
    refine locked_runs fun fields hsettled hmutex hpopulated => ?_
    obtain ⟨fields', hsettled', hblock⟩ :=
      getDataLocked_runs hsettled hmutex (hpopulated rfl) query
    exact ⟨fields', hsettled', fun hknown => absurd hknown Bool.false_ne_true, hblock⟩
  exact Triple.bind (ensurePopulated_runs me context)
    (hlocked.weaken (fun _ _ h => h) fun _ _ h => h.1)

theorem getDataMap_returns (me : Client) (context : ℕ) :
    Returns (protocol site rounds) me (getDataMap site me context)
      (.ok (documentMap site context)) := by
  have hread : Triple (protocol site rounds) me
      (readFields context fun fields => fields.data : Code Client Node _)
      (fun memory => ¬ (protocol site rounds).Owns me memory ∧ Seen context true memory)
      (.ok (documentMap site context))
      fun memory => ¬ (protocol site rounds).Owns me memory ∧ Seen context true memory :=
    Triple.read (Protocol.stable_not_owns.and stable_seen) fun memory hinv h =>
      (hinv.2.2 context).data (h.2 rfl)
  exact Triple.bind (ensurePopulated_runs me context)
    (hread.weaken (fun _ _ h => h) fun _ _ h => h.1)

/-! ## The calls of a Site -/

/-- What the cache holds for a key is the Query that the constructor gives. -/
theorem fetchCached_runs (key : LRUKey) :
    (protocol site rounds).Meets me (fetchCached key : Code Client Node _).run
      (fun memory => ¬ (protocol site rounds).Owns me memory) fun ended memory =>
        ∃ found, (ended = .ok found ∧
            ∀ p_query, found = some p_query → newQuery site rounds key = .ok p_query) ∧
          ¬ (protocol site rounds).Owns me memory := by
  refine Protocol.Meets.step (fun ended other hother memory memory' hinv h hmay => ?_) ?_
  · obtain ⟨found, hfound, hfree⟩ := h
    exact ⟨found, hfound, Protocol.stable_not_owns hother hinv hfree hmay⟩
  · intro memory hinv hfree
    obtain ⟨found, list, hperm, hfetch, hfound⟩ := hinv.1.fetch_spec key false
    simp only [hfetch]
    refine ⟨⟨hinv.1.of_perm hperm, fun node hnode => hinv.2.1 node (hperm.mem_iff.1 hnode),
      hinv.2.2⟩, fun _ => Or.inl rfl, found, ⟨rfl, fun p_query hquery => ?_⟩, hfree⟩
    obtain ⟨node, hnode, rfl, rfl⟩ := (hfound p_query).1 hquery
    exact hinv.2.1 node hnode

theorem insertCached_returns {key : LRUKey} {p_query : Query Node}
    (hquery : newQuery site rounds key = .ok p_query) :
    Returns (protocol site rounds) me (insertCached key p_query) (.ok ()) := by
  have hstable : ∀ ended : Outcome Unit, (protocol site rounds).Stable me fun memory =>
      ended = .ok () ∧ ¬ (protocol site rounds).Owns me memory :=
    fun ended => (Protocol.stable_const _ _).and Protocol.stable_not_owns
  refine Protocol.Meets.step hstable fun memory hinv hfree => ?_
  obtain ⟨cache, hinsert, hcoherent, _, _, hmem⟩ := hinv.1.insert_spec key p_query
  simp only [hinsert]
  refine ⟨⟨hcoherent, fun node hnode => ?_, hinv.2.2⟩, fun _ => Or.inl rfl, trivial, hfree⟩
  rcases hmem node hnode with hnew | hold
  · rw [hnew.1, hnew.2]
    exact hquery
  · exact hinv.2.1 node hold.2

theorem fetchQuery_returns (me : Client) (key : LRUKey) :
    Returns (protocol site rounds) me (fetchQuery site rounds key)
      (newQuery site rounds key) := by
  refine Protocol.Meets.bind (fetchCached_runs key) fun ended => ?_
  refine Protocol.Meets.of_exists fun found => Protocol.Meets.of_and fun hfound => ?_
  obtain ⟨rfl, hright⟩ := hfound
  cases found with
  | some p_query =>
      rw [hright p_query rfl]
      exact Returns.pure p_query
  | none =>
      cases hquery : newQuery site rounds key with
      | error fault => exact Triple.bind_error (hquery ▸ Returns.of_outcome _)
      | ok p_query =>
          exact Triple.bind (hquery ▸ Returns.of_outcome _)
            (Triple.bind (insertCached_returns hquery) (Returns.pure p_query))

end

end VaeDb.Query.Shared
