import Mathlib.Data.List.Nodup
import Mathlib.Logic.Function.Basic

/-!
# Doubly linked nodes

Nodes of any type `A` are linked by two maps, `next` and `prev`.  `Segment` says that
following `next` from one pointer goes through the nodes of a list and arrives at another
pointer, and that `prev` leads the same way back.

* `segment_append`: a segment of a concatenation is two segments, one after the other.
* `Segment.leads`: following `next` one gets to every node of a segment.
* `Segment.retarget`, `Segment.rebefore`: the two ends can be set anew.
* `Segment.unlink`: taking a node out, as it is done on doubly linked lists.
-/

namespace Links

variable {A B : Type*}

/-- From `start`, `next` leads through the nodes of a list to `stop`; `prev` leads back, and
from the first of them to `before`. -/
def Segment (next prev : A → Option A) : Option A → Option A → List A → Option A → Prop
  | _, start, [], stop => start = stop
  | before, start, a :: rest, stop =>
      start = some a ∧ prev a = before ∧ Segment next prev (some a) (next a) rest stop

/-- Set the value at a node, if there is one. -/
def setAt [DecidableEq A] (f : A → B) : Option A → B → A → B
  | none, _ => f
  | some a, b => Function.update f a b

section

variable [DecidableEq A] {f : A → B}

@[simp] theorem setAt_none (b : B) : setAt f none b = f := rfl

@[simp] theorem setAt_some (a : A) (b : B) : setAt f (some a) b = Function.update f a b := rfl

theorem setAt_of_ne {at? : Option A} {a : A} (h : at? ≠ some a) (b : B) :
    setAt f at? b a = f a := by
  cases at? with
  | none => rfl
  | some other => exact Function.update_of_ne (fun heq => h (congrArg some heq.symm)) _ _

end

variable {next prev next' prev' : A → Option A} {before start stop : Option A}

/-! ## Segments -/

theorem Segment.congr {nodes : List A} (h : Segment next prev before start nodes stop)
    (hnext : ∀ a ∈ nodes, next' a = next a) (hprev : ∀ a ∈ nodes, prev' a = prev a) :
    Segment next' prev' before start nodes stop := by
  induction nodes generalizing before start with
  | nil => exact h
  | cons a rest ih =>
      obtain ⟨hstart, hbefore, hrest⟩ := h
      refine ⟨hstart, (hprev a (List.mem_cons_self ..)).trans hbefore, ?_⟩
      rw [hnext a (List.mem_cons_self ..)]
      exact ih hrest (fun b hb => hnext b (List.mem_cons_of_mem _ hb))
        fun b hb => hprev b (List.mem_cons_of_mem _ hb)

theorem getLast?_cons_or (a : A) (rest : List A) (before : Option A) :
    (a :: rest).getLast?.or before = rest.getLast?.or (some a) := by
  rw [List.getLast?_cons]
  cases rest.getLast? <;> rfl

theorem segment_append {first second : List A} :
    Segment next prev before start (first ++ second) stop ↔
      ∃ middle, Segment next prev before start first middle ∧
        Segment next prev (first.getLast?.or before) middle second stop := by
  induction first generalizing before start with
  | nil =>
      constructor
      · intro h
        exact ⟨start, rfl, h⟩
      · rintro ⟨middle, hmiddle, h⟩
        exact hmiddle ▸ h
  | cons a rest ih =>
      rw [getLast?_cons_or]
      constructor
      · intro h
        obtain ⟨hstart, hbefore, hrest⟩ := h
        obtain ⟨middle, hfirst, hsecond⟩ := ih.1 hrest
        exact ⟨middle, ⟨hstart, hbefore, hfirst⟩, hsecond⟩
      · rintro ⟨middle, ⟨hstart, hbefore, hfirst⟩, hsecond⟩
        exact ⟨hstart, hbefore, ih.2 ⟨middle, hfirst, hsecond⟩⟩

theorem Segment.start_eq {nodes : List A} (h : Segment next prev before start nodes stop) :
    start = nodes.head?.or stop := by
  cases nodes with
  | nil => exact h
  | cons a rest => exact h.1

/-- Where `next` leads from a node of a segment. -/
theorem Segment.next_eq {first rest : List A} {a : A}
    (h : Segment next prev before start (first ++ a :: rest) stop) :
    next a = rest.head?.or stop := by
  obtain ⟨_, _, _, _, hrest⟩ := segment_append.1 h
  exact hrest.start_eq

/-- Where `prev` leads from a node of a segment. -/
theorem Segment.prev_eq {first rest : List A} {a : A}
    (h : Segment next prev before start (first ++ a :: rest) stop) :
    prev a = first.getLast?.or before := by
  obtain ⟨_, _, _, hprev, _⟩ := segment_append.1 h
  exact hprev

/-- From a pointer, `next` leads to a node. -/
inductive Leads (next : A → Option A) : Option A → A → Prop
  | here (a : A) : Leads next (some a) a
  | next {a b : A} (hrest : Leads next (next a) b) : Leads next (some a) b

/-- A segment leads to each of its nodes. -/
theorem Segment.leads {nodes : List A} {a : A}
    (h : Segment next prev before start nodes stop) (ha : a ∈ nodes) : Leads next start a := by
  induction nodes generalizing before start with
  | nil => cases ha
  | cons b rest ih =>
      obtain ⟨rfl, _, hrest⟩ := h
      rcases List.mem_cons.1 ha with rfl | ha
      · exact .here _
      · exact .next (ih hrest ha)

/-- It leads to nothing else if it ends there. -/
theorem Segment.mem_of_leads {nodes : List A} {a : A}
    (h : Segment next prev before start nodes none) (hleads : Leads next start a) : a ∈ nodes := by
  induction hleads generalizing nodes before with
  | here a =>
      cases nodes with
      | nil => cases h
      | cons b rest => exact Option.some.inj h.1 ▸ List.mem_cons_self ..
  | @next b a _ ih =>
      cases nodes with
      | nil => cases h
      | cons c rest =>
          obtain ⟨hstart, _, hrest⟩ := h
          obtain rfl := Option.some.inj hstart
          exact List.mem_cons_of_mem _ (ih hrest)

/-! ## Relinking -/

variable [DecidableEq A]

/-- The last node is made to lead elsewhere. -/
theorem Segment.retarget {nodes : List A} {z : A} {stop' : Option A}
    (h : Segment next prev before start nodes stop) (hnodup : nodes.Nodup)
    (hz : nodes.getLast? = some z) :
    Segment (Function.update next z stop') prev before start nodes stop' := by
  obtain ⟨first, rfl⟩ := List.getLast?_eq_some_iff.1 hz
  obtain ⟨middle, hfirst, hmiddle, hprev, _⟩ := segment_append.1 h
  have hout : ∀ a ∈ first, a ≠ z := fun a ha heq =>
    List.disjoint_of_nodup_append hnodup ha (heq ▸ List.mem_singleton_self z)
  refine segment_append.2 ⟨middle, ?_, hmiddle, hprev, ?_⟩
  · exact hfirst.congr (fun a ha => Function.update_of_ne (hout a ha) _ _) fun _ _ => rfl
  · exact Function.update_self ..

/-- The first node is made to lead back elsewhere. -/
theorem Segment.rebefore {nodes : List A} {before' : Option A}
    (h : Segment next prev before start nodes stop) (hnodup : nodes.Nodup) :
    Segment next (setAt prev start before') before' start nodes stop := by
  cases nodes with
  | nil => exact h
  | cons a rest =>
      obtain ⟨rfl, _, hrest⟩ := h
      refine ⟨rfl, Function.update_self .., hrest.congr (fun _ _ => rfl) fun b hb => ?_⟩
      exact Function.update_of_ne (ne_of_mem_of_not_mem hb (List.nodup_cons.1 hnodup).1) _ _

/-- The maps `next` and `prev` once a node is taken out. -/
def unlinkNext (next prev : A → Option A) (a : A) : A → Option A :=
  Function.update (setAt next (prev a) (next a)) a none

def unlinkPrev (next prev : A → Option A) (a : A) : A → Option A :=
  Function.update (setAt prev (next a) (prev a)) a none

theorem unlinkNext_eq (a b : A) :
    unlinkNext next prev a b =
      if b = a then none else if prev a = some b then next a else next b := by
  by_cases hb : b = a
  · rw [if_pos hb, unlinkNext, hb, Function.update_self]
  · rw [if_neg hb, unlinkNext, Function.update_of_ne hb]
    by_cases hprev : prev a = some b
    · rw [if_pos hprev, hprev, setAt_some, Function.update_self]
    · rw [if_neg hprev, setAt_of_ne hprev]

theorem unlinkPrev_eq (a b : A) :
    unlinkPrev next prev a b =
      if b = a then none else if next a = some b then prev a else prev b := by
  by_cases hb : b = a
  · rw [if_pos hb, unlinkPrev, hb, Function.update_self]
  · rw [if_neg hb, unlinkPrev, Function.update_of_ne hb]
    by_cases hnext : next a = some b
    · rw [if_pos hnext, hnext, setAt_some, Function.update_self]
    · rw [if_neg hnext, setAt_of_ne hnext]

theorem unlinkNext_of_ne {a b : A} (hne : b ≠ a) (hprev : prev a ≠ some b) :
    unlinkNext next prev a b = next b := by
  rw [unlinkNext, Function.update_of_ne hne, setAt_of_ne hprev]

theorem unlinkPrev_of_ne {a b : A} (hne : b ≠ a) (hnext : next a ≠ some b) :
    unlinkPrev next prev a b = prev b := by
  rw [unlinkPrev, Function.update_of_ne hne, setAt_of_ne hnext]

/-- A node of a segment is taken out of it; the segment still ends where it did. -/
theorem Segment.unlink {first rest : List A} {a : A}
    (h : Segment next prev none start (first ++ a :: rest) stop)
    (hnodup : (first ++ a :: rest).Nodup) (hstop : ∀ b, stop = some b → b ∉ first) :
    Segment (unlinkNext next prev a) (unlinkPrev next prev a) none
      (if start = some a then next a else start) (first ++ rest) stop := by
  obtain ⟨middle, hfirst, rfl, hprev, hrest⟩ := segment_append.1 h
  obtain ⟨hnodupFirst, hnodupRest, hdisjoint⟩ := List.nodup_append'.1 hnodup
  obtain ⟨harest, hnodupRest⟩ := List.nodup_cons.1 hnodupRest
  have hafirst : a ∉ first := fun ha => hdisjoint ha (List.mem_cons_self ..)
  rw [Option.or_none] at hprev
  -- the nodes after `a` get a new first `prev`, and nothing else that they have changes
  have hafter : Segment (unlinkNext next prev a) (unlinkPrev next prev a) (prev a) (next a)
      rest stop := by
    refine (hrest.rebefore hnodupRest).congr (fun b hb => ?_) fun b hb => ?_
    · refine unlinkNext_of_ne (ne_of_mem_of_not_mem hb harest) fun heq => ?_
      exact hdisjoint (List.mem_of_getLast? (hprev.symm.trans heq)) (List.mem_cons_of_mem _ hb)
    · rw [unlinkPrev, Function.update_of_ne (ne_of_mem_of_not_mem hb harest)]
  have hkeepPrev : ∀ b ∈ first, unlinkPrev next prev a b = prev b := by
    intro b hb
    refine unlinkPrev_of_ne (ne_of_mem_of_not_mem hb hafirst) fun heq => ?_
    rw [hrest.start_eq] at heq
    cases rest with
    | nil => exact hstop b heq hb
    | cons c rest =>
        obtain rfl : c = b := Option.some.inj heq
        exact hdisjoint hb (by simp)
  rw [segment_append, Option.or_none]
  cases hlast : first.getLast? with
  | none =>
      obtain rfl := List.getLast?_eq_none_iff.1 hlast
      obtain rfl : start = some a := hfirst
      rw [hlast] at hprev
      rw [if_pos rfl]
      exact ⟨next a, rfl, hprev ▸ hafter⟩
  | some z =>
      have hzmem : z ∈ first := List.mem_of_getLast? hlast
      have hstart : start ≠ some a := by
        intro heq
        cases first with
        | nil => cases hlast
        | cons b first =>
            obtain rfl : b = a := Option.some.inj (hfirst.1.symm.trans heq)
            exact hafirst (List.mem_cons_self ..)
      rw [hlast] at hprev
      rw [if_neg hstart]
      refine ⟨next a, ?_, hprev ▸ hafter⟩
      -- the node before `a` now leads to what came after it
      refine (hfirst.retarget hnodupFirst hlast).congr (fun b hb => ?_) hkeepPrev
      rw [unlinkNext, Function.update_of_ne (ne_of_mem_of_not_mem hb hafirst), hprev, setAt_some]

end Links
