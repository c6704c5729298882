import Mathlib.Logic.Relation
import VaeDb.Library.Links

/-!
# Forests

Nodes of any type `A` that are linked by two maps, to a first child and to a next sibling.
`Forest` is the order in which a recursion over both goes through what it starts from.  It
goes through everything that the links lead to (`Forest.mem_iff`), and through no node twice
if no node has two links to it (`Forest.nodup`).
-/

namespace Links

open Relation

variable {A : Type*} {children next : A → Option A} {start : Option A} {nodes : List A}
  {G : A → Prop} {a b c x y : A}

/-- A link from one node to another. -/
def Edge (children next : A → Option A) (a b : A) : Prop :=
  children a = some b ∨ next a = some b

/-- What the links lead to from a pointer. -/
def Reach (children next : A → Option A) (start : Option A) (b : A) : Prop :=
  ∃ a, start = some a ∧ ReflTransGen (Edge children next) a b

theorem not_reach_none : ¬ Reach children next none b := by
  rintro ⟨a, ha, _⟩
  cases ha

theorem reach_some :
    Reach children next (some a) b ↔
      b = a ∨ Reach children next (children a) b ∨ Reach children next (next a) b := by
  constructor
  · rintro ⟨_, hstart, hpath⟩
    obtain rfl := Option.some.inj hstart
    rcases hpath.cases_head with rfl | ⟨c, hedge, hrest⟩
    · exact Or.inl rfl
    · exact Or.inr (hedge.imp (fun hc => ⟨c, hc, hrest⟩) fun hc => ⟨c, hc, hrest⟩)
  · rintro (rfl | ⟨c, hc, hpath⟩ | ⟨c, hc, hpath⟩)
    · exact ⟨b, rfl, .refl⟩
    · exact ⟨a, rfl, .head (Or.inl hc) hpath⟩
    · exact ⟨a, rfl, .head (Or.inr hc) hpath⟩

/-- The links also lead to what is reached from the first child. -/
theorem Reach.below (h : Reach children next start a) (hb : Reach children next (children a) b) :
    Reach children next start b := by
  obtain ⟨x, hx, hpath⟩ := h
  obtain ⟨y, hy, hpath'⟩ := hb
  exact ⟨x, hx, (hpath.tail (Or.inl hy)).trans hpath'⟩

/-- A set of nodes that the links do not leave. -/
theorem Reach.closed (h : Reach children next start b) (hstart : ∀ a, start = some a → G a)
    (hclosed : ∀ a b, G a → Edge children next a b → G b) : G b := by
  obtain ⟨a, ha, hpath⟩ := h
  induction hpath with
  | refl => exact hstart a ha
  | tail _ hedge ih => exact hclosed _ _ ih hedge

/-- The links lead to all nodes of a chain of siblings. -/
theorem Leads.reach (h : Leads next start a) : Reach children next start a := by
  induction h with
  | here a => exact ⟨a, rfl, .refl⟩
  | next _ ih => exact reach_some.2 (Or.inr (Or.inr ih))

/-- The nodes that the links lead to, each before its children and its next siblings. -/
inductive Forest (children next : A → Option A) : Option A → List A → Prop
  | nil : Forest children next none []
  | cons {a : A} {inner rest : List A} (hinner : Forest children next (children a) inner)
      (hrest : Forest children next (next a) rest) :
      Forest children next (some a) (a :: (inner ++ rest))

theorem Forest.mem_iff (h : Forest children next start nodes) :
    b ∈ nodes ↔ Reach children next start b := by
  induction h with
  | nil => simp [not_reach_none]
  | cons _ _ ihinner ihrest => rw [reach_some, List.mem_cons, List.mem_append, ihinner, ihrest]

/-- Where the links end, there is a forest. -/
theorem exists_forest (hacc : ∀ a, start = some a → Acc (fun b a => Edge children next a b) a) :
    ∃ nodes, Forest children next start nodes := by
  cases start with
  | none => exact ⟨[], .nil⟩
  | some a =>
      induction hacc a rfl with
      | intro a _ ih =>
          have hfrom : ∀ start, (∀ b, start = some b → Edge children next a b) →
              ∃ nodes, Forest children next start nodes := by
            intro start hstart
            cases start with
            | none => exact ⟨[], .nil⟩
            | some b =>
                have hedge := hstart b rfl
                exact ih b hedge fun c hc => Option.some.inj hc ▸ (hacc a rfl).inv hedge
          obtain ⟨inner, hinner⟩ := hfrom (children a) fun b hb => Or.inl hb
          obtain ⟨rest, hrest⟩ := hfrom (next a) fun b hb => Or.inr hb
          exact ⟨_, .cons hinner hrest⟩

/-- The links of a forest end. -/
theorem Forest.acc (h : Forest children next start nodes) (ha : start = some a) :
    Acc (fun b a => Edge children next a b) a := by
  induction h generalizing a with
  | nil => cases ha
  | cons _ _ ihinner ihrest =>
      obtain rfl := Option.some.inj ha
      exact ⟨_, fun b hedge => hedge.elim ihinner ihrest⟩

/-- Links that end do not lead back. -/
theorem not_path_of_acc (h : Acc (fun b a => Edge children next a b) a)
    (hedge : Edge children next a b) : ¬ ReflTransGen (Edge children next) b a := by
  induction h generalizing b with
  | intro a _ ih =>
      intro hpath
      rcases hpath.cases_head with rfl | ⟨c, hbc, hpath⟩
      · exact ih b hedge hedge .refl
      · exact ih b hedge hbc (hpath.tail hedge)

/-! ## Nodes with one link to them -/

/-- No node has two links to it from a set of nodes, which the links do not leave. -/
structure Singly (children next : A → Option A) (G : A → Prop) : Prop where
  closed : ∀ a b, G a → Edge children next a b → G b
  unique : ∀ a b c, G a → G b → Edge children next a c → Edge children next b c → a = b
  apart : ∀ a b, G a → children a = some b → next a ≠ some b

namespace Singly

variable (h : Singly children next G)

include h

theorem path_closed (hx : G x) (hpath : ReflTransGen (Edge children next) x b) : G b := by
  induction hpath with
  | refl => exact hx
  | tail _ hedge ih => exact h.closed _ _ ih hedge

/-- Of two nodes that lead to a third, one leads to the other. -/
theorem path_total (hx : G x) (hy : G y) (hxb : ReflTransGen (Edge children next) x b)
    (hyb : ReflTransGen (Edge children next) y b) :
    ReflTransGen (Edge children next) x y ∨ ReflTransGen (Edge children next) y x := by
  induction hxb with
  | refl => exact Or.inr hyb
  | @tail c b hxc hedge ih =>
      rcases hyb.cases_tail with rfl | ⟨d, hyd, hedge'⟩
      · exact Or.inl (hxc.tail hedge)
      · obtain rfl : c = d :=
          h.unique c d b (h.path_closed hx hxc) (h.path_closed hy hyd) hedge hedge'
        exact ih hyd

/-- What leads to a node on the way from its predecessor comes back to the predecessor. -/
theorem path_back (ha : G a) (hx : G x) (hedge : Edge children next a y) (hne : y ≠ x)
    (hpath : ReflTransGen (Edge children next) x y) :
    ReflTransGen (Edge children next) x a := by
  rcases hpath.cases_tail with heq | ⟨c, hxc, hedge'⟩
  · exact absurd heq hne
  · exact h.unique a c y ha (h.path_closed hx hxc) hedge hedge' ▸ hxc

/-- Where the links end, nothing leads to a node both from the first child and from the next
sibling of another. -/
theorem not_both (ha : G a) (hacc : Acc (fun b a => Edge children next a b) a)
    (hinner : Reach children next (children a) b) (hrest : Reach children next (next a) b) :
    False := by
  obtain ⟨x, hchildren, hxb⟩ := hinner
  obtain ⟨y, hnext, hyb⟩ := hrest
  have hx := h.closed a x ha (Or.inl hchildren)
  have hy := h.closed a y ha (Or.inr hnext)
  have hne : x ≠ y := fun heq => h.apart a x ha hchildren (heq ▸ hnext)
  rcases h.path_total hx hy hxb hyb with hpath | hpath
  · exact not_path_of_acc hacc (Or.inl hchildren)
      (h.path_back ha hx (Or.inr hnext) hne.symm hpath)
  · exact not_path_of_acc hacc (Or.inr hnext) (h.path_back ha hy (Or.inl hchildren) hne hpath)

end Singly

/-- A forest goes through no node twice. -/
theorem Forest.nodup (h : Forest children next start nodes) (hsingly : Singly children next G)
    (hstart : ∀ a, start = some a → G a) : nodes.Nodup := by
  induction h with
  | nil => exact List.nodup_nil
  | @cons a inner rest hinner hrest ihinner ihrest =>
      have ha : G a := hstart a rfl
      have hacc := (Forest.cons hinner hrest).acc rfl
      refine List.nodup_cons.2 ⟨fun hmem => ?_, ?_⟩
      · rcases List.mem_append.1 hmem with hmem | hmem
        · obtain ⟨x, hx, hpath⟩ := hinner.mem_iff.1 hmem
          exact not_path_of_acc hacc (Or.inl hx) hpath
        · obtain ⟨y, hy, hpath⟩ := hrest.mem_iff.1 hmem
          exact not_path_of_acc hacc (Or.inr hy) hpath
      · refine (ihinner fun b hb => hsingly.closed a b ha (Or.inl hb)).append
          (ihrest fun b hb => hsingly.closed a b ha (Or.inr hb)) fun b hb hb' => ?_
        exact hsingly.not_both ha hacc (hinner.mem_iff.1 hb) (hrest.mem_iff.1 hb')

end Links
