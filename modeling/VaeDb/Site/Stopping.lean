import Mathlib.Data.List.Lex
import VaeDb.Library.Stops
import VaeDb.Site.Pruning

/-!
# Where the construction stops

The construction of the Contexts goes through the elements in document order, and nothing stops
it but an element for which `populateAttrs` stops.  With as many rounds as the feed has nodes
it returns, or it stops with the fault of the first such element (`constructContexts_stops`).
-/

open Stops

namespace VaeDb.Source

open Xml Links

variable {source : Source} {path other inner : Path} {i j k : ℕ}

/-! ## Document order -/

/-- One node is before another one in the document: above it, or before the child of a common
ancestor that leads to it. -/
def Precedes (path other : Path) : Prop := path.reverse < other.reverse

theorem precedes_of_suffix (h : path <:+ other) (hne : other ≠ path) : Precedes path other := by
  obtain ⟨j, front, rfl⟩ := exists_suffix_cons h hne
  unfold Precedes
  rw [List.reverse_append, List.reverse_cons, List.append_assoc]
  conv_lhs => rw [← List.append_nil path.reverse]
  exact List.append_left_lt (List.nil_lt_cons ..)

theorem precedes_of_lt (hlt : i < j) (hi : i :: path <:+ inner) (hj : j :: path <:+ other) :
    Precedes inner other := by
  obtain ⟨front, rfl⟩ := hi
  obtain ⟨front', rfl⟩ := hj
  unfold Precedes
  rw [List.reverse_append, List.reverse_append, List.reverse_cons, List.reverse_cons,
    List.append_assoc, List.append_assoc]
  exact List.append_left_lt (List.cons_lt_cons_iff.2 (Or.inl hlt))

theorem not_precedes_self : ¬ Precedes path path := lt_irrefl path.reverse

theorem Precedes.not_precedes (h : Precedes path other) : ¬ Precedes other path := lt_asymm h

theorem precedes_or_precedes (h : path ≠ other) : Precedes path other ∨ Precedes other path :=
  lt_or_gt_of_ne fun heq => h (List.reverse_injective heq)

/-! ## The first fault -/

/-- The first element of a part for which `populateAttrs` stops, and why it stops. -/
structure StopsFirst (source : Source) (part : Path → Prop) (fault : Fault) (path : Path) :
    Prop where
  inside : part path
  child : source.Child path
  stops : source.context path = .error fault
  earlier : ∀ other, part other → source.Child other → Precedes other path →
    ∃ ctxt, source.context other = .ok ctxt

/-- What returns, or stops with the fault of the first such element. -/
abbrev StopsWith {α : Type} (source : Source) (part : Path → Prop) (x : Outcome α) : Prop :=
  Meets (fun fault => ∃ path, source.StopsFirst part fault path) (fun _ => True) x

variable {part part' : Path → Prop} {fault : Fault}

/-- Nothing before the first element of a part stops in a larger part either. -/
theorem StopsFirst.widen (h : source.StopsFirst part fault path)
    (hsub : ∀ other, part other → part' other)
    (hnew : ∀ other, part' other → ¬ part other → source.Child other → Precedes other path →
      ∃ ctxt, source.context other = .ok ctxt) : source.StopsFirst part' fault path where
  inside := hsub path h.inside
  child := h.child
  stops := h.stops
  earlier other hother hchild hprecedes := by
    by_cases hpart : part other
    · exact h.earlier other hpart hchild hprecedes
    · exact hnew other hother hpart hchild hprecedes

/-- There is one first fault. -/
theorem StopsFirst.unique {fault' : Fault} (h : source.StopsFirst part fault path)
    (h' : source.StopsFirst part fault' other) : path = other ∧ fault = fault' := by
  have heq : path = other := by
    by_contra hne
    rcases precedes_or_precedes hne with hprecedes | hprecedes
    · obtain ⟨ctxt, hctxt⟩ := h'.earlier path h.inside h.child hprecedes
      rw [h.stops] at hctxt
      cases hctxt
    · obtain ⟨ctxt, hctxt⟩ := h.earlier other h'.inside h'.child hprecedes
      rw [h'.stops] at hctxt
      cases hctxt
  subst heq
  exact ⟨rfl, Except.error.inj (h.stops.symm.trans h'.stops)⟩

variable {site site' : Site} {removed removed' : Path → Prop} {paths : List Path} {rounds : ℕ}

/-- `populateAttrs` returned for what the construction has gone through. -/
theorem Step.context_ok (h : source.Step part paths site site' removed removed')
    (hpart : part path) (hchild : source.Child path) :
    ∃ ctxt, source.context path = .ok ctxt := by
  rcases h.settled path hpart hchild with hremoved | hvisited
  · exact ⟨none, (h.constructing.pruned path hremoved).2⟩
  · obtain ⟨_, ctxt, hctxt⟩ := hvisited
    exact ⟨some ctxt, hctxt⟩

/-! ## Loops over children -/

/-- A loop over the children of a node whose body goes through one child or stops there. -/
theorem forChildren_stops (body : Site → Address → Outcome Site) (path : Path)
    (hopened : source.Opened path)
    (hbody : ∀ site removed k, source.Constructing site removed →
      source.Accounted site.heap removed (fun _ => False) → Fresh (k :: path) site removed →
      k < source.feed.width path →
      source.StopsWith (k :: path <:+ ·) (body site (kid path k)))
    (hstep : ∀ site site' removed k, source.Constructing site removed →
      Fresh (k :: path) site removed → k < source.feed.width path →
      body site (kid path k) = .ok site' →
      ∃ removed', source.Step (k :: path <:+ ·) (source.visitsAt (k :: path)) site site'
          removed removed' ∧
        source.Noted (k :: path <:+ ·) (k :: path <:+ ·) site site' removed removed')
    (h : source.Constructing site removed)
    (haccounted : source.Accounted site.heap removed fun _ => False)
    (hfresh : ∀ j, k ≤ j → Fresh (j :: path) site removed)
    (hrounds : source.sizeAfter path k ≤ rounds) :
    source.StopsWith (fun inner => ∃ j, k ≤ j ∧ j :: path <:+ inner)
      (Site.forChildren body rounds site
        (if k < source.feed.width path then some (kid path k) else none)) := by
  induction rounds generalizing site removed k with
  | zero =>
      by_cases hk : k < source.feed.width path
      · rw [sizeAfter_succ hk, sizeAt_eq (Tree.lookup_cons_isSome.2 hk)] at hrounds
        omega
      · rw [if_neg hk]
        exact meets_pure trivial
  | succ rounds ih =>
      by_cases hk : k < source.feed.width path
      · have hself := hfresh k (Nat.le_refl k)
        have hderef : site.heap.deref (kid path k) = .ok () :=
          Heap.deref_eq_ok.2 (h.live_kid hopened hk (hself _ List.suffix_rfl).1)
        have hnext := h.next (fun j hj => ((hfresh j hj) _ List.suffix_rfl).1) hk
        have hbody1 := hbody site removed k h haccounted hself hk
        rw [if_pos hk, Site.forChildren, hderef, hnext]
        change Meets _ _ (body site (kid path k) >>= fun site1 =>
          Site.forChildren body rounds site1 _)
        cases hrun : body site (kid path k) with
        | error fault =>
            rw [hrun] at hbody1
            obtain ⟨inner, hfirst⟩ := hbody1
            refine ⟨inner, hfirst.widen (fun other hother => ⟨k, Nat.le_refl k, hother⟩) ?_⟩
            rintro other ⟨j, hj, hother⟩ hnot _ hprecedes
            -- the other children come later
            rcases Nat.eq_or_lt_of_le hj with rfl | hlt
            · exact absurd hother hnot
            · exact absurd (precedes_of_lt hlt hfirst.inside hother) hprecedes.not_precedes
        | ok site1 =>
            obtain ⟨removed1, hstep1, hnoted⟩ := hstep site site1 removed k h hself hk hrun
            rw [sizeAfter_succ hk, sizeAt_eq (Tree.lookup_cons_isSome.2 hk)] at hrounds
            have hrest := ih hstep1.constructing (hnoted.accounted haccounted)
              (hstep1.fresh_after hfresh) (show source.sizeAfter path (k + 1) ≤ rounds by omega)
            refine hrest.weaken fun fault => ?_
            rintro ⟨inner, hfirst⟩
            refine ⟨inner, hfirst.widen (fun other ⟨j, hj, hother⟩ => ⟨j, by omega, hother⟩) ?_⟩
            rintro other ⟨j, hj, hother⟩ hnot hchild _
            -- the child that the loop has gone through
            obtain rfl : j = k := by
              by_contra hne
              exact hnot ⟨j, by omega, hother⟩
            exact hstep1.context_ok hother hchild
      · rw [if_neg hk]
        exact meets_pure trivial

/-! ## The constructor of `Context` -/

/-- The attributes of a child can be read. -/
theorem Constructing.properties_ok (h : source.Constructing site removed)
    (haccounted : source.Accounted site.heap removed fun _ => False)
    (hchild : source.Child (k :: path)) (hkept : ¬ removed (k :: path)) :
    site.properties (kid path k) = .ok (source.feed.attributesAt (k :: path)) := by
  have hlive := h.live_kid hchild.1 hchild.lt_width hkept
  have hproperties : site.heap.properties (kid path k) = _ := h.shape.properties (k :: path) id
  have hattributes : site.heap.attributes (kid path k) = _ :=
    haccounted.kept (k :: path) (h.shape.not_gone_kid hchild.1 hkept) id
  have hderef : site.heap.deref (kid path k) = .ok () := Heap.deref_eq_ok.2 hlive
  by_cases hnil : source.feed.attributesAt (k :: path) = []
  · have hnone : source.feed.parse.properties (.feed (k :: path)) = none := if_pos hnil
    rw [Site.properties, hderef, hproperties, hnone, hnil]
    rfl
  · have hsome : site.heap.attributes (.feed (k :: path)) =
        some (source.feed.attributesAt (k :: path)) := hattributes.trans (if_neg hnil)
    simp only [Site.properties, hderef, hproperties, parse_properties hnil, hsome]
    rfl

/-- What happens to a child once its Context has been constructed, or has come with `killMe`. -/
theorem keepOrKill_ok {constructed : Option Site} (h : source.Constructing site removed)
    (haccounted : source.Accounted site.heap removed fun _ => False)
    (hfresh : Fresh (k :: path) site removed)
    (hpruned : constructed = none → source.Pruned (k :: path))
    (hrounds : source.sizeAfter (k :: path) 0 ≤ rounds) :
    ∃ site', Site.keepOrKill rounds (kid path k) constructed site = .ok site' := by
  cases constructed with
  | none =>
      have hpruned := hpruned rfl
      have hkept := (hfresh _ List.suffix_rfl).1
      obtain ⟨heap1, hunlink⟩ := h.unlink_ok hpruned.1 hkept
      obtain ⟨heap2, hfree⟩ := h.free_ok haccounted hpruned.shut hfresh hunlink hrounds
      exact ⟨_, Outcome.bind_eq_ok.2 ⟨heap1, hunlink, Outcome.bind_eq_ok.2 ⟨heap2, hfree, rfl⟩⟩⟩
  | some constructed => exact ⟨_, rfl⟩

/-- The body of both loops over children, on an element. -/
theorem child_stops (h : source.Constructing site removed)
    (haccounted : source.Accounted site.heap removed fun _ => False)
    (hchild : source.Child (k :: path)) (hfresh : Fresh (k :: path) site removed)
    (hrounds : source.sizeAfter (k :: path) 0 ≤ rounds)
    (hnew : source.StopsWith (k :: path <:+ ·)
      (Site.newContext source.surroundings rounds site (kid path k))) :
    source.StopsWith (k :: path <:+ ·) (do
      let constructed ← Site.newContext source.surroundings rounds site (kid path k)
      Site.keepOrKill rounds (kid path k) constructed site) := by
  cases hrun : Site.newContext source.surroundings rounds site (kid path k) with
  | error fault =>
      rw [hrun] at hnew
      exact hnew
  | ok constructed =>
      have hpruned : constructed = none → source.Pruned (k :: path) := by
        rintro rfl
        rcases newContext_step h hchild hfresh hrun with ⟨_, hpruned⟩ | ⟨_, _, hsome, _⟩
        · exact hpruned
        · cases hsome
      obtain ⟨site', hkeep⟩ := keepOrKill_ok h haccounted hfresh hpruned hrounds
      change Meets _ _ (Site.keepOrKill rounds (kid path k) constructed site)
      rw [hkeep]
      exact trivial

/-- The constructor stops at the first element that it comes to and that stops. -/
theorem newContext_stops (h : source.Constructing site removed)
    (haccounted : source.Accounted site.heap removed fun _ => False)
    (hchild : source.Child path) (hfresh : Fresh path site removed)
    (hrounds : source.sizeAt path ≤ rounds) :
    source.StopsWith (path <:+ ·)
      (Site.newContext source.surroundings rounds site (.feed path)) := by
  induction rounds generalizing site removed path with
  | zero =>
      rw [sizeAt_eq (Tree.lookup_isSome_of_element hchild.element)] at hrounds
      omega
  | succ rounds ih =>
      rw [sizeAt_eq (Tree.lookup_isSome_of_element hchild.element)] at hrounds
      have hproperties : site.properties (.feed path) = .ok (source.feed.attributesAt path) := by
        cases path with
        | nil => exact hchild.elim
        | cons k path => exact h.properties_ok haccounted hchild (hfresh _ List.suffix_rfl).1
      rw [Site.newContext, hproperties]
      change Meets _ _ (source.context path >>= _)
      cases hcontext : source.context path with
      | error fault =>
          refine ⟨path, List.suffix_rfl, hchild, hcontext, fun other hother _ hprecedes => ?_⟩
          -- nothing at or below the element is before it
          by_cases hself : other = path
          · exact absurd (hself ▸ hprecedes) not_precedes_self
          · exact absurd (precedes_of_suffix hother hself) hprecedes.not_precedes
      | ok found =>
          cases found with
          | none => exact trivial
          | some ctxt =>
              have hself : ∃ ctxt, source.context path = .ok ctxt := ⟨some ctxt, hcontext⟩
              cases hassociation : ctxt.isAssociation with
              | true =>
                  change Meets _ _ (if ctxt.isAssociation then _ else _)
                  rw [if_pos hassociation]
                  exact trivial
              | false =>
                  have hopened : source.Opened path := by
                    cases path with
                    | nil => exact hchild.elim
                    | cons i path => exact .child hchild.1 hchild.2 hcontext hassociation
                  have hconstructing :=
                    h.setContext (populateAttrs_pointerNodes hcontext) (.feed path)
                  have hstart := hconstructing.children fun j =>
                    (hfresh (j :: path) (List.suffix_cons ..)).1
                  change Meets _ _ (if ctxt.isAssociation then _ else _)
                  rw [if_neg (by simp [hassociation]), hstart]
                  refine Meets.bind (P := fun _ => True) (Meets.weaken (forChildren_stops
                    _ path hopened ?_ ?_ hconstructing haccounted (fun j _ inner hinner =>
                      hfresh inner ((List.suffix_cons ..).trans hinner)) (by omega)) ?_)
                    fun _ _ => meets_pure trivial
                  · intro site removed k hsite haccounted hfresh hk
                    have hsize := sizeAt_le hk
                    rw [sizeAt_eq (Tree.lookup_cons_isSome.2 hk)] at hsize
                    have htype : site.heap.type (kid path k) = source.feed.typeAt (k :: path) :=
                      hsite.shape.type (k :: path)
                    have hprivate : site.heap._private (kid path k) = none :=
                      (hfresh _ List.suffix_rfl).2
                    by_cases helement : source.Element (k :: path)
                    · have hkid : source.Child (k :: path) := ⟨hopened, helement⟩
                      rw [if_pos (htype.trans helement), if_pos hprivate]
                      exact child_stops hsite haccounted hkid hfresh (by omega)
                        (ih hsite haccounted hkid hfresh ((sizeAt_le hk).trans (by omega)))
                    · rw [if_neg fun heq => helement (htype.symm.trans heq)]
                      exact meets_pure trivial
                  · intro site site' removed k hsite hfresh _ hbody
                    exact child_step hopened (fun hkid => newContext_step hsite hkid hfresh)
                      hsite hfresh hbody
                  · rintro fault ⟨inner, hfirst⟩
                    refine ⟨inner, hfirst.widen (fun other hother => ?_) ?_⟩
                    · exact (beneath_iff.2 hother).1
                    · intro other hother hnot _ _
                      rcases suffix_iff_beneath.1 hother with hbeneath | rfl
                      · exact absurd (beneath_iff.1 hbeneath) hnot
                      · exact hself

/-! ## The whole construction -/

/-- The loop of `loadXmlDoc` over the children of the root node stops at the first element that
it comes to and that stops. -/
theorem constructContexts_stops (hrounds : source.feed.size ≤ rounds) :
    source.StopsWith (fun _ => True) (Site.constructContexts source.surroundings rounds
      (Site.parsed source.feed source.root)) := by
  have hexists := Tree.lookup_isSome_of_element source.root_element
  have hsize := sizeAt_le_size hexists
  rw [sizeAt_eq hexists] at hsize
  have hstart : (Site.parsed source.feed source.root).heap.children (.feed source.root) =
      if 0 < source.feed.width source.root then some (kid source.root 0) else none :=
    constructing_parsed.children fun _ => id
  unfold Site.constructContexts
  change Meets _ _ (Site.forChildren _ rounds _
    ((Site.parsed source.feed source.root).heap.children (.feed source.root)))
  rw [hstart]
  refine (forChildren_stops _ source.root .root ?_ (fun _ _ _ _ hsite hfresh _ hbody =>
    root_step hsite hfresh hbody) constructing_parsed accounted_parse
    (fun j _ => fresh_parsed _) (by omega)).weaken ?_
  · intro site removed k hsite haccounted hfresh hk
    have hkid := sizeAt_le hk
    have htype : site.heap.type (kid source.root k) = source.feed.typeAt (k :: source.root) :=
      hsite.shape.type (k :: source.root)
    by_cases helement : source.Element (k :: source.root)
    · have hchild : source.Child (k :: source.root) := ⟨.root, helement⟩
      have hself := sizeAt_eq (Tree.lookup_cons_isSome.2 hk)
      rw [if_pos (htype.trans helement)]
      exact child_stops hsite haccounted hchild hfresh (by omega)
        (newContext_stops hsite haccounted hchild hfresh (by omega))
    · rw [if_neg fun heq => helement (htype.symm.trans heq)]
      exact meets_pure trivial
  · rintro fault ⟨path, hfirst⟩
    refine ⟨path, hfirst.widen (fun _ _ => trivial) fun other _ hnot hchild _ => ?_⟩
    -- there are no other elements
    exact absurd (beneath_iff.1 ⟨hchild.suffix, hchild.ne_root⟩) hnot

end VaeDb.Source
