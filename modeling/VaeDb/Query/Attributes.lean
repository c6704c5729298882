import Mathlib.Algebra.Group.Nat.Even
import VaeDb.Query.Segment
import VaeDb.Query.Symbols

/-!
# Attribute tests

Which attribute names of a query receive `/text()`.  The rules mean to leave out what is behind
an `@`, but look back over one character only:

```text
item[@id='1' and @name]  ↦  item[@id='1' and @name/text()]
item[@id]                ↦  item[@id]
```

* `rewriteParts_at`, `hackFirst_attribute` : the parts between single quotes, and the predicate
  for the first component, which may be written between a name and its `/text()`.
* `expression_attributes` : no attribute name receives `/text()` exactly if none with a letter
  inside is followed by `]`, ` or ` or ` and `.
-/

namespace VaeDb.Query

open Patterns

section

variable {α : Type} {alphabet : Alphabet α} {sign : α} {name text text' post : List α}

/-! ## Parts -/

/-- The first part ends before the first separator. -/
theorem splitAt_eq_cons (alphabet : Alphabet α) (separator : Char) (text : List α) :
    ∃ others, splitAt alphabet separator text =
        text.takeWhile (alphabet.read · ≠ separator) :: others ∧
      ∀ other ∈ others, other ⊆ text := by
  induction text with
  | nil => exact ⟨[], rfl, by simp⟩
  | cons a text ih =>
      obtain ⟨others, hsplit, hothers⟩ := ih
      unfold splitAt at hsplit ⊢
      rw [List.splitOnP_cons_eq_if_modifyHead, hsplit]
      by_cases hread : alphabet.read a = separator
      · refine ⟨text.takeWhile (alphabet.read · ≠ separator) :: others, by simp [hread],
          fun other hother => ?_⟩
        rcases List.mem_cons.1 hother with rfl | hother
        · exact fun b hb => List.mem_cons_of_mem a (List.takeWhile_subset _ hb)
        · exact fun b hb => List.mem_cons_of_mem a (hothers other hother hb)
      · refine ⟨others, by simp [hread], fun other hother b hb => ?_⟩
        exact List.mem_cons_of_mem a (hothers other hother hb)

/-- The part of a symbol that is no separator. -/
theorem splitAt_at {separator : Char} (hsign : alphabet.read sign ≠ separator)
    (before after : List α) :
    ∃ fronts pre backs, splitAt alphabet separator (before ++ sign :: after) =
        fronts ++ (pre ++ sign :: after.takeWhile (alphabet.read · ≠ separator)) :: backs ∧
      fronts.length = (alphabet.reads before).count separator ∧
      (∀ front ∈ fronts, front ⊆ before) ∧ pre ⊆ before ∧ ∀ back ∈ backs, back ⊆ after := by
  induction before with
  | nil =>
      obtain ⟨others, hsplit, hothers⟩ := splitAt_eq_cons alphabet separator after
      refine ⟨[], [], others, ?_, rfl, by simp, by simp, hothers⟩
      unfold splitAt at hsplit ⊢
      simp [List.splitOnP_cons_eq_if_modifyHead, hsplit, hsign]
  | cons a before ih =>
      obtain ⟨fronts, pre, backs, hsplit, hlength, hfronts, hpre, hbacks⟩ := ih
      unfold splitAt at hsplit ⊢
      have hcons : ∀ part : List α, part ⊆ before → part ⊆ a :: before :=
        fun part hpart b hb => List.mem_cons_of_mem a (hpart hb)
      have hcount : (alphabet.reads (a :: before)).count separator =
          (alphabet.reads before).count separator +
            if alphabet.read a = separator then 1 else 0 := by
        simp [Alphabet.reads, List.count_cons]
      rw [List.cons_append, List.splitOnP_cons_eq_if_modifyHead, hsplit, hcount]
      by_cases hread : alphabet.read a = separator
      · refine ⟨[] :: fronts, pre, backs, by simp [hread], by simp [hread, hlength], ?_,
          hcons pre hpre, hbacks⟩
        intro front hfront
        rcases List.mem_cons.1 hfront with rfl | hfront
        · exact List.nil_subset _
        · exact hcons front (hfronts front hfront)
      · cases fronts with
        | nil =>
            refine ⟨[], a :: pre, backs, by simp [hread], by simpa [hread] using hlength, by simp,
              ?_, hbacks⟩
            exact List.cons_subset_cons a hpre
        | cons front fronts =>
            refine ⟨(a :: front) :: fronts, pre, backs, by simp [hread],
              by simpa [hread] using hlength, ?_, hcons pre hpre, hbacks⟩
            intro other hother
            rcases List.mem_cons.1 hother with rfl | hother
            · exact List.cons_subset_cons a (hfronts front (List.mem_cons_self ..))
            · exact hcons other (hfronts other (List.mem_cons_of_mem _ hother))

theorem join_cons (separator : Char) (part : List α) (backs : List (List α)) :
    join alphabet separator (part :: backs) =
      part ++ backs.flatMap fun back => alphabet.write separator :: back := by
  unfold join
  induction backs generalizing part with
  | nil => simp
  | cons back backs ih =>
      rw [List.intercalate_cons_cons, ih]
      simp

/-- The symbols around a part. -/
theorem join_append_cons (separator : Char) (fronts : List (List α)) (part : List α)
    (backs : List (List α)) :
    join alphabet separator (fronts ++ part :: backs) =
      (fronts.flatMap fun front => front ++ [alphabet.write separator]) ++
        (part ++ backs.flatMap fun back => alphabet.write separator :: back) := by
  induction fronts with
  | nil => exact join_cons separator part backs
  | cons front fronts ih =>
      have hcons : join alphabet separator (front :: (fronts ++ part :: backs)) =
          front ++ alphabet.write separator ::
            join alphabet separator (fronts ++ part :: backs) := by
        cases fronts with
        | nil => simp [join]
        | cons other fronts => simp [join]
      rw [List.cons_append, hcons, ih]
      simp

/-- A symbol that no rule has written is in no part that did not have it. -/
theorem not_mem_rewriteSegment (hsign : Attribute alphabet sign name) {rounds : ℕ}
    (hmem : sign ∉ text) (hrun : rewriteSegment alphabet rounds text = .ok text') :
    sign ∉ text' := by
  have htextRule : ∀ front back : List (Atom α), ∀ text next, sign ∉ text →
      (textRule alphabet front back).replace text = some next → sign ∉ next := by
    intro front back text next hmem hreplace
    obtain ⟨before, pieces, rest, hfound, rfl, -⟩ := Rule.replace_eq_some hreplace
    obtain ⟨opening, run, closing, -, hinserts, hrewrite⟩ := textRule_found hfound
    have hwritten := hsign.not_mem_writes "/text()"
    rw [hinserts.text_eq] at hmem
    rw [hrewrite]
    simp only [List.mem_append, not_or] at hmem ⊢
    exact ⟨hmem.1, ⟨hmem.2.1, hmem.2.2.1, hwritten, hmem.2.2.2.1⟩, hmem.2.2.2.2⟩
  have hidRule : ∀ text next, sign ∉ text → (idRule alphabet).replace text = some next →
      sign ∉ next := by
    intro text next hmem hreplace
    obtain ⟨before, slash, digits, rest, -, -, -, rfl, rfl⟩ := idRule_replace hreplace
    have hopening := hsign.not_mem_writes "[@id='"
    have hclosing := hsign.not_mem_writes "']"
    simp only [List.mem_append, List.mem_cons, not_or] at hmem ⊢
    exact ⟨hmem.1, hopening, hmem.2.2.1, hclosing, hmem.2.2.2⟩
  obtain ⟨ids, brackets, afters, befores, hids, hbrackets, hafters, hbefores, hclosed⟩ :=
    rewriteSegment_eq_ok hrun
  have hmem := (Rule.exhaust_invariant hmem hidRule hids).1
  have hmem := (Rule.exhaust_invariant hmem (htextRule _ _) hbrackets).1
  have hmem := (Rule.exhaust_invariant hmem (htextRule _ _) hafters).1
  have hmem := (Rule.exhaust_invariant hmem (htextRule _ _) hbefores).1
  exact (Rule.exhaust_invariant hmem (htextRule _ _) hclosed).1

/-- One part, which is rewritten outside of quotes only. -/
theorem rewriteParts_cons_eq_ok {rounds : ℕ} {outside : Bool} {part : List α}
    {parts results : List (List α)}
    (h : rewriteParts alphabet rounds outside (part :: parts) = .ok results) :
    ∃ part' others, results = part' :: others ∧
      (if outside then rewriteSegment alphabet rounds part = .ok part' else part' = part) ∧
      rewriteParts alphabet rounds (!outside) parts = .ok others := by
  cases outside with
  | false =>
      rw [rewriteParts] at h
      obtain ⟨others, hothers, h⟩ := Outcome.bind_eq_ok.1 h
      exact ⟨part, others, (Except.ok.inj h).symm, rfl, hothers⟩
  | true =>
      rw [rewriteParts] at h
      obtain ⟨part', hpart, h⟩ := Outcome.bind_eq_ok.1 h
      split at h
      · cases h
      · obtain ⟨others, hothers, h⟩ := Outcome.bind_eq_ok.1 h
        exact ⟨part', others, (Except.ok.inj h).symm, hpart, hothers⟩

theorem not_mem_rewritten (hsign : Attribute alphabet sign name) {rounds : ℕ} {outside : Bool}
    {part part' : List α} (hmem : sign ∉ part)
    (h : if outside then rewriteSegment alphabet rounds part = .ok part' else part' = part) :
    sign ∉ part' := by
  cases outside with
  | false =>
      obtain rfl : part' = part := h
      exact hmem
  | true => exact not_mem_rewriteSegment hsign hmem h

theorem not_mem_rewriteParts (hsign : Attribute alphabet sign name) {rounds : ℕ}
    {outside : Bool} {parts results : List (List α)} (hmem : ∀ part ∈ parts, sign ∉ part)
    (hrun : rewriteParts alphabet rounds outside parts = .ok results) :
    ∀ result ∈ results, sign ∉ result := by
  induction parts generalizing outside results with
  | nil =>
      rw [rewriteParts] at hrun
      obtain rfl := Except.ok.inj hrun
      simp
  | cons part parts ih =>
      obtain ⟨part', others, rfl, hpart, hothers⟩ := rewriteParts_cons_eq_ok hrun
      obtain ⟨hmem, hmems⟩ := List.forall_mem_cons.1 hmem
      exact List.forall_mem_cons.2 ⟨not_mem_rewritten hsign hmem hpart, ih hmems hothers⟩

/-- A part with an even number of parts before it is outside of quotes. -/
theorem rewriteParts_at (hsign : Attribute alphabet sign name) {rounds : ℕ}
    {fronts backs results : List (List α)} {part : List α} {outside : Bool}
    (houtside : outside = decide (Even fronts.length))
    (hfronts : ∀ front ∈ fronts, sign ∉ front) (hbacks : ∀ back ∈ backs, sign ∉ back)
    (hrun : rewriteParts alphabet rounds outside (fronts ++ part :: backs) = .ok results) :
    ∃ fronts' part' backs', results = fronts' ++ part' :: backs' ∧
      rewriteSegment alphabet rounds part = .ok part' ∧
      (∀ front ∈ fronts', sign ∉ front) ∧ ∀ back ∈ backs', sign ∉ back := by
  induction fronts generalizing outside results with
  | nil =>
      obtain ⟨part', backs', rfl, hpart, hrest⟩ := rewriteParts_cons_eq_ok hrun
      obtain rfl : outside = true := by simpa using houtside
      exact ⟨[], part', backs', rfl, hpart, by simp, not_mem_rewriteParts hsign hbacks hrest⟩
  | cons front fronts ih =>
      obtain ⟨front', others, rfl, hfront, hrest⟩ := rewriteParts_cons_eq_ok hrun
      obtain ⟨hmem, hmems⟩ := List.forall_mem_cons.1 hfronts
      have hnext : (!outside) = decide (Even fronts.length) := by
        have hstep : Even (front :: fronts).length ↔ ¬ Even fronts.length := Nat.even_add_one
        rw [houtside, Bool.eq_iff_iff]
        simp only [Bool.not_eq_true', decide_eq_true_iff, decide_eq_false_iff_not, hstep, not_not]
      obtain ⟨fronts', part', backs', rfl, hpart, hfronts', hbacks'⟩ := ih hnext hmems hrest
      refine ⟨front' :: fronts', part', backs', rfl, hpart, ?_, hbacks'⟩
      exact List.forall_mem_cons.2 ⟨not_mem_rewritten hsign hmem hfront, hfronts'⟩

/-! ## The predicate for the first component -/

/-- The symbol that is written for a separator. -/
def rewritten (alphabet : Alphabet α) (separator : Char) (a : α) : α :=
  if alphabet.read a = separator then alphabet.write separator else a

theorem map_rewritten {separator : Char} (h : ∀ a ∈ text, alphabet.read a ≠ separator) :
    text.map (rewritten alphabet separator) = text := by
  conv_rhs => rw [← List.map_id text]
  exact List.map_congr_left fun a ha => if_neg (h a ha)

theorem join_splitAt (alphabet : Alphabet α) (separator : Char) (text : List α) :
    join alphabet separator (splitAt alphabet separator text) =
      text.map (rewritten alphabet separator) := by
  induction text with
  | nil => rfl
  | cons a text ih =>
      unfold splitAt at ih ⊢
      rw [List.splitOnP_cons_eq_if_modifyHead, List.map_cons, ← ih]
      obtain ⟨first, others, hsplit⟩ := List.exists_cons_of_ne_nil
        (List.splitOnP_ne_nil (fun a => decide (alphabet.read a = separator)) text)
      by_cases hread : alphabet.read a = separator
      · simp [hread, hsplit, join_cons, rewritten]
      · simp [hread, hsplit, join_cons, rewritten]

theorem exists_first {c : Char} (h : c ∈ alphabet.reads text) :
    ∃ first a rest, text = first ++ a :: rest ∧ (∀ b ∈ first, alphabet.read b ≠ c) ∧
      alphabet.read a = c := by
  induction text with
  | nil => cases h
  | cons a text ih =>
      by_cases hread : alphabet.read a = c
      · exact ⟨[], a, text, rfl, by simp, hread⟩
      · obtain ⟨first, b, rest, rfl, hfirst, hb⟩ :=
          ih ((List.mem_cons.1 h).resolve_left fun hc => hread hc.symm)
        exact ⟨a :: first, b, rest, rfl, List.forall_mem_cons.2 ⟨hread, hfirst⟩, hb⟩

/-- The predicate is written before the first slash, and every slash is written again. -/
theorem hackFirst_eq (alphabet : Alphabet α) (text : List α) :
    hackFirst alphabet text = text ∨
      ∃ first slash rest, text = first ++ slash :: rest ∧
        (∀ a ∈ first, alphabet.read a ≠ '/') ∧ alphabet.read slash = '/' ∧
        hackFirst alphabet text = first ++ (alphabet.writes "[@id!='']" ++
          (slash :: rest).map (rewritten alphabet '/')) := by
  unfold hackFirst
  split
  · next hcontains =>
      obtain ⟨others, hsplit, -⟩ := splitAt_eq_cons alphabet '/' text
      rw [hsplit]
      simp only
      split
      · refine Or.inr ?_
        have hslash : '/' ∈ alphabet.reads text := by
          have hcontained := (Bool.and_eq_true_iff.1 hcontains).1
          have hmem : '/' ∈ Response.cString (alphabet.reads text) :=
            (of_decide_eq_true hcontained).subset (List.mem_singleton_self '/')
          exact List.takeWhile_subset _ hmem
        obtain ⟨first, slash, rest, rfl, hfirst, hread⟩ := exists_first hslash
        have htake : (first ++ slash :: rest).takeWhile (alphabet.read · ≠ '/') = first :=
          List.takeWhile_append_cons (by simpa using hfirst) (by simp [hread]) rest
        have hjoin := join_splitAt alphabet '/' (first ++ slash :: rest)
        rw [hsplit, htake, join_cons, List.map_append, map_rewritten hfirst] at hjoin
        refine ⟨first, slash, rest, rfl, hfirst, hread, ?_⟩
        rw [htake, join_cons, List.append_cancel_left hjoin]
        simp
      · exact Or.inl rfl
  · exact Or.inl rfl

theorem write_eq_rewritten {separator c : Char} (hc : c ≠ separator) {a : α} :
    alphabet.write c = rewritten alphabet separator a ↔ alphabet.write c = a := by
  unfold rewritten
  split
  · next hread =>
      constructor
      · intro h
        have hsame := congrArg alphabet.read h
        rw [alphabet.read_write, alphabet.read_write] at hsame
        exact absurd hsame hc
      · rintro rfl
        rw [alphabet.read_write] at hread
        exact absurd hread hc
  · rfl

/-- A word without slashes is there before they are written again exactly if it is there
afterwards. -/
theorem prefix_map_rewritten {separator : Char} {word : Str} (hword : separator ∉ word) :
    alphabet.writes word <+: text.map (rewritten alphabet separator) ↔
      alphabet.writes word <+: text := by
  induction word generalizing text with
  | nil => simp [Alphabet.writes]
  | cons c word ih =>
      have hne : c ≠ separator := fun h => hword (h ▸ List.mem_cons_self ..)
      have hcons : alphabet.writes (c :: word) = alphabet.write c :: alphabet.writes word := rfl
      cases text with
      | nil => simp [hcons]
      | cons a text =>
          rw [hcons, List.map_cons, List.cons_prefix_cons, List.cons_prefix_cons,
            write_eq_rewritten hne, ih fun hmem => hword (List.mem_cons_of_mem c hmem)]

/-- A name has received `/text()`, possibly with the predicate in between. -/
def ReceivesText (alphabet : Alphabet α) (rest : List α) : Prop :=
  alphabet.writes "/text()" <+: rest ∨ alphabet.writes "[@id!='']/text()" <+: rest

theorem writes_append (written written' : Str) :
    alphabet.writes (written ++ written') = alphabet.writes written ++ alphabet.writes written' :=
  List.map_append ..

/-- The beginning of the predicate. -/
theorem predicate_begins (h : alphabet.writes "[@id!='']/text()" <+: text) :
    alphabet.writes "[@id!" <+: text := by
  have hwords : ("[@id!='']/text()" : Str) = "[@id!" ++ "='']/text()" := by decide
  rw [hwords, writes_append] at h
  exact (List.prefix_append _ _).trans h

theorem Clear.not_receivesText (h : Clear alphabet post) : ¬ ReceivesText alphabet post := by
  rintro (htext | hpredicate)
  · exact h.not_received htext
  · exact h.no_predicate (predicate_begins hpredicate)

/-- `text()` is behind a slash only if the slash is written with it. -/
theorem Clear.not_text {slash : α} {rest : List α} (h : Clear alphabet (slash :: rest))
    (hslash : alphabet.read slash = '/') : ¬ alphabet.writes "text()" <+: rest := by
  rintro ⟨others, rfl⟩
  exact h.no_text slash (alphabet.write 't') (alphabet.writes "ext()" ++ others) rfl hslash rfl

theorem writes_text :
    alphabet.writes "/text()" = alphabet.write '/' :: alphabet.writes "text()" :=
  rfl

/-- Writing the slashes again. -/
theorem received_map (hpost : Received alphabet post ∨ Clear alphabet post) :
    Received alphabet (post.map (rewritten alphabet '/')) ↔ Received alphabet post := by
  have htext : '/' ∉ ("text()" : Str) := by decide
  have hslash : rewritten alphabet '/' (alphabet.write '/') = alphabet.write '/' := by
    simp [rewritten, alphabet.read_write]
  unfold Received at hpost ⊢
  constructor
  · intro hwritten
    refine hpost.resolve_right fun hclear => ?_
    cases post with
    | nil =>
        rw [writes_text] at hwritten
        exact absurd (List.prefix_nil.1 hwritten) (List.cons_ne_nil _ _)
    | cons a post =>
        rw [writes_text, List.map_cons, List.cons_prefix_cons, prefix_map_rewritten htext]
          at hwritten
        have hread : alphabet.read a = '/' := by
          by_contra hread
          rw [rewritten, if_neg hread] at hwritten
          rw [← hwritten.1, alphabet.read_write] at hread
          exact hread rfl
        exact hclear.not_text hread hwritten.2
  · rintro ⟨rest, rfl⟩
    rw [writes_text, List.cons_append, List.map_cons, hslash, List.cons_prefix_cons,
      prefix_map_rewritten htext]
    exact ⟨rfl, List.prefix_append _ _⟩

theorem receivesText_map (hpost : Received alphabet post ∨ Clear alphabet post) :
    ReceivesText alphabet (post.map (rewritten alphabet '/')) ↔ Received alphabet post := by
  rw [ReceivesText, ← received_map hpost]
  refine or_iff_left_of_imp fun hpredicate => ?_
  have hbegin := predicate_begins hpredicate
  rw [prefix_map_rewritten (by decide)] at hbegin
  apply (received_map hpost).2
  exact hpost.resolve_right fun hclear => hclear.no_predicate hbegin

/-- The predicate, directly behind the name or farther behind. -/
theorem receivesText_predicate {more rest : List α} {slash : α}
    (hmore : ∀ a ∈ more, alphabet.read a ≠ '/')
    (hpost : Received alphabet (more ++ slash :: rest) ∨ Clear alphabet (more ++ slash :: rest)) :
    ReceivesText alphabet (more ++ (alphabet.writes "[@id!='']" ++
      (slash :: rest).map (rewritten alphabet '/'))) ↔
      Received alphabet (more ++ slash :: rest) := by
  have hopening : alphabet.writes "[@id!='']" ++ (slash :: rest).map (rewritten alphabet '/') =
      alphabet.write '[' :: (alphabet.writes "@id!='']" ++
        (slash :: rest).map (rewritten alphabet '/')) := rfl
  by_cases hnil : more = []
  · subst hnil
    have hwords : ("[@id!='']/text()" : Str) = "[@id!='']" ++ "/text()" := by decide
    rw [List.nil_append] at hpost
    rw [List.nil_append, List.nil_append, ReceivesText, hwords, writes_append,
      List.prefix_append_right_inj, ← received_map hpost]
    refine or_iff_right_of_imp fun htext => ?_
    rw [hopening, writes_text] at htext
    have hsame := congrArg alphabet.read (List.cons_prefix_cons.1 htext).1
    rw [alphabet.read_write, alphabet.read_write] at hsame
    exact absurd hsame (by decide)
  · have hnot : ¬ Received alphabet (more ++ slash :: rest) := by
      obtain ⟨a, more, rfl⟩ := List.exists_cons_of_ne_nil hnil
      intro hreceived
      rw [Received, writes_text] at hreceived
      apply hmore a (List.mem_cons_self ..)
      rw [← (List.cons_prefix_cons.1 hreceived).1, alphabet.read_write]
    refine iff_of_false ?_ hnot
    apply Clear.not_receivesText
    rw [hopening]
    exact (hpost.resolve_left hnot).of_begins hnil (by rw [alphabet.read_write]; decide)
      (by rw [alphabet.read_write]; decide)

/-- What the predicate does to an attribute. -/
theorem hackFirst_attribute (hsign : Attribute alphabet sign name)
    (h : Stands sign name text post) (hpost : Received alphabet post ∨ Clear alphabet post) :
    ∃ post', Stands sign name (hackFirst alphabet text) post' ∧
      (ReceivesText alphabet post' ↔ Received alphabet post) := by
  rcases hackFirst_eq alphabet text with
    hsame | ⟨first, slash, rest, htext, hfirst, hslash, hhack⟩
  · rw [hsame]
    refine ⟨post, h, or_iff_left_of_imp fun hpredicate => ?_⟩
    exact hpost.resolve_right fun hclear => hclear.no_predicate (predicate_begins hpredicate)
  obtain ⟨pre, hwhole, hpre, hmem⟩ := h
  have hnotSlash : alphabet.read sign ≠ '/' := by
    rw [hsign.read_sign]
    decide
  have hnameSlash : ∀ a ∈ name, alphabet.read a ≠ '/' := by
    intro a ha hread
    have hchar := hsign.name_chars a ha
    rw [hread] at hchar
    exact absurd hchar (by decide)
  have hrewritten : ∀ {part : List α}, sign ∉ part →
      sign ∉ part.map (rewritten alphabet '/') := by
    intro part hpart hsigns
    obtain ⟨a, ha, hsame⟩ := List.mem_map.1 hsigns
    unfold rewritten at hsame
    split at hsame
    · exact hsign.not_written '/' hsame.symm
    · exact hpart (hsame ▸ ha)
  rw [htext] at hwhole
  rw [hhack]
  rcases List.append_eq_append_cons hwhole with ⟨more, rfl, hmore⟩ | ⟨more, rfl, hmore⟩
  -- the attribute is behind the predicate
  · refine ⟨post.map (rewritten alphabet '/'), ⟨first ++ (alphabet.writes "[@id!='']" ++
      more.map (rewritten alphabet '/')), ?_, ?_, hrewritten hmem⟩, receivesText_map hpost⟩
    · rw [hmore, List.map_append, List.map_cons, List.map_append, map_rewritten hnameSlash,
        rewritten, if_neg hnotSlash]
      simp
    · simp only [List.mem_append, not_or] at hpre ⊢
      exact ⟨hpre.1, hsign.not_mem_writes _, hrewritten hpre.2⟩
  -- the attribute is in the first component
  · obtain ⟨more, rfl⟩ := List.prefix_of_not_mem ⟨post, hmore⟩ fun hslashName =>
      hnameSlash slash hslashName hslash
    obtain rfl : post = more ++ slash :: rest :=
      List.append_cancel_left (hmore.trans (List.append_assoc name more _))
    refine ⟨_, ⟨pre, by simp, hpre, ?_⟩, receivesText_predicate (fun a ha => hfirst a ?_) hpost⟩
    · simp only [List.mem_append, not_or] at hmem ⊢
      exact ⟨hmem.1, hsign.not_mem_writes _, hrewritten hmem.2⟩
    · simp [ha]

/-! ## A query -/

/-- The next part does not matter. -/
theorem Clear.append_parts (h : Clear alphabet post) (parts : List (List α)) :
    Clear alphabet (post ++ parts.flatMap fun part => alphabet.write '\'' :: part) := by
  have hwhole := h
  cases parts with
  | nil => simpa using h
  | cons part parts =>
      rw [List.flatMap_cons, List.cons_append]
      rw [← List.append_nil post] at h
      by_cases hnil : post = []
      · subst hnil
        constructor
        · intro a b rest heq hread
          obtain ⟨rfl, -⟩ := List.cons.inj heq
          rw [alphabet.read_write] at hread
          exact absurd hread (by decide)
        · intro hbegins
          have hsame := congrArg alphabet.read (List.cons_prefix_cons.1 hbegins).1
          rw [alphabet.read_write, alphabet.read_write] at hsame
          exact absurd hsame (by decide)
      · exact h.of_begins hnil (by rw [alphabet.read_write]; decide)
          (by rw [alphabet.read_write]; decide)

theorem Clear.of_unwritten (h : ∀ a ∈ post, ∀ c, a ≠ alphabet.write c) :
    Clear alphabet post := by
  constructor
  · rintro a b rest rfl -
    exact h b (by simp) 't'
  · rintro ⟨rest, rfl⟩
    exact h (alphabet.write '[') (List.mem_cons_self ..) '[' rfl

theorem tested_takeWhile {name after : Str} {separator : Char}
    (hseparator : ∀ word ∈ stopWords, separator ∉ word) :
    Tested name (after.takeWhile (· ≠ separator)) ↔ Tested name after := by
  have hword : ∀ word ∈ stopWords, word <+: after.takeWhile (· ≠ separator) ↔ word <+: after := by
    intro word hword
    refine ⟨fun h => h.trans (List.takeWhile_prefix _), fun h => ?_⟩
    have hall : ∀ c ∈ word, decide (c ≠ separator) = true := by
      intro c hc
      rw [decide_eq_true_iff]
      rintro rfl
      exact hseparator word hword hc
    obtain ⟨rest, rfl⟩ := h
    rw [List.takeWhile_append_of_pos hall]
    exact List.prefix_append _ _
  unfold Tested
  refine and_congr_right fun _ => exists_congr fun word => ?_
  exact and_congr_right fun hmem => hword word hmem

/-- What becomes of an attribute outside of quotes. -/
theorem expression_attribute (hsign : Attribute alphabet sign name) {before after query : List α}
    {marked : List α} {rounds : ℕ} (hquery : query = before ++ sign :: (name ++ after))
    (hbefore : sign ∉ before) (hafter : sign ∉ after)
    (hunwritten : ∀ a ∈ after, ∀ c, a ≠ alphabet.write c)
    (houtside : Even ((alphabet.reads before).count '\''))
    (hrun : expression alphabet rounds query = .ok marked) :
    ∃ post, Stands sign name marked post ∧
      (ReceivesText alphabet post ↔ Tested (alphabet.reads name) (alphabet.reads after)) := by
  obtain ⟨results, hresults, hmarked⟩ := Outcome.bind_eq_ok.1 hrun
  obtain rfl := Except.ok.inj hmarked
  -- the part of the attribute
  have hquote : alphabet.read sign ≠ '\'' := by
    rw [hsign.read_sign]
    decide
  obtain ⟨fronts, pre, backs, hsplit, hlength, hfronts, hpre, hbacks⟩ :=
    splitAt_at hquote before (name ++ after)
  have hname : ∀ a ∈ name, decide (alphabet.read a ≠ '\'') = true := by
    intro a ha
    rw [decide_eq_true_iff]
    intro hread
    have hchar := hsign.name_chars a ha
    rw [hread] at hchar
    exact absurd hchar (by decide)
  rw [List.takeWhile_append_of_pos hname] at hsplit
  have hnotBack : sign ∉ name ++ after :=
    fun hmem => (List.mem_append.1 hmem).elim hsign.not_mem hafter
  rw [hquery, hsplit] at hresults
  obtain ⟨fronts', part', backs', rfl, hpart, hfronts', hbacks'⟩ :=
    rewriteParts_at hsign (by rw [hlength]; simp [houtside])
      (fun front hfront hmem => hbefore (hfronts front hfront hmem))
      (fun back hback hmem => hnotBack (hbacks back hback hmem)) hresults
  -- its loops
  have hstands : Stands sign name (pre ++ sign :: (name ++
      after.takeWhile (alphabet.read · ≠ '\''))) (after.takeWhile (alphabet.read · ≠ '\'')) :=
    ⟨pre, rfl, fun hmem => hbefore (hpre hmem),
      fun hmem => hafter (List.takeWhile_subset _ hmem)⟩
  have hclear : Clear alphabet (after.takeWhile (alphabet.read · ≠ '\'')) :=
    Clear.of_unwritten fun a ha => hunwritten a (List.takeWhile_subset _ ha)
  obtain ⟨post, ⟨pre', hpart', hpre', hpost'⟩, hreceived, hkept⟩ :=
    rewriteSegment_attribute hsign hstands hclear hpart
  -- the other parts, and the predicate
  have hjoined : Stands sign name (join alphabet '\'' (fronts' ++ part' :: backs'))
      (post ++ backs'.flatMap fun back => alphabet.write '\'' :: back) := by
    have hquote : sign ≠ alphabet.write '\'' := hsign.not_written '\''
    rw [join_append_cons, hpart']
    refine ⟨(fronts'.flatMap fun front => front ++ [alphabet.write '\'']) ++ pre', by simp, ?_, ?_⟩
    · simp only [List.mem_append, List.mem_flatMap, List.mem_singleton, not_or, not_exists, not_and]
      exact ⟨fun front hfront => ⟨hfronts' front hfront, hquote⟩, hpre'⟩
    · simp only [List.mem_append, List.mem_flatMap, List.mem_cons, not_or, not_exists, not_and]
      exact ⟨hpost', fun back hback => ⟨hquote, hbacks' back hback⟩⟩
  have hreads : alphabet.reads (after.takeWhile (alphabet.read · ≠ '\'')) =
      (alphabet.reads after).takeWhile (· ≠ '\'') := by
    unfold Alphabet.reads
    rw [List.takeWhile_map]
    rfl
  rw [hreads, tested_takeWhile (by decide)] at hreceived hkept
  by_cases htested : Tested (alphabet.reads name) (alphabet.reads after)
  · have hwhole := (hreceived htested).trans (List.prefix_append post
      (backs'.flatMap fun back => alphabet.write '\'' :: back))
    obtain ⟨post'', hstands'', hiff⟩ := hackFirst_attribute hsign hjoined (Or.inl hwhole)
    exact ⟨post'', hstands'', iff_of_true (hiff.2 hwhole) htested⟩
  · have hwhole := (hkept htested).append_parts backs'
    obtain ⟨post'', hstands'', hiff⟩ := hackFirst_attribute hsign hjoined (Or.inr hwhole)
    exact ⟨post'', hstands'', iff_of_false (mt hiff.1 hwhole.not_received) htested⟩

end

/-! ## Every attribute of a query -/

/-- An attribute of a query outside of quotes: an `@`, and all of the name behind it. -/
structure Occurrence (query : Str) where
  before : Str
  name : Str
  after : Str
  query_eq : query = before ++ '@' :: (name ++ after)
  outside : Even (before.count '\'')
  name_start : ∃ c rest, name = c :: rest ∧ isPathStart c
  name_chars : ∀ c ∈ name, isAttributeChar c
  name_whole : ∀ c ∈ after.head?, isAttributeChar c = false

namespace Occurrence

variable {query : Str} (occurrence : Occurrence query)

/-- The place of the `@`. -/
def sign : Char × Option ℕ := ('@', some occurrence.before.length)

/-- The name, with its place. -/
def placedName : List (Char × Option ℕ) :=
  placeFrom (occurrence.before.length + 1) occurrence.name

/-- A letter is inside of the name, and one of the words is behind it. -/
def IsTested : Prop := Tested occurrence.name occurrence.after

/-- The attribute is in an expression, and no `/text()` has been written behind its name. -/
def Untouched (marked : List (Char × Option ℕ)) : Prop :=
  ∃ front rest, marked = front ++ occurrence.sign :: (occurrence.placedName ++ rest) ∧
    ¬ ReceivesText placed rest

theorem placed_attribute : Attribute placed occurrence.sign occurrence.placedName where
  read_sign := rfl
  not_written := by
    intro c h
    exact absurd (congrArg Prod.snd h) (Option.some_ne_none _)
  not_mem := by
    intro hmem
    obtain ⟨i, hlow, -, hi⟩ := exists_of_mem_placeFrom hmem
    obtain rfl := Option.some.inj hi
    omega
  name_chars := by
    intro a ha
    apply occurrence.name_chars
    rw [← reads_placeFrom (occurrence.before.length + 1) occurrence.name]
    exact List.mem_map_of_mem ha

/-- An attribute is left as it is exactly if it is not tested. -/
theorem untouched_iff {rounds : ℕ} {marked : List (Char × Option ℕ)}
    (hrun : expression placed rounds (place query) = .ok marked) :
    occurrence.Untouched marked ↔ ¬ occurrence.IsTested := by
  have hplaces : place query = placeFrom 0 occurrence.before ++ occurrence.sign ::
      (occurrence.placedName ++ placeFrom (occurrence.before.length + 1 + occurrence.name.length)
        occurrence.after) := by
    have hquery := congrArg place occurrence.query_eq
    rw [hquery, place, placeFrom_append, placeFrom, placeFrom_append, Nat.zero_add]
    rfl
  have hbefore : occurrence.sign ∉ placeFrom 0 occurrence.before := by
    intro hmem
    obtain ⟨i, -, hhigh, hi⟩ := exists_of_mem_placeFrom hmem
    obtain rfl := Option.some.inj hi
    omega
  have hafter : occurrence.sign ∉ placeFrom
      (occurrence.before.length + 1 + occurrence.name.length) occurrence.after := by
    intro hmem
    obtain ⟨i, hlow, -, hi⟩ := exists_of_mem_placeFrom hmem
    obtain rfl := Option.some.inj hi
    omega
  have hunwritten : ∀ a ∈ placeFrom (occurrence.before.length + 1 + occurrence.name.length)
      occurrence.after, ∀ c, a ≠ placed.write c := by
    rintro a ha c rfl
    obtain ⟨i, -, -, hi⟩ := exists_of_mem_placeFrom ha
    cases hi
  have houtside : Even ((placed.reads (placeFrom 0 occurrence.before)).count '\'') := by
    rw [reads_placeFrom]
    exact occurrence.outside
  obtain ⟨post, ⟨pre, hmarked, hpre, hpost⟩, hreceives⟩ :=
    expression_attribute occurrence.placed_attribute hplaces hbefore hafter hunwritten houtside hrun
  rw [placedName, reads_placeFrom, reads_placeFrom] at hreceives
  rw [IsTested, ← hreceives]
  have hbehind : occurrence.sign ∉ occurrence.placedName ++ post :=
    fun hmem => (List.mem_append.1 hmem).elim occurrence.placed_attribute.not_mem hpost
  constructor
  · rintro ⟨front, rest, hfront, huntouched⟩
    have hsame := hmarked.symm.trans hfront
    obtain ⟨-, -, hrest⟩ := (List.append_cons_inj_of_notMem hpre hbehind).1 hsame
    rwa [List.append_cancel_left hrest]
  · intro huntouched
    exact ⟨pre, post, hmarked, huntouched⟩

end Occurrence

/-- An attribute name outside of quotes receives `/text()` exactly if it is tested.  Each
character of the expression is followed back to its place in the query. -/
theorem expression_attributes {rounds : ℕ} {query expr : Str}
    (h : expression characters rounds query = .ok expr) :
    ∃ marked, expression placed rounds (place query) = .ok marked ∧
      marked.map Prod.fst = expr ∧
      ∀ occurrence : Occurrence query,
        (occurrence.Untouched marked ↔ ¬ occurrence.IsTested) := by
  obtain ⟨marked, hmarked, hexpr⟩ := expression_place h
  exact ⟨marked, hmarked, hexpr, fun occurrence => occurrence.untouched_iff hmarked⟩

/-- The name of `@id` is too short to be tested. -/
theorem expression_attributes_idAndName :
    expression characters 2 "item[@id and @name]" = .ok "item[@id and @name/text()]" ∧
      ∃ marked, expression placed 2 (place "item[@id and @name]") = .ok marked ∧
        marked.map Prod.fst = ("item[@id and @name/text()]" : Str) ∧
        ∀ occurrence : Occurrence "item[@id and @name]",
          (occurrence.Untouched marked ↔ ¬ occurrence.IsTested) :=
  ⟨by decide +kernel, expression_attributes (by decide +kernel)⟩

/-- The `@` is not right before what the last rule finds. -/
theorem expression_attributeRewritten :
    expression characters 2 "item[@name]" = .ok "item[@name/text()]" ∧
      ∃ marked, expression placed 2 (place "item[@name]") = .ok marked ∧
        ¬ ∀ occurrence : Occurrence "item[@name]", occurrence.Untouched marked := by
  have hexpr : expression characters 2 "item[@name]" = .ok "item[@name/text()]" := by
    decide +kernel
  obtain ⟨marked, hmarked, -⟩ := expression_place hexpr
  refine ⟨hexpr, marked, hmarked, fun hall => ?_⟩
  let occurrence : Occurrence "item[@name]" :=
    { before := "item[", name := "name", after := "]", query_eq := by decide,
      outside := by decide, name_start := ⟨'n', "ame", by decide, by decide⟩,
      name_chars := by decide, name_whole := by decide }
  apply (occurrence.untouched_iff hmarked).1 (hall occurrence)
  exact ⟨by decide, "]", by decide, by decide⟩

end VaeDb.Query
