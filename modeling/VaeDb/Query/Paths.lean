import Mathlib.Data.List.Chain
import VaeDb.Query.Loops

/-!
# Paths of names and ids

What the constructor of `Query` makes of a path `n1/c2/../ck` of names and numbers.  Only the
first rule has something to replace: a component that is a number becomes a predicate, and
what is written for it is followed by nothing that another rule looks for.

```text
artists/12/albums  ↦  artists[@id='12']/albums
artists/albums     ↦  artists[@id!='']/albums
```

`construct_path` says so for every path.
-/

namespace VaeDb.Query

open Patterns

/-! ## Paths -/

/-- `[A-Za-z_]`. -/
def isNameStart (c : Char) : Bool := c.isAlpha || c = '_'

/-- `[A-Za-z0-9_]`. -/
def isNameChar (c : Char) : Bool := c.isAlphanum || c = '_'

/-- `[A-Za-z_][A-Za-z0-9_]*`. -/
def IsName (text : Str) : Prop :=
  ∃ c rest, text = c :: rest ∧ isNameStart c ∧ ∀ a ∈ rest, isNameChar a

/-- `[0-9]+`. -/
def isNumber (text : Str) : Bool := text ≠ [] && text.all Char.isDigit

/-- A query of a name and of at least one more component, each of them a name or a number. -/
structure ComponentPath where
  first : Str
  rest : List Str
  first_name : IsName first
  first_ne : first ≠ ("permalink" : Str)
  rest_ne_nil : rest ≠ []
  rest_valid : ∀ component ∈ rest, IsName component ∨ isNumber component

namespace ComponentPath

/-- The components with a slash before each. -/
def slashed (components : List Str) : Str := components.flatMap fun component => '/' :: component

/-- The text of a path. -/
def text (path : ComponentPath) : Str := path.first ++ slashed path.rest

/-- A component in an expression. -/
def step (component : Str) : Str :=
  if isNumber component then ("[@id='" : Str) ++ component ++ ("']" : Str) else '/' :: component

/-- The expression for a path. -/
def xpath (path : ComponentPath) : Str :=
  if path.rest.any isNumber then path.first ++ path.rest.flatMap step
  else path.first ++ ("[@id!='']" : Str) ++ slashed path.rest

end ComponentPath

/-! ## Characters of a component -/

theorem isNameChar_of_isNameStart {c : Char} (h : isNameStart c) : isNameChar c := by
  unfold isNameStart at h
  unfold isNameChar
  rcases Bool.or_eq_true_iff.1 h with halpha | hunderscore
  · simp [Char.isAlphanum, halpha]
  · simp [hunderscore]

theorem IsName.chars {text : Str} (h : IsName text) : ∀ a ∈ text, isNameChar a := by
  obtain ⟨c, rest, rfl, hc, hrest⟩ := h
  intro a ha
  rcases List.mem_cons.1 ha with rfl | ha
  · exact isNameChar_of_isNameStart hc
  · exact hrest a ha

theorem isNumber_iff {text : Str} : isNumber text = true ↔ text ≠ [] ∧ ∀ a ∈ text, a.isDigit := by
  simp [isNumber]

theorem isNumber_chars {text : Str} (h : isNumber text = true) : ∀ a ∈ text, isNameChar a := by
  intro a ha
  have hdigit := (isNumber_iff.1 h).2 a ha
  simp [isNameChar, Char.isAlphanum, hdigit]

/-- A letter is no digit. -/
theorem not_isDigit_of_isNameStart {c : Char} (h : isNameStart c) : c.isDigit = false := by
  rw [Bool.eq_false_iff]
  intro hdigit
  have hhigh : c.val ≤ '9'.val := of_decide_eq_true (Bool.and_eq_true_iff.1 hdigit).2
  rcases Bool.or_eq_true_iff.1 h with hletter | hline
  · rcases Bool.or_eq_true_iff.1 hletter with hupper | hlower
    · have hlow : 'A'.val ≤ c.val := (of_decide_eq_true hupper).1
      exact absurd (UInt32.le_trans hlow hhigh) (by decide)
    · have hlow : 'a'.val ≤ c.val := of_decide_eq_true (Bool.and_eq_true_iff.1 hlower).1
      exact absurd (UInt32.le_trans hlow hhigh) (by decide)
  · obtain rfl := of_decide_eq_true hline
    exact absurd hhigh (by decide)

theorem IsName.not_isNumber {text : Str} (h : IsName text) : isNumber text = false := by
  obtain ⟨c, rest, rfl, hc, -⟩ := h
  rw [Bool.eq_false_iff]
  intro hnumber
  have hdigit := (isNumber_iff.1 hnumber).2 c (List.mem_cons_self ..)
  rw [not_isDigit_of_isNameStart hc] at hdigit
  cases hdigit

/-! ## The first rule -/

/-- The first rule begins at a slash that a digit follows. -/
theorem idRule_match_none {a : Char} {text : Str}
    (h : a = '/' → ∀ b ∈ text.head?, b.isDigit = false) :
    matchAtoms (idRule characters).atoms (a :: text) = none := by
  rw [Option.eq_none_iff_forall_ne_some]
  intro ⟨pieces, rest⟩ hmatch
  obtain ⟨htext, hfits⟩ := matchAtoms_sound hmatch
  have hfound : (idRule characters).Found (a :: text) [] pieces rest := ⟨htext, hfits⟩
  obtain ⟨slash, digits, -, hslash, hne, hdigits, hwhole⟩ := idRule_found hfound
  obtain ⟨d, digits', rfl⟩ := List.exists_cons_of_ne_nil hne
  obtain ⟨rfl, rfl⟩ := List.cons.inj hwhole
  have hdigit := hdigits d (List.mem_cons_self ..)
  rw [show (characters.read d).isDigit = d.isDigit from rfl, h hslash d rfl] at hdigit
  cases hdigit

theorem idRule_passes {part : Str} (h : '/' ∉ part) : (idRule characters).Passes part := by
  induction part with
  | nil => exact Rule.passes_nil
  | cons a part ih =>
      apply Rule.passes_cons (ih fun hmem => h (List.mem_cons_of_mem _ hmem))
      intro rest
      apply idRule_match_none
      rintro rfl
      exact (h (List.mem_cons_self ..)).elim

theorem not_mem_of_isNameChar {c : Char} (hc : isNameChar c = false) {text : Str}
    (h : ∀ a ∈ text, isNameChar a) : c ∉ text := by
  intro hmem
  rw [h c hmem] at hc
  cases hc

theorem idRule_passes_name {component : Str} (h : IsName component) :
    (idRule characters).Passes ('/' :: component) := by
  apply Rule.passes_cons (idRule_passes (not_mem_of_isNameChar (by decide) h.chars))
  intro rest
  apply idRule_match_none
  intro _ b hb
  obtain ⟨c, others, rfl, hc, -⟩ := h
  obtain rfl := Option.some.inj hb
  exact not_isDigit_of_isNameStart hc

/-- A number is replaced where it begins the text. -/
theorem idRule_number {component rest : Str} (h : isNumber component = true)
    (hrest : ∀ b ∈ rest.head?, b.isDigit = false) :
    (idRule characters).replace ('/' :: (component ++ rest)) =
      some (ComponentPath.step component ++ rest) := by
  obtain ⟨hne, hdigits⟩ := isNumber_iff.1 h
  have hrun : matchAtoms [characters.run Char.isDigit] (component ++ rest) =
      some ([component], rest) := matchAtoms_many hne hdigits hrest
  have hmatch : matchAtoms (idRule characters).atoms ('/' :: (component ++ rest)) =
      some ([['/'], component], rest) := by
    have hone : matchAtoms (idRule characters).atoms ('/' :: (component ++ rest)) =
        (matchAtoms [characters.run Char.isDigit] (component ++ rest)).map
          fun found => (['/'] :: found.1, found.2) := matchAtoms_one rfl _ _
    rw [hone, hrun]
    rfl
  rw [Rule.replace, hmatch]
  simp [idRule, ComponentPath.step, h, Alphabet.writes, characters]

theorem slashed_head (components : List Str) :
    ∀ b ∈ (ComponentPath.slashed components).head?, b = '/' := by
  cases components with
  | nil =>
      intro b hb
      cases hb
  | cons component components =>
      intro b hb
      exact (Option.some.inj hb).symm

/-- The first loop on the components of a path. -/
theorem idRule_exhaust {components : List Str} {rounds : ℕ} (hrounds : components.length < rounds)
    (hvalid : ∀ component ∈ components, IsName component ∨ isNumber component) :
    (idRule characters).exhaust rounds (ComponentPath.slashed components) =
      some (components.flatMap ComponentPath.step) := by
  induction components generalizing rounds with
  | nil =>
      obtain ⟨rounds, rfl⟩ := Nat.exists_eq_add_one_of_ne_zero (Nat.ne_zero_of_lt hrounds)
      rfl
  | cons component components ih =>
      have hrest := fun other hother => hvalid other (List.mem_cons_of_mem component hother)
      have htext : ComponentPath.slashed (component :: components) =
          ('/' :: component) ++ ComponentPath.slashed components := rfl
      rw [htext, List.flatMap_cons]
      rcases hvalid component (List.mem_cons_self ..) with hname | hnumber
      · have hstep : ComponentPath.step component = '/' :: component := by
          simp [ComponentPath.step, hname.not_isNumber]
        rw [(idRule_passes_name hname).exhaust, ih (by simp at hrounds; omega) hrest, hstep]
        rfl
      · obtain ⟨rounds, rfl⟩ := Nat.exists_eq_add_one_of_ne_zero (Nat.ne_zero_of_lt hrounds)
        have hpasses : (idRule characters).Passes (ComponentPath.step component) := by
          apply idRule_passes
          have hdigits := not_mem_of_isNameChar (c := '/') (by decide) (isNumber_chars hnumber)
          simp [ComponentPath.step, hnumber, hdigits]
        have hhead : ∀ b ∈ (ComponentPath.slashed components).head?, b.isDigit = false := by
          intro b hb
          rw [slashed_head components b hb]
          decide
        have hreplace := idRule_number hnumber hhead
        rw [List.cons_append, Rule.exhaust, hreplace]
        simp only
        rw [hpasses.exhaust, ih (by simp at hrounds; omega) hrest]
        rfl

/-! ## The other rules -/

/-- Characters that an expression for a path can have next to each other. -/
def Neighbours (a b : Char) : Prop :=
  (a = '[' → b = '@') ∧ (b = ']' → a = '\'') ∧ (a = '/' → b ≠ '/')

theorem neighbours {a b : Char} (ha : isNameChar a ∨ a = '\'' ∨ a = ']')
    (hb : isNameChar b ∨ b = '/' ∨ b = '\'' ∨ b = '[') : Neighbours a b := by
  refine ⟨?_, ?_, ?_⟩
  · rintro rfl
    exact absurd ha (by decide)
  · rintro rfl
    exact absurd hb (by decide)
  · rintro rfl
    exact absurd ha (by decide)

theorem neighbours_slash {b : Char} (hb : isNameChar b) : Neighbours '/' b := by
  refine ⟨fun h => absurd h (by decide), ?_, ?_⟩
  · rintro rfl
    exact absurd hb (by decide)
  · rintro _ rfl
    exact absurd hb (by decide)

theorem isChain_of_isNameChar {text : Str} (h : ∀ a ∈ text, isNameChar a) :
    text.IsChain Neighbours := by
  induction text with
  | nil => exact .nil
  | cons a text ih =>
      refine List.isChain_cons.2 ⟨fun b hb => ?_, ih fun b hb => h b (List.mem_cons_of_mem _ hb)⟩
      exact neighbours (Or.inl (h a (List.mem_cons_self ..)))
        (Or.inl (h b (List.mem_cons_of_mem _ (List.mem_of_mem_head? hb))))

theorem isChain_step {component : Str} (h : IsName component ∨ isNumber component) :
    (ComponentPath.step component).IsChain Neighbours := by
  rcases h with hname | hnumber
  · rw [ComponentPath.step, if_neg (by simp [hname.not_isNumber])]
    refine List.isChain_cons.2 ⟨fun b hb => ?_, isChain_of_isNameChar hname.chars⟩
    exact neighbours_slash (hname.chars b (List.mem_of_mem_head? hb))
  · have hchars := isNumber_chars hnumber
    rw [ComponentPath.step, if_pos hnumber, List.isChain_append, List.isChain_append]
    refine ⟨⟨by unfold Neighbours; decide, isChain_of_isNameChar hchars, ?_⟩,
      by unfold Neighbours; decide, ?_⟩
    · intro a ha b hb
      obtain rfl : a = '\'' := by simpa using ha.symm
      exact neighbours (Or.inr (Or.inl rfl)) (Or.inl (hchars b (List.mem_of_mem_head? hb)))
    · intro a ha b hb
      obtain rfl : b = '\'' := by simpa using hb.symm
      refine neighbours ?_ (Or.inr (Or.inr (Or.inl rfl)))
      rcases List.mem_append.1 (List.mem_of_mem_getLast? ha) with hopening | hcomponent
      · obtain ⟨d, digits, rfl⟩ := List.exists_cons_of_ne_nil (isNumber_iff.1 hnumber).1
        rw [List.getLast?_append_of_ne_nil _ (List.cons_ne_nil d digits)] at ha
        exact Or.inl (hchars a (List.mem_of_mem_getLast? ha))
      · exact Or.inl (hchars a hcomponent)

theorem getLast?_step {component : Str} (h : IsName component ∨ isNumber component) :
    ∀ a ∈ (ComponentPath.step component).getLast?, isNameChar a ∨ a = '\'' ∨ a = ']' := by
  intro a ha
  rcases h with hname | hnumber
  · rw [ComponentPath.step, if_neg (by simp [hname.not_isNumber])] at ha
    obtain ⟨c, others, rfl, -⟩ := id hname
    rw [List.getLast?_cons_cons] at ha
    exact Or.inl (hname.chars a (List.mem_of_mem_getLast? ha))
  · rw [ComponentPath.step, if_pos hnumber,
      List.getLast?_append_of_ne_nil _ (by decide : ("']" : Str) ≠ [])] at ha
    exact Or.inr (Or.inr (Option.some.inj ha).symm)

theorem head?_steps (components : List Str) :
    ∀ b ∈ (components.flatMap ComponentPath.step).head?, b = '/' ∨ b = '[' := by
  intro b hb
  cases components with
  | nil => cases hb
  | cons component components =>
      rw [List.flatMap_cons, ComponentPath.step] at hb
      split at hb
      · exact Or.inr (Option.some.inj hb).symm
      · exact Or.inl (Option.some.inj hb).symm

theorem isChain_steps {components : List Str}
    (hvalid : ∀ component ∈ components, IsName component ∨ isNumber component) :
    (components.flatMap ComponentPath.step).IsChain Neighbours := by
  induction components with
  | nil => exact .nil
  | cons component components ih =>
      have hfirst := hvalid component (List.mem_cons_self ..)
      rw [List.flatMap_cons, List.isChain_append]
      have hrest := ih fun other hother => hvalid other (List.mem_cons_of_mem _ hother)
      refine ⟨isChain_step hfirst, hrest, fun a ha b hb =>
        neighbours (getLast?_step hfirst a ha) ?_⟩
      exact (head?_steps components b hb).elim (fun h => Or.inr (Or.inl h))
        fun h => Or.inr (Or.inr (Or.inr h))

/-- The second rule begins at a bracket that a name follows. -/
theorem bracketRule_none {text : Str} (h : text.IsChain Neighbours) :
    (bracketRule characters).replace text = none := by
  rw [Rule.replace_eq_none_iff]
  intro before pieces rest hfound
  obtain ⟨opening, run, closing, -, hinserts, -⟩ := textRule_found hfound
  obtain ⟨openings, rfl, hfits⟩ := hinserts.opening_fits
  rcases hfits with _ | ⟨⟨a, rfl, ha⟩, hfits⟩
  rcases hfits with _ | ⟨⟨b, rfl, hb⟩, hfits⟩
  rcases hfits with _ | _
  obtain rfl : a = '[' := of_decide_eq_true ha
  have htext : text = before ++ '[' :: b :: (run ++ (closing ++ rest)) := hinserts.text_eq
  rw [htext, List.isChain_append_cons_cons] at h
  obtain rfl := h.2.1.1 rfl
  exact absurd hb (by decide)

/-- The last rule ends with a bracket behind a name. -/
theorem closingRule_none {text : Str} (h : text.IsChain Neighbours) :
    (closingRule characters).replace text = none := by
  rw [Rule.replace_eq_none_iff]
  intro before pieces rest hfound
  obtain ⟨opening, run, closing, -, hinserts, -⟩ := textRule_found hfound
  obtain ⟨closings, rfl, hfits⟩ := hinserts.closing_fits
  rcases hfits with _ | ⟨⟨b, rfl, hb⟩, hfits⟩
  rcases hfits with _ | _
  obtain rfl : b = ']' := of_decide_eq_true hb
  obtain ⟨run', a, rfl⟩ := (List.eq_nil_or_concat' run).resolve_left hinserts.run_ne_nil
  have ha := hinserts.run_path a (by simp)
  have htext : text = (before ++ (opening ++ run')) ++ a :: ']' :: rest := by
    rw [hinserts.text_eq]
    simp
  rw [htext, List.isChain_append_cons_cons] at h
  obtain rfl : a = '\'' := h.2.1.2.1 rfl
  exact absurd ha (by decide)

theorem afterOrAndRule_none {text : Str} (h : ' ' ∉ text) :
    (afterOrAndRule characters).replace text = none := by
  rw [Rule.replace_eq_none_iff]
  intro before pieces rest hfound
  obtain ⟨opening, run, closing, -, hinserts, -⟩ := textRule_found hfound
  obtain ⟨openings, rfl, hfits⟩ := hinserts.opening_fits
  rcases hfits with _ | ⟨⟨a, rfl, ha⟩, hfits⟩
  obtain rfl : a = ' ' := of_decide_eq_true ha
  apply h
  rw [hinserts.text_eq]
  simp

theorem beforeOrAndRule_none {text : Str} (h : ' ' ∉ text) :
    (beforeOrAndRule characters).replace text = none := by
  rw [Rule.replace_eq_none_iff]
  intro before pieces rest hfound
  obtain ⟨opening, run, closing, -, hinserts, -⟩ := textRule_found hfound
  obtain ⟨closings, rfl, hfits⟩ := hinserts.closing_fits
  rcases hfits with _ | ⟨⟨a, rfl, ha⟩, hfits⟩
  obtain rfl : a = ' ' := of_decide_eq_true ha
  apply h
  rw [hinserts.text_eq]
  simp

/-! ## The expression -/

namespace ComponentPath

variable (path : ComponentPath)

/-- What the loops leave of a path. -/
def rewritten : Str := path.first ++ path.rest.flatMap step

theorem isChain_rewritten : path.rewritten.IsChain Neighbours := by
  have hfirst := path.first_name.chars
  refine List.isChain_append.2 ⟨isChain_of_isNameChar hfirst, isChain_steps path.rest_valid,
    fun a ha b hb => neighbours (Or.inl (hfirst a (List.mem_of_mem_getLast? ha))) ?_⟩
  exact (head?_steps path.rest b hb).elim (fun h => Or.inr (Or.inl h))
    fun h => Or.inr (Or.inr (Or.inr h))

theorem chars_of_mem_rest {component : Str} (h : component ∈ path.rest) :
    ∀ a ∈ component, isNameChar a :=
  (path.rest_valid component h).elim IsName.chars isNumber_chars

theorem mem_text {c : Char} (h : c ∈ path.text) : isNameChar c ∨ c = '/' := by
  rcases List.mem_append.1 h with hfirst | hrest
  · exact Or.inl (path.first_name.chars c hfirst)
  · obtain ⟨component, hcomponent, hc⟩ := List.mem_flatMap.1 hrest
    rcases List.mem_cons.1 hc with rfl | hc
    · exact Or.inr rfl
    · exact Or.inl (path.chars_of_mem_rest hcomponent c hc)

theorem mem_rewritten {c : Char} (h : c ∈ path.rewritten) :
    isNameChar c ∨ c ∈ ("/[@=']" : Str) := by
  rcases List.mem_append.1 h with hfirst | hrest
  · exact Or.inl (path.first_name.chars c hfirst)
  · obtain ⟨component, hcomponent, hc⟩ := List.mem_flatMap.1 hrest
    unfold step at hc
    split at hc
    · rcases List.mem_append.1 hc with hc | hc
      · rcases List.mem_append.1 hc with hc | hc
        · have hopening : ∀ a ∈ ("[@id='" : Str), isNameChar a ∨ a ∈ ("/[@=']" : Str) := by decide
          exact hopening c hc
        · exact Or.inl (path.chars_of_mem_rest hcomponent c hc)
      · have hclosing : ∀ a ∈ ("']" : Str), isNameChar a ∨ a ∈ ("/[@=']" : Str) := by decide
        exact hclosing c hc
    · rcases List.mem_cons.1 hc with rfl | hc
      · exact Or.inr (by decide)
      · exact Or.inl (path.chars_of_mem_rest hcomponent c hc)

theorem not_mem_rewritten {c : Char} (hname : isNameChar c = false)
    (hother : c ∉ ("/[@=']" : Str)) : c ∉ path.rewritten := by
  intro hmem
  rcases path.mem_rewritten hmem with h | h
  · rw [hname] at h
    cases h
  · exact hother h

theorem not_mem_text {c : Char} (hname : isNameChar c = false) (hslash : c ≠ '/') :
    c ∉ path.text := by
  intro hmem
  rcases path.mem_text hmem with h | h
  · rw [hname] at h
    cases h
  · exact hslash h

variable {path}

theorem idRule_text {rounds : ℕ} (hrounds : path.rest.length < rounds) :
    (idRule characters).exhaust rounds path.text = some path.rewritten := by
  have hpasses : (idRule characters).Passes path.first :=
    idRule_passes (not_mem_of_isNameChar (by decide) path.first_name.chars)
  rw [text, hpasses.exhaust, idRule_exhaust hrounds path.rest_valid]
  rfl

theorem whileReplace_of_exhaust {rule : Rule Char} {rounds : ℕ} {part part' : Str}
    (h : rule.exhaust rounds part = some part') : whileReplace rounds part rule = .ok part' := by
  rw [whileReplace, h]
  rfl

/-- A rule that does not match ends its loop at once. -/
theorem whileReplace_of_none {rule : Rule Char} {rounds : ℕ} {part : Str} (hrounds : 0 < rounds)
    (h : rule.replace part = none) : whileReplace rounds part rule = .ok part := by
  obtain ⟨rounds, rfl⟩ := Nat.exists_eq_add_one_of_ne_zero (Nat.ne_zero_of_lt hrounds)
  apply whileReplace_of_exhaust
  rw [Rule.exhaust, h]

theorem rewriteSegment_text {rounds : ℕ} (hrounds : path.rest.length < rounds) :
    rewriteSegment characters rounds path.text = .ok path.rewritten := by
  have hpos : 0 < rounds := Nat.zero_lt_of_lt hrounds
  have hchain := path.isChain_rewritten
  have hspace : ' ' ∉ path.rewritten := path.not_mem_rewritten (by decide) (by decide)
  simp only [rewriteSegment, rules, List.foldlM_cons, List.foldlM_nil,
    whileReplace_of_exhaust (idRule_text hrounds), bind, Except.bind]
  simp only [whileReplace_of_none hpos (bracketRule_none hchain),
    whileReplace_of_none hpos (afterOrAndRule_none hspace),
    whileReplace_of_none hpos (beforeOrAndRule_none hspace),
    whileReplace_of_none hpos (closingRule_none hchain)]
  rfl

/-- What `strstr` looks at in a text without a zero byte. -/
theorem contains_characters {needle text : Str} (h : Char.ofNat 0 ∉ text) :
    contains characters needle text = decide (needle <:+: text) := by
  have hreads : characters.reads text = text := List.map_id text
  rw [contains, hreads, Response.cString_eq_self h]

theorem contains_rewritten (needle : Str) :
    contains characters needle path.rewritten = decide (needle <:+: path.rewritten) :=
  contains_characters (path.not_mem_rewritten (by decide) (by decide))

theorem not_double_slash : contains characters "//" path.rewritten = false := by
  rw [contains_rewritten, decide_eq_false_iff_not]
  rintro ⟨before, after, htext⟩
  have hchain := path.isChain_rewritten
  have hsplit : path.rewritten = before ++ '/' :: '/' :: after := by
    rw [← htext]
    simp
  rw [hsplit, List.isChain_append_cons_cons] at hchain
  exact hchain.2.1.2.2 rfl rfl

theorem infix_singleton {c : Char} {text : Str} : [c] <:+: text ↔ c ∈ text := by
  constructor
  · intro h
    exact h.subset (List.mem_singleton_self c)
  · intro h
    obtain ⟨before, after, rfl⟩ := List.append_of_mem h
    exact ⟨before, after, by simp⟩

theorem join_eq (first : Str) (components : List Str) :
    join characters '/' (first :: components) = first ++ slashed components := by
  unfold join
  induction components generalizing first with
  | nil => simp [slashed]
  | cons component components ih =>
      rw [List.intercalate_cons_cons, ih]
      simp [slashed, characters]

theorem splitAt_text : splitAt characters '/' path.text = path.first :: path.rest := by
  have hsplit : splitAt characters '/' path.text = path.text.splitOn '/' := by
    unfold splitAt List.splitOn
    congr 1
  have hjoin : path.text = ['/'].intercalate (path.first :: path.rest) :=
    (join_eq path.first path.rest).symm
  rw [hsplit, hjoin]
  apply List.splitOn_intercalate
  · intro component hcomponent
    rcases List.mem_cons.1 hcomponent with rfl | hcomponent
    · exact not_mem_of_isNameChar (by decide) path.first_name.chars
    · exact not_mem_of_isNameChar (by decide) (path.chars_of_mem_rest hcomponent)
  · exact List.cons_ne_nil _ _

/-- A path with a number has a predicate already. -/
theorem hackFirst_number (h : path.rest.any isNumber = true) :
    hackFirst characters path.rewritten = path.xpath := by
  obtain ⟨component, hcomponent, hnumber⟩ := List.any_eq_true.1 h
  have hmem : '[' ∈ path.rewritten := by
    apply List.mem_append_right
    refine List.mem_flatMap.2 ⟨component, hcomponent, ?_⟩
    rw [step, if_pos hnumber]
    simp
  have hbracket : contains characters "[" path.rewritten = true := by
    rw [contains_rewritten, decide_eq_true_iff]
    exact infix_singleton.2 hmem
  rw [hackFirst, hbracket, Bool.not_true, Bool.and_false, xpath, if_pos h]
  rfl

/-- A path without a number gets a predicate behind its first component. -/
theorem hackFirst_names (h : path.rest.any isNumber = false) :
    hackFirst characters path.rewritten = path.xpath := by
  have hsteps : path.rest.flatMap step = slashed path.rest := by
    unfold slashed
    apply List.flatMap_congr
    intro component hcomponent
    have hnot : isNumber component = false := by
      rw [Bool.eq_false_iff]
      intro hnumber
      rw [List.any_eq_false] at h
      exact h component hcomponent hnumber
    rw [step, if_neg (by simp [hnot])]
  have hrewritten : path.rewritten = path.text := by rw [rewritten, hsteps, text]
  have hnull : Char.ofNat 0 ∉ path.text := path.not_mem_text (by decide) (by decide)
  have hslash : contains characters "/" path.text = true := by
    rw [contains_characters hnull, decide_eq_true_iff]
    apply (infix_singleton (c := '/')).2
    obtain ⟨component, others, hrest⟩ := List.exists_cons_of_ne_nil path.rest_ne_nil
    simp [text, slashed, hrest]
  have hbracket : contains characters "[" path.text = false := by
    rw [contains_characters hnull, decide_eq_false_iff_not]
    exact mt infix_singleton.1 (path.not_mem_text (by decide) (by decide))
  have hdot : contains characters "." path.first = false := by
    rw [contains_characters (not_mem_of_isNameChar (by decide) path.first_name.chars),
      decide_eq_false_iff_not]
    exact mt infix_singleton.1 (not_mem_of_isNameChar (by decide) path.first_name.chars)
  have hwrites : characters.writes "[@id!='']" = "[@id!='']" := List.map_id _
  rw [hrewritten, hackFirst, hslash, hbracket, splitAt_text]
  simp only [Bool.not_false, Bool.and_true, if_true, hdot, hwrites, join_eq]
  rw [xpath, if_neg (by simp [h])]

theorem expression_text {rounds : ℕ} (hrounds : path.rest.length < rounds) :
    expression characters rounds path.text = .ok path.xpath := by
  have hsplit : splitAt characters '\'' path.text = [path.text] := by
    apply List.splitOnP_eq_singleton
    intro c hc
    rw [decide_eq_false_iff_not]
    intro hquote
    obtain rfl : c = '\'' := hquote
    exact path.not_mem_text (by decide) (by decide) hc
  have hhack : hackFirst characters path.rewritten = path.xpath := by
    cases hany : path.rest.any isNumber with
    | true => exact hackFirst_number hany
    | false => exact hackFirst_names hany
  have hjoin : join characters '\'' [path.rewritten] = path.rewritten := by simp [join]
  rw [expression, hsplit]
  simp only [rewriteParts, rewriteSegment_text hrounds, bind, Except.bind, not_double_slash,
    Bool.false_eq_true, if_false, pure, Except.pure, hjoin, hhack]

end ComponentPath

/-! ## The constructor -/

open ComponentPath

variable {Node Context : Type} (document : Document Node Context) {path : ComponentPath}

theorem idPath_text : idPath path.text = none := by
  obtain ⟨c, rest, hfirst, hc, -⟩ := path.first_name
  have hdigits : path.text.takeWhile Char.isDigit = [] := by
    rw [text, hfirst, List.cons_append, List.takeWhile_cons_of_neg]
    simp [not_isDigit_of_isNameStart hc]
  rw [idPath, if_neg]
  intro h
  exact h.1 hdigits

/-- The first component is what a permalink would have to begin with. -/
theorem permalinkPath_text : permalinkPath path.text = none := by
  rw [permalinkPath, if_neg]
  intro ⟨⟨others, htext⟩, _⟩
  apply path.first_ne
  have hword := congrArg (List.takeWhile (· ≠ '/')) htext
  have hfirst : path.text.takeWhile (· ≠ '/') = path.first := by
    obtain ⟨component, rest, hrest⟩ := List.exists_cons_of_ne_nil path.rest_ne_nil
    rw [text, hrest, List.takeWhile_append_of_pos]
    · simp [slashed]
    · intro a ha
      rw [decide_eq_true_iff]
      rintro rfl
      exact not_mem_of_isNameChar (by decide) path.first_name.chars ha
  rw [hfirst] at hword
  rw [← hword]
  rfl

/-- A path is no call of a function. -/
theorem sibling_text (name axis error : Str) (hname : '/' ∉ name) (context : Option Context) :
    sibling document name axis error context path.text = pure path.text := by
  rw [sibling, if_neg]
  intro hcall
  apply hname
  rw [← hcall, Response.cString_eq_self (path.not_mem_text (by decide) (by decide))]
  obtain ⟨component, rest, hrest⟩ := List.exists_cons_of_ne_nil path.rest_ne_nil
  refine List.mem_map.2 ⟨'/', ?_, rfl⟩
  simp [text, slashed, hrest]

theorem construct_text {rounds : ℕ} (hrounds : path.rest.length < rounds)
    (context : Option Context) :
    construct document rounds context path.text =
      .ok (.runQuery context path.xpath path.text) := by
  have hpath : constructPath document rounds context path.text path.text =
      .ok (.runQuery context path.xpath path.text) := by
    simp only [constructPath, sibling_text document _ _ _ (by decide : '/' ∉ ("prev()" : Str)),
      sibling_text document _ _ _ (by decide : '/' ∉ ("next()" : Str)), expression_text hrounds,
      bind, Except.bind, pure, Except.pure]
  have hslash : ∀ query, path.text ≠ '/' :: query := by
    intro query htext
    obtain ⟨c, rest, hfirst, hc, -⟩ := path.first_name
    rw [text, hfirst] at htext
    obtain ⟨rfl, -⟩ := List.cons.inj htext
    exact absurd hc (by decide)
  unfold construct
  split
  · next query htext => exact absurd htext (hslash query)
  · rw [constructPermalink, permalinkPath_text, constructId, idPath_text]
    exact hpath

/-- What the constructor passes to `runQuery` for a path of names and numbers. -/
theorem construct_path (context : Option Context) (path : ComponentPath) :
    ∃ bound, ∀ rounds, bound ≤ rounds →
      construct document rounds context path.text =
        .ok (.runQuery context path.xpath path.text) :=
  ⟨path.rest.length + 1, fun _ hrounds => construct_text document hrounds context⟩

/-- `artists/12/albums`. -/
def albumsPath : ComponentPath where
  first := "artists"
  rest := ["12", "albums"]
  first_name := ⟨'a', "rtists", rfl, by decide, by decide⟩
  first_ne := by decide
  rest_ne_nil := by decide
  rest_valid := by
    intro component hcomponent
    rcases List.mem_cons.1 hcomponent with rfl | hlast
    · exact .inr (by decide)
    · obtain rfl := List.mem_singleton.1 hlast
      exact .inl ⟨'a', "lbums", rfl, by decide, by decide⟩

/-- A Site without pages. -/
def noPages : Document ℕ ℕ where
  permalinks := fun _ => none
  nodes := fun _ => none
  _private := fun _ => none
  getNodeName := fun _ => none

theorem construct_path_albums :
    ∃ bound, ∀ rounds, bound ≤ rounds →
      construct noPages rounds none "artists/12/albums" =
        .ok (.runQuery none "artists[@id='12']/albums" "artists/12/albums") := by
  have htext : albumsPath.text = "artists/12/albums" := by decide
  have hxpath : albumsPath.xpath = "artists[@id='12']/albums" := by decide
  obtain ⟨bound, h⟩ := construct_path noPages none albumsPath
  rw [htext, hxpath] at h
  exact ⟨bound, h⟩

end VaeDb.Query
