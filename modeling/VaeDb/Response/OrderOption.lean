import VaeDb.Response.Order

/-!
# Terms of an order, written and read

A term of the `order` option is a field, an optional `COUNT(..)` around it and an optional
`DESC(..)` or `REVERSE(..)` around that.  `REVERSE` is read by writing `DESC` for it in the
whole text before the text is split:

```text
REVERSE(a),REVERSE(b)  ↦  DESC(a),REVERSE(b)
```

`Replace` replaces the first place only, so that a second `REVERSE` is still there when its
term is read, and is taken for a part of the name of a field.

* `replaceReverse_orderText` : the text of the terms of `reverseOnce`.
* `readOrder_orderText` : every term is read as what it says after that.
* `readOrder_orderText_iff` : the terms are read as they were written exactly if at most one
  of them says `REVERSE`.
-/

namespace VaeDb.Response

/-! ## Terms -/

/-- The characters of `[.@A-Za-z0-9_\/]`. -/
def isNameChar (c : Char) : Bool := c.isAlphanum || c ∈ (".@_/" : Str)

/-- A term of an order, with its words as they are written. -/
structure SortTerm where
  name : Str
  count : Option Str
  direction : Option Str
  name_ne_nil : name ≠ []
  name_chars : ∀ c ∈ name, isNameChar c
  count_word : ∀ word ∈ count, caseless word = caseless "COUNT"
  direction_word : ∀ word ∈ direction,
    caseless word = caseless "DESC" ∨ caseless word = caseless "REVERSE"

/-- `word(inner)`, or `inner` without a word. -/
def wrapped : Option Str → Str → Str
  | none, inner => inner
  | some word, inner => word ++ '(' :: (inner ++ [')'])

namespace SortTerm

/-- The text of a term. -/
def render (term : SortTerm) : Str :=
  wrapped term.direction (wrapped term.count term.name)

/-- The field that a term means. -/
def field (term : SortTerm) : SortField where
  field := term.name
  count := term.count.isSome
  direction := if term.direction.isSome then .desc else .asc

/-- The term says `REVERSE`. -/
def isReversed (term : SortTerm) : Bool :=
  term.direction.map caseless = some (caseless "REVERSE")

/-- The term, with `DESC` for its direction. -/
def descending (term : SortTerm) : SortTerm :=
  { term with
    direction := some ("DESC" : Str)
    direction_word := fun word hword => Or.inl (by rw [Option.some.inj hword]) }

end SortTerm

/-- The terms, with commas between them. -/
def orderText (terms : List SortTerm) : Str := [','].intercalate (terms.map SortTerm.render)

/-- The terms, with `DESC` for the first `REVERSE`. -/
def reverseOnce : List SortTerm → List SortTerm
  | [] => []
  | term :: rest =>
      if term.isReversed then term.descending :: rest else term :: reverseOnce rest

/-- What a term is read as: a `REVERSE` that is still there belongs to the name. -/
def SortTerm.readAs (term : SortTerm) : SortField :=
  if term.isReversed then { field := term.render, count := false, direction := .asc }
  else term.field

/-! ## Words before a bracket -/

theorem toLower_eq_bracket {c : Char} (h : c.toLower = '(') : c = '(' := by
  unfold Char.toLower at h
  split at h
  next hupper =>
      have hcode := congrArg (fun c : Char => c.val.toNat) h
      simp only [UInt32.toNat_add] at hcode
      have hle := UInt32.le_iff_toNat_le.1 hupper.1
      have hge := UInt32.le_iff_toNat_le.1 hupper.2
      simp at hcode hle hge
      omega
  next => exact h

theorem bracket_not_mem {word name : Str} (h : caseless word = caseless name)
    (hname : '(' ∉ caseless name) : '(' ∉ word := by
  intro hmem
  apply hname
  rw [← h]
  exact List.mem_map.2 ⟨'(', hmem, rfl⟩

/-- A text that begins, in any letter case, with a name and a bracket. -/
theorem exists_word (name : Str) {text : Str}
    (h : caseless (text.take (name.length + 1)) = caseless (name ++ ['('])) :
    ∃ word rest, text = word ++ '(' :: rest ∧ caseless word = caseless name := by
  unfold caseless at h ⊢
  rw [List.map_append, List.map_eq_append_iff] at h
  obtain ⟨word, last, htext, hword, hlast⟩ := h
  obtain ⟨c, rfl, hc⟩ := List.map_eq_singleton_iff.1 hlast
  obtain rfl := toLower_eq_bracket hc
  refine ⟨word, text.drop (name.length + 1), ?_, hword⟩
  calc text
      = text.take (name.length + 1) ++ text.drop (name.length + 1) :=
        (List.take_append_drop ..).symm
    _ = word ++ '(' :: text.drop (name.length + 1) := by rw [htext, ← List.append_cons]

theorem caseless_take_word {word name : Str} (h : caseless word = caseless name) (rest : Str) :
    caseless ((word ++ '(' :: rest).take (name.length + 1)) = caseless (name ++ ['(']) := by
  have hlength : word.length = name.length := by
    simpa [caseless] using congrArg List.length h
  have htake : (word ++ '(' :: rest).take (name.length + 1) = word ++ ['('] := by
    rw [List.append_cons, ← hlength]
    exact List.take_left' (by simp)
  unfold caseless at h ⊢
  rw [htake, List.map_append, List.map_append, h]

/-- The word before the first bracket of a text. -/
theorem word_unique {word word' rest rest' : Str} (h : word ++ '(' :: rest = word' ++ '(' :: rest')
    (hword : '(' ∉ word) (hword' : '(' ∉ word') : word = word' := by
  induction word generalizing word' with
  | nil =>
      cases word' with
      | nil => rfl
      | cons c word' => simp_all
  | cons c word ih =>
      cases word' with
      | nil => simp_all
      | cons c' word' =>
          simp only [List.cons_append, List.cons.injEq, List.mem_cons, not_or] at h hword hword'
          rw [h.1, ih h.2 hword.2 hword'.2]

/-! ## `Replace` over the text of the terms -/

/-- A place where no `REVERSE(` begins is passed. -/
theorem replaceReverse_cons {c : Char} {text : Str}
    (h : ∀ word rest, c :: text = word ++ '(' :: rest → caseless word ≠ caseless "REVERSE") :
    replaceReverse (c :: text) = c :: replaceReverse text := by
  rw [replaceReverse, if_neg]
  intro hmatch
  obtain ⟨word, rest, htext, hword⟩ := exists_word "REVERSE" hmatch
  exact h word rest htext hword

/-- `REVERSE(` is replaced where it begins the text. -/
theorem replaceReverse_word {word : Str} (h : caseless word = caseless "REVERSE")
    (rest : Str) : replaceReverse (word ++ '(' :: rest) = "DESC" ++ '(' :: rest := by
  have hlength : word.length = 7 := by simpa [caseless] using congrArg List.length h
  have hmatch : caseless ((word ++ '(' :: rest).take 8) = caseless "REVERSE(" :=
    caseless_take_word h rest
  have hdrop : (word ++ '(' :: rest).drop 8 = rest := by
    rw [List.append_cons]
    exact List.drop_left' (by simp [hlength])
  cases word with
  | nil => cases hlength
  | cons c word =>
      rw [List.cons_append] at hmatch hdrop ⊢
      rw [replaceReverse, if_pos hmatch, hdrop]
      rfl

/-- The end of a term, or of a bracket in it, or of the text. -/
def Closed (tail : Str) : Prop := ∀ c ∈ tail.head?, c = ')' ∨ c = ','

/-- A text that `Replace` goes over when it is not at the end of a longer name. -/
def Passed (text : Str) : Prop :=
  ∀ tail, Closed tail → replaceReverse (text ++ tail) = text ++ replaceReverse tail

theorem replaceReverse_closed {c : Char} (hc : c = ')' ∨ c = ',') (tail : Str) :
    replaceReverse (c :: tail) = c :: replaceReverse tail := by
  apply replaceReverse_cons
  intro word rest htext hword
  cases word with
  | nil => cases hword
  | cons c' word =>
      obtain ⟨rfl, -⟩ := List.cons.inj htext
      have hfirst : c.toLower = 'r' := by
        simpa [caseless] using congrArg List.head? hword
      rcases hc with rfl | rfl <;> exact absurd hfirst (by decide)

/-- No `REVERSE(` begins in a text without brackets: what closes it is no letter. -/
theorem passed_name {name : Str} (hname : '(' ∉ name) : Passed name := by
  intro tail htail
  induction name with
  | nil => rfl
  | cons c name ih =>
      rw [List.cons_append, replaceReverse_cons, ih fun h => hname (List.mem_cons_of_mem _ h),
        List.cons_append]
      intro word rest htext hword
      rw [← List.cons_append] at htext
      rcases List.append_eq_append_iff.1 htext with
        ⟨more, hmore, hrest⟩ | ⟨more, hmore, hrest⟩
      · cases more with
        | nil =>
            have hclosed := htail '(' (by simp [hrest])
            revert hclosed
            decide
        | cons d more =>
            have hclosed := htail d (by simp [hrest])
            have hletter : d.toLower ∈ caseless "REVERSE" := by
              rw [← hword, hmore]
              exact List.mem_map.2 ⟨d, by simp, rfl⟩
            rcases hclosed with rfl | rfl <;> exact absurd hletter (by decide)
      · cases more with
        | nil =>
            have htail' : tail = '(' :: rest := hrest.symm
            have hclosed := htail '(' (by rw [htail']; rfl)
            revert hclosed
            decide
        | cons d more =>
            obtain ⟨rfl, -⟩ := List.cons.inj hrest
            exact hname (by simp [hmore])

/-- No `REVERSE(` begins in a shorter word. -/
theorem replaceReverse_short {word : Str} (hword : '(' ∉ word) (hlength : word.length < 7)
    (rest : Str) : replaceReverse (word ++ '(' :: rest) = word ++ '(' :: replaceReverse rest := by
  have hapart : ∀ part rest word' rest', '(' ∉ part → part.length < 7 →
      part ++ '(' :: rest = word' ++ '(' :: rest' → caseless word' ≠ caseless "REVERSE" := by
    intro part rest word' rest' hpart hshort htext hword'
    have hsame := word_unique htext hpart (bracket_not_mem hword' (by decide))
    have hseven : word'.length = 7 := by simpa [caseless] using congrArg List.length hword'
    rw [hsame, hseven] at hshort
    exact lt_irrefl _ hshort
  induction word with
  | nil => exact replaceReverse_cons fun word' rest' => hapart [] rest word' rest' hword hlength
  | cons c word ih =>
      rw [List.cons_append, replaceReverse_cons, ih (fun h => hword (List.mem_cons_of_mem _ h))
        (Nat.lt_of_succ_lt hlength)]
      · rfl
      · exact fun word' rest' => hapart (c :: word) rest word' rest' hword hlength

theorem Passed.wrapped {word : Option Str} {inner : Str} (hinner : Passed inner)
    (hword : ∀ w ∈ word, '(' ∉ w ∧ w.length < 7) : Passed (wrapped word inner) := by
  cases word with
  | none => exact hinner
  | some w =>
      intro tail _
      obtain ⟨hbracket, hlength⟩ := hword w rfl
      have hclose : Closed (')' :: tail) := fun c hc => Or.inl (Option.some.inj hc).symm
      calc replaceReverse (Response.wrapped (some w) inner ++ tail)
          = replaceReverse (w ++ '(' :: (inner ++ ')' :: tail)) := by
            simp [Response.wrapped]
        _ = w ++ '(' :: replaceReverse (inner ++ ')' :: tail) :=
            replaceReverse_short hbracket hlength _
        _ = w ++ '(' :: (inner ++ ')' :: replaceReverse tail) := by
            rw [hinner _ hclose, replaceReverse_closed (Or.inl rfl)]
        _ = Response.wrapped (some w) inner ++ replaceReverse tail := by
            simp [Response.wrapped]

namespace SortTerm

variable (term : SortTerm)

theorem bracket_not_mem_name : '(' ∉ term.name := by
  intro hmem
  exact absurd (term.name_chars _ hmem) (by decide)

variable {term}

theorem passed_counted : Passed (wrapped term.count term.name) := by
  apply (passed_name term.bracket_not_mem_name).wrapped
  intro word hword
  have hcount := term.count_word word hword
  refine ⟨bracket_not_mem hcount (by decide), ?_⟩
  have hlength : word.length = 5 := by simpa [caseless] using congrArg List.length hcount
  omega

theorem isReversed_iff :
    term.isReversed = true ↔ ∃ word ∈ term.direction, caseless word = caseless "REVERSE" := by
  cases hdirection : term.direction with
  | none => simp [isReversed, hdirection]
  | some word => simp [isReversed, hdirection]

theorem passed_render (h : term.isReversed = false) : Passed term.render := by
  apply passed_counted.wrapped
  intro word hword
  have hdesc : caseless word = caseless "DESC" := by
    refine (term.direction_word word hword).resolve_right fun hreverse => ?_
    rw [isReversed_iff.2 ⟨word, hword, hreverse⟩] at h
    cases h
  refine ⟨bracket_not_mem hdesc (by decide), ?_⟩
  have hlength : word.length = 4 := by simpa [caseless] using congrArg List.length hdesc
  omega

theorem replaceReverse_render (h : term.isReversed = true) (tail : Str) :
    replaceReverse (term.render ++ tail) = term.descending.render ++ tail := by
  obtain ⟨word, hword, hreverse⟩ := isReversed_iff.1 h
  have hdirection : term.direction = some word := hword
  simpa [render, descending, wrapped, hdirection] using
    replaceReverse_word hreverse (wrapped term.count term.name ++ ')' :: tail)

end SortTerm

theorem orderText_cons (term : SortTerm) (rest : List SortTerm) :
    orderText (term :: rest) =
      term.render ++ if rest = [] then [] else ',' :: orderText rest := by
  cases rest with
  | nil => simp [orderText]
  | cons second others => simp [orderText]

theorem reverseOnce_eq_nil {terms : List SortTerm} : reverseOnce terms = [] ↔ terms = [] := by
  cases terms with
  | nil => simp [reverseOnce]
  | cons term rest => by_cases h : term.isReversed <;> simp [reverseOnce, h]

/-- The first `REVERSE` of the terms is replaced, and nothing else. -/
theorem replaceReverse_orderText (terms : List SortTerm) :
    replaceReverse (orderText terms) = orderText (reverseOnce terms) := by
  induction terms with
  | nil => rfl
  | cons term rest ih =>
      cases hreversed : term.isReversed with
      | true =>
          rw [reverseOnce, if_pos hreversed, orderText_cons, orderText_cons,
            SortTerm.replaceReverse_render hreversed]
      | false =>
          have hpassed := SortTerm.passed_render hreversed
          rw [reverseOnce, if_neg (by simp [hreversed]), orderText_cons, orderText_cons]
          by_cases hrest : rest = []
          · rw [if_pos hrest, if_pos (reverseOnce_eq_nil.2 hrest)]
            exact hpassed [] fun c hc => by cases hc
          · rw [if_neg hrest, if_neg (mt reverseOnce_eq_nil.1 hrest),
              hpassed (',' :: orderText rest) fun c hc => Or.inr (Option.some.inj hc).symm,
              replaceReverse_closed (Or.inr rfl), ih]

/-! ## A term read -/

/-- A name without brackets is no bracketed text. -/
theorem bracketed_name {name text : Str} (htext : '(' ∉ text) : bracketed name text = none := by
  unfold bracketed
  rw [if_neg]
  intro ⟨hmatch, _⟩
  obtain ⟨word, rest, rfl, -⟩ := exists_word name (by simpa using hmatch)
  exact htext (by simp)

/-- What is between the brackets after the word that is looked for. -/
theorem bracketed_wrapped {name word inner : Str} (hword : caseless word = caseless name)
    (hinner : inner ≠ []) (hchars : ∀ c ∈ inner, isFieldChar c) :
    bracketed name (wrapped (some word) inner) = some inner := by
  have hlength : word.length = name.length := by
    simpa [caseless] using congrArg List.length hword
  have hmatch := caseless_take_word hword (inner ++ [')'])
  have hdrop : ((wrapped (some word) inner).drop (name.length + 1)).dropLast = inner := by
    rw [wrapped, List.append_cons, List.drop_left' (by simp [hlength]), List.dropLast_concat]
  have hlast : (wrapped (some word) inner).getLast? = some ')' := by
    rw [wrapped, List.append_cons, ← List.append_assoc, List.getLast?_concat]
  have hopening : (name ++ ("(" : Str)).length = name.length + 1 := by simp
  unfold bracketed
  rw [if_pos]
  · rw [hopening, hdrop, if_pos ⟨hinner, List.all_eq_true.2 hchars⟩]
  · exact ⟨by rw [hopening]; exact hmatch, hlast⟩

/-- Another word is not the word that is looked for. -/
theorem bracketed_other {name word inner : Str} (hother : caseless word ≠ caseless name)
    (hword : '(' ∉ word) (hname : '(' ∉ caseless name) :
    bracketed name (wrapped (some word) inner) = none := by
  unfold bracketed
  rw [if_neg]
  intro ⟨hmatch, _⟩
  obtain ⟨word', rest, htext, hword'⟩ := exists_word name (by simpa using hmatch)
  apply hother
  rw [word_unique htext hword (bracket_not_mem hword' hname), hword']

theorem isFieldChar_of_isNameChar {c : Char} (h : isNameChar c) : isFieldChar c := by
  unfold isNameChar at h
  unfold isFieldChar
  have hsub : (".@_/" : Str) ⊆ ".@_()/" := by decide
  simp only [Bool.or_eq_true, decide_eq_true_eq] at h ⊢
  exact h.imp_right fun hmem => hsub hmem

theorem isAlphanum_of_toLower {c : Char} (h : c.toLower.isAlphanum) : c.isAlphanum := by
  by_cases hupper : c.isUpper
  · exact Bool.or_eq_true_iff.2 (Or.inl (Bool.or_eq_true_iff.2 (Or.inl hupper)))
  · have hsame : c.toLower = c := by
      unfold Char.toLower
      rw [dif_neg]
      exact fun hrange => hupper (decide_eq_true hrange)
    rwa [hsame] at h

theorem isFieldChar_of_word {word name : Str} (h : caseless word = caseless name)
    (hname : ∀ c ∈ caseless name, c.isAlphanum) : ∀ c ∈ word, isFieldChar c := by
  intro c hc
  have hlower : c.toLower ∈ caseless name := by
    rw [← h]
    exact List.mem_map.2 ⟨c, hc, rfl⟩
  simp [isFieldChar, isAlphanum_of_toLower (hname _ hlower)]

theorem isFieldChar_wrapped {word : Option Str} {inner : Str}
    (hword : ∀ w ∈ word, ∀ c ∈ w, isFieldChar c) (hinner : ∀ c ∈ inner, isFieldChar c) :
    ∀ c ∈ wrapped word inner, isFieldChar c := by
  cases word with
  | none => exact hinner
  | some w =>
      intro c hc
      simp only [wrapped, List.mem_append, List.mem_cons, List.not_mem_nil, or_false] at hc
      rcases hc with hc | rfl | hc | rfl
      · exact hword w rfl c hc
      · decide
      · exact hinner c hc
      · decide

theorem wrapped_ne_nil {word : Option Str} {inner : Str} (hinner : inner ≠ []) :
    wrapped word inner ≠ [] := by
  cases word with
  | none => exact hinner
  | some w => simp [wrapped]

namespace SortTerm

variable {term : SortTerm}

theorem isFieldChar_counted : ∀ c ∈ wrapped term.count term.name, isFieldChar c := by
  apply isFieldChar_wrapped
  · intro word hword
    exact isFieldChar_of_word (term.count_word word hword) (by decide)
  · intro c hc
    exact isFieldChar_of_isNameChar (term.name_chars c hc)

theorem isFieldChar_render : ∀ c ∈ term.render, isFieldChar c := by
  apply isFieldChar_wrapped _ isFieldChar_counted
  intro word hword
  rcases term.direction_word word hword with hdesc | hreverse
  · exact isFieldChar_of_word hdesc (by decide)
  · exact isFieldChar_of_word hreverse (by decide)

theorem comma_not_mem_render : ',' ∉ term.render := by
  intro hmem
  exact absurd (isFieldChar_render _ hmem) (by decide)

/-- What is between the brackets of `COUNT`. -/
theorem bracketed_counted :
    bracketed "COUNT" (wrapped term.count term.name) = term.count.map fun _ => term.name := by
  cases hcount : term.count with
  | none => exact bracketed_name term.bracket_not_mem_name
  | some word =>
      exact bracketed_wrapped (term.count_word word hcount) term.name_ne_nil
        fun c hc => isFieldChar_of_isNameChar (term.name_chars c hc)

/-- A term is read as what it says, if `DESC` is all that it says about its direction. -/
theorem sortField_render : sortField term.render = term.readAs := by
  cases hdirection : term.direction with
  | none =>
      have hnotDesc : bracketed "DESC" (wrapped term.count term.name) = none := by
        cases hcount : term.count with
        | none => exact bracketed_name term.bracket_not_mem_name
        | some word =>
            have hword := term.count_word word hcount
            exact bracketed_other (by rw [hword]; decide) (bracket_not_mem hword (by decide))
              (by decide)
      have hreversed : term.isReversed = false := by simp [isReversed, hdirection]
      have hrender : term.render = wrapped term.count term.name := by
        rw [render, hdirection, wrapped]
      rw [readAs, hreversed, hrender, sortField, hnotDesc]
      simp only [bracketed_counted, field, hdirection]
      cases hcount : term.count <;> simp [wrapped]
  | some word =>
      have hrender : term.render = wrapped (some word) (wrapped term.count term.name) := by
        rw [render, hdirection]
      by_cases hdesc : caseless word = caseless "DESC"
      · have hreversed : term.isReversed = false := by
          rw [isReversed, hdirection, Option.map_some, hdesc]
          decide
        rw [readAs, hreversed, hrender, sortField,
          bracketed_wrapped hdesc (wrapped_ne_nil term.name_ne_nil) isFieldChar_counted]
        simp only [bracketed_counted, field, hdirection]
        cases hcount : term.count <;> simp [wrapped]
      · have hreverse := (term.direction_word word hdirection).resolve_left hdesc
        have hbracket : '(' ∉ word := bracket_not_mem hreverse (by decide)
        have hreversed : term.isReversed = true := isReversed_iff.2 ⟨word, hdirection, hreverse⟩
        rw [readAs, if_pos hreversed, hrender, sortField,
          bracketed_other hdesc hbracket (by decide)]
        simp only
        rw [bracketed_other (by rw [hreverse]; decide) hbracket (by decide)]

end SortTerm

/-! ## The option read -/

theorem mem_orderText {terms : List SortTerm} {c : Char} (h : c ∈ orderText terms) :
    c = ',' ∨ isFieldChar c := by
  induction terms with
  | nil => cases h
  | cons term rest ih =>
      rw [orderText_cons] at h
      rcases List.mem_append.1 h with hrender | hrest
      · exact Or.inr (SortTerm.isFieldChar_render c hrender)
      · split at hrest
        · cases hrest
        · rcases List.mem_cons.1 hrest with rfl | hrest
          · exact Or.inl rfl
          · exact ih hrest

theorem cString_orderText (terms : List SortTerm) :
    cString (orderText terms) = orderText terms := by
  apply cString_eq_self
  intro hmem
  exact absurd (mem_orderText hmem) (by decide)

/-- A term with brackets is longer than `DESC()`: something stands between the brackets. -/
theorem SortTerm.seven_le_length {term : SortTerm} (h : '(' ∈ term.render) :
    7 ≤ term.render.length := by
  have hname : 1 ≤ term.name.length := List.length_pos_iff.2 term.name_ne_nil
  have hcounted : '(' ∈ wrapped term.count term.name →
      7 ≤ (wrapped term.count term.name).length := by
    intro hmem
    cases hcount : term.count with
    | none =>
        rw [hcount] at hmem
        exact absurd hmem term.bracket_not_mem_name
    | some word =>
        have hword : word.length = 5 := by
          simpa [caseless] using congrArg List.length (term.count_word word hcount)
        simp only [wrapped, List.length_append, List.length_cons, List.length_nil]
        omega
  have hinner : 1 ≤ (wrapped term.count term.name).length :=
    List.length_pos_iff.2 (wrapped_ne_nil term.name_ne_nil)
  unfold render at h ⊢
  cases hdirection : term.direction with
  | none =>
      rw [hdirection] at h
      exact hcounted h
  | some word =>
      have hword : word.length = 4 ∨ word.length = 7 :=
        (term.direction_word word hdirection).imp
          (fun hdesc => by simpa [caseless] using congrArg List.length hdesc)
          (fun hreverse => by simpa [caseless] using congrArg List.length hreverse)
      rw [wrapped, List.length_append, List.length_cons, List.length_append, List.length_singleton]
      omega

/-- `DESC()` and `RAND()` are no terms. -/
theorem caseless_orderText_ne {name : Str} (terms : List SortTerm) (hlength : name.length = 6)
    (hbracket : '(' ∈ caseless name) (hcomma : ',' ∉ caseless name) :
    caseless (orderText terms) ≠ caseless name := by
  intro hsame
  have htext : (orderText terms).length = 6 := by
    simpa [caseless, hlength] using congrArg List.length hsame
  rw [← hsame] at hbracket
  obtain ⟨c, hmem, hlower⟩ := List.mem_map.1 hbracket
  obtain rfl := toLower_eq_bracket hlower
  cases terms with
  | nil => cases hmem
  | cons term rest =>
      rw [orderText_cons] at hsame hmem htext
      split at hsame
      · rw [if_pos ‹_›, List.append_nil] at hmem htext
        have hlong := SortTerm.seven_le_length hmem
        omega
      · apply hcomma
        rw [← hsame]
        exact List.mem_map.2 ⟨',', by simp, rfl⟩

theorem split_orderText {terms : List SortTerm} (hterms : terms ≠ []) :
    split "," (orderText terms) = terms.map SortTerm.render := by
  have hsplit : split "," (orderText terms) = (orderText terms).splitOn ',' := by
    unfold split List.splitOn
    congr 1
    funext c
    simp [Bool.beq_eq_decide_eq]
  rw [hsplit]
  apply List.splitOn_intercalate
  · intro text htext
    obtain ⟨term, -, rfl⟩ := List.mem_map.1 htext
    exact SortTerm.comma_not_mem_render
  · simpa using hterms

theorem orderText_ne_nil {terms : List SortTerm} (hterms : terms ≠ []) :
    orderText terms ≠ [] := by
  cases terms with
  | nil => exact absurd rfl hterms
  | cons term rest =>
      rw [orderText_cons]
      intro hnil
      have hrender := (List.append_eq_nil_iff.1 hnil).1
      exact wrapped_ne_nil (wrapped_ne_nil term.name_ne_nil) hrender

/-- The option is read term by term, after the first `REVERSE` has been replaced. -/
theorem readOrder_orderText {terms : List SortTerm} (hterms : terms ≠ []) :
    readOrder (some (orderText terms)) =
      (.specific, (reverseOnce terms).map SortTerm.readAs) := by
  have honce : reverseOnce terms ≠ [] := mt reverseOnce_eq_nil.1 hterms
  have hfields : (split "," (orderText (reverseOnce terms))).map sortField =
      (reverseOnce terms).map SortTerm.readAs := by
    rw [split_orderText honce, List.map_map]
    exact List.map_congr_left fun term _ => SortTerm.sortField_render
  simp only [readOrder, if_neg (orderText_ne_nil hterms), replaceReverse_orderText,
    cString_orderText, hfields]
  rw [if_neg (caseless_orderText_ne _ (by decide) (by decide) (by decide)),
    if_neg (caseless_orderText_ne _ (by decide) (by decide) (by decide))]

/-! ## One `REVERSE` -/

/-- At most one term says `REVERSE`. -/
def ReversedOnce (terms : List SortTerm) : Prop := terms.countP SortTerm.isReversed ≤ 1

namespace SortTerm

variable {term : SortTerm}

theorem readAs_descending (h : term.isReversed = true) :
    term.descending.readAs = term.field := by
  obtain ⟨word, hword, -⟩ := isReversed_iff.1 h
  have hdirection : term.direction = some word := hword
  have hdesc : term.descending.isReversed = false := by
    simp only [isReversed, descending, Option.map_some]
    exact decide_eq_false (by decide)
  rw [readAs, hdesc]
  simp [field, descending, hdirection]

/-- A `REVERSE` that is still there is not read as it was written. -/
theorem readAs_eq_field : term.readAs = term.field ↔ term.isReversed = false := by
  cases hreversed : term.isReversed with
  | false => simp [readAs, hreversed]
  | true =>
      obtain ⟨word, hword, -⟩ := isReversed_iff.1 hreversed
      have hdirection : term.direction = some word := hword
      simp [readAs, hreversed, field, hdirection]

end SortTerm

theorem map_readAs_eq_iff {terms : List SortTerm} :
    terms.map SortTerm.readAs = terms.map SortTerm.field ↔
      terms.countP SortTerm.isReversed = 0 := by
  rw [List.map_inj_left, List.countP_eq_zero]
  exact forall₂_congr fun term _ => by rw [SortTerm.readAs_eq_field, Bool.not_eq_true]

theorem map_readAs_reverseOnce_iff (terms : List SortTerm) :
    (reverseOnce terms).map SortTerm.readAs = terms.map SortTerm.field ↔
      ReversedOnce terms := by
  unfold ReversedOnce
  induction terms with
  | nil => simp [reverseOnce]
  | cons term rest ih =>
      cases hreversed : term.isReversed with
      | true =>
          rw [reverseOnce, if_pos hreversed, List.map_cons, List.map_cons,
            SortTerm.readAs_descending hreversed, List.countP_cons_of_pos hreversed,
            List.cons.injEq, and_iff_right rfl, map_readAs_eq_iff]
          omega
      | false =>
          rw [reverseOnce, if_neg (by simp [hreversed]), List.map_cons, List.map_cons,
            SortTerm.readAs_eq_field.2 hreversed, List.countP_cons_of_neg (by simp [hreversed]),
            List.cons.injEq, and_iff_right rfl, ih]

/-- Terms are read as they were written exactly if at most one of them says `REVERSE`. -/
theorem readOrder_orderText_iff (terms : List SortTerm) (hterms : terms ≠ []) :
    readOrder (some (orderText terms)) = (.specific, terms.map SortTerm.field) ↔
      ReversedOnce terms := by
  rw [readOrder_orderText hterms, Prod.mk.injEq, map_readAs_reverseOnce_iff]
  simp

/-- The terms `COUNT(parts)` and `Reverse(.name)`. -/
def countedThenReversed : List SortTerm :=
  [{ name := ("parts" : Str), count := some ("COUNT" : Str), direction := none,
     name_ne_nil := by decide, name_chars := by decide, count_word := by decide,
     direction_word := by decide },
   { name := (".name" : Str), count := none, direction := some ("Reverse" : Str),
     name_ne_nil := by decide, name_chars := by decide, count_word := by decide,
     direction_word := by decide }]

theorem readOrder_orderText_iff_countedThenReversed :
    readOrder (some (orderText countedThenReversed)) =
      (.specific, countedThenReversed.map SortTerm.field) :=
  (readOrder_orderText_iff countedThenReversed (by decide)).2 (by unfold ReversedOnce; decide)

/-- The terms `REVERSE(name)` and `REVERSE(id)`. -/
def reversedTwice : List SortTerm :=
  [{ name := ("name" : Str), count := none, direction := some ("REVERSE" : Str),
     name_ne_nil := by decide, name_chars := by decide, count_word := by decide,
     direction_word := by decide },
   { name := ("id" : Str), count := none, direction := some ("REVERSE" : Str),
     name_ne_nil := by decide, name_chars := by decide, count_word := by decide,
     direction_word := by decide }]

/-- The second `REVERSE` is read as a part of a name, in ascending order. -/
theorem readOrder_reversedTwice :
    readOrder (some "REVERSE(name),REVERSE(id)") =
        (.specific, [⟨"name", false, .desc⟩, ⟨"REVERSE(id)", false, .asc⟩]) ∧
      orderText reversedTwice = "REVERSE(name),REVERSE(id)" ∧
      ¬ ∀ terms : List SortTerm, terms ≠ [] →
        readOrder (some (orderText terms)) = (.specific, terms.map SortTerm.field) := by
  refine ⟨by decide, by decide, fun hall => ?_⟩
  exact absurd (hall reversedTwice (by decide)) (by decide)

end VaeDb.Response
