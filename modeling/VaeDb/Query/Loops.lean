import VaeDb.Library.Stops
import VaeDb.Query.Constructor

/-!
# The loops of the constructor of `Query` end

Every replacement makes the text longer, and writes again what it has found.  What gets less:

* `idRule` takes a slash away and writes none.
* The other rules write `/text()` where a path ends (`borders`), that is between a path
  character and something that is neither one nor a bracket; no path ends there any more, nor
  inside of what is written.

Neither number is greater than the length of the text, so that there are at most so many
replacements (`construct_ends`).
-/

namespace VaeDb.Query

open Patterns Stops

variable {α : Type} {alphabet : Alphabet α} {text text' : List α} {front back : List (Atom α)}

/-! ## Slashes -/

/-- The number of slashes. -/
def slashes (alphabet : Alphabet α) (text : List α) : ℕ :=
  text.countP fun a => alphabet.read a = '/'

theorem slashes_lt (h : (idRule alphabet).replace text = some text') :
    slashes alphabet text' < slashes alphabet text := by
  obtain ⟨before, slash, digits, rest, hslash, -, hdigits, rfl, rfl⟩ := idRule_replace h
  have hnone : ∀ part : List α, (∀ a ∈ part, alphabet.read a ≠ '/') →
      part.countP (fun a => alphabet.read a = '/') = 0 := by
    intro part hpart
    exact List.countP_eq_zero.2 fun a ha => by simpa using hpart a ha
  have hwritten : ∀ written : Str, '/' ∉ written →
      (alphabet.writes written).countP (fun a => alphabet.read a = '/') = 0 := by
    intro written hwritten
    apply hnone
    intro a ha
    obtain ⟨c, hc, rfl⟩ := List.mem_map.1 ha
    rw [alphabet.read_write]
    rintro rfl
    exact hwritten hc
  have hdigitsNone : digits.countP (fun a => alphabet.read a = '/') = 0 := by
    apply hnone
    intro a ha hread
    have hdigit := hdigits a ha
    rw [hread] at hdigit
    exact absurd hdigit (by decide)
  unfold slashes
  simp only [List.countP_append, List.countP_cons, hslash, hdigitsNone,
    hwritten _ (by decide : '/' ∉ ("[@id='" : Str)), hwritten _ (by decide : '/' ∉ ("']" : Str))]
  simp

/-! ## Ends of paths -/

/-- A path ends between two characters. -/
def isBorder (a b : Char) : Bool := isPathChar a && endsPath b

/-- The number of places where a path ends. -/
def borders : Str → ℕ
  | a :: b :: text => (if isBorder a b then 1 else 0) + borders (b :: text)
  | [_] => 0
  | [] => 0

theorem borders_append_cons (front : Str) (a : Char) (back : Str) :
    borders (front ++ a :: back) = borders (front ++ [a]) + borders (a :: back) := by
  induction front with
  | nil => simp [borders]
  | cons b front ih =>
      cases front with
      | nil => simp [borders]
      | cons c front =>
          simp only [List.cons_append, borders] at ih ⊢
          rw [ih, Nat.add_assoc]

theorem borders_le_length (text : Str) : borders text ≤ text.length := by
  induction text using borders.induct with
  | case1 a b text ih =>
      simp only [borders, List.length_cons] at ih ⊢
      split <;> omega
  | case2 a => exact Nat.zero_le _
  | case3 => exact Nat.zero_le _

/-- Where a path ends, `/text()` takes the place away. -/
theorem borders_text {a b : Char} (h : isBorder a b = true) (front back : Str) :
    borders (front ++ a :: (("/text()" : Str) ++ b :: back)) + 1 =
      borders (front ++ a :: b :: back) := by
  have hslash : isBorder a '/' = false := by
    have hends : endsPath '/' = false := by decide
    rw [isBorder, hends, Bool.and_false]
  have hclosing : isBorder ')' b = false := by
    have hpath : isPathChar ')' = false := by decide
    rw [isBorder, hpath, Bool.false_and]
  have hinner : borders ("/text()" ++ b :: back : Str) = borders (b :: back) := by
    have hstep : borders ("/text()" ++ b :: back : Str) =
        borders ("/text()" : Str) + borders (')' :: b :: back) :=
      borders_append_cons "/text(" ')' (b :: back)
    have htext : borders ("/text()" : Str) = 0 := by decide
    rw [hstep, htext, borders, hclosing]
    simp
  rw [borders_append_cons front a, borders_append_cons front a (b :: back)]
  have hfirst : borders (a :: ("/text()" ++ b :: back : Str)) =
      (if isBorder a '/' then 1 else 0) + borders ("/text()" ++ b :: back : Str) := rfl
  rw [hfirst, hinner, hslash, borders, h]
  simp only [Bool.false_eq_true, if_false, if_true]
  omega

/-- Whatever a rule asks for behind the run ends a path. -/
def EndsPath (alphabet : Alphabet α) (back : List (Atom α)) : Prop :=
  ∀ pieces, List.Forall₂ Atom.Fits back pieces →
    ∃ a closing, pieces.flatten = a :: closing ∧ endsPath (alphabet.read a)

theorem borders_lt (hback : EndsPath alphabet back)
    (h : (textRule alphabet front back).replace text = some text') :
    borders (alphabet.reads text') < borders (alphabet.reads text) := by
  obtain ⟨before, pieces, rest, hfound, rfl, -⟩ := Rule.replace_eq_some h
  obtain ⟨opening, run, closing, -, hinserts, hrewrite⟩ := textRule_found hfound
  obtain ⟨closings, hclosing, hfits⟩ := hinserts.closing_fits
  obtain ⟨b, closing', hb, hends⟩ := hback closings hfits
  obtain ⟨run', a, rfl⟩ := (List.eq_nil_or_concat' run).resolve_left hinserts.run_ne_nil
  have ha := hinserts.run_path a (by simp)
  have hborder : isBorder (alphabet.read a) (alphabet.read b) = true := by
    rw [isBorder, ha, hends]
    rfl
  have hlower := borders_text hborder (alphabet.reads (before ++ (opening ++ run')))
    (alphabet.reads (closing' ++ rest))
  rw [hrewrite, hinserts.text_eq, ← hclosing, hb]
  have hreads : ∀ written : List α, alphabet.reads
      (before ++ (opening ++ (run' ++ [a] ++ (written ++ (b :: closing'))) ++ rest)) =
        alphabet.reads (before ++ (opening ++ run')) ++ alphabet.read a ::
          (alphabet.reads written ++ alphabet.read b :: alphabet.reads (closing' ++ rest)) := by
    intro written
    simp [Alphabet.reads]
  have hplain := hreads []
  have hwritten := hreads (alphabet.writes "/text()")
  rw [reads_writes] at hwritten
  simp only [List.append_assoc, List.nil_append] at hplain hwritten ⊢
  rw [hwritten, hplain]
  exact Nat.lt_of_succ_le (le_of_eq hlower)

/-! ## The loops -/

theorem endsPath_symbol : EndsPath alphabet [alphabet.symbol endsPath] := by
  intro pieces h
  rcases h with _ | ⟨⟨a, rfl, ha⟩, hrest⟩
  exact ⟨a, _, rfl, ha⟩

theorem endsPath_literal {c : Char} (hc : endsPath c = true) (back : List (Atom α)) :
    EndsPath alphabet (alphabet.literal c :: back) := by
  intro pieces h
  rcases h with _ | ⟨⟨a, rfl, ha⟩, hrest⟩
  refine ⟨a, _, rfl, ?_⟩
  rwa [of_decide_eq_true ha]

/-- Every loop ends after at most as many replacements as the text is long. -/
theorem exists_replaced_of_mem {rule : Rule α} (hrule : rule ∈ rules alphabet)
    (text : List α) :
    ∃ n ≤ text.length, ∃ result, rule.Replaced n text result ∧ rule.replace result = none := by
  have hslashes : ∀ text : List α, slashes alphabet text ≤ text.length :=
    fun text => List.countP_le_length
  have hborders : ∀ text : List α, borders (alphabet.reads text) ≤ text.length := by
    intro text
    rw [← length_reads alphabet text]
    exact borders_le_length _
  have hends : ∀ measure : List α → ℕ, (∀ text, measure text ≤ text.length) →
      (∀ text next, rule.replace text = some next → measure next < measure text) →
      ∃ n ≤ text.length, ∃ result, rule.Replaced n text result ∧
        rule.replace result = none := by
    intro measure hmeasure hlower
    obtain ⟨n, hn, hresult⟩ := Rule.exists_replaced measure hlower text
    exact ⟨n, hn.trans (hmeasure text), hresult⟩
  simp only [rules, List.mem_cons, List.not_mem_nil, or_false] at hrule
  rcases hrule with rfl | rfl | rfl | rfl | rfl
  · exact hends _ hslashes fun _ _ => slashes_lt
  · exact hends _ hborders fun _ _ => borders_lt endsPath_symbol
  · exact hends _ hborders fun _ _ => borders_lt endsPath_symbol
  · exact hends _ hborders fun _ _ => borders_lt (endsPath_literal (by decide) _)
  · exact hends _ hborders fun _ _ => borders_lt (endsPath_literal (by decide) _)

theorem settles_whileReplace {rule : Rule α} (hrule : rule ∈ rules alphabet)
    (text : List α) :
    Settles Fault.unfinished fun rounds => whileReplace rounds text rule := by
  obtain ⟨n, -, result, hreplaced, hnone⟩ := exists_replaced_of_mem hrule text
  refine ⟨n + 1, .ok result, by simp, fun rounds hrounds => ?_⟩
  have hexhaust : rule.exhaust rounds text = some result :=
    Rule.exhaust_eq_some_iff.2 ⟨n, hrounds, hreplaced, hnone⟩
  change whileReplace rounds text rule = _
  rw [whileReplace, hexhaust]
  rfl

theorem settles_rewriteSegment (part : List α) :
    Settles Fault.unfinished fun rounds => rewriteSegment alphabet rounds part :=
  Settles.foldlM (fun text _ hrule => settles_whileReplace hrule text) part

theorem settles_rewriteParts (outside : Bool) (parts : List (List α)) :
    Settles Fault.unfinished fun rounds => rewriteParts alphabet rounds outside parts := by
  induction parts generalizing outside with
  | nil =>
      cases outside <;> exact settles_pure []
  | cons part parts ih =>
      cases outside with
      | false => exact (ih true).bind fun parts => settles_pure _
      | true =>
          apply (settles_rewriteSegment part).bind
          intro part
          by_cases hdouble : contains alphabet "//" part = true
          · simp only [hdouble, if_true]
            exact settles_const (by intro h; cases h)
          · simp only [hdouble, Bool.false_eq_true, if_false]
            exact (ih false).bind fun parts => settles_pure _

theorem settles_expression (query : List α) :
    Settles Fault.unfinished fun rounds => expression alphabet rounds query :=
  (settles_rewriteParts true _).bind fun _ => settles_pure _

/-! ## The constructor -/

section

variable {Node Context : Type} (document : Document Node Context)

theorem settles_sibling (name axis error : Str) (context : Option Context) (query : Str) :
    Settles Fault.unfinished fun _ => sibling document name axis error context query := by
  apply settles_const
  unfold sibling
  split
  · split
    · intro h
      cases h
    · intro h
      cases h
  · intro h
    cases h

theorem settles_constructPath (context : Option Context) (query q : Str) :
    Settles Fault.unfinished fun rounds => constructPath document rounds context query q := by
  apply (settles_sibling document ..).bind
  intro query
  apply (settles_sibling document ..).bind
  intro query
  exact (settles_expression query).bind fun expression => settles_pure _

theorem settles_constructId (context : Option Context) (query q : Str) :
    Settles Fault.unfinished fun rounds => constructId document rounds context query q := by
  unfold constructId
  split
  · split
    · exact settles_constructPath document _ _ _
    · exact settles_pure _
  · exact settles_constructPath document _ _ _

theorem settles_constructPermalink (context : Option Context) (query q : Str) :
    Settles Fault.unfinished fun rounds =>
      constructPermalink document rounds context query q := by
  unfold constructPermalink
  split
  · simp only
    split
    · exact settles_pure _
    · exact settles_constructId document _ _ _
  · exact settles_constructId document _ _ _

theorem settles_construct (context : Option Context) (q : Str) :
    Settles Fault.unfinished fun rounds => construct document rounds context q := by
  unfold construct
  split
  · exact settles_constructPermalink document _ _ _
  · exact settles_constructPermalink document _ _ _

/-- Every loop ends on every text, and so the constructor ends for every query. -/
theorem construct_ends (context : Option Context) (q : Str) :
    (∀ rule ∈ rules characters, ∀ segment : Str, ∃ n ≤ segment.length, ∃ result,
      rule.Replaced n segment result ∧ rule.replace result = none) ∧
    ∃ bound, ∀ rounds, bound ≤ rounds →
      construct document rounds context q ≠ .error .unfinished :=
  ⟨fun _ hrule segment => exists_replaced_of_mem hrule segment,
    (settles_construct document context q).ne_unfinished⟩

end

end VaeDb.Query
