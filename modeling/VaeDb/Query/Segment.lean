import VaeDb.Library.Splits
import VaeDb.Query.Loops

/-!
# An attribute in a segment

What the loops of the constructor of `Query` do with the name behind one `@`.  A rule writes
before the `@`, directly behind the name, or farther behind, and never into the name
(`Stands.textRule`, `Stands.idRule`).  Nothing that the rules look for directly behind the name
comes up there or goes away (`Follows`):

* The first three rules do not write there.
* The last two look back over one character only for the `@`, so that they write there if
  there is a letter inside of the name, and their closing word behind it.
-/

namespace VaeDb.Query

open Patterns

/-! ## Names -/

/-- `[a-z0-9_]`. -/
def isAttributeChar (c : Char) : Bool := isPathStart c || c.isDigit

/-- `[a-z_]` is neither the first nor the last character of the name only. -/
def letterInside (name : Str) : Bool := (name.drop 1).dropLast.any isPathStart

/-- What `beforeOrAndRule` looks for behind a run. -/
def orAndWords : List Str := [" or ", " and "]

/-- What the last two rules look for behind a run. -/
def stopWords : List Str := "]" :: orAndWords

/-- A name with a letter inside, and with one of these words behind it. -/
def Tested (name after : Str) : Prop :=
  letterInside name = true ∧ ∃ word ∈ stopWords, word <+: after

theorem letterInside_iff {name : Str} :
    letterInside name = true ↔
      ∃ front c back, name = front ++ c :: back ∧ front ≠ [] ∧ back ≠ [] ∧ isPathStart c := by
  unfold letterInside
  rw [List.any_eq_true]
  constructor
  · intro ⟨c, hmem, hc⟩
    obtain ⟨first, rest, rfl⟩ : ∃ first rest, name = first :: rest := by
      apply List.exists_cons_of_ne_nil
      rintro rfl
      cases hmem
    rw [List.drop_one, List.tail_cons] at hmem
    obtain ⟨before, last, rfl⟩ := (List.eq_nil_or_concat' rest).resolve_left (by
      rintro rfl
      cases hmem)
    rw [List.dropLast_concat] at hmem
    obtain ⟨front, back, rfl⟩ := List.append_of_mem hmem
    exact ⟨first :: front, c, back ++ [last], by simp, by simp, by simp, hc⟩
  · rintro ⟨front, c, back, rfl, hfront, hback, hc⟩
    obtain ⟨first, front, rfl⟩ := List.exists_cons_of_ne_nil hfront
    obtain ⟨back, last, rfl⟩ := (List.eq_nil_or_concat' back).resolve_left hback
    refine ⟨c, ?_, hc⟩
    have hname : first :: front ++ c :: (back ++ [last]) =
        first :: ((front ++ c :: back) ++ [last]) := by simp
    rw [hname, List.drop_one, List.tail_cons, List.dropLast_concat]
    simp

section

variable {α : Type} {alphabet : Alphabet α} {sign : α} {name text text' post post₀ : List α}
  {front back : List (Atom α)}

/-- An `@` that no rule has written, and the name behind it. -/
structure Attribute (alphabet : Alphabet α) (sign : α) (name : List α) : Prop where
  read_sign : alphabet.read sign = '@'
  not_written : ∀ c, sign ≠ alphabet.write c
  not_mem : sign ∉ name
  name_chars : ∀ a ∈ name, isAttributeChar (alphabet.read a)

/-- The attribute is once in the text, and `post` is behind it. -/
def Stands (sign : α) (name text post : List α) : Prop :=
  ∃ pre, text = pre ++ sign :: (name ++ post) ∧ sign ∉ pre ∧ sign ∉ post

theorem isPathChar_of_isAttributeChar {c : Char} (h : isAttributeChar c) : isPathChar c := by
  unfold isAttributeChar at h
  unfold isPathChar
  rw [h, Bool.true_or]

theorem not_isPathChar_of_endsPath {c : Char} (h : endsPath c = true) : isPathChar c = false := by
  unfold endsPath at h
  rw [Bool.and_eq_true, Bool.not_eq_true'] at h
  exact h.2

theorem Attribute.not_mem_writes (h : Attribute alphabet sign name) (written : Str) :
    sign ∉ alphabet.writes written := by
  intro hmem
  obtain ⟨c, -, hc⟩ := List.mem_map.1 hmem
  exact h.not_written c hc.symm

theorem Attribute.not_mem_of_accepts (h : Attribute alphabet sign name) {accepts : Char → Bool}
    (haccepts : accepts '@' = false) {run : List α}
    (hrun : ∀ a ∈ run, accepts (alphabet.read a)) : sign ∉ run := by
  intro hmem
  have haccept := hrun sign hmem
  rw [h.read_sign, haccepts] at haccept
  cases haccept

/-! ## Where a rule writes -/

/-- `idRule` replaces something before the `@` or behind the name. -/
theorem Stands.idRule (hsign : Attribute alphabet sign name) (h : Stands sign name text post)
    (hreplace : (idRule alphabet).replace text = some text') :
    Stands sign name text' post ∨
      ∃ more slash digits rest, alphabet.read slash = '/' ∧
        post = more ++ slash :: (digits ++ rest) ∧ Stands sign name text'
          (more ++ (alphabet.writes "[@id='" ++ (digits ++ (alphabet.writes "']" ++ rest)))) := by
  obtain ⟨pre, htext, hpre, hpost⟩ := h
  obtain ⟨before, slash, digits, rest, hslash, -, hdigits, hsplit, rfl⟩ := idRule_replace hreplace
  have hdigits : sign ∉ digits := hsign.not_mem_of_accepts (by decide) hdigits
  have hopening := hsign.not_mem_writes "[@id='"
  have hclosing := hsign.not_mem_writes "']"
  rw [htext] at hsplit
  rcases List.append_eq_append_cons hsplit with ⟨more, hbefore, hmore⟩ | ⟨more, hpre', hmore⟩
  -- behind the `@`
  · cases more with
    | nil =>
        obtain ⟨rfl, -⟩ := List.cons.inj hmore
        rw [hsign.read_sign] at hslash
        exact absurd hslash (by decide)
    | cons b more =>
        obtain ⟨rfl, hbehind⟩ := List.cons.inj hmore
        have hname : slash ∉ name := by
          intro hmem
          have hchar := hsign.name_chars slash hmem
          rw [hslash] at hchar
          exact absurd hchar (by decide)
        obtain ⟨more, rfl⟩ := List.prefix_of_not_mem ⟨post, hbehind⟩ hname
        have hpost' : post = more ++ slash :: (digits ++ rest) :=
          List.append_cancel_left (hbehind.trans (List.append_assoc name more _))
        refine Or.inr ⟨more, slash, digits, rest, hslash, hpost', pre, ?_, hpre, ?_⟩
        · rw [hbefore]
          simp
        · rw [hpost'] at hpost
          simp only [List.mem_append, List.mem_cons, not_or] at hpost ⊢
          exact ⟨hpost.1, hopening, hdigits, hclosing, hpost.2.2.2⟩
  -- before the `@`
  · obtain ⟨more, rfl⟩ := List.prefix_of_not_mem ⟨rest, hmore⟩ hdigits
    have hrest : rest = more ++ sign :: (name ++ post) :=
      List.append_cancel_left (hmore.trans (List.append_assoc digits more _))
    refine Or.inl ⟨before ++ (alphabet.writes "[@id='" ++
      (digits ++ (alphabet.writes "']" ++ more))), ?_, ?_, hpost⟩
    · rw [hrest]
      simp
    · rw [hpre'] at hpre
      simp only [List.mem_append, List.mem_cons, not_or] at hpre ⊢
      exact ⟨hpre.1, hopening, hdigits, hclosing, hpre.2.2.2⟩

/-- A place behind the name where a `textRule` writes: `more` is between the two. -/
structure Behind (alphabet : Alphabet α) (front back : List (Atom α)) (sign : α)
    (name text post : List α) (before opening run closing rest pre more : List α) : Prop where
  inserts : Inserts alphabet front back text before opening run closing rest
  leftmost : (textRule alphabet front back).Leftmost text before
  left_eq : before ++ (opening ++ run) = pre ++ sign :: (name ++ more)
  post_eq : post = more ++ (closing ++ rest)
  stands : sign ∉ pre ∧ sign ∉ post

/-- `textRule` writes before the `@`, or directly behind the name or farther behind. -/
theorem Stands.textRule (hsign : Attribute alphabet sign name) (hback : EndsPath alphabet back)
    (h : Stands sign name text post)
    (hreplace : (textRule alphabet front back).replace text = some text') :
    Stands sign name text' post ∨
      ∃ before opening run closing rest pre more,
        Behind alphabet front back sign name text post before opening run closing rest pre more ∧
        Stands sign name text' (more ++ (alphabet.writes "/text()" ++ (closing ++ rest))) := by
  obtain ⟨pre, htext, hpre, hpost⟩ := h
  obtain ⟨before, pieces, rest, hfound, rfl, hleft⟩ := Rule.replace_eq_some hreplace
  obtain ⟨opening, run, closing, -, hinserts, hrewrite⟩ := textRule_found hfound
  obtain ⟨b, closing', hb, hends⟩ : ∃ b closing', closing = b :: closing' ∧
      endsPath (alphabet.read b) := by
    obtain ⟨closings, rfl, hfits⟩ := hinserts.closing_fits
    exact hback closings hfits
  have hwritten := hsign.not_mem_writes "/text()"
  have hsplit : before ++ (opening ++ run) ++ (closing ++ rest) =
      pre ++ sign :: (name ++ post) := by
    rw [← htext, hinserts.text_eq]
    simp
  rw [hrewrite]
  rcases List.append_eq_append_cons hsplit with ⟨more, hpre', hright⟩ | ⟨more, hbefore, hright⟩
  · refine Or.inl ⟨before ++ (opening ++ (run ++ (alphabet.writes "/text()" ++ more))), ?_, ?_,
      hpost⟩
    · simp [hright]
    · rw [hpre'] at hpre
      simp only [List.mem_append, not_or] at hpre ⊢
      exact ⟨hpre.1.1, hpre.1.2.1, hpre.1.2.2, hwritten, hpre.2⟩
  · -- a character of the name does not end a path
    have hname : b ∉ name := by
      intro hmem
      have hpath := isPathChar_of_isAttributeChar (hsign.name_chars b hmem)
      rw [not_isPathChar_of_endsPath hends] at hpath
      cases hpath
    rw [hb] at hright
    obtain ⟨more, rfl⟩ := List.prefix_of_not_mem ⟨post, hright⟩ hname
    have hpost' : post = more ++ (closing ++ rest) := by
      rw [hb]
      exact List.append_cancel_left (hright.trans (List.append_assoc name more _))
    refine Or.inr ⟨before, opening, run, closing, rest, pre, more,
      ⟨hinserts, hleft, hbefore, hpost', hpre, hpost⟩, pre, ?_, hpre, ?_⟩
    · calc before ++ (opening ++ (run ++ (alphabet.writes "/text()" ++ closing)) ++ rest)
          = before ++ (opening ++ run) ++ (alphabet.writes "/text()" ++ (closing ++ rest)) := by
            simp
        _ = pre ++ sign ::
            (name ++ (more ++ (alphabet.writes "/text()" ++ (closing ++ rest)))) := by
            rw [hbefore]
            simp
    · rw [hpost'] at hpost
      simp only [List.mem_append, not_or] at hpost ⊢
      exact ⟨hpost.1, hwritten, hpost.2⟩

/-! ## What is behind the name -/

/-- Nothing that the rules have written for a name is directly behind it. -/
structure Clear (alphabet : Alphabet α) (post : List α) : Prop where
  no_text : ∀ a b rest, post = a :: b :: rest → alphabet.read a = '/' → b ≠ alphabet.write 't'
  no_predicate : ¬ alphabet.writes "[@id!" <+: post

/-- `/text()` is directly behind the name. -/
def Received (alphabet : Alphabet α) (post : List α) : Prop :=
  alphabet.writes "/text()" <+: post

/-- What is behind the name begins with a word that the rules look for only if it did at
first, and still does if that word is one of `kept`. -/
structure Follows (alphabet : Alphabet α) (kept : List Str) (post₀ post : List α) : Prop where
  clear : Clear alphabet post
  backward : ∀ word ∈ stopWords, word <+: alphabet.reads post → word <+: alphabet.reads post₀
  forward : ∀ word ∈ kept, word <+: alphabet.reads post₀ → word <+: alphabet.reads post

theorem Clear.not_received (h : Clear alphabet post) : ¬ Received alphabet post := by
  rintro ⟨rest, rfl⟩
  exact h.no_text (alphabet.write '/') (alphabet.write 't') (alphabet.writes "ext()" ++ rest) rfl
    (alphabet.read_write '/') rfl

/-- Nothing changes behind a beginning that stays. -/
theorem Clear.of_begins {more : List α} {a : α} (h : Clear alphabet (more ++ text))
    (hmore : more ≠ []) (ha : alphabet.read a ≠ 't')
    (hpredicate : alphabet.read a ∉ ("@id!" : Str)) :
    Clear alphabet (more ++ a :: text') := by
  obtain ⟨first, more, rfl⟩ := List.exists_cons_of_ne_nil hmore
  constructor
  · intro b c rest heq hread
    cases more with
    | nil =>
        obtain ⟨-, rfl, -⟩ : first = b ∧ a = c ∧ text' = rest := by simpa using heq
        rintro rfl
        exact ha (alphabet.read_write 't')
    | cons second more =>
        obtain ⟨rfl, rfl, -⟩ : first = b ∧ second = c ∧ more ++ a :: text' = rest := by
          simpa using heq
        exact h.no_text first second (more ++ text) (by simp) hread
  · intro hbegins
    have hwrites : alphabet.writes "[@id!" = alphabet.write '[' :: alphabet.writes "@id!" := rfl
    rw [hwrites, List.cons_append, List.cons_prefix_cons] at hbegins
    have hmem : a ∉ alphabet.writes "@id!" := by
      intro hmem
      obtain ⟨c, hc, rfl⟩ := List.mem_map.1 hmem
      rw [alphabet.read_write] at hpredicate
      exact hpredicate hc
    obtain ⟨others, rfl⟩ := List.prefix_of_not_mem hbegins.2 hmem
    apply h.no_predicate
    rw [hwrites, hbegins.1]
    exact ⟨others ++ text, by simp⟩

/-- Writing behind what is looked for does not matter to it. -/
theorem prefix_reads {word : Str} {more : List α} {a : α} (ha : alphabet.read a ∉ word)
    (h : word <+: alphabet.reads (more ++ a :: text)) : word <+: alphabet.reads more := by
  rw [reads_append] at h
  exact List.prefix_of_not_mem h ha

theorem prefix_reads_append {word : Str} {more : List α} (h : word <+: alphabet.reads more)
    (text : List α) : word <+: alphabet.reads (more ++ text) := by
  rw [reads_append]
  exact h.trans (List.prefix_append _ _)

theorem not_mem_stopWords {c : Char} (hc : c ∈ ("/[" : Str)) {word : Str}
    (hword : word ∈ stopWords) : c ∉ word := by
  have hnone : ∀ c ∈ ("/[" : Str), ∀ word ∈ stopWords, c ∉ word := by decide
  exact hnone c hc word hword

theorem Follows.idRule {more digits rest : List α} {slash : α} (hslash : alphabet.read slash = '/')
    (h : Follows alphabet stopWords post₀ (more ++ slash :: (digits ++ rest))) :
    Follows alphabet stopWords post₀ (more ++ (alphabet.writes "[@id='" ++ text)) := by
  have hopening : alphabet.writes "[@id='" ++ text =
      alphabet.write '[' :: (alphabet.writes "@id='" ++ text) := rfl
  have hmore : ∀ word ∈ stopWords, word <+: alphabet.reads
      (more ++ (alphabet.writes "[@id='" ++ text)) → word <+: alphabet.reads more := by
    intro word hword hbegins
    rw [hopening] at hbegins
    apply prefix_reads _ hbegins
    rw [alphabet.read_write]
    exact not_mem_stopWords (by decide) hword
  refine ⟨?_, fun word hword hbegins => ?_, fun word hword hbegins => ?_⟩
  · by_cases hnil : more = []
    · subst hnil
      constructor
      · intro a b rest heq hread
        rw [List.nil_append, hopening] at heq
        obtain ⟨rfl, -⟩ := List.cons.inj heq
        rw [alphabet.read_write] at hread
        exact absurd hread (by decide)
      · intro hbegins
        have hreads : ("[@id!" : Str) <+: ("[@id='" : Str) ++ alphabet.reads text := by
          have hwritten : alphabet.reads (alphabet.writes "[@id!") = "[@id!" := reads_writes _
          have hopened : alphabet.reads (alphabet.writes "[@id='") = "[@id='" := reads_writes _
          rw [← hwritten, ← hopened, ← reads_append]
          exact hbegins.map alphabet.read
        obtain ⟨others, hothers⟩ := hreads
        have hfive := congrArg (List.take 5) hothers
        have hpredicate : ("[@id!" : Str) = "[@id=" := hfive
        exact absurd hpredicate (by decide)
    · rw [hopening]
      exact h.clear.of_begins hnil (by rw [alphabet.read_write]; decide)
        (by rw [alphabet.read_write]; decide)
  · exact h.backward word hword (prefix_reads_append (hmore word hword hbegins) _)
  · apply prefix_reads_append
    apply prefix_reads _ (h.forward word hword hbegins)
    rw [hslash]
    exact not_mem_stopWords (by decide) hword

theorem Follows.write_text {kept : List Str} {more right : List α}
    (h : Follows alphabet kept post₀ (more ++ right)) (hmore : more ≠ [])
    (hkept : ∀ word ∈ kept, word <+: alphabet.reads (more ++ right) →
      word <+: alphabet.reads more) :
    Follows alphabet kept post₀ (more ++ (alphabet.writes "/text()" ++ right)) := by
  have hopening : alphabet.writes "/text()" ++ right =
      alphabet.write '/' :: (alphabet.writes "text()" ++ right) := rfl
  refine ⟨?_, fun word hword hbegins => ?_, fun word hword hbegins => ?_⟩
  · rw [hopening]
    exact h.clear.of_begins hmore (by rw [alphabet.read_write]; decide)
      (by rw [alphabet.read_write]; decide)
  · apply h.backward word hword
    apply prefix_reads_append
    rw [hopening] at hbegins
    apply prefix_reads _ hbegins
    rw [alphabet.read_write]
    exact not_mem_stopWords (by decide) hword
  · exact prefix_reads_append (hkept word hword (h.forward word hword hbegins)) _

theorem Follows.mono {kept kept' : List Str} (h : Follows alphabet kept post₀ post)
    (hkept : kept' ⊆ kept) : Follows alphabet kept' post₀ post :=
  ⟨h.clear, h.backward, fun word hword => h.forward word (hkept hword)⟩

/-! ## The first three loops -/

/-- The attribute stands in the text, with something behind it that follows on `post₀`. -/
def Tracked (alphabet : Alphabet α) (sign : α) (name : List α) (kept : List Str)
    (post₀ text : List α) : Prop :=
  ∃ post, Stands sign name text post ∧ Follows alphabet kept post₀ post

theorem tracked_idRule (hsign : Attribute alphabet sign name)
    (h : Tracked alphabet sign name stopWords post₀ text)
    (hreplace : (idRule alphabet).replace text = some text') :
    Tracked alphabet sign name stopWords post₀ text' := by
  obtain ⟨post, hstands, hfollows⟩ := h
  rcases hstands.idRule hsign hreplace with
    hbefore | ⟨more, slash, digits, rest, hslash, rfl, hbehind⟩
  · exact ⟨post, hbefore, hfollows⟩
  · exact ⟨_, hbehind, hfollows.idRule hslash⟩

/-- What is in front of the run in the second rule and in the third one. -/
def Opens (alphabet : Alphabet α) (front : List (Atom α)) : Prop :=
  ∀ pieces, List.Forall₂ Atom.Fits front pieces →
    ∃ word prev c, pieces.flatten = word ++ [prev, c] ∧ isPathStart (alphabet.read c) ∧
      (alphabet.read prev = '[' ∨ alphabet.read prev = ' ' ∧ ∃ space letters,
        word = space :: letters ∧ alphabet.read space = ' ' ∧
          ∀ a ∈ letters, isPathChar (alphabet.read a))

theorem spells_iff {written : Str} {piece : List α} :
    List.Forall₂ (fun accepts a => accepts a = true) (alphabet.word written) piece ↔
      alphabet.reads piece = written := by
  induction written generalizing piece with
  | nil => cases piece <;> simp [Alphabet.word, Alphabet.reads]
  | cons c written ih =>
      cases piece with
      | nil => simp [Alphabet.word, Alphabet.reads]
      | cons a piece =>
          have hcons : alphabet.word (c :: written) =
              (fun a => decide (alphabet.read a = c)) :: alphabet.word written := rfl
          rw [hcons, List.forall₂_cons, ih, decide_eq_true_iff]
          simp [Alphabet.reads]

theorem orAnd_fits {piece : List α} :
    (orAnd alphabet).Fits piece ↔ alphabet.reads piece ∈ (["or", "and"] : List Str) := by
  simp [orAnd, Atom.Fits, spells_iff]

theorem opens_bracketRule :
    Opens alphabet [alphabet.literal '[', alphabet.symbol isPathStart] := by
  intro pieces h
  rcases h with _ | ⟨⟨prev, rfl, hprev⟩, h⟩
  rcases h with _ | ⟨⟨c, rfl, hc⟩, h⟩
  rcases h with _ | _
  exact ⟨[], prev, c, rfl, hc, Or.inl (of_decide_eq_true hprev)⟩

theorem opens_afterOrAndRule :
    Opens alphabet [alphabet.literal ' ', orAnd alphabet, alphabet.literal ' ',
      alphabet.symbol isPathStart] := by
  intro pieces h
  rcases h with _ | ⟨⟨space, rfl, hspace⟩, h⟩
  rcases h with _ | ⟨hletters, h⟩
  rcases h with _ | ⟨⟨prev, rfl, hprev⟩, h⟩
  rcases h with _ | ⟨⟨c, rfl, hc⟩, h⟩
  rcases h with _ | _
  rename_i letters
  refine ⟨space :: letters, prev, c, by simp, hc, Or.inr ⟨of_decide_eq_true hprev, space, letters,
    rfl, of_decide_eq_true hspace, ?_⟩⟩
  have hpath : ∀ word ∈ (["or", "and"] : List Str), ∀ c ∈ word, isPathChar c := by decide
  intro a ha
  exact hpath _ (orAnd_fits.1 hletters) (alphabet.read a) (List.mem_map_of_mem ha)

/-- The words with spaces around them. -/
theorem exists_letters {word : Str} (h : word ∈ orAndWords) :
    ∃ letters, word = ' ' :: (letters ++ [' ']) ∧ ∀ c ∈ letters, isPathChar c := by
  simp only [orAndWords, List.mem_cons, List.not_mem_nil, or_false] at h
  rcases h with rfl | rfl
  · exact ⟨"or", rfl, by decide⟩
  · exact ⟨"and", rfl, by decide⟩

/-- A cut before the end of a path is behind the word or before its last space. -/
theorem word_cut {word : Str} {more right : List α} (hword : word ∈ orAndWords)
    (hmore : more ≠ []) (hright : ∃ b right', right = b :: right' ∧ endsPath (alphabet.read b))
    (h : word <+: alphabet.reads (more ++ right)) :
    word <+: alphabet.reads more ∨ ∃ space letters, more = space :: letters ∧
      alphabet.read space = ' ' ∧ ∀ a ∈ letters, isPathChar (alphabet.read a) := by
  obtain ⟨space, more, rfl⟩ := List.exists_cons_of_ne_nil hmore
  obtain ⟨b, right, rfl, hends⟩ := hright
  obtain ⟨letters, rfl, hletters⟩ := exists_letters hword
  obtain ⟨rest, hrest⟩ := h
  have hsplit : letters ++ ' ' :: rest =
      alphabet.reads more ++ alphabet.read b :: alphabet.reads right := by
    simpa [Alphabet.reads] using (List.cons.inj hrest).2
  have hspace : ' ' = alphabet.read space := (List.cons.inj hrest).1
  rcases List.append_eq_append_cons hsplit with ⟨others, hmore, hothers⟩ | ⟨others, hname, -⟩
  · cases others with
    | nil =>
        rw [List.append_nil] at hmore
        refine Or.inr ⟨space, more, rfl, hspace.symm, fun a ha => hletters _ ?_⟩
        rw [← hmore]
        exact List.mem_map_of_mem ha
    | cons c others =>
        obtain ⟨rfl, -⟩ := List.cons.inj hothers
        refine Or.inl ⟨others, ?_⟩
        change _ = alphabet.read space :: alphabet.reads more
        rw [hmore, ← hspace]
        simp
  · have hpath : isPathChar (alphabet.read b) := by
      apply hletters
      rw [hname]
      simp
    rw [not_isPathChar_of_endsPath hends] at hpath
    cases hpath

theorem closing_cut {more right : List α} (hmore : more ≠ [])
    (h : ("]" : Str) <+: alphabet.reads (more ++ right)) :
    ("]" : Str) <+: alphabet.reads more := by
  obtain ⟨first, more, rfl⟩ := List.exists_cons_of_ne_nil hmore
  obtain ⟨rest, hrest⟩ := h
  exact ⟨alphabet.reads more, congrArg (· :: alphabet.reads more) (List.cons.inj hrest).1⟩

/-- What a rule asks for behind a run begins with a character that ends a path. -/
theorem Inserts.exists_closing {before opening run closing rest : List α}
    (h : Inserts alphabet front back text before opening run closing rest)
    (hback : EndsPath alphabet back) :
    ∃ b right, closing ++ rest = b :: right ∧ endsPath (alphabet.read b) := by
  obtain ⟨closings, rfl, hfits⟩ := h.closing_fits
  obtain ⟨b, closing, hb, hends⟩ := hback closings hfits
  exact ⟨b, closing ++ rest, by rw [hb]; rfl, hends⟩

/-- A symbol is no path character if its character is none. -/
theorem not_path_of_read {a : α} {c : Char} (hread : alphabet.read a = c)
    (hc : isPathChar c = false) : (isPathChar ∘ alphabet.read) a = false := by
  rw [Function.comp_apply, hread, hc]

/-- A path in front of the run would have to begin at the `@`, or at the space behind the
name. -/
theorem tracked_opens (hsign : Attribute alphabet sign name) (hopens : Opens alphabet front)
    (hback : EndsPath alphabet back) (h : Tracked alphabet sign name stopWords post₀ text)
    (hreplace : (textRule alphabet front back).replace text = some text') :
    Tracked alphabet sign name stopWords post₀ text' := by
  obtain ⟨post, hstands, hfollows⟩ := h
  rcases hstands.textRule hsign hback hreplace with
    hbefore | ⟨before, opening, run, closing, rest, pre, more, hbehind, hwritten⟩
  · exact ⟨post, hbefore, hfollows⟩
  refine ⟨_, hwritten, ?_⟩
  obtain ⟨openings, hopening, hfits⟩ := hbehind.inserts.opening_fits
  obtain ⟨word, prev, c, hflatten, hc, hprev⟩ := hopens openings hfits
  have hleft : (before ++ word) ++ prev :: (c :: run) = pre ++ sign :: (name ++ more) := by
    rw [← hbehind.left_eq, ← hopening, hflatten]
    simp
  have hrun : ∀ a ∈ c :: run, (isPathChar ∘ alphabet.read) a := by
    intro a ha
    rcases List.mem_cons.1 ha with rfl | ha
    · exact isPathChar_of_isAttributeChar (by simp [isAttributeChar, hc])
    · exact hbehind.inserts.run_path a ha
  have hname : ∀ a ∈ name, (isPathChar ∘ alphabet.read) a := fun a ha =>
    isPathChar_of_isAttributeChar (hsign.name_chars a ha)
  have hsignPath := not_path_of_read hsign.read_sign (by decide)
  have hprevPath : (isPathChar ∘ alphabet.read) prev = false := by
    rcases hprev with hbracket | ⟨hspace, -⟩
    · exact not_path_of_read hbracket (by decide)
    · exact not_path_of_read hspace (by decide)
  have hmore : more ≠ [] := by
    rintro rfl
    rw [List.append_nil] at hleft
    obtain ⟨-, rfl, -⟩ := List.append_cons_inj_of_forall' hleft hrun hname hprevPath hsignPath
    rw [hsign.read_sign] at hprev
    exact absurd hprev (by simp)
  rw [hbehind.post_eq] at hfollows
  apply hfollows.write_text hmore
  intro stop hstop hbegins
  rcases List.mem_cons.1 hstop with rfl | hstop
  · exact closing_cut hmore hbegins
  rcases word_cut hstop hmore (hbehind.inserts.exists_closing hback) hbegins with
    hbefore | ⟨space, letters, rfl, hspace, hletters⟩
  · exact hbefore
  -- the path would be the word behind the name
  exfalso
  have hspaces : (before ++ word) ++ prev :: (c :: run) =
      (pre ++ sign :: name) ++ space :: letters := by
    rw [hleft]
    simp
  have hspacePath := not_path_of_read hspace (by decide)
  obtain ⟨hfronts, rfl, -⟩ :=
    List.append_cons_inj_of_forall' hspaces hrun hletters hprevPath hspacePath
  rcases hprev with hbracket | ⟨-, space', letters', rfl, hspace', hletters'⟩
  · rw [hspace] at hbracket
    exact absurd hbracket (by decide)
  · have hspacePath' := not_path_of_read hspace' (by decide)
    obtain ⟨-, rfl, -⟩ :=
      List.append_cons_inj_of_forall' hfronts hletters' hname hspacePath' hsignPath
    rw [hsign.read_sign] at hspace'
    exact absurd hspace' (by decide)

/-! ## The last two loops -/

/-- What is in front of the run in the last two rules. -/
def lookBack (alphabet : Alphabet α) : List (Atom α) :=
  [alphabet.symbol (· ≠ '@'), alphabet.symbol isPathStart]

/-- What is behind the run is one of some words. -/
def Closes (alphabet : Alphabet α) (back : List (Atom α)) (closers : List Str) : Prop :=
  ∀ closing, (∃ pieces, pieces.flatten = closing ∧ List.Forall₂ Atom.Fits back pieces) ↔
    alphabet.reads closing ∈ closers

/-- The attribute stands in the text, with one of the words behind it. -/
def Waiting (alphabet : Alphabet α) (sign : α) (name : List α) (closers : List Str)
    (text : List α) : Prop :=
  ∃ post, Stands sign name text post ∧ ∃ word ∈ closers, word <+: alphabet.reads post

/-- The attribute stands in the text, with `/text()` behind it. -/
def Reached (alphabet : Alphabet α) (sign : α) (name text : List α) : Prop :=
  ∃ post, Stands sign name text post ∧ Received alphabet post

theorem closes_beforeOrAndRule :
    Closes alphabet [alphabet.literal ' ', orAnd alphabet, alphabet.literal ' '] orAndWords := by
  intro closing
  constructor
  · rintro ⟨pieces, rfl, h⟩
    rcases h with _ | ⟨⟨space, rfl, hspace⟩, h⟩
    rcases h with _ | ⟨hletters, h⟩
    rcases h with _ | ⟨⟨space', rfl, hspace'⟩, h⟩
    rcases h with _ | _
    rename_i letters
    have hwords : ∀ letters ∈ (["or", "and"] : List Str),
        ' ' :: (letters ++ [' ']) ∈ orAndWords := by decide
    have hreads : alphabet.reads [[space], letters, [space']].flatten =
        ' ' :: (alphabet.reads letters ++ [' ']) := by
      have hread : alphabet.read space = ' ' := of_decide_eq_true hspace
      have hread' : alphabet.read space' = ' ' := of_decide_eq_true hspace'
      simp [Alphabet.reads, hread, hread']
    rw [hreads]
    exact hwords _ (orAnd_fits.1 hletters)
  · intro h
    have hwords : ∀ word ∈ orAndWords, ∃ letters ∈ (["or", "and"] : List Str),
        word = ' ' :: (letters ++ [' ']) := by decide
    obtain ⟨letters, hletters, hword⟩ := hwords _ h
    obtain ⟨space, others, rfl, hspace, hothers⟩ := List.map_eq_cons_iff.1 hword
    obtain ⟨middle, last, rfl, hmiddle, hlast⟩ := List.map_eq_append_iff.1 hothers
    obtain ⟨space', rfl, hspace'⟩ := List.map_eq_singleton_iff.1 hlast
    refine ⟨[[space], middle, [space']], by simp, .cons ⟨space, rfl, ?_⟩ (.cons ?_
      (.cons ⟨space', rfl, ?_⟩ .nil))⟩
    · exact decide_eq_true hspace
    · refine orAnd_fits.2 ?_
      rw [show alphabet.reads middle = letters from hmiddle]
      exact hletters
    · exact decide_eq_true hspace'

theorem closes_closingRule : Closes alphabet [alphabet.literal ']'] ["]"] := by
  intro closing
  constructor
  · rintro ⟨pieces, rfl, h⟩
    rcases h with _ | ⟨⟨bracket, rfl, hbracket⟩, h⟩
    rcases h with _ | _
    have hread : alphabet.read bracket = ']' := of_decide_eq_true hbracket
    simp [Alphabet.reads, hread]
  · intro h
    obtain ⟨bracket, rfl, hbracket⟩ := List.map_eq_singleton_iff.1 (List.mem_singleton.1 h)
    exact ⟨[[bracket]], rfl, .cons ⟨bracket, rfl, decide_eq_true hbracket⟩ .nil⟩

theorem exists_ends_of_mem_stopWords {word : Str} (h : word ∈ stopWords) :
    ∃ c rest, word = c :: rest ∧ endsPath c := by
  simp only [stopWords, orAndWords, List.mem_cons, List.not_mem_nil, or_false] at h
  rcases h with rfl | rfl | rfl
  · exact ⟨']', [], rfl, by decide⟩
  · exact ⟨' ', "or ", rfl, by decide⟩
  · exact ⟨' ', "and ", rfl, by decide⟩

section

variable {before opening run closing rest pre more : List α}

theorem lookBack_fits (h : ∃ pieces, pieces.flatten = opening ∧
    List.Forall₂ Atom.Fits (lookBack alphabet) pieces) :
    ∃ prev c, opening = [prev, c] ∧ alphabet.read prev ≠ '@' ∧ isPathStart (alphabet.read c) := by
  obtain ⟨pieces, rfl, hfits⟩ := h
  rcases hfits with _ | ⟨⟨prev, rfl, hprev⟩, hfits⟩
  rcases hfits with _ | ⟨⟨c, rfl, hc⟩, hfits⟩
  rcases hfits with _ | _
  exact ⟨prev, c, rfl, by simpa using hprev, hc⟩

/-- A match that ends directly behind the name begins inside of it. -/
theorem letterInside_of_behind (hsign : Attribute alphabet sign name)
    (h : Behind alphabet (lookBack alphabet) back sign name text post before opening run closing
      rest pre []) : letterInside (alphabet.reads name) = true := by
  obtain ⟨prev, c, rfl, hprev, hc⟩ := lookBack_fits h.inserts.opening_fits
  have hleft : (before ++ [prev]) ++ c :: run = pre ++ sign :: name := by
    simpa using h.left_eq
  rcases List.append_eq_append_cons hleft with ⟨others, -, hothers⟩ | ⟨others, hbefore, rfl⟩
  · have hmem : sign ∈ c :: run := by
      rw [hothers]
      simp
    rcases List.mem_cons.1 hmem with rfl | hmem
    · rw [hsign.read_sign] at hc
      exact absurd hc (by decide)
    · exact absurd hmem (hsign.not_mem_of_accepts (by decide) h.inserts.run_path)
  · apply letterInside_iff.2
    refine ⟨alphabet.reads others, alphabet.read c, alphabet.reads run, by simp [Alphabet.reads],
      ?_, ?_, hc⟩
    · intro hnil
      obtain rfl := List.map_eq_nil_iff.1 hnil
      obtain ⟨-, hlast⟩ := List.append_inj' hbefore rfl
      obtain rfl := List.head_eq_of_cons_eq hlast
      exact hprev hsign.read_sign
    · intro hnil
      exact h.inserts.run_ne_nil (List.map_eq_nil_iff.1 hnil)

/-- There is a match from inside of the name to a word behind it. -/
theorem exists_found {closers : List Str} (hcloses : Closes alphabet back closers)
    (hsign : Attribute alphabet sign name) (hletter : letterInside (alphabet.reads name) = true)
    {word : Str} (hword : word ∈ closers) (hbegins : word <+: alphabet.reads post)
    (htext : text = pre ++ sign :: (name ++ post)) :
    ∃ before pieces rest, before.length + 2 < (pre ++ sign :: name).length ∧
      (textRule alphabet (lookBack alphabet) back).Found text before pieces rest := by
  obtain ⟨front, c, last, hname, hfront, hlast, hc⟩ := letterInside_iff.1 hletter
  obtain ⟨fronts, others, rfl, rfl, hothers⟩ := List.map_eq_append_iff.1 hname
  obtain ⟨start, run, rfl, rfl, rfl⟩ := List.map_eq_cons_iff.1 hothers
  obtain ⟨front, prev, rfl⟩ := (List.eq_nil_or_concat' fronts).resolve_left (by
    rintro rfl
    exact hfront rfl)
  have hrun : run ≠ [] := by
    rintro rfl
    exact hlast rfl
  obtain ⟨afters, hafters⟩ := hbegins
  obtain ⟨closing, rest, rfl, rfl, -⟩ := List.map_eq_append_iff.1 hafters.symm
  have hinserts : Inserts alphabet (lookBack alphabet) back text (pre ++ sign :: front)
      [prev, start] run closing rest := by
    refine ⟨by rw [htext]; simp, ⟨[[prev], [start]], rfl, ?_⟩, hrun, ?_, ?_⟩
    · refine .cons ⟨prev, rfl, ?_⟩ (.cons ⟨start, rfl, hc⟩ .nil)
      have hchar := hsign.name_chars prev (by simp)
      rw [Function.comp_apply, decide_eq_true_iff]
      intro hread
      rw [hread] at hchar
      exact absurd hchar (by decide)
    · intro a ha
      exact isPathChar_of_isAttributeChar (hsign.name_chars a (by simp [ha]))
    · exact (hcloses closing).2 hword
  obtain ⟨pieces, -, hfound⟩ := hinserts.found
  refine ⟨pre ++ sign :: front, pieces, rest, ?_, hfound⟩
  have hpos := List.length_pos_iff.2 hrun
  simp only [List.length_append, List.length_cons, List.length_nil]
  omega

/-- The last character before a place where a rule writes is one of a path. -/
theorem Behind.exists_last (h : Behind alphabet front back sign name text post before opening run
    closing rest pre more) (hmore : more ≠ []) :
    ∃ more' last, more = more' ++ [last] ∧ isPathChar (alphabet.read last) := by
  obtain ⟨more, last, rfl⟩ := (List.eq_nil_or_concat' more).resolve_left hmore
  obtain ⟨run, last', rfl⟩ := (List.eq_nil_or_concat' run).resolve_left h.inserts.run_ne_nil
  have hleft : (before ++ (opening ++ run)) ++ [last'] =
      (pre ++ sign :: (name ++ more)) ++ [last] := by
    simpa using h.left_eq
  obtain ⟨-, hlast⟩ := List.append_inj' hleft rfl
  obtain rfl := List.head_eq_of_cons_eq hlast
  exact ⟨more, last', rfl, h.inserts.run_path last' (by simp)⟩

/-- No path ends inside of `/text()`. -/
theorem Received.of_cut {right : List α} (h : Received alphabet (more ++ right))
    (hmore : ∃ more' last, more = more' ++ [last] ∧ isPathChar (alphabet.read last))
    (hright : ∃ b right', right = b :: right' ∧ endsPath (alphabet.read b)) (text : List α) :
    Received alphabet (more ++ text) := by
  obtain ⟨more', last, hlast, hpath⟩ := hmore
  obtain ⟨b, right, rfl, hends⟩ := hright
  obtain ⟨others, hothers⟩ := h
  rcases List.append_eq_append_cons hothers with ⟨others', rfl, -⟩ | ⟨others', hwrites, -⟩
  · exact ⟨others' ++ text, by simp⟩
  · exfalso
    have htext : ("/text()" : Str) =
        alphabet.reads more ++ alphabet.read b :: alphabet.reads others' := by
      have hwritten : alphabet.reads (alphabet.writes "/text()") = "/text()" := reads_writes _
      rw [← hwritten, hwrites]
      simp [Alphabet.reads]
    have hplaces : ∀ n < 7, ∀ b ∈ ("/text()" : Str)[n]?, endsPath b →
        ∀ a ∈ (("/text()" : Str).take n).getLast?, isPathChar a = false := by decide
    have hlength : (alphabet.reads more).length < 7 := by
      have hwhole := congrArg List.length htext
      simp only [List.length_append, List.length_cons] at hwhole
      have hseven : ("/text()" : Str).length = 7 := rfl
      omega
    have hnone := hplaces _ hlength (alphabet.read b) (by rw [htext]; simp) hends
      (alphabet.read last) (by rw [htext, List.take_left, hlast]; simp [Alphabet.reads])
    rw [hpath] at hnone
    cases hnone

/-- Once it is there, `/text()` stays. -/
theorem reached_textRule (hsign : Attribute alphabet sign name) (hback : EndsPath alphabet back)
    (h : Reached alphabet sign name text)
    (hreplace : (textRule alphabet front back).replace text = some text') :
    Reached alphabet sign name text' := by
  obtain ⟨post, hstands, hreceived⟩ := h
  rcases hstands.textRule hsign hback hreplace with
    hbefore | ⟨before, opening, run, closing, rest, pre, more, hbehind, hwritten⟩
  · exact ⟨post, hbefore, hreceived⟩
  refine ⟨_, hwritten, ?_⟩
  have hclosing := hbehind.inserts.exists_closing hback
  by_cases hmore : more = []
  · subst hmore
    exact List.prefix_append _ _
  · rw [hbehind.post_eq] at hreceived
    exact hreceived.of_cut (hbehind.exists_last hmore) hclosing _

variable {closers : List Str}

/-- Where there is no letter inside of the name or no closing word behind it, the last two
rules do not write there. -/
theorem tracked_lookBack (hsign : Attribute alphabet sign name) (hback : EndsPath alphabet back)
    (hcloses : Closes alphabet back closers) (hclosers : closers ⊆ stopWords)
    (huntested : letterInside (alphabet.reads name) = true →
      ∀ word ∈ closers, ¬ word <+: alphabet.reads post₀)
    (h : Tracked alphabet sign name ["]"] post₀ text)
    (hreplace : (textRule alphabet (lookBack alphabet) back).replace text = some text') :
    Tracked alphabet sign name ["]"] post₀ text' := by
  obtain ⟨post, hstands, hfollows⟩ := h
  rcases hstands.textRule hsign hback hreplace with
    hbefore | ⟨before, opening, run, closing, rest, pre, more, hbehind, hwritten⟩
  · exact ⟨post, hbefore, hfollows⟩
  refine ⟨_, hwritten, ?_⟩
  have hmore : more ≠ [] := by
    rintro rfl
    have hword : alphabet.reads closing ∈ closers :=
      (hcloses closing).1 hbehind.inserts.closing_fits
    apply huntested (letterInside_of_behind hsign hbehind) _ hword
    apply hfollows.backward _ (hclosers hword)
    rw [hbehind.post_eq, List.nil_append, reads_append]
    exact List.prefix_append _ _
  rw [hbehind.post_eq] at hfollows
  apply hfollows.write_text hmore
  intro word hword hbegins
  obtain rfl := List.mem_singleton.1 hword
  exact closing_cut hmore hbegins

/-- Where there is a letter inside of the name and a closing word behind it, a rule that writes
behind the name writes directly behind it. -/
theorem waiting_lookBack (hsign : Attribute alphabet sign name) (hback : EndsPath alphabet back)
    (hcloses : Closes alphabet back closers) (hclosers : closers ⊆ stopWords)
    (hletter : letterInside (alphabet.reads name) = true)
    (h : Waiting alphabet sign name closers text)
    (hreplace : (textRule alphabet (lookBack alphabet) back).replace text = some text') :
    Waiting alphabet sign name closers text' ∨ Reached alphabet sign name text' := by
  obtain ⟨post, hstands, word, hword, hbegins⟩ := h
  rcases hstands.textRule hsign hback hreplace with
    hbefore | ⟨before, opening, run, closing, rest, pre, more, hbehind, hwritten⟩
  · exact Or.inl ⟨post, hbefore, word, hword, hbegins⟩
  by_cases hmore : more = []
  · subst hmore
    exact Or.inr ⟨_, hwritten, List.prefix_append _ _⟩
  exfalso
  obtain ⟨first, more, rfl⟩ := List.exists_cons_of_ne_nil hmore
  -- the first match begins inside of the name or farther ahead
  have htext : text = pre ++ sign :: (name ++ post) := by
    rw [hbehind.inserts.text_eq, hbehind.post_eq]
    have hleft := congrArg (· ++ (closing ++ rest)) hbehind.left_eq
    simpa using hleft
  obtain ⟨before', pieces, rest', hlength, hfound⟩ :=
    exists_found hcloses hsign hletter hword hbegins htext
  have hle := hbehind.leftmost before' pieces rest' hfound
  obtain ⟨prev, c, rfl, -, -⟩ := lookBack_fits hbehind.inserts.opening_fits
  -- and so its run would go on behind the name
  have hleft : (before ++ [prev, c]) ++ run = (pre ++ sign :: name) ++ first :: more := by
    simpa using hbehind.left_eq
  have hfirst : isPathChar (alphabet.read first) := by
    rcases List.append_eq_append_cons hleft with ⟨others, -, rfl⟩ | ⟨others, hbefore, -⟩
    · exact hbehind.inserts.run_path first (by simp)
    · have hlengths := congrArg List.length hbefore
      simp only [List.length_append, List.length_cons, List.length_nil] at hlengths hlength
      omega
  obtain ⟨d, others, rfl, hends⟩ := exists_ends_of_mem_stopWords (hclosers hword)
  rw [hbehind.post_eq] at hbegins
  obtain ⟨hd, -⟩ := List.cons_prefix_cons.1 hbegins
  rw [← hd, not_isPathChar_of_endsPath hends] at hfirst
  cases hfirst

/-- At the end of its loop, a rule has found every name that waits for it. -/
theorem reached_exhaust (hsign : Attribute alphabet sign name) (hback : EndsPath alphabet back)
    (hcloses : Closes alphabet back closers) (hclosers : closers ⊆ stopWords)
    (hletter : letterInside (alphabet.reads name) = true)
    (h : Waiting alphabet sign name closers text) {rounds : ℕ}
    (hrun : (textRule alphabet (lookBack alphabet) back).exhaust rounds text = some text') :
    Reached alphabet sign name text' := by
  obtain ⟨hend, hnone⟩ := Rule.exhaust_invariant
    (P := fun text => Waiting alphabet sign name closers text ∨ Reached alphabet sign name text)
    (Or.inl h) (fun text next hstate hreplace => by
      rcases hstate with hwaiting | hreached
      · exact waiting_lookBack hsign hback hcloses hclosers hletter hwaiting hreplace
      · exact Or.inr (reached_textRule hsign hback hreached hreplace)) hrun
  rcases hend with ⟨post, ⟨pre, htext, -⟩, word, hword, hbegins⟩ | hreached
  · obtain ⟨before, pieces, rest, -, hfound⟩ :=
      exists_found hcloses hsign hletter hword hbegins htext
    exact absurd hfound (Rule.replace_eq_none_iff.1 hnone before pieces rest)
  · exact hreached

end

/-! ## The five loops -/

theorem whileReplace_eq_ok {rule : Rule α} {rounds : ℕ}
    (h : whileReplace rounds text rule = .ok text') : rule.exhaust rounds text = some text' := by
  rw [whileReplace] at h
  cases hexhaust : rule.exhaust rounds text with
  | none =>
      rw [hexhaust] at h
      cases h
  | some result =>
      rw [hexhaust] at h
      exact congrArg some (Except.ok.inj h)

/-- The texts between the loops. -/
theorem rewriteSegment_eq_ok {rounds : ℕ} (h : rewriteSegment alphabet rounds text = .ok text') :
    ∃ ids brackets afters befores,
      (idRule alphabet).exhaust rounds text = some ids ∧
      (bracketRule alphabet).exhaust rounds ids = some brackets ∧
      (afterOrAndRule alphabet).exhaust rounds brackets = some afters ∧
      (beforeOrAndRule alphabet).exhaust rounds afters = some befores ∧
      (closingRule alphabet).exhaust rounds befores = some text' := by
  simp only [rewriteSegment, rules, List.foldlM_cons, List.foldlM_nil] at h
  obtain ⟨ids, hids, h⟩ := Outcome.bind_eq_ok.1 h
  obtain ⟨brackets, hbrackets, h⟩ := Outcome.bind_eq_ok.1 h
  obtain ⟨afters, hafters, h⟩ := Outcome.bind_eq_ok.1 h
  obtain ⟨befores, hbefores, h⟩ := Outcome.bind_eq_ok.1 h
  obtain ⟨closed, hclosed, h⟩ := Outcome.bind_eq_ok.1 h
  obtain rfl := Except.ok.inj h
  exact ⟨ids, brackets, afters, befores, whileReplace_eq_ok hids, whileReplace_eq_ok hbrackets,
    whileReplace_eq_ok hafters, whileReplace_eq_ok hbefores, whileReplace_eq_ok hclosed⟩

/-- A name that is tested gets `/text()`; behind any other there is nothing that the rules
write for a name. -/
theorem rewriteSegment_attribute (hsign : Attribute alphabet sign name)
    (h : Stands sign name text post₀) (hclear : Clear alphabet post₀) {rounds : ℕ}
    (hrun : rewriteSegment alphabet rounds text = .ok text') :
    ∃ post, Stands sign name text' post ∧
      (Tested (alphabet.reads name) (alphabet.reads post₀) → Received alphabet post) ∧
      (¬ Tested (alphabet.reads name) (alphabet.reads post₀) → Clear alphabet post) := by
  obtain ⟨ids, brackets, afters, befores, hids, hbrackets, hafters, hbefores, hclosed⟩ :=
    rewriteSegment_eq_ok hrun
  have hspaceEnds :
      EndsPath alphabet [alphabet.literal ' ', orAnd alphabet, alphabet.literal ' '] :=
    endsPath_literal (by decide) _
  have hbracketEnds : EndsPath alphabet [alphabet.literal ']'] := endsPath_literal (by decide) _
  have horAnd : orAndWords ⊆ stopWords := List.subset_cons_self _ _
  have hbracket : (["]"] : List Str) ⊆ stopWords := by decide
  have hstart : Tracked alphabet sign name stopWords post₀ text :=
    ⟨post₀, h, hclear, fun _ _ hbegins => hbegins, fun _ _ hbegins => hbegins⟩
  have hstart := (Rule.exhaust_invariant hstart (fun _ _ => tracked_idRule hsign) hids).1
  have hstart := (Rule.exhaust_invariant hstart
    (fun _ _ => tracked_opens hsign opens_bracketRule endsPath_symbol) hbrackets).1
  obtain ⟨post, hstands, hfollows⟩ := (Rule.exhaust_invariant hstart
    (fun _ _ => tracked_opens hsign opens_afterOrAndRule endsPath_symbol) hafters).1
  have hdone : Reached alphabet sign name text' →
      Tested (alphabet.reads name) (alphabet.reads post₀) →
      ∃ post, Stands sign name text' post ∧
        (Tested (alphabet.reads name) (alphabet.reads post₀) → Received alphabet post) ∧
        (¬ Tested (alphabet.reads name) (alphabet.reads post₀) → Clear alphabet post) :=
    fun ⟨post, hstands, hreceived⟩ htested =>
      ⟨post, hstands, fun _ => hreceived, fun huntested => absurd htested huntested⟩
  by_cases horTested : letterInside (alphabet.reads name) = true ∧
      ∃ word ∈ orAndWords, word <+: alphabet.reads post₀
  -- the fourth loop writes behind the name
  · obtain ⟨hletter, word, hword, hbegins⟩ := horTested
    have hwaiting : Waiting alphabet sign name orAndWords afters :=
      ⟨post, hstands, word, hword, hfollows.forward word (horAnd hword) hbegins⟩
    have hbegin : Reached alphabet sign name befores :=
      reached_exhaust hsign hspaceEnds closes_beforeOrAndRule horAnd hletter hwaiting hbefores
    exact hdone (Rule.exhaust_invariant hbegin
      (fun _ _ => reached_textRule hsign hbracketEnds) hclosed).1
      ⟨hletter, word, horAnd hword, hbegins⟩
  have hbegin : Tracked alphabet sign name ["]"] post₀ afters :=
    ⟨post, hstands, hfollows.mono hbracket⟩
  have hbegin : Tracked alphabet sign name ["]"] post₀ befores :=
    (Rule.exhaust_invariant hbegin (fun _ _ => tracked_lookBack hsign hspaceEnds
      closes_beforeOrAndRule horAnd fun hletter word hword hbegins =>
        horTested ⟨hletter, word, hword, hbegins⟩) hbefores).1
  by_cases hclosing : letterInside (alphabet.reads name) = true ∧
      ("]" : Str) <+: alphabet.reads post₀
  -- the last loop does
  · obtain ⟨hletter, hbegins⟩ := hclosing
    obtain ⟨post', hstands', hfollows'⟩ := hbegin
    have hmem : ("]" : Str) ∈ (["]"] : List Str) := List.mem_singleton_self _
    have hwaiting : Waiting alphabet sign name ["]"] befores :=
      ⟨post', hstands', "]", hmem, hfollows'.forward _ hmem hbegins⟩
    exact hdone (reached_exhaust hsign hbracketEnds closes_closingRule hbracket hletter
      hwaiting hclosed) ⟨hletter, "]", hbracket hmem, hbegins⟩
  -- no loop does
  · obtain ⟨post', hstands', hfollows'⟩ :=
      (Rule.exhaust_invariant hbegin (fun _ _ => tracked_lookBack hsign hbracketEnds
        closes_closingRule hbracket fun hletter word hword hbegins => by
          obtain rfl := List.mem_singleton.1 hword
          exact hclosing ⟨hletter, hbegins⟩) hclosed).1
    refine ⟨post', hstands', fun ⟨hletter, word, hword, hbegins⟩ => ?_, fun _ => hfollows'.clear⟩
    rcases List.mem_cons.1 hword with rfl | hword
    · exact absurd ⟨hletter, hbegins⟩ hclosing
    · exact absurd ⟨hletter, word, hword, hbegins⟩ horTested

end

end VaeDb.Query
