import VaeDb.Query.Constructor

/-!
# The expression of symbols that carry more

The rules look at characters only, so that a symbol that also carries something else gets
what its character gets.  `expression_map` says so for the whole expression: whatever symbols
a query is written with, the expression of the characters is the characters of the expression.

Characters can so be followed with their places in the query (`placed`); a character that a
rule has written has none.
-/

namespace VaeDb.Query

open Patterns

/-! ## Symbols for symbols -/

section

variable {α β : Type} {alphabet : Alphabet α} {alphabet' : Alphabet β} {f : α → β}

/-- Symbols are read and written as the symbols that they stand for. -/
structure StandsFor (alphabet : Alphabet α) (alphabet' : Alphabet β) (f : α → β) : Prop where
  read : ∀ a, alphabet'.read (f a) = alphabet.read a
  write : ∀ c, f (alphabet.write c) = alphabet'.write c

namespace StandsFor

variable (h : StandsFor alphabet alphabet' f)

include h

theorem read_comp : alphabet'.read ∘ f = alphabet.read :=
  funext h.read

theorem map_reads (text : List α) : alphabet'.reads (text.map f) = alphabet.reads text := by
  unfold Alphabet.reads
  rw [List.map_map, h.read_comp]

theorem map_writes (text : Str) : (alphabet.writes text).map f = alphabet'.writes text := by
  unfold Alphabet.writes
  rw [List.map_map]
  exact List.map_congr_left fun c _ => h.write c

theorem symbol (accepts : Char → Bool) :
    alphabet.symbol accepts = (alphabet'.symbol accepts).comap f := by
  rw [Alphabet.symbol, Alphabet.symbol, Atom.comap, Function.comp_assoc, h.read_comp]

theorem run (accepts : Char → Bool) :
    alphabet.run accepts = (alphabet'.run accepts).comap f := by
  rw [Alphabet.run, Alphabet.run, Atom.comap, Function.comp_assoc, h.read_comp]

theorem literal (c : Char) : alphabet.literal c = (alphabet'.literal c).comap f := by
  rw [Alphabet.literal, Alphabet.literal, Atom.comap]
  congr 1
  funext a
  simp only [Function.comp_apply, h.read]

theorem word (text : Str) : alphabet.word text = (alphabet'.word text).map (· ∘ f) := by
  unfold Alphabet.word
  rw [List.map_map]
  refine List.map_congr_left fun c _ => funext fun a => ?_
  simp only [Function.comp_apply, h.read]

theorem orAnd : Query.orAnd alphabet = (Query.orAnd alphabet').comap f := by
  rw [Query.orAnd, Query.orAnd, Atom.comap, h.word, h.word]
  rfl

theorem idRule : Rule.Maps f (idRule alphabet) (idRule alphabet') where
  atoms := by
    simp only [Query.idRule, List.map_cons, List.map_nil, h.literal, h.run]
  rewrite := by
    intro pieces
    rcases pieces with _ | ⟨slash, _ | ⟨digits, _ | ⟨more, others⟩⟩⟩
    · rfl
    · simp [Query.idRule]
    · simp [Query.idRule, h.map_writes]
    · simp [Query.idRule]

theorem textRule {front back : List (Atom α)} {front' back' : List (Atom β)}
    (hfront : front = front'.map (Atom.comap f)) (hback : back = back'.map (Atom.comap f)) :
    Rule.Maps f (textRule alphabet front back) (textRule alphabet' front' back') where
  atoms := by
    simp only [Query.textRule, hfront, hback, List.map_append, List.map_cons, h.run]
  rewrite := by
    intro pieces
    simp only [Query.textRule, hfront, List.map_append, List.map_flatten, List.map_take,
      List.map_drop, h.map_writes, List.length_map]

theorem rules : List.Forall₂ (Rule.Maps f) (rules alphabet) (rules alphabet') := by
  refine .cons h.idRule (.cons ?_ (.cons ?_ (.cons ?_ (.cons ?_ .nil))))
  all_goals
    apply h.textRule
    all_goals
      simp only [List.map_cons, List.map_nil]
      simp only [← h.literal, ← h.symbol, ← h.orAnd]

omit h in
theorem whileReplace {rule : Rule α} {rule' : Rule β} (hrule : Rule.Maps f rule rule')
    (rounds : ℕ) (part : List α) :
    List.map f <$> whileReplace rounds part rule =
      Query.whileReplace rounds (part.map f) rule' := by
  rw [Query.whileReplace, Query.whileReplace, ← hrule.exhaust]
  cases rule.exhaust rounds part <;> rfl

theorem rewriteSegment (rounds : ℕ) (part : List α) :
    List.map f <$> rewriteSegment alphabet rounds part =
      Query.rewriteSegment alphabet' rounds (part.map f) := by
  unfold Query.rewriteSegment
  have hrules := h.rules
  generalize Query.rules alphabet = before at hrules ⊢
  generalize Query.rules alphabet' = after at hrules ⊢
  induction hrules generalizing part with
  | nil => rfl
  | cons hrule _ ih =>
      rw [List.foldlM_cons, List.foldlM_cons, ← whileReplace hrule rounds part]
      cases Query.whileReplace rounds part _ with
      | ok part => exact ih part
      | error fault => rfl

theorem contains (needle : Str) (text : List α) :
    contains alphabet' needle (text.map f) = contains alphabet needle text := by
  rw [Query.contains, Query.contains, h.map_reads]

theorem splitAt (separator : Char) (text : List α) :
    splitAt alphabet' separator (text.map f) =
      (splitAt alphabet separator text).map (List.map f) := by
  unfold Query.splitAt
  induction text with
  | nil => rfl
  | cons a text ih =>
      rw [List.map_cons, List.splitOnP_cons_eq_if_modifyHead,
        List.splitOnP_cons_eq_if_modifyHead, h.read, ih]
      split
      · rfl
      · cases List.splitOnP _ text <;> rfl

theorem join (separator : Char) (parts : List (List α)) :
    join alphabet' separator (parts.map (List.map f)) =
      (join alphabet separator parts).map f := by
  unfold Query.join
  induction parts with
  | nil => rfl
  | cons part parts ih =>
      cases parts with
      | nil => simp
      | cons other others =>
          rw [List.map_cons] at ih
          rw [List.map_cons, List.map_cons, List.intercalate_cons_cons, ih,
            List.intercalate_cons_cons]
          simp [h.write]

theorem rewriteParts (rounds : ℕ) (outside : Bool) (parts : List (List α)) :
    List.map (List.map f) <$> rewriteParts alphabet rounds outside parts =
      Query.rewriteParts alphabet' rounds outside (parts.map (List.map f)) := by
  induction parts generalizing outside with
  | nil => cases outside <;> rfl
  | cons part parts ih =>
      cases outside with
      | false =>
          rw [List.map_cons, Query.rewriteParts, Query.rewriteParts, ← ih]
          cases Query.rewriteParts alphabet rounds true parts <;> rfl
      | true =>
          rw [List.map_cons, Query.rewriteParts, Query.rewriteParts, ← h.rewriteSegment]
          cases Query.rewriteSegment alphabet rounds part with
          | error fault => rfl
          | ok part =>
              change List.map (List.map f) <$> (if _ then _ else _) = if _ then _ else _
              rw [h.contains, ← ih]
              split
              · rfl
              · cases Query.rewriteParts alphabet rounds false parts <;> rfl

theorem hackFirst (query : List α) :
    (hackFirst alphabet query).map f = Query.hackFirst alphabet' (query.map f) := by
  rw [Query.hackFirst, Query.hackFirst, h.contains, h.contains, h.splitAt]
  split
  · cases Query.splitAt alphabet '/' query with
    | nil => rfl
    | cons first others =>
        simp only [List.map_cons, h.contains]
        split
        · rw [← h.join, List.map_cons, List.map_append, h.map_writes]
        · rfl
  · rfl

/-- The expression of symbols, and of the symbols that they stand for. -/
theorem expression (rounds : ℕ) (query : List α) :
    List.map f <$> expression alphabet rounds query =
      Query.expression alphabet' rounds (query.map f) := by
  rw [Query.expression, Query.expression, h.splitAt, ← h.rewriteParts]
  cases Query.rewriteParts alphabet rounds true (Query.splitAt alphabet '\'' query) with
  | error fault => rfl
  | ok parts =>
      change Except.ok ((Query.hackFirst alphabet (Query.join alphabet '\'' parts)).map f) = _
      rw [h.hackFirst, ← h.join]
      rfl

end StandsFor

end

/-! ## Characters with their places -/

/-- Characters, each with its place in the query if it has one. -/
def placed : Alphabet (Char × Option ℕ) := ⟨Prod.fst, fun c => (c, none), fun _ => rfl⟩

/-- The characters of a text, with their places from `n` on. -/
def placeFrom (n : ℕ) : Str → List (Char × Option ℕ)
  | [] => []
  | c :: text => (c, some n) :: placeFrom (n + 1) text

/-- The characters of a query with their places. -/
def place (query : Str) : List (Char × Option ℕ) := placeFrom 0 query

theorem standsFor_placed : StandsFor placed characters Prod.fst := ⟨fun _ => rfl, fun _ => rfl⟩

theorem reads_placeFrom (n : ℕ) (text : Str) : placed.reads (placeFrom n text) = text := by
  induction text generalizing n with
  | nil => rfl
  | cons c text ih => exact congrArg (c :: ·) (ih (n + 1))

theorem placeFrom_append (n : ℕ) (text text' : Str) :
    placeFrom n (text ++ text') = placeFrom n text ++ placeFrom (n + text.length) text' := by
  induction text generalizing n with
  | nil => rfl
  | cons c text ih =>
      rw [List.cons_append, placeFrom, placeFrom, ih, List.cons_append, List.length_cons,
        Nat.add_assoc, Nat.add_comm 1]

theorem exists_of_mem_placeFrom {n : ℕ} {text : Str} {a : Char × Option ℕ}
    (h : a ∈ placeFrom n text) : ∃ i, n ≤ i ∧ i < n + text.length ∧ a.2 = some i := by
  induction text generalizing n with
  | nil => cases h
  | cons c text ih =>
      rw [placeFrom, List.mem_cons] at h
      rw [List.length_cons]
      rcases h with rfl | h
      · exact ⟨n, Nat.le_refl n, by omega, rfl⟩
      · obtain ⟨i, hlow, hhigh, hi⟩ := ih h
        exact ⟨i, by omega, by omega, hi⟩

/-- The expression for a query, with the places that its characters had in the query. -/
theorem expression_place {rounds : ℕ} {query expr : Str}
    (h : expression characters rounds query = .ok expr) :
    ∃ marked, expression placed rounds (place query) = .ok marked ∧
      marked.map Prod.fst = expr := by
  have hmap := standsFor_placed.expression rounds (place query)
  have hread : (place query).map Prod.fst = query := reads_placeFrom 0 query
  rw [hread, h] at hmap
  cases hmarked : expression placed rounds (place query) with
  | error fault =>
      rw [hmarked] at hmap
      cases hmap
  | ok marked =>
      rw [hmarked] at hmap
      exact ⟨marked, rfl, Except.ok.inj hmap⟩

end VaeDb.Query
