import VaeDb.Library.Patterns
import VaeDb.Query.QueryCache
import VaeDb.Response.Order
import VaeDb.Site.Feed

/-!
# The constructor of `Query`

From the text of a query to the XPath expression that is evaluated: a leading slash, a
permalink or an id at the beginning, `prev()` and `next()`, then the loops that replace in
what is outside of single quotes, and a predicate for the first component of a path without
any.

```text
/([0-9]+)                                     ↦  [@id='\1']
\[([_a-z])([a-z0-9_/]+)([^(a-z0-9_/])         ↦  [\1\2/text()\3
 (or|and) ([_a-z])([a-z0-9_/]+)([^(a-z0-9_/]) ↦   \1 \2\3/text()\4
([^@])([_a-z])([0-9a-z_/]+) (or|and)          ↦  \1\2\3/text() \4
([^@])([_a-z])([0-9a-z_/]+)\]                 ↦  \1\2\3/text()]
```

The last four write `/text()` behind a run of path characters and keep everything that they
match (`textRule`).

The rules are stated for symbols that are read as characters, so that a symbol can also say
where it comes from.  `idRule_replace` and `textRule_found` say what they do with a text.
-/

namespace VaeDb.Query

open Patterns

/-! ## Symbols -/

/-- Symbols that are read as characters, and those that are written for characters. -/
structure Alphabet (α : Type) where
  read : α → Char
  write : Char → α
  read_write : ∀ c, read (write c) = c

/-- Characters. -/
def characters : Alphabet Char := ⟨id, id, fun _ => rfl⟩

variable {α : Type} (alphabet : Alphabet α)

namespace Alphabet

/-- The symbols of a text that is written. -/
def writes (text : Str) : List α := text.map alphabet.write

/-- The characters of some symbols. -/
def reads (text : List α) : Str := text.map alphabet.read

/-- A literal character of a pattern. -/
def literal (c : Char) : Atom α := .one fun a => alphabet.read a = c

/-- A character of a class. -/
def symbol (accepts : Char → Bool) : Atom α := .one (accepts ∘ alphabet.read)

/-- One or more characters of a class. -/
def run (accepts : Char → Bool) : Atom α := .many (accepts ∘ alphabet.read)

/-- The characters of a word. -/
def word (text : Str) : List (α → Bool) := text.map fun c a => alphabet.read a = c

end Alphabet

/-! ## The rules -/

/-- `[_a-z]`. -/
def isPathStart (c : Char) : Bool := c = '_' || c.isLower

/-- `[a-z0-9_/]`. -/
def isPathChar (c : Char) : Bool := isPathStart c || c.isDigit || c = '/'

/-- `[^(a-z0-9_/]`. -/
def endsPath (c : Char) : Bool := c ≠ '(' && !isPathChar c

/-- `(or|and)`. -/
def orAnd : Atom α := .words [alphabet.word "or", alphabet.word "and"]

/-- `/([0-9]+)` is replaced by `[@id='\1']`. -/
def idRule : Rule α where
  atoms := [alphabet.literal '/', alphabet.run Char.isDigit]
  rewrite
    | [_, digits] => alphabet.writes "[@id='" ++ digits ++ alphabet.writes "']"
    | pieces => pieces.flatten

/-- `([a-z0-9_/]+)` between other atoms, and `/text()` written behind it. -/
def textRule (front back : List (Atom α)) : Rule α where
  atoms := front ++ alphabet.run isPathChar :: back
  rewrite pieces :=
    (pieces.take (front.length + 1)).flatten ++
      (alphabet.writes "/text()" ++ (pieces.drop (front.length + 1)).flatten)

/-- `\[([_a-z])([a-z0-9_/]+)([^(a-z0-9_/])`. -/
def bracketRule : Rule α :=
  textRule alphabet [alphabet.literal '[', alphabet.symbol isPathStart]
    [alphabet.symbol endsPath]

/-- ` (or|and) ([_a-z])([a-z0-9_/]+)([^(a-z0-9_/])`. -/
def afterOrAndRule : Rule α :=
  textRule alphabet
    [alphabet.literal ' ', orAnd alphabet, alphabet.literal ' ', alphabet.symbol isPathStart]
    [alphabet.symbol endsPath]

/-- `([^@])([_a-z])([0-9a-z_/]+) (or|and) `. -/
def beforeOrAndRule : Rule α :=
  textRule alphabet [alphabet.symbol (· ≠ '@'), alphabet.symbol isPathStart]
    [alphabet.literal ' ', orAnd alphabet, alphabet.literal ' ']

/-- `([^@])([_a-z])([0-9a-z_/]+)\]`. -/
def closingRule : Rule α :=
  textRule alphabet [alphabet.symbol (· ≠ '@'), alphabet.symbol isPathStart]
    [alphabet.literal ']']

/-- The rules, in the order of their loops. -/
def rules : List (Rule α) :=
  [idRule alphabet, bracketRule alphabet, afterOrAndRule alphabet, beforeOrAndRule alphabet,
    closingRule alphabet]

/-! ## The expression -/

/-- `while (RE(..).Replace(.., &part)) { }`, within so many rounds. -/
def whileReplace (rounds : ℕ) (part : List α) (rule : Rule α) : Outcome (List α) :=
  match rule.exhaust rounds part with
  | some part => pure part
  | none => throw .unfinished

/-- The five loops. -/
def rewriteSegment (rounds : ℕ) (part : List α) : Outcome (List α) :=
  (rules alphabet).foldlM (whileReplace rounds) part

/-- `strstr(text.c_str(), needle) != NULL`. -/
def contains (needle : Str) (text : List α) : Bool :=
  needle <:+: Response.cString (alphabet.reads text)

/-- `boost::split` at one character. -/
def splitAt (separator : Char) (text : List α) : List (List α) :=
  text.splitOnP fun a => alphabet.read a = separator

/-- `boost::join`. -/
def join (separator : Char) (parts : List (List α)) : List α :=
  [alphabet.write separator].intercalate parts

/-- The loop over the parts between single quotes, every second of which is quoted. -/
def rewriteParts (rounds : ℕ) : Bool → List (List α) → Outcome (List (List α))
  | _, [] => pure []
  | false, part :: parts => do
      let parts ← rewriteParts rounds true parts
      return part :: parts
  | true, part :: parts => do
      let part ← rewriteSegment alphabet rounds part
      if contains alphabet "//" part then
        throw (.vaeDbQueryError "Double-slashes are not supported in Vae queries.")
      else
        let parts ← rewriteParts rounds false parts
        return part :: parts

/-- The predicate that the first component of a path gets if there is none. -/
def hackFirst (query : List α) : List α :=
  if contains alphabet "/" query && !contains alphabet "[" query then
    match splitAt alphabet '/' query with
    | first :: others =>
        if !contains alphabet "." first then
          join alphabet '/' ((first ++ alphabet.writes "[@id!='']") :: others)
        else query
    | [] => query
  else query

/-- The expression for a query, from the rewriting step on. -/
def expression (rounds : ℕ) (query : List α) : Outcome (List α) := do
  let parts ← rewriteParts alphabet rounds true (splitAt alphabet '\'' query)
  return hackFirst alphabet (join alphabet '\'' parts)

/-! ## The constructor -/

/-- What the constructor reads of a Site. -/
structure Document (Node Context : Type) where
  permalinks : Str → Option Node
  nodes : ℤ → Option Node
  _private : Node → Option Context
  getNodeName : Context → Option Str

/-- How the constructor ends: with a result of its own, or in `runQuery`. -/
inductive Constructed (Node Context : Type)
  | result (node : Option Node)
  | runQuery (context : Option Context) (query displayQuery : Str)
  deriving DecidableEq

variable {Node Context : Type} (document : Document Node Context)

/-- A full match of `permalink/(.*)`. -/
def permalinkPath (query : Str) : Option Str :=
  let opening : Str := "permalink/"
  if opening <+: query ∧ '\n' ∉ query then some (query.drop opening.length) else none

/-- A full match of `([0-9]+)(/.*|)`. -/
def idPath (query : Str) : Option (Str × Str) :=
  let id := query.takeWhile Char.isDigit
  let rest := query.dropWhile Char.isDigit
  if id ≠ [] ∧ (rest = [] ∨ rest.head? = some '/' ∧ '\n' ∉ rest) then some (id, rest) else none

/-- The loop over the beginnings of a permalink, the longest first: a node, or a Context and
the query that is left. -/
def findPermalink (pathParts : List Str) : ℕ → Option Node ⊕ (Option Context × Str)
  | 0 => .inl none
  | i + 1 =>
      match document.permalinks (join characters '/' (pathParts.take (i + 1))) with
      | some node =>
          if i + 1 = pathParts.length then .inl (some node)
          else .inr (document._private node, join characters '/' (pathParts.drop (i + 1)))
      | none => findPermalink pathParts i

/-- `prev()` and `next()`. -/
def sibling (name : Str) (axis : Str) (error : Str) (context : Option Context) (query : Str) :
    Outcome Str :=
  if Response.caseless (Response.cString query) = name then
    match context.bind document.getNodeName with
    | some nodeName => pure (axis ++ ("::" : Str) ++ nodeName ++ ("[1]" : Str))
    | none => throw (.vaeDbQueryError error)
  else pure query

/-- The constructor of `Query` from `prev()` on. -/
def constructPath (rounds : ℕ) (context : Option Context) (query q : Str) :
    Outcome (Constructed Node Context) := do
  let query ← sibling document "prev()" "preceding-sibling"
    "You cannot use PREV() outside of a context." context query
  let query ← sibling document "next()" "following-sibling"
    "You cannot use NEXT() outside of a context." context query
  let query ← expression characters rounds query
  return .runQuery context query q

/-- The constructor of `Query` from the id on. -/
def constructId (rounds : ℕ) (context : Option Context) (query q : Str) :
    Outcome (Constructed Node Context) :=
  match idPath query with
  | some (id, query) =>
      match document.nodes (atoi id), query with
      | some node, _ :: query => constructPath document rounds (document._private node) query q
      | found, _ => pure (.result found)
  | none => constructPath document rounds context query q

/-- The constructor of `Query` from the permalink on. -/
def constructPermalink (rounds : ℕ) (context : Option Context) (query q : Str) :
    Outcome (Constructed Node Context) :=
  match permalinkPath query with
  | some permalink =>
      let pathParts := splitAt characters '/' permalink
      match findPermalink document pathParts pathParts.length with
      | .inl node => pure (.result node)
      | .inr (context, query) => constructId document rounds context query q
  | none => constructId document rounds context query q

/-- The constructor of `Query`, up to `runQuery`. -/
def construct (rounds : ℕ) (context : Option Context) (q : Str) :
    Outcome (Constructed Node Context) :=
  match q with
  | '/' :: query => constructPermalink document rounds none query q
  | query => constructPermalink document rounds context query q

/-! ## What a rule does -/

section

variable {alphabet} {text text' : List α} {front back : List (Atom α)}

theorem reads_writes (text : Str) : alphabet.reads (alphabet.writes text) = text := by
  unfold Alphabet.reads Alphabet.writes
  rw [List.map_map]
  conv_rhs => rw [← List.map_id text]
  exact List.map_congr_left fun c _ => alphabet.read_write c

theorem reads_append (text text' : List α) :
    alphabet.reads (text ++ text') = alphabet.reads text ++ alphabet.reads text' :=
  List.map_append ..

theorem length_reads (alphabet : Alphabet α) (text : List α) :
    (alphabet.reads text).length = text.length :=
  List.length_map _

/-- The parts of a place where `idRule` matches. -/
theorem idRule_found {before rest : List α} {pieces : List (List α)}
    (h : (idRule alphabet).Found text before pieces rest) :
    ∃ slash digits, pieces = [[slash], digits] ∧ alphabet.read slash = '/' ∧ digits ≠ [] ∧
      (∀ a ∈ digits, (alphabet.read a).isDigit) ∧ text = before ++ (slash :: (digits ++ rest)) := by
  obtain ⟨htext, hfits⟩ := h
  rcases hfits with _ | ⟨⟨slash, rfl, hslash⟩, hfits⟩
  rcases hfits with _ | ⟨⟨hne, hdigits⟩, hfits⟩
  rcases hfits with _ | _
  refine ⟨slash, _, rfl, by simpa using hslash, hne, hdigits, ?_⟩
  simpa using htext

/-- What `idRule` writes. -/
theorem idRule_replace (h : (idRule alphabet).replace text = some text') :
    ∃ before slash digits rest, alphabet.read slash = '/' ∧ digits ≠ [] ∧
      (∀ a ∈ digits, (alphabet.read a).isDigit) ∧ text = before ++ (slash :: (digits ++ rest)) ∧
      text' =
        before ++ (alphabet.writes "[@id='" ++ (digits ++ (alphabet.writes "']" ++ rest))) := by
  obtain ⟨before, pieces, rest, hfound, rfl, -⟩ := Rule.replace_eq_some h
  obtain ⟨slash, digits, rfl, hslash, hne, hdigits, htext⟩ := idRule_found hfound
  refine ⟨before, slash, digits, rest, hslash, hne, hdigits, htext, ?_⟩
  simp [idRule]

/-- A place where a `textRule` matches: what is before the run, the run, and what is behind. -/
structure Inserts (alphabet : Alphabet α) (front back : List (Atom α)) (text : List α)
    (before opening run closing rest : List α) : Prop where
  text_eq : text = before ++ (opening ++ (run ++ (closing ++ rest)))
  opening_fits : ∃ pieces, pieces.flatten = opening ∧ List.Forall₂ Atom.Fits front pieces
  run_ne_nil : run ≠ []
  run_path : ∀ a ∈ run, isPathChar (alphabet.read a)
  closing_fits : ∃ pieces, pieces.flatten = closing ∧ List.Forall₂ Atom.Fits back pieces

theorem textRule_found {before rest : List α} {pieces : List (List α)}
    (h : (textRule alphabet front back).Found text before pieces rest) :
    ∃ opening run closing, pieces.flatten = opening ++ (run ++ closing) ∧
      Inserts alphabet front back text before opening run closing rest ∧
      (textRule alphabet front back).rewrite pieces =
        opening ++ (run ++ (alphabet.writes "/text()" ++ closing)) := by
  obtain ⟨htext, hfits⟩ := h
  obtain ⟨openings, others, hopening, hothers, rfl⟩ :
      ∃ openings others, List.Forall₂ Atom.Fits front openings ∧
        List.Forall₂ Atom.Fits (alphabet.run isPathChar :: back) others ∧
        pieces = openings ++ others := by
    refine ⟨pieces.take front.length, pieces.drop front.length, ?_, ?_,
      (List.take_append_drop ..).symm⟩
    · simpa [textRule] using List.forall₂_take front.length hfits
    · simpa [textRule] using List.forall₂_drop front.length hfits
  rcases hothers with _ | ⟨⟨hne, hrun⟩, hclosing⟩
  rename_i run closings
  have hlength : front.length = openings.length := hopening.length_eq
  refine ⟨openings.flatten, run, closings.flatten, by simp, ⟨?_, ⟨openings, rfl, hopening⟩, hne,
    hrun, ⟨closings, rfl, hclosing⟩⟩, ?_⟩
  · simpa using htext
  · have htake : (openings ++ run :: closings).take (front.length + 1) = openings ++ [run] := by
      rw [hlength, List.append_cons]
      exact List.take_left' (by simp)
    have hdrop : (openings ++ run :: closings).drop (front.length + 1) = closings := by
      rw [hlength, List.append_cons]
      exact List.drop_left' (by simp)
    change (List.take _ _).flatten ++ (_ ++ (List.drop _ _).flatten) = _
    rw [htake, hdrop]
    simp

theorem Inserts.found {before opening run closing rest : List α}
    (h : Inserts alphabet front back text before opening run closing rest) :
    ∃ pieces, pieces.flatten = opening ++ (run ++ closing) ∧
      (textRule alphabet front back).Found text before pieces rest := by
  obtain ⟨htext, ⟨openings, rfl, hopening⟩, hne, hrun, ⟨closings, rfl, hclosing⟩⟩ := h
  refine ⟨openings ++ run :: closings, by simp, ?_, ?_⟩
  · simpa using htext
  · exact List.rel_append hopening (.cons ⟨hne, hrun⟩ hclosing)

end

end VaeDb.Query
