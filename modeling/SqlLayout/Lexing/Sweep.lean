import SqlLayout.Lexing.Piece
import SqlLayout.Text.Blank

/-! Sweeps: one pass over the raw pieces for each class of keyword, operator and name. -/

namespace SqlLayout

/-- The characters a name is made of. -/
def isNameChar (c : Char) : Bool :=
  -- ASCII letters and digits, and the six signs that occur in names, numbers and markers.
  c.isAlphanum || c == '_' || c == '$' || c == '.' || c == '@' || c == ':' || c == '?'

/-- Whether a text begins with no name character, so that a word in front of it ends there. -/
def endsWord (after : Text) : Bool :=
  -- The end of a text ends a word too.
  after.head?.all fun c => !isNameChar c

/--
What a sweep looks for.

Every alternative has at least one character, so that a match takes something away.
-/
inductive Pattern where
  /-- Keywords, each with no name character next to it on either side. -/
  | words (alternatives : List Text) (solid : [] ∉ alternatives := by decide)
  /-- Signs, wherever they stand. -/
  | symbols (alternatives : List Text) (solid : [] ∉ alternatives := by decide)
  /-- Runs of name characters, as long as possible. -/
  | nameRun

/-- The place where a pattern is first met in a text. -/
structure Occurrence where
  /-- The text in front of the match. -/
  before : Text
  /-- The match. -/
  word : Text
  /-- The text behind the match. -/
  after : Text

namespace Pattern

/--
The match of a pattern at the front of a text, with what follows it.

Alternatives are tried in order and the first that fits is taken.
The boundary tells whether a word may begin here, which a name character in front of it forbids.
-/
def here? (pattern : Pattern) (boundary : Bool) (text : Text) : Option (Text × Text) :=
  match pattern with
  | words alternatives _ =>
    if boundary then
      -- A keyword that runs on into a name is not one.
      alternatives.findSome? fun word =>
        (Text.after? word text).bind fun after =>
          if endsWord after then some (word, after) else none
    else none
  | symbols alternatives _ =>
    alternatives.findSome? fun word => (Text.after? word text).map fun after => (word, after)
  | nameRun =>
    -- An empty run is no match.
    if text.takeWhile isNameChar = [] then none
    else some (text.takeWhile isNameChar, text.dropWhile isNameChar)

/-- The first match of a pattern in a text. -/
def find? (pattern : Pattern) : (boundary : Bool) → (text : Text) → Option Occurrence
  | _, [] => none
  | boundary, c :: rest =>
    match pattern.here? boundary (c :: rest) with
    | some (word, after) => some ⟨[], word, after⟩
    -- A word may begin behind any character that is not part of a name.
    | none => (pattern.find? (!isNameChar c) rest).map fun found =>
        { found with before := c :: found.before }

/-- A match at the front of a text is not empty, and with what follows it makes up the text. -/
theorem here?_append {pattern : Pattern} {boundary : Bool} {text word after : Text}
    (found : pattern.here? boundary text = some (word, after)) :
    word ≠ [] ∧ word ++ after = text := by
  cases pattern with
  | words alternatives solid =>
    -- The first alternative that fits is a member of a list without empty words.
    simp only [here?] at found
    split at found
    · obtain ⟨chosen, member, fits⟩ := List.exists_of_findSome?_eq_some found
      obtain ⟨tail, here, ends⟩ := Option.bind_eq_some_iff.mp fits
      split at ends
      · simp only [Option.some.injEq, Prod.mk.injEq] at ends
        obtain ⟨rfl, rfl⟩ := ends
        exact ⟨fun empty => solid (empty ▸ member), (Text.after?_eq_some.mp here).symm⟩
      · simp at ends
    · simp at found
  | symbols alternatives solid =>
    simp only [here?] at found
    obtain ⟨chosen, member, fits⟩ := List.exists_of_findSome?_eq_some found
    obtain ⟨tail, here, same⟩ := Option.map_eq_some_iff.mp fits
    simp only [Prod.mk.injEq] at same
    obtain ⟨rfl, rfl⟩ := same
    exact ⟨fun empty => solid (empty ▸ member), (Text.after?_eq_some.mp here).symm⟩
  | nameRun =>
    -- A run and what is left behind it are the two halves of one text.
    simp only [here?] at found
    split at found
    · simp at found
    · rename_i nonempty
      simp only [Option.some.injEq, Prod.mk.injEq] at found
      obtain ⟨rfl, rfl⟩ := found
      exact ⟨nonempty, List.takeWhile_append_dropWhile⟩

/-- The parts of an occurrence make up the text, and the match is not empty. -/
theorem find?_append {pattern : Pattern} {boundary : Bool} {text : Text} {found : Occurrence}
    (first : pattern.find? boundary text = some found) :
    found.word ≠ [] ∧ found.before ++ (found.word ++ found.after) = text := by
  -- Every character in front of the match is put back in its place.
  fun_induction find? pattern boundary text generalizing found with
  | case1 => simp at first
  | case2 boundary c rest word after here =>
    simp only [Option.some.injEq] at first
    subst first
    exact here?_append here
  | case3 boundary c rest _ ih =>
    obtain ⟨inner, deeper, same⟩ := Option.map_eq_some_iff.mp first
    subst same
    have parts := ih deeper
    exact ⟨parts.1, by simp [parts.2]⟩

/-- What follows a match is shorter than the text it was found in. -/
theorem find?_shorter {pattern : Pattern} {boundary : Bool} {text : Text} {found : Occurrence}
    (first : pattern.find? boundary text = some found) : found.after.length < text.length := by
  -- The match takes at least one character away.
  have parts := find?_append first
  have taken := List.length_pos_iff.mpr parts.1
  have whole := congrArg List.length parts.2
  simp only [List.length_append] at whole
  omega

end Pattern

/-- A pattern, and the kind of the pieces that match it. -/
structure Sweep where
  /-- What is looked for. -/
  pattern : Pattern
  /-- What a match is. -/
  kind : Kind

/-- A raw text as a piece without blanks around it, or as nothing when no more is left. -/
def fragment (text : Text) : List Piece :=
  -- Blanks between words carry no meaning.
  if text.trim = [] then [] else [⟨.raw, text.trim⟩]

namespace Sweep

/-- A raw text cut at every match, from left to right. -/
def split (sweep : Sweep) (boundary : Bool) (text : Text) : List Piece :=
  match _ : sweep.pattern.find? boundary text with
  | none => fragment text
  -- A word cannot begin right behind another one.
  | some found =>
    fragment found.before ++ ⟨sweep.kind, found.word⟩ :: sweep.split false found.after
termination_by text.length
decreasing_by exact Pattern.find?_shorter ‹_›

/-- A sweep over all pieces, of which only the raw ones are cut. -/
def apply (sweep : Sweep) (pieces : List Piece) : List Piece :=
  -- The edges of a raw piece delimit words.
  pieces.flatMap fun piece =>
    if piece.kind = .raw then sweep.split true piece.text else [piece]

end Sweep

/--
The sweeps, in the order in which they are made.

Keywords go before names, and longer keywords before the shorter ones they begin with.
-/
def sweeps : List Sweep :=
  [⟨.words ["UNION ALL".toList, "INTERSECT".toList, "MINUS".toList, "UNION".toList], .unionToken⟩,
    ⟨.words ["WITH".toList, "AS".toList, "SELECT".toList, "FROM".toList, "LEFT JOIN".toList,
      "OUTER JOIN".toList, "INNER JOIN".toList, "JOIN".toList, "ON".toList, "WHERE".toList,
      "GROUP BY".toList, "HAVING".toList, "ORDER BY".toList, "INSERT INTO".toList,
      "INSERT".toList, "INTO".toList, "CONNECT BY NOCYCLE".toList, "CONNECT BY".toList,
      "START WITH".toList, "UPDATE".toList, "DELETE FROM".toList, "DELETE".toList, "SET".toList,
      "VALUES".toList, "CASE".toList, "ELSE".toList, "END".toList, "THEN".toList,
      "WHEN".toList], .partToken⟩,
    ⟨.symbols ["(+)".toList], .outerJoinMarker⟩,
    ⟨.words ["OR".toList], .orOp⟩,
    ⟨.words ["AND".toList], .andOp⟩,
    ⟨.words ["NOT IN".toList, "IN".toList, "IS NOT".toList, "IS".toList, "NOT BETWEEN".toList,
      "BETWEEN".toList, "NOT LIKE".toList, "LIKE".toList], .mathOp⟩,
    ⟨.symbols ["=".toList, "<>".toList, "!=".toList, "<=".toList, ">=".toList, "<".toList,
      ">".toList, "%".toList, "^".toList, "+".toList, "-".toList, "*".toList, "/".toList,
      "||".toList, "&&".toList], .mathOp⟩,
    ⟨.words ["NOT".toList, "DISTINCT".toList, "NEW".toList], .unaryPrefix⟩,
    ⟨.nameRun, .name⟩,
    ⟨.symbols ["(".toList], .openBracket⟩,
    ⟨.symbols [")".toList], .closeBracket⟩,
    ⟨.symbols [",".toList], .listSeparator⟩]

end SqlLayout
