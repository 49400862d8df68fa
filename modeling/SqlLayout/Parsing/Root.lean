import SqlLayout.Parsing.Grammar

/-! Parsing a whole list of tokens into one statement and the residue behind it. -/

namespace SqlLayout

/-- What parsing a list of tokens comes to. -/
structure Descent where
  /-- The statement, with the residue as its last child. -/
  root : Token
  /-- Whether the statement was found only inside a bracket that was then dropped. -/
  unwrapped : Bool
  /-- The text of the tokens that were not read, if there are any. -/
  residue : Option Text
  /-- The refusals on the way, in the order they were made. -/
  refusals : List Refusal

/-- The tokens that were not read on one line, or nothing if all were. -/
def residueText? (tokens : List Token) : Option Text :=
  -- Each token shows its comments as well.
  if tokens.isEmpty then none else some ([' '].intercalate (tokens.map Token.display))

/-- A statement with all that follows the cursor kept as its residue. -/
def Descent.finish (root : Token) (unwrapped : Bool) (cursor : Cursor) : Descent :=
  -- A statement that was read to the end gets no residue.
  let residue := residueText? cursor.rest
  { root := match residue with
      | some text => root.push (.residue text)
      | none => root
    unwrapped, residue, refusals := cursor.refusals.reverse }

/--
The statement that a list of tokens makes up under a grammar.

When there is none at the front, one inside a bracket at the front is taken.
When there is none there either, the statement is empty and all tokens are residue.
-/
def Grammar.parse (grammar : Grammar) (tokens : List Token) : Descent :=
  let parse := descend grammar (nestingLimit tokens)
  let begin := Cursor.start tokens
  match parse .statement begin with
  | (some root, after) => .finish root false after
  | (none, after) =>
    -- The second try begins afresh, with only the refusals kept.
    match parse .bracketExpr { begin with refusals := after.refusals } with
    | (bracket, after) =>
      match bracket.bind fun token => token.child? .statement with
      | some root => .finish root true after
      | none => .finish (.node .statement []) false { begin with refusals := after.refusals }

/-- The statement that a list of tokens makes up. -/
def parseTokens (tokens : List Token) : Descent :=
  -- The rules are those of the one grammar there is.
  sqlGrammar.parse tokens

end SqlLayout
