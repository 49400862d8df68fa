import SqlLayout.Lexing.Span
import SqlLayout.Lexing.Sweep
import SqlLayout.Text.Upper
import SqlLayout.Token

/-! Tokens: the pieces of a text with every comment attached to the token it belongs to. -/

namespace SqlLayout

/-- A piece ready for the sweeps: raw text in upper case, with single blanks. -/
def Piece.normalize (piece : Piece) : Piece :=
  -- Literal spans keep their case and their blanks.
  if piece.kind = .raw then { piece with text := (piece.text.squeeze isBlank).upper } else piece

/-- The pieces a text is made of once every sweep has been made. -/
def pieces (sql : Text) : List Piece :=
  -- A run of line breaks is one blank, inside literal spans too.
  sweeps.foldl (fun found sweep => sweep.apply found)
    ((scan (sql.squeeze isLineBreak)).map Piece.normalize)

/-- The raw fragments that no sweep could classify. -/
def leftovers (found : List Piece) : List Text :=
  -- A fragment of blanks alone is not worth a word.
  (found.filter fun piece => piece.kind == .raw && piece.text.trim != []).map Piece.text

/-- The comment that stands for a fragment no sweep could classify. -/
def unexpectedComment (fragment : Text) : Text :=
  -- The fragment is quoted as it is.
  "/*XXX unexpected token: ".toList ++ fragment ++ "*/".toList

/-- A piece with a leftover fragment turned into its comment, and blank fragments dropped. -/
def flagLeftover (piece : Piece) : List Piece :=
  -- Pieces of any other kind pass unchanged.
  if piece.kind = .raw then
    if piece.text.trim = [] then [] else [⟨.comment, unexpectedComment piece.text⟩]
  else [piece]

/--
The tokens of a list of pieces, each with the comments in front of it.

The comments behind the last token are returned beside the tokens.
-/
def gather : (pending : List Text) → List Piece → List Token × List Text
  | pending, [] => ([], pending)
  | pending, piece :: rest =>
    if piece.kind = .comment then gather (pending ++ [piece.text]) rest
    else
      -- The token takes all comments that wait for one.
      let (tokens, trailing) := gather [] rest
      ({ kind := piece.kind, text := piece.text, comments := pending } :: tokens, trailing)

/-- Comments that no token follows, attached to the last token there is. -/
def attachTrailing (trailing : List Text) : List Token → List Token
  -- Without any token the comments are lost.
  | [] => []
  | [last] => [{ last with comments := last.comments ++ trailing }]
  | first :: next :: rest => first :: attachTrailing trailing (next :: rest)

/-- The tokens of a list of pieces, with every comment attached to a token. -/
def attachComments (found : List Piece) : List Token :=
  -- A comment belongs to the token behind it, or else to the last one.
  let (tokens, trailing) := gather [] found
  attachTrailing trailing tokens

/-- The lexical tokens of a text. -/
def tokenize (sql : Text) : List Token :=
  -- Leftovers become comments before comments are attached.
  attachComments ((pieces sql).flatMap flagLeftover)

end SqlLayout
