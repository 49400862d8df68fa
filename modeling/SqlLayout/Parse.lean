import SqlLayout.Bind.Codec
import SqlLayout.Event
import SqlLayout.Lexing.Tokenize
import SqlLayout.Parsing.Root

/-! Parsing a text into its token tree, with the events on the way. -/

namespace SqlLayout

/-- What parsing a text comes to. -/
structure Parsed where
  /-- The statement, with the residue as its last child. -/
  root : Token
  /-- What happened on the way, in order. -/
  events : List Event

/-- The tokens of a text, with its bind markers kept whole. -/
def BindSyntax.tokens (style : BindSyntax) (sql : Text) : List Token :=
  -- Markers are hidden while the text is lexed, and put back into the tokens.
  let cut := style.cut sql
  cut.codec.decode (tokenize cut.encoded)

/-- The events of encoding the markers of a text. -/
def BindCut.events (cut : BindCut) : List Event :=
  -- There is one event for each marker.
  cut.codec.entries.map fun (code, marker) => .markerEncoded marker code

/-- The events of reading a list of tokens. -/
def Descent.events (descent : Descent) : List Event :=
  -- Refusals come first, and the residue is found last.
  descent.refusals.map (fun refusal => .stepRefused refusal.step) ++
    (if descent.unwrapped then [.bracketsDropped] else []) ++
    descent.residue.toList.map .residueKept

/-- A text parsed with a given syntax of bind markers. -/
def BindSyntax.parse (style : BindSyntax) (sql : Text) : Parsed :=
  let cut := style.cut sql
  let descent := parseTokens (style.tokens sql)
  -- Events come in the order of the stages.
  { root := descent.root
    events := cut.events ++ (leftovers (pieces cut.encoded)).map .unexpectedFragment ++
      descent.events }

/-- The token tree of a text, with the generic syntax of bind markers. -/
def parse (sql : Text) : Token :=
  -- A text that does not fit the grammar is parsed too, and keeps a residue.
  (BindSyntax.generic.parse sql).root

end SqlLayout
