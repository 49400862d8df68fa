/-! The kinds of token a statement is made of, and the label each is reported under. -/

namespace SqlLayout

/--
The kind of a token.

Lexical kinds come out of lexing and carry text.
Structural kinds come out of parsing and carry children.
-/
inductive Kind where
  /-- Text that no sweep has classified yet. -/
  | raw
  /-- A comment between braces or between slash and star, or a diagnostic in that form. -/
  | comment
  /-- A text literal between single quotes. -/
  | text
  /-- An identifier, a quoted identifier, a number or a bind marker. -/
  | name
  /-- A set operator: UNION, UNION ALL, INTERSECT or MINUS. -/
  | unionToken
  /-- A clause keyword such as SELECT, FROM or GROUP BY. -/
  | partToken
  /-- NOT, DISTINCT or NEW. -/
  | unaryPrefix
  /-- The outer join marker, a plus between brackets. -/
  | outerJoinMarker
  /-- The word OR. -/
  | orOp
  /-- The word AND. -/
  | andOp
  /-- A comparison, arithmetic or keyword operator. -/
  | mathOp
  /-- An opening round bracket. -/
  | openBracket
  /-- A closing round bracket. -/
  | closeBracket
  /-- A comma. -/
  | listSeparator
  /-- Single statements joined by set operators. -/
  | statement
  /-- A sequence of parts that begins with a root keyword. -/
  | singleStatement
  /-- A clause keyword with the expression list that may follow it. -/
  | part
  /-- Expressions separated by commas. -/
  | listExpr
  /-- Expressions joined by OR. -/
  | orExpr
  /-- Expressions joined by AND. -/
  | andExpr
  /-- Operands joined by operators. -/
  | mathExpr
  /-- A unary prefix in front of an atom. -/
  | unaryPrefixExpr
  /-- A minus in front of an atom. -/
  | minusExpr
  /-- One operand, with the outer join marker and the alias that may follow it. -/
  | atom
  /-- A bracketed statement or expression list. -/
  | bracketExpr
  /-- A function name with its bracketed arguments. -/
  | funExpr
  /-- Input that did not fit the grammar. -/
  | unparsed
  deriving DecidableEq

namespace Kind

/-- Every kind, the lexical ones first. -/
def all : List Kind :=
  -- The order is the one in which the constructors are declared.
  [raw, comment, text, name, unionToken, partToken, unaryPrefix, outerJoinMarker, orOp, andOp,
    mathOp, openBracket, closeBracket, listSeparator, statement, singleStatement, part, listExpr,
    orExpr, andExpr, mathExpr, unaryPrefixExpr, minusExpr, atom, bracketExpr, funExpr, unparsed]

/-- The label a kind is reported under. -/
def label : Kind → String
  | raw => "Raw"
  | comment => "Comment"
  | text => "Text"
  | name => "Name"
  | unionToken => "UnionToken"
  | partToken => "PartToken"
  | unaryPrefix => "UnaryPrefix"
  | outerJoinMarker => "OuterJoinMarker"
  | orOp => "OrOp"
  | andOp => "AndOp"
  | mathOp => "MathOp"
  | openBracket => "OpenBracket"
  | closeBracket => "CloseBracket"
  | listSeparator => "ListSeparator"
  | statement => "Statement"
  | singleStatement => "SingleStatement"
  | part => "Part"
  | listExpr => "ListExpr"
  | orExpr => "OrExpr"
  | andExpr => "AndExpr"
  | mathExpr => "MathExpr"
  | unaryPrefixExpr => "UnaryPrefixExpr"
  | minusExpr => "MinusExpr"
  | atom => "Atom"
  | bracketExpr => "BracketExpr"
  | funExpr => "FunExpr"
  | unparsed => "Unparsed"

/-- The kind a label stands for. -/
def ofLabel? (label : String) : Option Kind :=
  -- Labels are distinct, so at most one kind answers to each.
  all.find? fun kind => kind.label == label

/-- Kinds that lexing produces. -/
def isLexical : Kind → Bool
  | raw | comment | text | name | unionToken | partToken | unaryPrefix | outerJoinMarker
  | orOp | andOp | mathOp | openBracket | closeBracket | listSeparator => true
  | _ => false

/-- Kinds that parsing produces. -/
def isStructural (kind : Kind) : Bool :=
  -- Every kind is of exactly one of the two sorts.
  !kind.isLexical

end Kind

end SqlLayout
