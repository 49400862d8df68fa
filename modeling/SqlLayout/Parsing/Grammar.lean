import SqlLayout.Parsing.Engine

/-! The grammar of statements, and the descent that follows it. -/

namespace SqlLayout

open Engine

/-- The keywords a single statement may begin with. -/
def rootKeywords : List Text :=
  -- All other clause keywords only continue a statement.
  ["SELECT".toList, "INSERT INTO".toList, "INSERT".toList, "UPDATE".toList, "DELETE FROM".toList,
    "DELETE".toList, "CASE".toList, "WITH".toList]

/-- Whether a token is a keyword that a single statement may begin with. -/
def Token.isRootKeyword (token : Token) : Bool :=
  -- A name with the same text is not a keyword.
  token.kind == .partToken && rootKeywords.contains token.text

/-- The comment on an operator that lacks its right operand. -/
def syntaxWarning : Text :=
  -- It stays with the operator through layout.
  "/*syntax warning*/".toList

/-- Operands joined by separators. -/
structure Chain where
  /-- The kind of token the operands are joined into. -/
  kind : Kind
  /-- The kind of the separators. -/
  separator : Kind
  /-- Whether a separator that no operand follows is kept, with a warning, or given back. -/
  keepsDangling : Bool

namespace Chain

/-- The separators and operands behind a first operand, at most a number of pairs. -/
def links (chain : Chain) (operand : Engine Token) : (turns : Nat) → Engine (List Token)
  | 0 => pure []
  | turns + 1 => do
    let start ← here
    let some separator ← attempt (take chain.separator) | return []
    match ← attempt operand with
    | some next => return separator :: next :: (← chain.links operand turns)
    -- No operand follows, so the separator is the last one or none of the chain's.
    | none =>
      if chain.keepsDangling then return [separator.addComment syntaxWarning]
      else
        rewind start
        return []

/-- A first operand and the separators and operands behind it. -/
def parse (chain : Chain) (operand : Engine Token) : Engine Token := do
  let first ← operand
  -- Every pair takes at least one token, so there are no more pairs than tokens.
  let others ← chain.links operand (← here).rest.length
  return .node chain.kind (first :: others)

end Chain

/-- Whether the next tokens are opening brackets, at least one, and then a root keyword. -/
def opensStatement (tokens : List Token) : Bool :=
  -- Only then can a bracket hold a statement.
  tokens.head?.any (fun token => token.kind == .openBracket) &&
    (tokens.dropWhile fun token => token.kind == .openBracket).head?.any Token.isRootKeyword

/-- Whether a bracket, or the innermost of brackets nested at once, holds a statement. -/
def Token.wrapsStatement : Token → Bool
  | ⟨_, _, _ :: inner :: _, _⟩ =>
    if inner.kind = .bracketExpr then inner.wrapsStatement
    else inner.kind == .statement || inner.kind == .singleStatement
  -- A bracket with nothing in it holds no statement.
  | _ => false
termination_by structural token => token

/-- The rule of each production, in terms of how the productions it mentions are parsed. -/
abbrev Grammar := (call : Production → Engine Token) → Production → Engine Token

/-- The rules of the grammar. -/
def sqlGrammar : Grammar
  -- Single statements joined by set operators.
  | call, .statement => Chain.parse ⟨.statement, .unionToken, false⟩ (call .singleStatement)
  -- A bracket around a statement, or parts of which the first has a root keyword.
  -- The keyword is looked at before the guard of the part; tried inside it, as in `trialGrammar`,
  -- it makes no difference (`refusals_cut_recursion`).
  | call, .singleStatement => do
    let tokens := (← here).rest
    if opensStatement tokens then
      let bracket ← call .bracketExpr
      if bracket.wrapsStatement then return bracket else fail
    else if tokens.head?.any Token.isRootKeyword then
      let first ← call .part
      let others ← repeated (call .part) (← here).rest.length
      return .node .singleStatement (first :: others)
    else fail
  -- A clause keyword and the list that may follow it.
  | call, .part => do
    let keyword ← take .partToken
    let list ← attempt (call .listExpr)
    return .node .part (keyword :: list.toList)
  | call, .listExpr => Chain.parse ⟨.listExpr, .listSeparator, false⟩ (call .orExpr)
  | call, .orExpr => Chain.parse ⟨.orExpr, .orOp, true⟩ (call .andExpr)
  | call, .andExpr => Chain.parse ⟨.andExpr, .andOp, true⟩ (call .mathExpr)
  | call, .mathExpr => Chain.parse ⟨.mathExpr, .mathOp, false⟩ (call .simpleExpr)
  -- A prefix or a minus with an atom, or an atom alone.
  | call, .simpleExpr => call .unaryPrefixExpr <|> call .minusExpr <|> call .atom
  | call, .unaryPrefixExpr => do
    let sign ← take .unaryPrefix
    let atom ← call .atom
    return .node .unaryPrefixExpr [sign, atom]
  | call, .minusExpr => do
    let sign ← takeText .mathOp "-".toList
    let atom ← call .atom
    return .node .minusExpr [sign, atom]
  -- One operand, then the outer join marker and the alias that may follow it.
  | call, .atom => do
    let head ← call .bracketExpr <|> call .statement <|> call .orExpr <|> call .funExpr <|>
      take .name <|> take .text <|> takeText .mathOp "*".toList
    let marker ← attempt (take .outerJoinMarker)
    let byname ← attempt (take .name)
    return .node .atom (head :: marker.toList ++ byname.toList)
  -- A statement, a list or nothing between brackets.
  | call, .bracketExpr => do
    let opening ← take .openBracket
    let inner ← attempt (call .statement <|> call .listExpr)
    let closing ← take .closeBracket
    return .node .bracketExpr (opening :: inner.toList ++ [closing])
  | call, .funExpr => do
    let name ← take .name
    let arguments ← call .bracketExpr
    return .node .funExpr [name, arguments]

/--
A production parsed by descending through a grammar, nested at most a number of levels deep.

The guard is asked before the limit.
No more steps can be under way at once than there are pairs of a production and a place to enter it.
A limit of that many levels is therefore never what makes a production fail.
-/
def descend (grammar : Grammar) : (limit : Nat) → Production → Engine Token
  | 0, production => guarded production fail
  | limit + 1, production => guarded production (grammar (descend grammar limit) production)

/-- The number of pairs of a production and a place in a list of tokens, its end included. -/
def nestingLimit (tokens : List Token) : Nat :=
  -- Every production can be entered at every token and behind the last one.
  Production.all.length * (tokens.length + 1)

end SqlLayout
