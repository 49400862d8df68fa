import SqlLayout.Parse
import SqlLayout.Proofs.Parsing.Outcome

/-!
The statement at the front of the tokens is all that parsing comes to.

A bracket around a statement is a statement itself.
The second try, for a statement inside a bracket, is therefore made only where there is none.
-/

namespace SqlLayout

/-- The statement at the front of a list of tokens, an empty one where there is none. -/
def frontStatement (tokens : List Token) : Token :=
  (Production.statement.parse tokens).1.getD (.node .statement [])

/-- The number of tokens that the statement at the front of a list of tokens takes. -/
def frontLength (tokens : List Token) : Nat :=
  (Production.statement.parse tokens).2.pos

/-- What parsing comes to when no second try is made behind the first. -/
def parseFront (tokens : List Token) : Descent :=
  -- A statement that is not there leaves the cursor where it stood.
  .finish (frontStatement tokens) false (Production.statement.parse tokens).2

/-- The statement at the front leaves the tokens behind those it takes. -/
theorem rest_front (tokens : List Token) :
    (Production.statement.parse tokens).2.rest = tokens.drop (frontLength tokens) := by
  unfold frontLength
  rcases run : Production.statement.parse tokens with ⟨_ | root, after⟩
  · -- Nothing was taken, and nothing is dropped.
    have back := (parses_descend _).stays run
    have all : tokens = after.rest := back.rest
    have count : after.pos = 0 := back.pos
    rw [count, all, List.drop_zero]
  · obtain ⟨taken, moved, _⟩ := (parses_descend _).derives run
    have split : tokens = taken ++ after.rest := moved.rest
    have count : after.pos = taken.length := moved.pos.trans (Nat.zero_add _)
    rw [count, split, List.drop_left]

/-- The second try changes nothing but the refusals on the way. -/
theorem parseTokens_eq_front (tokens : List Token) :
    parseTokens tokens = { parseFront tokens with refusals := (parseTokens tokens).refusals } := by
  unfold parseTokens Grammar.parse parseFront frontStatement Production.parse
  simp only
  rcases run : descend sqlGrammar (nestingLimit tokens) .statement (Cursor.start tokens)
    with ⟨_ | root, after⟩
  · -- The second try finds no statement, and leaves all tokens as the first one did.
    have all : (Cursor.start tokens).rest = after.rest := ((parses_descend _).stays run).rest
    simp only
    rw [no_bracket_of_no_statement after.refusals (congrArg Prod.fst run)]
    simp only [Descent.finish, all, Option.getD_none]
  · simp only [Descent.finish, Option.getD_some]

/-- A list of tokens comes to the statement at its front, with what it leaves as the residue. -/
theorem root_parseTokens (tokens : List Token) :
    (parseTokens tokens).root =
      (frontStatement tokens).withResidue (tokens.drop (frontLength tokens)) := by
  -- The second try is never made, and what the first leaves is the residue.
  rw [parseTokens_eq_front, ← rest_front]
  rfl

/-- The tree of a text is that of its tokens. -/
theorem BindSyntax.root_parse (style : BindSyntax) (sql : Text) :
    (style.parse sql).root = (parseTokens (style.tokens sql)).root := by
  -- The descent starts from the tokens with their markers put back.
  rw [BindSyntax.parse]

/-- A bracket found where there is no statement holds none. -/
theorem no_statement_in_bracket {tokens : List Token} {refusals : List Refusal} {bracket : Token}
    (absent : (Production.statement.parse tokens).1 = none)
    (found : (descend sqlGrammar (nestingLimit tokens) .bracketExpr
      { Cursor.start tokens with refusals }).1 = some bracket) :
    bracket.kind = .bracketExpr ∧ ∀ child ∈ bracket.children, child.kind ≠ .statement := by
  obtain ⟨_, _, derived⟩ := ((parses_descend _).reads .bracketExpr _).2 bracket found
  have kind := derived.kind_mem
  simp only [Production.kinds, List.mem_singleton] at kind
  refine ⟨kind, ?_⟩
  -- A search among the children for a statement comes to nothing.
  have none := no_bracket_of_no_statement refusals absent
  rw [found, Option.bind_some, Token.child?, List.find?_eq_none] at none
  simpa using none

/-- Brackets are dropped from no text, with any syntax of bind markers. -/
theorem bracketsDropped_notMem_events (style : BindSyntax) (sql : Text) :
    Event.bracketsDropped ∉ (style.parse sql).events := by
  have kept : (parseTokens (style.tokens sql)).unwrapped = false := by
    rw [parseTokens_eq_front]
    rfl
  -- Every other event of parsing is of another sort.
  simp [BindSyntax.parse, BindCut.events, Descent.events, kept]

/--
The second try for a statement, inside a bracket at the front, never finds one.

Where there is no statement at the front, a bracket there holds none either.
Brackets are never dropped, and the tree is the one that comes out without a second try.
-/
theorem parse_without_second_try :
    (∀ tokens refusals bracket, (Production.statement.parse tokens).1 = none →
      (descend sqlGrammar (nestingLimit tokens) .bracketExpr
        { Cursor.start tokens with refusals }).1 = some bracket →
      bracket.kind = .bracketExpr ∧ ∀ child ∈ bracket.children, child.kind ≠ .statement) ∧
    (∀ tokens, (parseTokens tokens).unwrapped = false ∧
      (parseTokens tokens).root = (parseFront tokens).root ∧
      (parseTokens tokens).residue = (parseFront tokens).residue) ∧
    ∀ (style : BindSyntax) sql, Event.bracketsDropped ∉ (style.parse sql).events := by
  -- With the second try left out the tree, the residue and the events are the same.
  refine ⟨?_, ?_, bracketsDropped_notMem_events⟩
  · intro tokens refusals bracket absent found
    exact no_statement_in_bracket absent found
  · intro tokens
    rw [parseTokens_eq_front]
    exact ⟨rfl, rfl, rfl⟩

/-- There is such a bracket, around a name, where there is no statement. -/
theorem parse_without_second_try_name : ∃ tokens : List Token,
    tokens.map Token.kind = [.openBracket, .name, .closeBracket] ∧
    (Production.statement.parse tokens).1 = none ∧
    ∃ bracket, (Production.bracketExpr.parse tokens).1 = some bracket ∧
      bracket.kind = .bracketExpr ∧ ∀ child ∈ bracket.children, child.kind ≠ .statement := by
  -- A bracketed name is no statement, but it is a bracket.
  have absent : (Production.statement.parse [.lexical .openBracket ['('], .lexical .name ['A'],
      .lexical .closeBracket [')']]).1 = none := by
    decide +kernel
  have present : (Production.bracketExpr.parse [.lexical .openBracket ['('], .lexical .name ['A'],
      .lexical .closeBracket [')']]).1.isSome = true := by
    decide +kernel
  obtain ⟨bracket, found⟩ := Option.isSome_iff_exists.mp present
  exact ⟨_, rfl, absent, bracket, found,
    parse_without_second_try.1 _ [] bracket absent found⟩

end SqlLayout
