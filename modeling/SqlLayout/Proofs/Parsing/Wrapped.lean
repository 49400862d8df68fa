import SqlLayout.Proofs.Parsing.Bracket
import SqlLayout.Proofs.Parsing.Front

/-! Brackets around a whole statement: the statement is read inside them as it is without them. -/

namespace SqlLayout

open Engine

/-- A list of tokens makes up a statement, and nothing is left behind it. -/
def ReadWhole (tokens : List Token) (root : Token) : Prop :=
  ∃ after, Production.statement.parse tokens = (some root, after) ∧ after.rest = []

/-- A statement that is read whole is all that the tokens come to. -/
theorem ReadWhole.root_eq {tokens : List Token} {root : Token} (read : ReadWhole tokens root) :
    (parseTokens tokens).root = root := by
  obtain ⟨after, found, whole⟩ := read
  rw [root_parseTokens, ← rest_front, frontStatement, found]
  -- Without tokens left there is no residue to add.
  show root.withResidue after.rest = root
  rw [whole]
  rfl

/-- A statement that is read whole is derived from all the tokens. -/
theorem ReadWhole.derives {tokens : List Token} {root : Token} (read : ReadWhole tokens root) :
    Derives (.one .statement) [root] tokens := by
  obtain ⟨after, found, whole⟩ := read
  obtain ⟨taken, moved, derived⟩ := (parses_descend _).derives found
  -- no token is left, so those taken are all there are
  have split : tokens = taken ++ after.rest := moved.rest
  rw [whole, List.append_nil] at split
  rwa [split]

/-- Behind a statement without a residue among its children no tokens are left. -/
theorem Token.left_eq_nil {root : Token} {left : List Token}
    (clean : ∀ child ∈ (root.withResidue left).children, child.kind ≠ .unparsed) : left = [] := by
  cases left with
  | nil => rfl
  | cons first others =>
    -- The residue is the last child, and of the very kind that is not there.
    have last : Token.residue ([' '].intercalate ((first :: others).map Token.display)) ∈
        (root.withResidue (first :: others)).children :=
      List.mem_append_right _ (List.mem_singleton_self _)
    exact absurd rfl (clean _ last)

/-- A tree with children and no residue among them was read whole. -/
theorem readWhole_of_children {tokens : List Token}
    (present : (parseTokens tokens).root.children ≠ [])
    (clean : ∀ child ∈ (parseTokens tokens).root.children, child.kind ≠ .unparsed) :
    ReadWhole tokens (parseTokens tokens).root := by
  rw [root_parseTokens, ← rest_front] at present clean
  have whole := Token.left_eq_nil clean
  rcases found : (Production.statement.parse tokens).1 with _ | root
  · -- An empty statement would have children only with a residue.
    rw [whole, frontStatement, found] at present
    exact absurd rfl present
  · have read : ReadWhole tokens root := ⟨_, Prod.ext found rfl, whole⟩
    rwa [read.root_eq]

/-- A rule that yields a tree makes its production yield it, with the same tokens left. -/
theorem descend_of_rule {limit : Nat} {cursor after : Cursor} {production : Production}
    {entered : List Production} {tree : Token} (idle : cursor.busy production 0 = false)
    (fresh : production ∉ entered)
    (run : sqlGrammar (descend sqlGrammar limit) production
      (cursor.within (production :: entered)) = (some tree, after)) :
    ∃ final, descend sqlGrammar (limit + 1) production (cursor.within entered) =
      (some tree, final) ∧ final.rest = after.rest := by
  -- Leaving the step changes what is under way and nothing else.
  rw [descend_within_run limit idle fresh, run]
  exact ⟨_, rfl, rfl⟩

section OneBracket

variable {tokens : List Token} {opening closing root : Token}
  (opens : opening.kind = .openBracket) (closes : closing.kind = .closeBracket)
  (read : ReadWhole tokens root)

include opens closes read

/-- A bracket around a whole statement holds that statement, whatever has been entered at it. -/
theorem ReadWhole.bracketExpr {entered : List Production} (apart : entered.Nodup) {limit : Nat}
    (enough : nestingLimit (opening :: tokens ++ [closing]) = limit + entered.length) :
    ∃ final, sqlGrammar (descend sqlGrammar limit) .bracketExpr
      ((Cursor.start (opening :: tokens ++ [closing])).within entered) =
        (some (.node .bracketExpr [opening, root, closing]), final) ∧ final.rest = [] := by
  -- The three parts of the bracket are read one after the other.
  have closed := read.derives.closed
  obtain ⟨after, found, whole⟩ := read
  -- The opening bracket is taken, then the statement, then the closing bracket it leaves.
  rw [bracketExpr_run]
  rcases opened : take .openBracket ((Cursor.start (opening :: tokens ++ [closing])).within
    entered) with ⟨_ | first, behind⟩
  · simp [take, takeIf, Cursor.start, opens] at opened
  · have past := moved_of_takeIf opened
    have front := past.rest
    simp only [Cursor.within_rest, Cursor.start, List.cons_append, List.nil_append,
      List.cons.injEq] at front
    obtain ⟨rfl, rest⟩ := front
    have ending : ∀ token ∈ [closing].head?, token.kind = Kind.closeBracket := by
      rintro token ⟨⟩
      exact closes
    -- The statement is found behind the bracket as it is at the front of its tokens.
    have agree := callsAgree_descend indistinct_eq ending (nestingLimit tokens) limit .statement _ _
      (mirrors_behind apart closed enough past)
    obtain ⟨inside, run, left⟩ := agree.rest_inside rest.symm found
    rw [whole, List.nil_append] at left
    have contents : (descend sqlGrammar limit .statement <|> descend sqlGrammar limit .listExpr)
        behind = (some root, inside) := by
      rw [orElse_run, run]
    simp only [contents, take, takeIf, left, closes, BEq.rfl, if_true]
    exact ⟨_, rfl, rfl⟩

/-- A bracket around a whole statement is a single statement. -/
theorem ReadWhole.singleStatement {limit : Nat}
    (enough : nestingLimit (opening :: tokens ++ [closing]) = limit + 3) :
    ∃ final, sqlGrammar (descend sqlGrammar (limit + 1)) .singleStatement
      ((Cursor.start (opening :: tokens ++ [closing])).within [.singleStatement, .statement]) =
        (some (.node .bracketExpr [opening, root, closing]), final) ∧ final.rest = [] := by
  have kind := read.derives.kind_mem
  simp only [Production.kinds, List.mem_singleton] at kind
  have wraps : (Token.node .bracketExpr [opening, root, closing]).wrapsStatement = true := by
    simp [Token.wrapsStatement, Token.node, kind]
  -- The bracket holds a statement, so that a root keyword stands behind the opening brackets.
  have leads := (Derives.bracket (.head _) opens read.derives closes).opensStatement wraps []
  rw [List.append_nil] at leads
  obtain ⟨behind, rule, left⟩ := read.bracketExpr opens closes
    (by simp : [Production.bracketExpr, .singleStatement, .statement].Nodup) enough
  obtain ⟨final, run, rest⟩ := descend_of_rule rfl (by simp) rule
  refine ⟨final, ?_, rest.trans left⟩
  show (here >>= _ : Engine Token) _ = _
  rw [here_bind_run]
  have front : opensStatement ((Cursor.start (opening :: tokens ++ [closing])).within
      [.singleStatement, .statement]).rest = true := by
    rw [Cursor.within_rest]
    exact leads
  simp only [front, if_true]
  rw [bind_run, run]
  simp only [wraps, if_true]
  rfl

/-- Brackets around a whole statement make a whole statement that holds it. -/
theorem ReadWhole.bracketed : ReadWhole (opening :: tokens ++ [closing])
    (.node .statement [.node .bracketExpr [opening, root, closing]]) := by
  -- Three levels are spent on the way to the bracket: statement, single statement and bracket.
  have levels : nestingLimit (opening :: tokens ++ [closing]) =
    13 * ((opening :: tokens ++ [closing]).length + 1) := rfl
  obtain ⟨limit, enough⟩ : ∃ limit, nestingLimit (opening :: tokens ++ [closing]) = limit + 3 :=
    ⟨nestingLimit (opening :: tokens ++ [closing]) - 3, by omega⟩
  obtain ⟨behind, single, left⟩ := read.singleStatement opens closes enough
  obtain ⟨inside, run, rest⟩ := descend_of_rule rfl (by simp) single
  -- Nothing is left behind the bracket, and so no set operator.
  have rule : sqlGrammar (descend sqlGrammar (limit + 2)) .statement
      ((Cursor.start (opening :: tokens ++ [closing])).within [.statement]) =
        (some (.node .statement [.node .bracketExpr [opening, root, closing]]), inside) := by
    show (descend sqlGrammar (limit + 2) .singleStatement >>= _ : Engine Token) _ = _
    rw [bind_run, run]
    simp only
    rw [here_bind_run, rest, left]
    rfl
  obtain ⟨final, whole, done⟩ := descend_of_rule rfl (by simp) rule
  unfold ReadWhole Production.parse
  rw [enough]
  exact ⟨final, whole, done.trans (rest.trans left)⟩

end OneBracket

/-- A list of tokens in brackets, the pair in front outermost. -/
def bracketed : (pairs : List (Token × Token)) → (tokens : List Token) → List Token
  | [], tokens => tokens
  | (opening, closing) :: pairs, tokens => opening :: bracketed pairs tokens ++ [closing]

/-- A statement in brackets, each of them a statement that holds the one inside. -/
def Token.bracketed : (pairs : List (Token × Token)) → (root : Token) → Token
  | [], root => root
  | (opening, closing) :: pairs, root =>
    .node .statement [.node .bracketExpr [opening, Token.bracketed pairs root, closing]]

/--
Brackets around a whole statement do not change how the statement is read.

Each pair of brackets makes a statement of its own, with the tree of what is inside them.
-/
theorem parseTokens_bracketed {tokens : List Token}
    (present : (parseTokens tokens).root.children ≠ [])
    (clean : ∀ child ∈ (parseTokens tokens).root.children, child.kind ≠ .unparsed)
    (pairs : List (Token × Token))
    (brackets : ∀ pair ∈ pairs, pair.1.kind = .openBracket ∧ pair.2.kind = .closeBracket) :
    (parseTokens (bracketed pairs tokens)).root = (parseTokens tokens).root.bracketed pairs := by
  have read := readWhole_of_children present clean
  refine ReadWhole.root_eq ?_
  -- The induction is on the pairs, from the statement outwards.
  induction pairs with
  | nil => exact read
  | cons pair pairs ih =>
    obtain ⟨opening, closing⟩ := pair
    rw [List.forall_mem_cons] at brackets
    exact (ih brackets.2).bracketed brackets.1.1 brackets.1.2

/-- A union whose second select ends in a dangling operator is read the same in two brackets. -/
theorem parseTokens_bracketed_union : ∃ tokens : List Token,
    tokens.map Token.kind = [.partToken, .name, .unionToken, .partToken, .name, .andOp] ∧
    (parseTokens tokens).root.children ≠ [] ∧
    (∀ child ∈ (parseTokens tokens).root.children, child.kind ≠ .unparsed) ∧
    (parseTokens (.lexical .openBracket ['('] :: (.lexical .openBracket ['('] :: tokens ++
      [.lexical .closeBracket [')']]) ++ [.lexical .closeBracket [')']])).root =
        .node .statement [.node .bracketExpr [.lexical .openBracket ['('],
          .node .statement [.node .bracketExpr [.lexical .openBracket ['('],
            (parseTokens tokens).root, .lexical .closeBracket [')']]],
          .lexical .closeBracket [')']]] := by
  -- Only the parse of the bare tokens is computed; the brackets are the general law.
  have present : (parseTokens [.lexical .partToken "SELECT".toList, .lexical .name ['A'],
      .lexical .unionToken "UNION".toList, .lexical .partToken "SELECT".toList,
      .lexical .name ['B'], .lexical .andOp "AND".toList]).root.children ≠ [] := by
    decide +kernel
  have clean : ∀ child ∈ (parseTokens [.lexical .partToken "SELECT".toList, .lexical .name ['A'],
      .lexical .unionToken "UNION".toList, .lexical .partToken "SELECT".toList,
      .lexical .name ['B'], .lexical .andOp "AND".toList]).root.children,
        child.kind ≠ .unparsed := by
    decide +kernel
  exact ⟨_, rfl, present, clean, parseTokens_bracketed present clean
    [(.lexical .openBracket ['('], .lexical .closeBracket [')']),
      (.lexical .openBracket ['('], .lexical .closeBracket [')'])] (by decide)⟩

end SqlLayout
