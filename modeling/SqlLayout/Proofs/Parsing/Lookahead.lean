import SqlLayout.Proofs.Parsing.Outcome

/-!
Looking ahead for a statement behind opening brackets saves work and decides nothing.

A bracket around a statement always begins with brackets and a root keyword behind them.
Where there is no such beginning, the bracket could be parsed and would not be taken.
-/

namespace SqlLayout

open Engine

/--
The rules of the grammar without looking ahead.

At every opening bracket a bracket is parsed, and it is the single statement if it holds one.
-/
def plainGrammar : Grammar
  | call, .singleStatement => do
    let tokens := (← here).rest
    if tokens.head?.any fun token => token.kind == .openBracket then
      let bracket ← call .bracketExpr
      if bracket.wrapsStatement then return bracket else fail
    else if tokens.head?.any Token.isRootKeyword then
      let first ← call .part
      let others ← repeated (call .part) (← here).rest.length
      return .node .singleStatement (first :: others)
    else fail
  -- No other rule looks further ahead than to the next token.
  | call, production => sqlGrammar call production

/-- The two tests differ only where a bracket is opened and no statement with it. -/
theorem bracket_of_undecided {tokens : List Token}
    (differ : opensStatement tokens ≠ tokens.head?.any fun token => token.kind == .openBracket) :
    tokens.head?.any (fun token => token.kind == .openBracket) = true ∧
      opensStatement tokens = false := by
  -- Tokens that open a statement open a bracket.
  cases opens : tokens.head?.any fun token => token.kind == .openBracket with
  | false =>
    refine absurd ?_ differ
    rw [opensStatement, opens, Bool.false_and]
  | true => exact ⟨rfl, by simpa [opens] using differ⟩

/-- A single statement of the plain rules, where the front of the tokens opens one or no bracket. -/
theorem plainGrammar_singleStatement (call : Production → Engine Token) {cursor : Cursor}
    (decided : opensStatement cursor.rest =
      cursor.rest.head?.any fun token => token.kind == .openBracket) :
    plainGrammar call .singleStatement cursor = sqlGrammar call .singleStatement cursor := by
  -- Both rules look at the same tokens, and the two tests come out alike.
  show (here >>= _ : Engine Token) cursor = (here >>= _ : Engine Token) cursor
  rw [here_bind_run, here_bind_run]
  simp only [decided]

/-- Where a bracket is opened and no statement with it, the rules come to no single statement. -/
theorem sqlGrammar_singleStatement_of_bracket (call : Production → Engine Token) {cursor : Cursor}
    (opens : cursor.rest.head?.any (fun token => token.kind == .openBracket) = true)
    (other : opensStatement cursor.rest = false) :
    sqlGrammar call .singleStatement cursor = (none, cursor) := by
  show (here >>= _ : Engine Token) cursor = _
  rw [here_bind_run]
  simp only [other, Bool.false_eq_true, if_false]
  -- An opening bracket is no keyword.
  have bare : cursor.rest.head?.any Token.isRootKeyword = false := by
    cases front : cursor.rest.head? with
    | none => rfl
    | some token =>
      simp only [front, Option.any_some, beq_iff_eq] at opens
      simp [Token.isRootKeyword, opens]
  simp only [bare, Bool.false_eq_true, if_false]
  rfl

section Rules

variable {call : Production → Engine Token} (parses : Parses call)
include parses

/-- A bracket that opens no statement is parsed and not taken by the plain rules. -/
theorem plainGrammar_singleStatement_of_bracket {cursor : Cursor}
    (opens : cursor.rest.head?.any (fun token => token.kind == .openBracket) = true)
    (other : opensStatement cursor.rest = false) :
    (plainGrammar call .singleStatement cursor).1 = none ∧
      (plainGrammar call .singleStatement cursor).2.active = cursor.active := by
  -- The rule comes to its second choice, which parses the bracket and then looks into it.
  have run : plainGrammar call .singleStatement cursor = (call .bracketExpr >>= fun bracket =>
      if bracket.wrapsStatement then return bracket else fail : Engine Token) cursor := by
    show (here >>= _ : Engine Token) cursor = _
    rw [here_bind_run]
    simp only [opens, if_true]
  rw [run, bind_run]
  rcases found : call .bracketExpr cursor with ⟨_ | bracket, after⟩
  · exact ⟨rfl, (parses.stays found).active⟩
  · -- A bracket around a statement would begin as one does.
    obtain ⟨taken, moved, derived⟩ := parses.derives found
    have bare : bracket.wrapsStatement = false := by
      by_contra wraps
      have leads := derived.opensStatement (by simpa using wraps) after.rest
      rw [← moved.rest, other] at leads
      cases leads
    simp only [bare, Bool.false_eq_true, if_false]
    exact ⟨rfl, moved.active⟩

/-- The plain rules read what the grammar derives. -/
theorem readsFrom_plainGrammar (cursor : Cursor) (production : Production) :
    ReadsFrom cursor (plainGrammar call production) fun tree taken =>
      Derives (.one production) [tree] taken := by
  cases production with
  | singleStatement =>
    -- where the lookahead decides as the bracket alone does, the rule is the one before
    by_cases decided : opensStatement cursor.rest =
      cursor.rest.head?.any fun token => token.kind == .openBracket
    · unfold ReadsFrom
      rw [plainGrammar_singleStatement call decided]
      exact readsFrom_singleStatement parses cursor
    · obtain ⟨opens, other⟩ := bracket_of_undecided decided
      obtain ⟨none, steady⟩ := plainGrammar_singleStatement_of_bracket parses opens other
      refine ⟨steady, ?_⟩
      intro tree yields
      rw [none] at yields
      cases yields
  | _ => exact readsFrom_sqlGrammar parses cursor _

end Rules

/-- The plain descent, however deep it may go, reads only what the grammar derives. -/
theorem parses_plain (limit : Nat) : Parses (descend plainGrammar limit) :=
  -- Every rule reads only what the grammar derives, so a descent through them does.
  parses_of_rules (fun _ parses cursor production =>
    readsFrom_plainGrammar parses cursor production) limit

/-- Single statements agree, whether they are looked for ahead or tried. -/
theorem agreeFrom_plain_singleStatement {call call' : Production → Engine Token}
    {limit limit' : Nat} {cursor mirror : Cursor} (parses : Parses call) (parses' : Parses call')
    (agree : CallsAgree Eq [] limit limit' call call')
    (mirrors : Mirrors Eq [] 0 limit limit' cursor mirror) :
    AgreeFrom cursor mirror (sqlGrammar call .singleStatement) (plainGrammar call' .singleStatement)
      fun tree tree' => SameShape Eq [tree] [tree'] := by
  -- Both cursors stand in front of the same tokens.
  obtain ⟨front, split, likes⟩ := mirrors.ahead
  rw [List.append_nil] at split
  rw [List.forall₂_eq_eq_eq] at likes
  have same : cursor.rest = mirror.rest := likes.trans split.symm
  by_cases decided : opensStatement mirror.rest =
    mirror.rest.head?.any fun token => token.kind == .openBracket
  · unfold AgreeFrom
    rw [plainGrammar_singleStatement call' decided]
    exact agreeFrom_singleStatement indistinct_eq (by simp) parses parses' agree mirrors
  · obtain ⟨opens, other⟩ := bracket_of_undecided decided
    have none := (plainGrammar_singleStatement_of_bracket parses' opens other).1
    rw [← same] at opens other
    exact agreeFrom_fails (sqlGrammar_singleStatement_of_bracket call opens other)
      (Prod.ext none rfl)

/-- The plain descent agrees with the one that looks ahead, on cursors that go on alike. -/
theorem callsAgree_plain (limit limit' : Nat) :
    CallsAgree Eq [] limit limit' (descend sqlGrammar limit) (descend plainGrammar limit') := by
  refine callsAgree_of_rules ?_ limit limit'
  intro limit limit' agree production cursor mirror mirrors
  have parses := parses_descend limit
  have parses' := parses_plain limit'
  -- one rule is another one; all others agree with themselves
  cases production with
  | singleStatement => exact agreeFrom_plain_singleStatement parses parses' agree mirrors
  | _ => exact agreeFrom_sqlGrammar indistinct_eq (by simp) parses parses' agree _ mirrors

/-- What a run comes to, without the refusals on the way. -/
def Engine.unlogged {α : Type} (outcome : Option α × Cursor) : Option α × Cursor :=
  -- A refusal is noted, and nothing that follows depends on it.
  (outcome.1, { outcome.2 with refusals := [] })

/-- Cursors that move as far from one place stand in one place, their refusals apart. -/
theorem Cursor.Moved.unlogged_eq {cursor after after' : Cursor} {refusals : List Refusal}
    {taken taken' : List Token} (moved : cursor.Moved taken after)
    (moved' : ({ cursor with refusals } : Cursor).Moved taken' after')
    (length : taken.length = taken'.length) {α : Type} (value : Option α) :
    unlogged (value, after') = unlogged (value, after) := by
  -- The tokens left, the place and the steps under way all follow from how far the cursor went.
  have rest : after'.rest = after.rest := by
    have split : taken ++ after.rest = taken' ++ after'.rest := moved.rest.symm.trans moved'.rest
    exact (List.append_inj_right split length).symm
  have pos : after'.pos = after.pos := by
    rw [moved.pos, moved'.pos, length]
  have active : after'.active = after.active := moved'.active.trans moved.active.symm
  simp only [unlogged, rest, pos, active]

/-- From one place both descents come to the same, whatever is under way and has been refused. -/
theorem unlogged_plain {limit limit' : Nat} {cursor : Cursor} (refusals : List Refusal)
    (room : cursor.room ≤ limit) (room' : cursor.room ≤ limit') (production : Production) :
    unlogged (descend plainGrammar limit' production { cursor with refusals }) =
      unlogged (descend sqlGrammar limit production cursor) := by
  have mirrors : Mirrors Eq [] 0 limit limit' cursor { cursor with refusals } :=
    ⟨⟨cursor.rest, by simp, by simp⟩, fun some => absurd rfl some, fun _ _ _ _ => rfl, room, room'⟩
  have agree := callsAgree_plain limit limit' production cursor _ mirrors
  rcases run : descend sqlGrammar limit production cursor with ⟨_ | tree, after⟩
  · -- A production that fails leaves both cursors where they stood.
    obtain ⟨after', run'⟩ := agree.fails run
    rw [run']
    exact ((parses_descend limit).stays run).unlogged_eq ((parses_plain limit').stays run') rfl _
  · obtain ⟨tree', after', taken, taken', run', shape, length, moved, moved'⟩ := agree.yields run
    cases shape.eq
    rw [run']
    exact moved.unlogged_eq moved' length _

/-- What is finished with the same tokens left has one tree and one residue. -/
theorem Descent.finish_congr {root : Token} {unwrapped : Bool} {cursor cursor' : Cursor}
    (same : cursor'.rest = cursor.rest) :
    { Descent.finish root unwrapped cursor' with refusals := [] } =
      { Descent.finish root unwrapped cursor with refusals := [] } := by
  -- Of the cursor only the tokens ahead and the refusals are used.
  simp only [Descent.finish, same]

/-- A list of tokens comes to the same without looking ahead, the refusals on the way apart. -/
theorem parse_plainGrammar (tokens : List Token) :
    { plainGrammar.parse tokens with refusals := [] } =
      { parseTokens tokens with refusals := [] } := by
  -- The two descents log different refusals and agree in all else.
  have room := Nat.le_of_eq (Cursor.room_start tokens)
  have first := unlogged_plain [] room room .statement
  unfold parseTokens Grammar.parse
  simp only
  rcases plain : descend plainGrammar (nestingLimit tokens) .statement (.start tokens)
    with ⟨found', after'⟩
  rcases ahead : descend sqlGrammar (nestingLimit tokens) .statement (.start tokens)
    with ⟨found, after⟩
  have first : unlogged (found', after') = unlogged (found, after) := by
    rw [← plain, ← ahead]
    exact first
  obtain rfl : found' = found := congrArg Prod.fst first
  cases found' with
  | some root => exact Descent.finish_congr (congrArg (fun outcome => outcome.2.rest) first)
  | none =>
    -- Both descents try again for a bracket, with different refusals behind them.
    have second := @unlogged_plain _ _ { Cursor.start tokens with refusals := after.refusals }
      after'.refusals room room .bracketExpr
    simp only at second ⊢
    rcases plain : descend plainGrammar (nestingLimit tokens) .bracketExpr
      { Cursor.start tokens with refusals := after'.refusals } with ⟨found', last'⟩
    rcases ahead : descend sqlGrammar (nestingLimit tokens) .bracketExpr
      { Cursor.start tokens with refusals := after.refusals } with ⟨found, last⟩
    rw [plain, ahead] at second
    obtain rfl : found' = found := congrArg Prod.fst second
    simp only
    cases found'.bind fun token => token.child? .statement with
    | some root => exact Descent.finish_congr (congrArg (fun outcome => outcome.2.rest) second)
    | none => exact Descent.finish_congr rfl

/--
Looking ahead for a statement behind brackets makes no difference.

Whether a bracket is parsed at every opening bracket or only where a statement may be in it, a list
of tokens comes to the same tree, and so does every production from every place, whatever is under
way there.
-/
theorem parse_without_lookahead :
    (∀ tokens, (plainGrammar.parse tokens).root = (parseTokens tokens).root ∧
      (plainGrammar.parse tokens).residue = (parseTokens tokens).residue ∧
      (plainGrammar.parse tokens).unwrapped = (parseTokens tokens).unwrapped) ∧
    ∀ cursor production more,
      unlogged (descend plainGrammar (cursor.room + more) production cursor) =
        unlogged (descend sqlGrammar cursor.room production cursor) := by
  refine ⟨?_, ?_⟩
  · intro tokens
    have same := parse_plainGrammar tokens
    simp only [Descent.mk.injEq, and_true] at same
    exact ⟨same.1, same.2.2, same.2.1⟩
  · -- There are levels enough for both, and more of them change nothing.
    intro cursor production more
    exact unlogged_plain cursor.refusals (Nat.le_refl _) (Nat.le_add_right _ _) production

/-- The refusals do differ: a name in two brackets costs more of them without looking ahead. -/
example :
    let tokens : List Token := [.lexical .partToken "SELECT".toList, .lexical .openBracket ['('],
      .lexical .openBracket ['('], .lexical .name ['A'], .lexical .closeBracket [')'],
      .lexical .closeBracket [')']]
    (parseTokens tokens).refusals.length < (plainGrammar.parse tokens).refusals.length := by
  decide +kernel

end SqlLayout
