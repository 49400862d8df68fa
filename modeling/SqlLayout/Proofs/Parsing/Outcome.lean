import SqlLayout.Parsing.Root
import SqlLayout.Proofs.Parsing.Agreement

/-! What parsing a list of tokens comes to: a statement and the tokens behind it, or all tokens left. -/

namespace SqlLayout

open Engine

/-- The run of a production from the front of a list of tokens, with nothing under way. -/
def Production.parse (production : Production) (tokens : List Token) : Option Token × Cursor :=
  -- The limit leaves room for every step that can be entered.
  descend sqlGrammar (nestingLimit tokens) production (Cursor.start tokens)

/-- The links of a chain never fail. -/
theorem Chain.links_isSome (chain : Chain) (operand : Engine Token) (turns : Nat)
    (cursor : Cursor) : (chain.links operand turns cursor).1.isSome = true := by
  induction turns generalizing cursor with
  | zero => rfl
  | succ turns ih =>
    rw [Chain.links_run]
    rcases take chain.separator cursor with ⟨_ | separator, behind⟩
    · rfl
    · rcases run : operand behind with ⟨_ | next, after⟩
      · -- A separator without an operand ends the chain, whether it is kept or not.
        simp only [run]
        split <;> rfl
      · simp only [run, Option.isSome_map, ih]

/-- A chain whose first operand is there is there. -/
theorem Chain.parse_isSome {chain : Chain} {operand : Engine Token} {cursor : Cursor}
    (first : (operand cursor).1.isSome = true) : (chain.parse operand cursor).1.isSome = true := by
  -- The links never fail, so that the first operand decides.
  unfold Chain.parse
  rw [bind_run]
  rcases run : operand cursor with ⟨_ | tree, after⟩
  · simp [run] at first
  · have links := chain.links_isSome operand after.rest.length after
    simp only
    rw [here_bind_run, bind_run]
    rcases others : chain.links operand after.rest.length after with ⟨_ | others, final⟩
    · simp [others] at links
    · rfl

/-- Whether tokens begin with a root keyword, behind any number of opening brackets. -/
def leadsStatement (tokens : List Token) : Bool :=
  (tokens.dropWhile fun token => token.kind == .openBracket).head?.any Token.isRootKeyword

/-- Tokens that lead a statement do so with any others behind them. -/
theorem leadsStatement_append {tokens : List Token} (leads : leadsStatement tokens = true)
    (more : List Token) : leadsStatement (tokens ++ more) = true := by
  unfold leadsStatement at *
  rw [List.dropWhile_append]
  split
  · -- Were there only brackets, there would be no keyword behind them.
    rename_i bare
    simp [List.isEmpty_iff.mp bare] at leads
  · rename_i solid
    obtain ⟨token, others, front⟩ :=
      List.exists_cons_of_ne_nil fun bare => solid (List.isEmpty_iff.mpr bare)
    rw [front] at leads ⊢
    exact leads

/-- A statement is derived from tokens that lead one. -/
theorem Derives.leadsStatement {production : Production} {tree : Token} {taken : List Token}
    (derived : Derives (.one production) [tree] taken)
    (choice : production = .statement ∨ production = .singleStatement ∨
      production = .bracketExpr ∧ tree.wrapsStatement = true) :
    SqlLayout.leadsStatement taken = true := by
  -- The three productions lead a statement through one another, so they are taken together.
  generalize symbol_eq : Symbol.one production = symbol at derived
  generalize trees_eq : [tree] = trees at derived
  induction derived generalizing production tree with
  | chain rule _ _ head _ =>
    cases symbol_eq
    cases trees_eq
    rcases choice with rfl | rfl | ⟨rfl, _⟩
    · cases rule
      exact leadsStatement_append (head (.inr (.inl rfl)) rfl rfl) _
    · simp [Production.chain?] at rule
    · simp [Production.chain?] at rule
  | bracketed _ wraps inner =>
    cases symbol_eq
    cases trees_eq
    exact inner (.inr (.inr ⟨rfl, wraps⟩)) rfl rfl
  | single root =>
    -- A root keyword is no bracket.
    have kind := root
    simp only [Token.isRootKeyword, Bool.and_eq_true, beq_iff_eq] at kind
    simp [SqlLayout.leadsStatement, kind.1, root]
  | @bracket operand opening inner closing taken member opens contents closes ih =>
    cases symbol_eq
    cases trees_eq
    simp only [List.mem_cons, List.not_mem_nil, or_false] at member
    rcases member with rfl | rfl
    · have leads := leadsStatement_append (ih (.inl rfl) rfl rfl) [closing]
      unfold SqlLayout.leadsStatement at leads ⊢
      rwa [List.cons_append, List.dropWhile_cons_of_pos (by simp [opens])]
    · -- A list is no statement.
      have kind := contents.kind_mem
      simp only [Production.kinds, List.mem_singleton] at kind
      simp [Token.wrapsStatement, Token.node, kind] at choice
  | emptyBracket _ closes =>
    cases symbol_eq
    cases trees_eq
    simp [Token.wrapsStatement, Token.node, closes] at choice
  | linksEnd | link | dangling | clausesEnd | clause | headTree | headToken => cases symbol_eq
  | barePart | part | simple | signed | negated | atom | function =>
    cases symbol_eq
    simp at choice

/-- Only tokens that open a statement begin with a bracket around one. -/
theorem Derives.opensStatement {bracket : Token} {taken : List Token}
    (derived : Derives (.one .bracketExpr) [bracket] taken) (wraps : bracket.wrapsStatement = true)
    (more : List Token) : SqlLayout.opensStatement (taken ++ more) = true := by
  have leads := leadsStatement_append (derived.leadsStatement (.inr (.inr ⟨rfl, wraps⟩))) more
  -- a bracket that holds a statement begins with its opening bracket
  have opens : (taken ++ more).head?.any (fun token => token.kind == .openBracket) = true := by
    cases derived with
    | chain rule => simp [Production.chain?] at rule
    | emptyBracket opens _ => simp [opens]
    | bracket _ opens _ _ => simp [opens]
  unfold SqlLayout.opensStatement
  rw [opens]
  exact leads

/-- A production that is not under way comes to what its rule comes to. -/
theorem descend_within_run (limit : Nat) {cursor : Cursor} {production : Production}
    {entered : List Production} (idle : cursor.busy production 0 = false)
    (fresh : production ∉ entered) :
    descend sqlGrammar (limit + 1) production (cursor.within entered) =
      match sqlGrammar (descend sqlGrammar limit) production
        (cursor.within (production :: entered)) with
      | (some token, after) => (some token,
          { after with active := after.active.leave ((cursor.within entered).step production) })
      | (none, after) => (none,
          { after with active := after.active.leave ((cursor.within entered).step production) }.rewind
            (cursor.within entered)) := by
  -- The step is not among those entered on the way, nor was it under way before.
  have free := Cursor.busy_within cursor entered production (Nat.zero_le _)
  rw [idle, Bool.or_false, decide_eq_false fun busy => fresh busy.1] at free
  rw [Cursor.busy, ← Cursor.step_eq] at free
  exact guarded_run _ free

/-- A production that is not under way yields what its rule yields. -/
theorem descend_within (limit : Nat) {cursor : Cursor} {production : Production}
    {entered : List Production} (idle : cursor.busy production 0 = false)
    (fresh : production ∉ entered) :
    (descend sqlGrammar (limit + 1) production (cursor.within entered)).1 =
      (sqlGrammar (descend sqlGrammar limit) production
        (cursor.within (production :: entered))).1 := by
  -- Entering and leaving the step changes nothing in the outcome.
  rw [descend_within_run limit idle fresh]
  rcases sqlGrammar (descend sqlGrammar limit) production _ with ⟨_ | tree, after⟩
  · rfl
  · rfl

/-- Cursors that differ in the steps entered at them go on alike one token further on. -/
theorem mirrors_within {cursor : Cursor} {entered entered' : List Production} {limit limit' : Nat}
    (idle : ∀ production ahead, cursor.busy production ahead = false) (apart : entered.Nodup)
    (apart' : entered'.Nodup) (room : cursor.room ≤ limit + entered.length)
    (room' : cursor.room ≤ limit' + entered'.length) :
    Mirrors Eq [] 1 limit limit' (cursor.within entered) (cursor.within entered') := by
  -- At the cursor's own place different steps are under way, and further on there are none.
  refine ⟨⟨cursor.rest, by simp, by simp⟩, fun some => absurd rfl some, ?_, ?_, ?_⟩
  · intro production ahead further within
    rw [Cursor.within_rest] at within
    rw [Cursor.busy_within _ _ _ within, Cursor.busy_within _ _ _ within]
    have behind : ahead ≠ 0 := by omega
    simp [behind]
  · have less := Cursor.room_within apart fun production (_ : production ∈ entered) =>
      idle production 0
    omega
  · have less := Cursor.room_within apart' fun production (_ : production ∈ entered') =>
      idle production 0
    omega

/-- A bracket around a statement is the single statement at its place. -/
theorem singleStatement_of_bracket {call : Production → Engine Token} {cursor : Cursor}
    {bracket : Token} (opens : opensStatement cursor.rest = true)
    (found : (call .bracketExpr cursor).1 = some bracket) (wraps : bracket.wrapsStatement = true) :
    (sqlGrammar call .singleStatement cursor).1 = some bracket := by
  -- With a bracketed statement ahead the bracket is called, and kept if it wraps one.
  show ((here >>= _ : Engine Token) _).1 = _
  rw [here_bind_run]
  simp only [opens, if_true]
  rw [bind_run]
  rcases run : call .bracketExpr cursor with ⟨_ | tree, after⟩
  · simp [run] at found
  · rw [run] at found
    cases found
    simp only [wraps, if_true]
    rfl

/--
A bracket around a statement at the front of the tokens is itself a statement.

The statement and the single statement that are then under way at the bracket stand in no one's
way, as all that is in the bracket stands further on.
-/
theorem descend_statement_of_bracket {limit : Nat} {cursor : Cursor} {bracket : Token}
    (idle : ∀ production ahead, cursor.busy production ahead = false)
    (room : cursor.room ≤ limit + 3)
    (yields : (descend sqlGrammar (limit + 3) .bracketExpr cursor).1 = some bracket)
    (wraps : bracket.wrapsStatement = true) :
    (descend sqlGrammar (limit + 3) .statement cursor).1.isSome = true := by
  -- A bracket that was read is met again below the statement, two levels further down.
  obtain ⟨taken, moved, derived⟩ :=
    ((parses_descend (limit + 3)).reads .bracketExpr cursor).2 bracket yields
  have opens : opensStatement cursor.rest = true := by
    rw [moved.rest]
    exact derived.opensStatement wraps _
  -- Both runs come to the rule of the bracket, with other steps under way at it.
  have outside : (sqlGrammar (descend sqlGrammar (limit + 2)) .bracketExpr
      (cursor.within [.bracketExpr])).1 = some bracket :=
    (descend_within (limit + 2) (idle _ 0) List.not_mem_nil).symm.trans yields
  have mirrors : Mirrors Eq [] 1 (limit + 2) limit (cursor.within [.bracketExpr])
      (cursor.within [.bracketExpr, .singleStatement, .statement]) :=
    mirrors_within idle (by simp) (by simp) (by simpa using room) (by simpa using room)
  have agree := agreeFrom_bracketExpr indistinct_eq (by simp) (parses_descend (limit + 2))
    (parses_descend limit) (callsAgree_descend indistinct_eq (by simp) (limit + 2) limit) mirrors
    (Nat.le_refl 1)
  obtain ⟨bracket', inside, shape, _⟩ := agree.2 bracket outside
  cases shape.eq
  have found : (descend sqlGrammar (limit + 1) .bracketExpr
      (cursor.within [.singleStatement, .statement])).1 = some bracket :=
    (descend_within limit (idle _ 0) (by simp)).trans inside
  have single : (descend sqlGrammar (limit + 2) .singleStatement
      (cursor.within [.statement])).1 = some bracket := by
    rw [descend_within _ (idle _ 0) (by simp)]
    exact singleStatement_of_bracket opens found wraps
  rw [← Cursor.within.eq_1 cursor, descend_within _ (idle _ 0) List.not_mem_nil]
  exact Chain.parse_isSome (by rw [single]; rfl)

/-- A statement with the tokens left behind it as its residue. -/
def Token.withResidue (root : Token) (left : List Token) : Token :=
  match residueText? left with
  | some text => root.push (.residue text)
  | none => root

/-- There is no bracket around a statement at the front of tokens without a statement there. -/
theorem no_bracket_of_no_statement {tokens : List Token} (refusals : List Refusal)
    (absent : (Production.statement.parse tokens).1 = none) :
    ((descend sqlGrammar (nestingLimit tokens) .bracketExpr
      { Cursor.start tokens with refusals }).1.bind fun token => token.child? .statement) = none := by
  -- A bracket around a statement would have been read as the statement itself.
  have room : ({ Cursor.start tokens with refusals } : Cursor).room = nestingLimit tokens :=
    Cursor.room_start tokens
  -- The refusals so far make no difference to what the descent finds.
  have mirrors : Mirrors Eq [] 0 (nestingLimit tokens) (nestingLimit tokens) (Cursor.start tokens)
      { Cursor.start tokens with refusals } :=
    ⟨⟨tokens, by simp [Cursor.start], by simp [Cursor.start]⟩, fun some => absurd rfl some,
      fun _ _ _ _ => rfl, Nat.le_of_eq (Cursor.room_start tokens), Nat.le_of_eq room⟩
  have absent' := (callsAgree_descend indistinct_eq (by simp) _ _ .statement _ _ mirrors).1 absent
  have levels : nestingLimit tokens = 13 * (tokens.length + 1) := rfl
  obtain ⟨limit, enough⟩ : ∃ limit, nestingLimit tokens = limit + 3 :=
    ⟨nestingLimit tokens - 3, by omega⟩
  rw [enough] at room absent' ⊢
  rcases yields : (descend sqlGrammar (limit + 3) .bracketExpr
    { Cursor.start tokens with refusals }).1 with _ | bracket
  · rfl
  · by_contra found
    have inner : (bracket.child? .statement).isSome = true := Option.isSome_iff_ne_none.mpr found
    obtain ⟨taken, _, derived⟩ := ((parses_descend _).reads .bracketExpr _).2 bracket yields
    have present := descend_statement_of_bracket (fun _ _ => rfl) (Nat.le_of_eq room) yields
      (derived.wrapsStatement.trans inner)
    rw [absent'] at present
    cases present

/--
A list of tokens comes to the statement at its front and the tokens behind it.

Without a statement at the front there is none at all, and all tokens are left.
-/
theorem parseTokens_cases (tokens : List Token) :
    (∃ root taken left, tokens = taken ++ left ∧ Derives (.one .statement) [root] taken ∧
      (Production.statement.parse tokens).1 = some root ∧
      (parseTokens tokens).root = root.withResidue left) ∨
    ((Production.statement.parse tokens).1 = none ∧
      (parseTokens tokens).root = (Token.node .statement []).withResidue tokens) := by
  unfold parseTokens Grammar.parse Production.parse
  simp only
  -- a statement is read, or none and no bracket either, so all tokens are left
  rcases run : descend sqlGrammar (nestingLimit tokens) .statement (Cursor.start tokens)
    with ⟨_ | root, after⟩
  · refine .inr ⟨rfl, ?_⟩
    simp only
    rw [no_bracket_of_no_statement after.refusals (congrArg Prod.fst run)]
    rfl
  · obtain ⟨taken, moved, derived⟩ := (parses_descend _).derives run
    exact .inl ⟨root, taken, after.rest, moved.rest, derived, rfl, rfl⟩

end SqlLayout
