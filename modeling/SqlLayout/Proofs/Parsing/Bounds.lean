import SqlLayout.Proofs.Parsing.Outcome

/-!
The bounds of the descent.

Every production is a transaction, and neither the limit on nesting nor the limit on the turns of a
loop is ever what ends a run.
-/

namespace SqlLayout

open Engine

/-- A cursor at a place in a list of tokens. -/
def Cursor.placed (tokens : List Token) (pos : Nat) (active : ActiveSteps)
    (refusals : List Refusal) : Cursor :=
  -- The tokens ahead are those from that place on.
  { pos, rest := tokens.drop pos, active, refusals }

/--
What a run from a place in a list of tokens leaves behind.

It takes tokens and yields a tree, or it takes none and yields nothing.
-/
structure Transaction (tokens : List Token) (pos : Nat) (active : ActiveSteps)
    (outcome : Option Token × Cursor) : Prop where
  /-- The steps under way are those that it found. -/
  active : outcome.2.active = active
  /-- The cursor stands at a place in the same tokens. -/
  rest : outcome.2.rest = tokens.drop outcome.2.pos
  /-- The cursor stands where it stood, or further on and not behind the end. -/
  place : outcome.1 = none ∧ outcome.2.pos = pos ∨
    outcome.1.isSome = true ∧ pos < outcome.2.pos ∧ outcome.2.pos ≤ tokens.length

/--
Every production is a transaction, wherever it is tried and whatever is under way.

So no step is under way behind the statement at the front of the tokens.
-/
theorem descend_transaction (tokens : List Token) :
    (∀ limit production pos active refusals, Transaction tokens pos active
      (descend sqlGrammar limit production (.placed tokens pos active refusals))) ∧
    (Production.statement.parse tokens).2.active.isEmpty = true := by
  -- Both halves are read off what the descent keeps at every cursor.
  refine ⟨?_, ?_⟩
  · intro limit production pos active refusals
    have parses := parses_descend limit
    rcases run : descend sqlGrammar limit production (.placed tokens pos active refusals)
      with ⟨_ | tree, after⟩
    · -- The tokens ahead are given by the place, so they come back with it.
      have back := parses.stays run
      have same : after.pos = pos := back.pos
      refine ⟨back.active, ?_, .inl ⟨rfl, same⟩⟩
      show after.rest = tokens.drop after.pos
      rw [same]
      exact back.rest.symm
    · obtain ⟨taken, moved, derived⟩ := parses.derives run
      have further : after.pos = pos + taken.length := moved.pos
      have ahead : tokens.drop pos = taken ++ after.rest := moved.rest
      -- A tree takes a token, so the place is not at the end of the tokens yet.
      have solid := List.length_pos_iff.mpr (derived.taken_ne_nil (List.cons_ne_nil _ _))
      have length := congrArg List.length ahead
      rw [List.length_drop, List.length_append] at length
      refine ⟨moved.active, ?_, .inr ⟨rfl, ?_, ?_⟩⟩
      · show after.rest = tokens.drop after.pos
        rw [further, ← List.drop_drop, ahead, List.drop_left]
      · show pos < after.pos
        omega
      · show after.pos ≤ tokens.length
        omega
  · have steady := ((parses_descend (nestingLimit tokens)).reads .statement (.start tokens)).1
    unfold Production.parse
    rw [steady]
    rfl

/-- One turn of the loop of a chain, with what is done in the turns behind it. -/
def Chain.turn (chain : Chain) (operand : Engine Token) (again : Engine (List Token)) :
    Engine (List Token) := do
  let start ← here
  let some separator ← attempt (take chain.separator) | return []
  match ← attempt operand with
  | some next => return separator :: next :: (← again)
  -- Without an operand this is the last turn.
  | none =>
    if chain.keepsDangling then return [separator.addComment syntaxWarning]
    else
      rewind start
      return []

/-- One turn of the loop over clauses, with what is done in the turns behind it. -/
def Engine.turn (item : Engine Token) (again : Engine (List Token)) : Engine (List Token) := do
  let some first ← attempt item | return []
  return first :: (← again)

namespace Production

/-- One turn of the loop in the rule of a production, with what is done in the turns behind it. -/
def turn (production : Production) (call : Production → Engine Token)
    (again : Engine (List Token)) : Engine (List Token) :=
  match production.chain? with
  | some (chain, operand) => chain.turn (call operand) again
  -- The one loop that is no chain is that over the clauses of a single statement.
  | none => Engine.turn (call .part) again

/-- The loop in the rule of a production through a number of turns, and then another move. -/
def loopTo (production : Production) (call : Production → Engine Token)
    (more : Engine (List Token)) : (turns : Nat) → Engine (List Token)
  | 0 => more
  | turns + 1 => production.turn call (production.loopTo call more turns)

end Production

/-- The rules of the grammar, with their loops done as it is said. -/
def looseGrammar (loop : Production → Engine (List Token)) : Grammar
  | call, .singleStatement => do
    let tokens := (← here).rest
    if opensStatement tokens then
      let bracket ← call .bracketExpr
      if bracket.wrapsStatement then return bracket else fail
    else if tokens.head?.any Token.isRootKeyword then
      let first ← call .part
      return .node .singleStatement (first :: (← loop .singleStatement))
    else fail
  | call, production =>
    match production.chain? with
    | some (chain, operand) => do
      let first ← call operand
      return .node chain.kind (first :: (← loop production))
    -- No other rule has a loop.
    | none => sqlGrammar call production

/--
The descent with both bounds in sight.

Another move stands in for the rule of a production that is nested too deep, and another for the
turns that a loop would make past its bound.
-/
def descendTo (beyond : Production → Engine Token) (more : Production → Engine (List Token))
    (turns : Nat) : (limit : Nat) → Production → Engine Token
  | 0, production => guarded production (beyond production)
  | limit + 1, production =>
    let call := descendTo beyond more turns limit
    guarded production
      (looseGrammar (fun loop => loop.loopTo call (more loop) turns) call production)

/--
A descent without bounds.

Each production calls the others as often and as deep as its rule says, and each loop goes on until
a turn ends it.
-/
structure Unbounded (run : Production → Engine Token) (loop : Production → Engine (List Token)) :
    Prop where
  /-- A production is its rule under the guard. -/
  rule : ∀ production, run production = guarded production (looseGrammar loop run production)
  /-- A loop is a turn and then the loop again. -/
  again : ∀ production, loop production = production.turn run (loop production)

namespace Production

/-- The links of a chain are the turns of its loop. -/
theorem loopTo_chain {production operand : Production} {chain : Chain}
    (rule : production.chain? = some (chain, operand)) (call : Production → Engine Token)
    (turns : Nat) : production.loopTo call (pure []) turns = chain.links (call operand) turns := by
  -- One turn of the loop is one link of the chain.
  induction turns with
  | zero => rfl
  | succ turns ih =>
    rw [loopTo, ih, turn, rule]
    rfl

/-- Clauses one after the other are the turns of the loop of a single statement. -/
theorem loopTo_clauses {production : Production} (rule : production.chain? = none)
    (call : Production → Engine Token) (turns : Nat) :
    production.loopTo call (pure []) turns = repeated (call .part) turns := by
  -- One turn of the loop is one clause.
  induction turns with
  | zero => rfl
  | succ turns ih =>
    rw [loopTo, ih, turn, rule]
    rfl

end Production

/-- The rule of a chain with its loop done as it is said. -/
theorem looseGrammar_chain {production operand : Production} {chain : Chain}
    (rule : production.chain? = some (chain, operand)) (loop : Production → Engine (List Token))
    (call : Production → Engine Token) :
    looseGrammar loop call production = (do
      let first ← call operand
      return .node chain.kind (first :: (← loop production))) := by
  -- The rules of the chains are all of this form.
  cases production <;> cases rule <;> rfl

/-- The rules of the grammar make at most as many turns as there are tokens left at the first. -/
theorem sqlGrammar_eq (call : Production → Engine Token) (production : Production) :
    sqlGrammar call production = looseGrammar (fun loop => do
      loop.loopTo call (pure []) (← here).rest.length) call production := by
  -- The two grammars differ in how the number of turns is written, and nowhere else.
  have chains : ∀ {production operand : Production} {chain : Chain},
      production.chain? = some (chain, operand) →
      chain.parse (call operand) = looseGrammar (fun loop => do
        loop.loopTo call (pure []) (← here).rest.length) call production := by
    intro production operand chain rule
    rw [looseGrammar_chain rule]
    simp only [Production.loopTo_chain rule]
    rfl
  -- only the chains and the clauses loop; the other rules are the same word for word
  cases production with
  | statement => exact chains rfl
  | singleStatement =>
    have clauses := Production.loopTo_clauses (rfl : Production.singleStatement.chain? = none) call
    simp only [looseGrammar, clauses]
    rfl
  | listExpr => exact chains rfl
  | orExpr => exact chains rfl
  | andExpr => exact chains rfl
  | mathExpr => exact chains rfl
  | _ => rfl

section Same

variable {α β : Type} {fits : Cursor → Prop}

/-- Two moves that come to the same from a cursor. -/
def SameFrom (cursor : Cursor) (move other : Engine α) : Prop :=
  move cursor = other cursor

/-- Two moves that come to the same from every cursor of a sort. -/
def SameOn (fits : Cursor → Prop) (move other : Engine α) : Prop :=
  ∀ cursor, fits cursor → SameFrom cursor move other

/-- A sort of cursors that none leaves by going on. -/
def Onward (fits : Cursor → Prop) : Prop :=
  ∀ ⦃cursor after : Cursor⦄ ⦃taken : List Token⦄, cursor.Moved taken after → fits cursor →
    fits after

/-- A move that goes on or stays, whether it fails or not. -/
def Advances (move : Engine α) : Prop :=
  ∀ cursor : Cursor, ∃ taken, cursor.Moved taken (move cursor).2

/-- A production that reads what the grammar derives goes on or stays. -/
theorem Engine.Parses.advances {call : Production → Engine Token} (parses : Parses call)
    (production : Production) : Advances (call production) := by
  -- A production that fails goes nowhere, and otherwise it moves over what it reads.
  intro cursor
  rcases run : call production cursor with ⟨_ | tree, after⟩
  · exact ⟨[], parses.stays run⟩
  · obtain ⟨taken, moved, _⟩ := parses.derives run
    exact ⟨taken, moved⟩

/-- Taking a token goes on, and not taking it stays. -/
theorem advances_takeIf (test : Token → Bool) : Advances (takeIf test) := by
  -- A token that is refused stays, and otherwise it is moved over.
  intro cursor
  rcases run : takeIf test cursor with ⟨_ | token, after⟩
  · have back := restores_takeIf test cursor (congrArg Prod.fst run)
    rw [run] at back
    exact ⟨[], back⟩
  · exact ⟨[token], moved_of_takeIf run⟩

/-- Of two alternatives that go on or stay, either does. -/
theorem advances_orElse {first second : Engine α} (one : Advances first)
    (other : Advances second) : Advances (first <|> second) := by
  intro cursor
  have here := one cursor
  rw [orElse_run]
  -- where the first fails it may have moved, and the second goes on from there
  rcases run : first cursor with ⟨_ | value, after⟩
  · rw [run] at here
    obtain ⟨taken, moved⟩ := here
    obtain ⟨more, further⟩ := other after
    exact ⟨taken ++ more, moved.trans further⟩
  · rwa [run] at here

/-- An attempt goes on or stays when the move attempted does. -/
theorem advances_attempt {move : Engine α} (advances : Advances move) : Advances (attempt move) :=
  -- An attempt goes where the move goes.
  advances

/-- Moves one behind the other come to the same when each of them does. -/
theorem sameOn_bind (onward : Onward fits) {move other : Engine α} {next next' : α → Engine β}
    (advances : Advances move) (first : SameOn fits move other)
    (second : ∀ value, SameOn fits (next value) (next' value)) :
    SameOn fits (move >>= next) (other >>= next') := by
  intro cursor fit
  obtain ⟨taken, moved⟩ := advances cursor
  unfold SameFrom
  rw [bind_run, bind_run, ← first cursor fit]
  -- from where the first stops, still a cursor of the sort, the second comes to the same
  rcases run : move cursor with ⟨_ | value, after⟩
  · rfl
  · rw [run] at moved
    exact second value after (onward moved fit)

/-- Alternatives come to the same when each of them does. -/
theorem sameOn_orElse (onward : Onward fits) {first first' second second' : Engine α}
    (advances : Advances first) (one : SameOn fits first first')
    (other : SameOn fits second second') : SameOn fits (first <|> second) (first' <|> second') := by
  -- Both first moves do the same, so that both second ones start from the same place.
  intro cursor fit
  obtain ⟨taken, moved⟩ := advances cursor
  unfold SameFrom
  rw [orElse_run, orElse_run, ← one cursor fit]
  rcases run : first cursor with ⟨_ | value, after⟩
  · rw [run] at moved
    exact other after (onward moved fit)
  · rfl

/-- Attempts come to the same when the moves attempted do. -/
theorem sameOn_attempt {move other : Engine α} (same : SameOn fits move other) :
    SameOn fits (attempt move) (attempt other) := by
  -- An attempt does what its move does, and both moves do the same.
  intro cursor fit
  unfold SameFrom
  rw [attempt_run, attempt_run, same cursor fit]

/-- A production under the guard comes to the same when its rule does where it is entered. -/
theorem guarded_congr {production : Production} {parse parse' : Engine Token} {cursor : Cursor}
    (same : cursor.busy production 0 = false →
      parse { cursor with active := cursor.active.enter (cursor.step production) } =
        parse' { cursor with active := cursor.active.enter (cursor.step production) }) :
    guarded production parse cursor = guarded production parse' cursor := by
  -- A step that is under way already is refused before anything is parsed.
  rw [Cursor.busy, ← Cursor.step_eq] at same
  unfold guarded
  simp only
  split
  · rfl
  · rename_i idle
    rw [same (by simpa using idle)]

end Same

section Rules

variable {fits : Cursor → Prop} {call call' : Production → Engine Token}
  {loop loop' : Production → Engine (List Token)} (onward : Onward fits) (parses : Parses call)
  (calls : ∀ production, SameOn fits (call production) (call' production))

include onward parses calls

/-- A turn comes to the same when what is done behind it does with fewer tokens left. -/
theorem turn_congr {production : Production} {again again' : Engine (List Token)} {cursor : Cursor}
    (fit : fits cursor) (rest : ∀ after, fits after → after.rest.length < cursor.rest.length →
      again after = again' after) :
    production.turn call again cursor = production.turn call' again' cursor := by
  -- What is called before the loop goes on has taken a token, by either kind of loop.
  unfold Production.turn
  rcases production.chain? with _ | ⟨chain, operand⟩
  · simp only
    unfold Engine.turn
    rw [bind_run, bind_run, attempt_run, attempt_run, ← calls .part cursor fit]
    rcases run : call .part cursor with ⟨_ | first, after⟩
    · rfl
    · -- A clause takes a token, so fewer are left for the turns behind it.
      obtain ⟨taken, moved, _⟩ := parses.derives run
      simp only
      rw [bind_run, bind_run, rest after (onward moved fit) (parses.shorter run)]
  · simp only
    unfold Chain.turn
    rw [here_bind_run, here_bind_run, bind_run, bind_run, attempt_run]
    rcases separate : take chain.separator cursor with ⟨_ | separator, behind⟩
    · rfl
    · -- A separator and an operand are two tokens at least.
      have past := moved_of_takeIf separate
      have fewer := congrArg List.length past.rest
      rw [List.length_append, List.length_singleton] at fewer
      simp only
      rw [bind_run, bind_run, attempt_run, attempt_run, ← calls operand behind (onward past fit)]
      rcases run : call operand behind with ⟨_ | next, after⟩
      · rfl
      · obtain ⟨taken, moved, _⟩ := parses.derives run
        have shorter := parses.shorter run
        simp only
        rw [bind_run, bind_run, rest after (onward moved (onward past fit)) (by omega)]

/-- A loop with more turns than tokens left never comes to what stands behind its turns. -/
theorem loopTo_congr {production : Production} {more more' : Engine (List Token)}
    {turns turns' : Nat} {cursor : Cursor} (fit : fits cursor)
    (enough : cursor.rest.length < turns) (enough' : cursor.rest.length < turns') :
    production.loopTo call more turns cursor = production.loopTo call' more' turns' cursor := by
  -- each turn takes a token, so the bound and the tokens left go down together
  induction turns generalizing turns' cursor with
  | zero => omega
  | succ turns ih =>
    obtain ⟨turns', rfl⟩ : ∃ fewer, turns' = fewer + 1 := ⟨turns' - 1, by omega⟩
    refine turn_congr onward parses calls fit ?_
    intro after fit' shorter
    exact ih fit' (by omega) (by omega)

/-- A first operand and a loop behind it come to the same, for the operand takes a token. -/
theorem sameOn_looped (loops : ∀ production cursor after, fits cursor → fits after →
      after.rest.length < cursor.rest.length → loop production after = loop' production after)
    (production operand : Production) (kind : Kind) : SameOn fits
      (do return .node kind ((← call operand) :: (← loop production)) : Engine Token)
      (do return .node kind ((← call' operand) :: (← loop' production))) := by
  -- The loops are entered only behind a first operand, with fewer tokens left.
  intro cursor fit
  unfold SameFrom
  rw [bind_run, bind_run, ← calls operand cursor fit]
  rcases run : call operand cursor with ⟨_ | first, after⟩
  · rfl
  · obtain ⟨taken, moved, _⟩ := parses.derives run
    simp only
    rw [bind_run, bind_run,
      loops production cursor after fit (onward moved fit) (parses.shorter run)]

/-- A token and the tree of a production behind it come to the same. -/
theorem sameOn_pair {first : Engine Token} (advances : Advances first) (kind : Kind)
    (operand : Production) : SameOn fits
      (do let sign ← first; let tree ← call operand; return .node kind [sign, tree] : Engine Token)
      (do let sign ← first; let tree ← call' operand; return .node kind [sign, tree]) := by
  -- The sign is no call, and the tree is one.
  refine sameOn_bind onward advances (fun _ _ => rfl) fun sign => ?_
  exact sameOn_bind onward (parses.advances _) (calls _) fun tree _ _ => rfl

/-- Atoms come to the same. -/
theorem sameOn_atom : SameOn fits (sqlGrammar call .atom) (sqlGrammar call' .atom) := by
  have taken := advances_takeIf
  refine sameOn_bind onward ?_ ?_ fun head _ _ => rfl
  · -- Each of the seven alternatives goes on or stays, and so does trying them in turn.
    refine advances_orElse (parses.advances _) (advances_orElse (parses.advances _) ?_)
    refine advances_orElse (parses.advances _) (advances_orElse (parses.advances _) ?_)
    exact advances_orElse (taken _) (advances_orElse (taken _) (taken _))
  · -- The alternatives behind the four calls do not depend on how productions are called.
    refine sameOn_orElse onward (parses.advances _) (calls _) ?_
    refine sameOn_orElse onward (parses.advances _) (calls _) ?_
    refine sameOn_orElse onward (parses.advances _) (calls _) ?_
    exact sameOn_orElse onward (parses.advances _) (calls _) fun _ _ => rfl

/-- Brackets come to the same. -/
theorem sameOn_bracketExpr :
    SameOn fits (sqlGrammar call .bracketExpr) (sqlGrammar call' .bracketExpr) := by
  -- What is between the brackets is a call, if there is anything.
  refine sameOn_bind onward (advances_takeIf _) (fun _ _ => rfl) fun opening => ?_
  have either := advances_orElse (parses.advances .statement) (parses.advances .listExpr)
  refine sameOn_bind onward (advances_attempt either) (sameOn_attempt ?_) fun inner _ _ => rfl
  exact sameOn_orElse onward (parses.advances _) (calls _) (calls _)

/-- The rules come to the same when calls do, and loops with fewer tokens left. -/
theorem sameOn_looseGrammar (loops : ∀ production cursor after, fits cursor → fits after →
      after.rest.length < cursor.rest.length → loop production after = loop' production after)
    (production : Production) :
    SameOn fits (looseGrammar loop call production) (looseGrammar loop' call' production) := by
  -- A rule is made of calls and loops, and they do the same on either side.
  have looped := sameOn_looped onward parses calls loops
  cases production with
  | statement => exact looped .statement .singleStatement .statement
  | singleStatement =>
    refine fun cursor fit => (?_ : SameFrom cursor (if opensStatement cursor.rest then _ else
      if cursor.rest.head?.any Token.isRootKeyword then _ else _) (if opensStatement cursor.rest
        then _ else if cursor.rest.head?.any Token.isRootKeyword then _ else _))
    split
    · exact sameOn_bind onward (parses.advances _) (calls _) (fun bracket _ _ => rfl) cursor fit
    · split
      · exact looped .singleStatement .part .singleStatement cursor fit
      · rfl
  | part =>
    refine sameOn_bind onward (advances_takeIf _) (fun _ _ => rfl) fun keyword => ?_
    exact sameOn_bind onward (advances_attempt (parses.advances _)) (sameOn_attempt (calls _))
      fun list _ _ => rfl
  | listExpr => exact looped .listExpr .orExpr .listExpr
  | orExpr => exact looped .orExpr .andExpr .orExpr
  | andExpr => exact looped .andExpr .mathExpr .andExpr
  | mathExpr => exact looped .mathExpr .simpleExpr .mathExpr
  | simpleExpr =>
    refine sameOn_orElse onward (parses.advances _) (calls _) ?_
    exact sameOn_orElse onward (parses.advances _) (calls _) (calls _)
  | unaryPrefixExpr => exact sameOn_pair onward parses calls (advances_takeIf _) _ _
  | minusExpr => exact sameOn_pair onward parses calls (advances_takeIf _) _ _
  | atom => exact sameOn_atom onward parses calls
  | bracketExpr => exact sameOn_bracketExpr onward parses calls
  | funExpr => exact sameOn_pair onward parses calls (advances_takeIf _) _ _

end Rules

/-- With any number of turns to their loops, the rules read only what the grammar derives. -/
theorem readsFrom_looseGrammar {call : Production → Engine Token} (parses : Parses call)
    (turns : Nat) (cursor : Cursor) (production : Production) :
    ReadsFrom cursor (looseGrammar (fun loop => loop.loopTo call (pure []) turns) call production)
      fun tree taken => Derives (.one production) [tree] taken := by
  -- The loops read links or clauses with any number of turns, the chains an operand in front.
  have chains : ∀ {production operand : Production} {chain : Chain},
      production.chain? = some (chain, operand) → ReadsFrom cursor
        (looseGrammar (fun loop => loop.loopTo call (pure []) turns) call production)
        fun tree taken => Derives (.one production) [tree] taken := by
    intro production operand chain rule
    rw [looseGrammar_chain rule, Production.loopTo_chain rule]
    exact readsFrom_chained parses cursor rule _ fun after => readsFrom_links parses after rule turns
  cases production with
  | statement => exact chains rfl
  | singleStatement =>
    refine readsFrom_stated parses cursor _ fun after => ?_
    simp only
    rw [Production.loopTo_clauses rfl]
    exact readsFrom_clauses parses after turns
  | listExpr => exact chains rfl
  | orExpr => exact chains rfl
  | andExpr => exact chains rfl
  | mathExpr => exact chains rfl
  -- The other rules have no loop.
  | part => exact readsFrom_sqlGrammar parses cursor .part
  | simpleExpr => exact readsFrom_sqlGrammar parses cursor .simpleExpr
  | unaryPrefixExpr => exact readsFrom_sqlGrammar parses cursor .unaryPrefixExpr
  | minusExpr => exact readsFrom_sqlGrammar parses cursor .minusExpr
  | atom => exact readsFrom_sqlGrammar parses cursor .atom
  | bracketExpr => exact readsFrom_sqlGrammar parses cursor .bracketExpr
  | funExpr => exact readsFrom_sqlGrammar parses cursor .funExpr

/-- The descent that gives up at its bounds. -/
def descendIn (turns : Nat) : (limit : Nat) → Production → Engine Token :=
  -- A rule nested too deep fails, and a loop ends with its last turn.
  descendTo (fun _ => fail) (fun _ => pure []) turns

/-- The descent that gives up at its bounds reads only what the grammar derives. -/
theorem parses_descendIn (turns limit : Nat) : Parses (descendIn turns limit) := by
  -- where the limit is reached a production fails, which reads nothing
  induction limit with
  | zero =>
    refine ⟨fun production cursor => ?_, fun production => ?_⟩
    · exact readsFrom_guarded readsFrom_fail
    · exact restores_guarded fun _ => rfl
  | succ limit ih =>
    refine ⟨fun production cursor => ?_, fun production => ?_⟩
    · exact readsFrom_guarded (readsFrom_looseGrammar ih turns _ production)
    · exact restores_guarded fun cursor => (readsFrom_looseGrammar ih turns cursor production).1

/-- A cursor that goes on keeps to the bounds on its room and on the tokens ahead of it. -/
theorem onward_bounded (limit turns : Nat) :
    Onward fun cursor => cursor.room ≤ limit ∧ cursor.rest.length ≤ turns := by
  -- Moving on makes neither the room nor the rest of the tokens grow.
  intro cursor after taken moved fit
  have length := congrArg List.length moved.rest
  rw [List.length_append] at length
  exact ⟨Nat.le_trans (Cursor.room_moved moved) fit.1, by omega⟩

/-- A production that is under way is refused, whatever the bounds are. -/
theorem descendTo_of_busy {beyond : Production → Engine Token}
    {more : Production → Engine (List Token)} (turns limit : Nat) {production : Production}
    {cursor : Cursor} (busy : cursor.busy production 0 = true) :
    descendTo beyond more turns limit production cursor = (none,
      { cursor with refusals := ⟨cursor.step production, cursor.active⟩ :: cursor.refusals }) := by
  -- The guard comes first on every level, so that the limit plays no part.
  rw [Cursor.busy, ← Cursor.step_eq] at busy
  cases limit with
  | zero => exact if_pos busy
  | succ limit => exact if_pos busy

/--
What stands beyond the bounds makes no difference.

The limit covers the steps that are not under way, and the turns cover the tokens that are left.
-/
theorem descendIn_eq_descendTo {beyond : Production → Engine Token}
    {more : Production → Engine (List Token)} {turns turns' limit limit' : Nat}
    (production : Production) {cursor : Cursor} (room : cursor.room ≤ limit)
    (room' : cursor.room ≤ limit') (rest : cursor.rest.length ≤ turns)
    (rest' : cursor.rest.length ≤ turns') :
    descendIn turns limit production cursor =
      descendTo beyond more turns' limit' production cursor := by
  -- By the limit: with room left the rules of both descents call at smaller limits.
  induction limit generalizing limit' production cursor with
  | zero =>
    -- Without room everything is under way.
    rcases Bool.eq_false_or_eq_true (cursor.busy production 0) with busy | idle
    · rw [descendIn, descendTo_of_busy _ _ busy, descendTo_of_busy _ _ busy]
    · have some := Cursor.room_pos idle
      omega
  | succ limit ih =>
    rcases Bool.eq_false_or_eq_true (cursor.busy production 0) with busy | idle
    · rw [descendIn, descendTo_of_busy _ _ busy, descendTo_of_busy _ _ busy]
    · have less := Cursor.room_enter idle
      obtain ⟨limit', rfl⟩ : ∃ fewer, limit' = fewer + 1 := ⟨limit' - 1, by omega⟩
      -- Entering the production takes room, and every call is made from there on.
      let entered : Cursor := { cursor with active := cursor.active.enter (cursor.step production) }
      have onward := onward_bounded entered.room cursor.rest.length
      have calls : ∀ inner, SameOn
          (fun after => after.room ≤ entered.room ∧ after.rest.length ≤ cursor.rest.length)
          (descendIn turns limit inner) (descendTo beyond more turns' limit' inner) := by
        rintro inner after ⟨smaller, shorter⟩
        have below : entered.room < cursor.room := less
        exact ih inner (by omega) (by omega) (by omega) (by omega)
      refine guarded_congr fun _ => ?_
      refine sameOn_looseGrammar onward (parses_descendIn turns limit) calls ?_ production entered
        ⟨Nat.le_refl _, Nat.le_refl _⟩
      rintro inner before after ⟨_, within⟩ fit shorter
      exact loopTo_congr onward (parses_descendIn turns limit) calls fit (by omega) (by omega)

/-- A cursor with no clause under way at the end of its tokens. -/
def Cursor.EndClear (cursor : Cursor) : Prop :=
  cursor.busy .part cursor.rest.length = false

/-- Going on leaves the end of the tokens as clear as it was. -/
theorem onward_endClear : Onward Cursor.EndClear := by
  -- What was clear at the end stays so, since moving on keeps the steps under way there.
  intro cursor after taken moved clear
  have length := congrArg List.length moved.rest
  rw [List.length_append] at length
  unfold Cursor.EndClear at clear ⊢
  rwa [Cursor.busy_moved moved, ← length]

/-- Entering a production leaves the end of the tokens clear, a clause at the end apart. -/
theorem Cursor.EndClear.enter {cursor : Cursor} (clear : cursor.EndClear) {production : Production}
    (apart : production = .part → cursor.rest ≠ []) :
    ({ cursor with active := cursor.active.enter (cursor.step production) } : Cursor).EndClear := by
  unfold EndClear at clear ⊢
  show Cursor.busy _ _ cursor.rest.length = false
  rw [busy_enter cursor production .part (Nat.le_refl _), clear, Bool.or_false]
  -- entering a clause is a step under way only in front of a token
  refine decide_eq_false fun ⟨same, bare⟩ => ?_
  exact apart same.symm (List.length_eq_zero_iff.mp bare)

/-- A clause that its rule does not find at the end of the tokens leaves no trace there. -/
theorem guarded_part_end {cursor : Cursor} (bare : cursor.rest = []) (clear : cursor.EndClear)
    {parse : Engine Token}
    (absent : ∀ after : Cursor, after.rest = [] → parse after = (none, after)) :
    guarded .part parse cursor = (none, cursor) := by
  have idle : cursor.active.contains (cursor.step .part) = false := by
    unfold Cursor.EndClear at clear
    rwa [bare, List.length_nil, Cursor.busy, ← Cursor.step_eq] at clear
  have left := ActiveSteps.leave_enter idle
  have found := absent { cursor with active := cursor.active.enter (cursor.step .part) } bare
  rw [guarded_run parse idle, found]
  -- What was entered last is left first, and the cursor has not moved.
  obtain ⟨pos, rest, active, refusals⟩ := cursor
  exact congrArg (fun steps => (none, Cursor.mk pos rest steps refusals)) left

/-- The rule of a clause does not find one at the end of the tokens. -/
theorem part_end (call : Production → Engine Token) {cursor : Cursor} (bare : cursor.rest = []) :
    sqlGrammar call .part cursor = (none, cursor) := by
  -- There is no keyword to take at the end of the tokens.
  have absent : take .partToken cursor = (none, cursor) := by
    unfold take takeIf
    rw [bare]
  show (take .partToken >>= _) cursor = _
  rw [bind_run, absent]

/-- There is no clause at the end of the tokens, and trying one there leaves no trace. -/
theorem descend_part_end {cursor : Cursor} (bare : cursor.rest = []) (clear : cursor.EndClear)
    (limit : Nat) : descend sqlGrammar limit .part cursor = (none, cursor) := by
  -- At the end the clause is entered and given up again, on every level.
  cases limit with
  | zero => exact guarded_part_end bare clear fun _ _ => rfl
  | succ limit => exact guarded_part_end bare clear fun _ bare => part_end _ bare

/-- A loop that has as many turns as tokens left makes nothing of another turn. -/
theorem loopTo_succ {call : Production → Engine Token} (parses : Parses call)
    (ends : ∀ cursor : Cursor, cursor.rest = [] → cursor.EndClear →
      call .part cursor = (none, cursor))
    (production : Production) {turns : Nat} {cursor : Cursor} (clear : cursor.EndClear)
    (enough : cursor.rest.length ≤ turns) :
    production.loopTo call (pure []) turns cursor =
      production.loopTo call (pure []) (turns + 1) cursor := by
  -- Every turn takes a token, so that the tokens run out before the turns do.
  induction turns generalizing cursor with
  | zero =>
    -- At the end there is neither a separator nor a clause.
    have bare : cursor.rest = [] := List.length_eq_zero_iff.mp (by omega)
    show _ = production.turn call (pure []) cursor
    unfold Production.turn
    rcases production.chain? with _ | ⟨chain, operand⟩
    · simp only
      unfold Engine.turn
      rw [bind_run, attempt_run, ends cursor bare clear]
      rfl
    · simp only
      unfold Chain.turn
      have absent : take chain.separator cursor = (none, cursor) := by
        unfold take takeIf
        rw [bare]
      rw [here_bind_run, bind_run, attempt_run, absent]
      rfl
  | succ turns ih =>
    refine turn_congr onward_endClear parses (fun _ _ _ => rfl) clear ?_
    intro after clear' shorter
    exact ih clear' (by omega)

/-- The descent is the one with a bound on the turns of its loops that covers the tokens left. -/
theorem descend_eq_descendIn {turns : Nat} (limit : Nat) (production : Production) {cursor : Cursor}
    (clear : cursor.EndClear) (enough : cursor.rest.length ≤ turns) :
    descend sqlGrammar limit production cursor = descendIn turns limit production cursor := by
  induction limit generalizing production cursor with
  | zero => rfl
  | succ limit ih =>
    let fits (after : Cursor) : Prop := after.EndClear ∧ after.rest.length ≤ turns
    have onward : Onward fits := by
      rintro before after taken moved ⟨clear, within⟩
      have length := congrArg List.length moved.rest
      rw [List.length_append] at length
      exact ⟨onward_endClear moved clear, by omega⟩
    have calls : ∀ inner, SameOn fits (descend sqlGrammar limit inner)
        (descendIn turns limit inner) := fun inner after fit => ih inner fit.1 fit.2
    have loops : ∀ (inner : Production) before after, fits before → fits after →
        after.rest.length < before.rest.length →
        (do inner.loopTo (descend sqlGrammar limit) (pure []) (← here).rest.length :
          Engine (List Token)) after =
        inner.loopTo (descendIn turns limit) (pure []) turns after := by
      rintro inner before after ⟨_, within⟩ fit shorter
      -- One turn more than tokens left is what two loops need to be the same.
      rw [here_bind_run, loopTo_succ (parses_descend limit)
        (fun cursor bare clear => descend_part_end bare clear limit) inner fit.1 (Nat.le_refl _)]
      exact loopTo_congr onward (parses_descend limit) calls fit (Nat.lt_succ_self _) (by omega)
    by_cases trivial : production = .part ∧ cursor.rest = []
    · -- A clause at the end is not there at all, whatever its list would be.
      obtain ⟨rfl, bare⟩ := trivial
      rw [descend_part_end bare clear]
      exact (guarded_part_end bare clear fun _ bare => part_end _ bare).symm
    · show guarded production (sqlGrammar (descend sqlGrammar limit) production) cursor =
        guarded production _ cursor
      refine guarded_congr fun _ => ?_
      rw [sqlGrammar_eq]
      refine sameOn_looseGrammar onward (parses_descend limit) calls loops production _
        ⟨clear.enter fun same bare => trivial ⟨same, bare⟩, enough⟩

section Unbounded

variable {run : Production → Engine Token} {loop : Production → Engine (List Token)}

/-- A loop without bounds is any number of its turns and then the loop again. -/
theorem Unbounded.loop_eq (unbounded : Unbounded run loop) (production : Production)
    (turns : Nat) : loop production = production.loopTo run (loop production) turns := by
  -- a loop that goes on is a turn and then the loop, as often as it is said
  induction turns with
  | zero => rfl
  | succ turns ih =>
    rw [Production.loopTo, ← ih]
    exact unbounded.again production

/-- A descent without bounds is one with bounds, and beyond them the descent without. -/
theorem Unbounded.run_eq (unbounded : Unbounded run loop) (turns limit : Nat)
    (production : Production) :
    run production = descendTo (looseGrammar loop run) loop turns limit production := by
  -- one level down, the calls and the loops are again those of the descent without bounds
  induction limit generalizing production with
  | zero => exact unbounded.rule production
  | succ limit ih =>
    have calls : descendTo (looseGrammar loop run) loop turns limit = run :=
      funext fun inner => (ih inner).symm
    have loops : (fun inner : Production => inner.loopTo run (loop inner) turns) = loop :=
      funext fun inner => (unbounded.loop_eq inner turns).symm
    rw [descendTo]
    simp only [calls, loops]
    exact unbounded.rule production

end Unbounded

/-- The descent that gives up at bounds which cover all that can be done from its cursor. -/
def descendFree (production : Production) : Engine Token := fun cursor =>
  descendIn cursor.rest.length cursor.room production cursor

/-- The loops of the descent that gives up only at such bounds. -/
def loopFree (production : Production) : Engine (List Token) := do
  -- The last turn finds that there is nothing left.
  production.loopTo descendFree (pure []) ((← here).rest.length + 1)

/-- There is a descent without bounds. -/
theorem unbounded_descendFree : Unbounded descendFree loopFree := by
  -- Either property is that of the bounded descent from the same cursor.
  have parses : Parses descendFree :=
    ⟨fun production cursor =>
        (parses_descendIn cursor.rest.length cursor.room).reads production cursor,
      fun production cursor =>
        (parses_descendIn cursor.rest.length cursor.room).restores production cursor⟩
  refine ⟨fun production => funext fun cursor => ?_, fun production => funext fun cursor => ?_⟩
  · rcases Bool.eq_false_or_eq_true (cursor.busy production 0) with busy | idle
    · rw [descendFree, descendIn, descendTo_of_busy _ _ busy]
      exact (descendTo_of_busy 0 0 busy :
        descendTo (looseGrammar loopFree descendFree) loopFree 0 0 production cursor = _).symm
    · -- The calls have the room that is left, and at least the room that they would ask for.
      have less := Cursor.room_enter idle
      obtain ⟨limit, room⟩ : ∃ limit, cursor.room = limit + 1 := ⟨cursor.room - 1, by omega⟩
      rw [descendFree, room]
      have onward := onward_bounded limit cursor.rest.length
      have calls : ∀ inner, SameOn
          (fun after => after.room ≤ limit ∧ after.rest.length ≤ cursor.rest.length)
          (descendIn cursor.rest.length limit inner) (descendFree inner) :=
        fun inner after fit =>
          descendIn_eq_descendTo inner fit.1 (Nat.le_refl _) fit.2 (Nat.le_refl _)
      refine guarded_congr fun _ => ?_
      refine sameOn_looseGrammar onward (parses_descendIn _ limit) calls ?_ production _
        ⟨by omega, Nat.le_refl _⟩
      rintro inner before after ⟨_, within⟩ fit shorter
      exact loopTo_congr onward (parses_descendIn _ limit) calls fit (by omega) (Nat.lt_succ_self _)
  · have onward : Onward fun _ => True := fun _ _ _ _ _ => trivial
    refine turn_congr onward parses (fun _ _ _ => rfl) trivial ?_
    intro after _ shorter
    exact loopTo_congr onward parses (fun _ _ _ => rfl) trivial shorter (Nat.lt_succ_self _)

/-- There is room for each of thirteen productions at every place ahead, and no more. -/
theorem Cursor.room_le (cursor : Cursor) : cursor.room ≤ 13 * (cursor.rest.length + 1) := by
  have length : cursor.stepsAhead.length = (cursor.rest.length + 1) * Production.all.length := by
    rw [stepsAhead, List.length_flatMap]
    simp only [List.length_map, List.map_const', List.sum_replicate_nat, List.length_range]
  -- thirteen productions at each place, the end of the tokens included
  have thirteen : Production.all.length = 13 := rfl
  rw [thirteen] at length
  have most : cursor.room ≤ cursor.stepsAhead.length := List.countP_le_length
  omega

/--
The descent ends within its bounds, wherever it starts with no step under way.

It is the one descent without bounds, at most thirteen productions are nested for each place in the
tokens, no loop makes more turns than there are tokens, and a production that is found takes some.
-/
theorem descend_bounds (tokens : List Token) (pos : Nat) (refusals : List Refusal)
    (production : Production) :
    (∃ run loop, Unbounded run loop) ∧
    (∀ run loop, Unbounded run loop → run production (.placed tokens pos {} refusals) =
      descend sqlGrammar (nestingLimit tokens) production (.placed tokens pos {} refusals)) ∧
    (∀ beyond more, descendTo beyond more tokens.length (13 * (tokens.length + 1)) production
        (.placed tokens pos {} refusals) =
      descend sqlGrammar (nestingLimit tokens) production (.placed tokens pos {} refusals)) ∧
    ∀ limit inner cursor tree after, descend sqlGrammar limit inner cursor = (some tree, after) →
      ∃ taken, taken ≠ [] ∧ cursor.Moved taken after := by
  have rest : (Cursor.placed tokens pos {} refusals).rest.length ≤ tokens.length := by
    show (tokens.drop pos).length ≤ _
    rw [List.length_drop]
    omega
  have room := (Cursor.placed tokens pos {} refusals).room_le
  have clear : (Cursor.placed tokens pos {} refusals).EndClear := rfl
  -- Beyond the bounds there may stand anything, and so the descent without bounds.
  have within : ∀ beyond more, descendTo beyond more tokens.length (13 * (tokens.length + 1))
      production (.placed tokens pos {} refusals) =
        descend sqlGrammar (nestingLimit tokens) production (.placed tokens pos {} refusals) := by
    intro beyond more
    rw [descend_eq_descendIn _ _ clear rest]
    have levels : nestingLimit tokens = 13 * (tokens.length + 1) := rfl
    exact (descendIn_eq_descendTo production (by omega) (by omega) rest rest).symm
  refine ⟨⟨_, _, unbounded_descendFree⟩, ?_, within, ?_⟩
  · intro run loop unbounded
    rw [← within (looseGrammar loop run) loop]
    exact congrFun (unbounded.run_eq _ _ production) _
  · intro limit inner cursor tree after yields
    obtain ⟨taken, moved, derived⟩ := (parses_descend limit).derives yields
    exact ⟨taken, derived.taken_ne_nil (List.cons_ne_nil _ _), moved⟩

/-- From a select of one name the descent without bounds finds what the descent finds. -/
theorem descend_bounds_select :
    let tokens : List Token := [.lexical .partToken "SELECT".toList, .lexical .name "A".toList]
    let start : Cursor := .placed tokens 0 {} []
    descendFree .statement start = descend sqlGrammar (nestingLimit tokens) .statement start ∧
      ∃ tree taken after, taken ≠ [] ∧ start.Moved taken after ∧
        descend sqlGrammar (nestingLimit tokens) .statement start = (some tree, after) := by
  -- The bounds are those of the general law, and the statement is found by computing.
  intro tokens start
  obtain ⟨_, free, _, taking⟩ := descend_bounds tokens 0 [] .statement
  refine ⟨free descendFree loopFree unbounded_descendFree, ?_⟩
  have found : (descend sqlGrammar (nestingLimit tokens) .statement start).1.isSome = true := by
    decide +kernel
  rcases run : descend sqlGrammar (nestingLimit tokens) .statement start with ⟨_ | tree, after⟩
  · rw [run] at found
    cases found
  · obtain ⟨taken, some, moved⟩ := taking _ _ _ _ _ run
    exact ⟨tree, taken, after, some, moved, rfl⟩

end SqlLayout
