import SqlLayout.Proofs.Parsing.Canonical

/-!
What a move yields from a cursor and where it fails, as far as the next token and the guard decide.

A production yields where neither it nor any production below it is under way.
It fails at a token that cannot be its first, and inside an atom that would come down to itself.
-/

namespace SqlLayout

open Engine

namespace Engine

variable {α β : Type} {cursor : Cursor}

/-- From a cursor a move yields a value and takes the tokens given. -/
def YieldsFrom (cursor : Cursor) (move : Engine α) (value : α) (taken : List Token) : Prop :=
  (move cursor).1 = some value ∧ cursor.Moved taken (move cursor).2

/-- From a cursor a move fails and leaves the cursor where it stands. -/
def FailsFrom (cursor : Cursor) (move : Engine α) : Prop :=
  (move cursor).1 = none ∧ cursor.Moved [] (move cursor).2

/-- Yielding a value takes nothing. -/
theorem yieldsFrom_pure (value : α) : YieldsFrom cursor (pure value : Engine α) value [] :=
  -- The cursor stays where it is.
  ⟨rfl, .refl cursor⟩

/-- A move with another behind it yields what the second yields and takes what both take. -/
theorem yieldsFrom_bind {move : Engine α} {next : α → Engine β} {value : α} {result : β}
    {taken more : List Token} (first : YieldsFrom cursor move value taken)
    (second : ∀ after, cursor.Moved taken after → YieldsFrom after (next value) result more) :
    YieldsFrom cursor (move >>= next) result (taken ++ more) := by
  unfold YieldsFrom at first ⊢
  rw [bind_run]
  -- the second move goes on from where the first one stopped
  rcases run : move cursor with ⟨_ | found, after⟩
  · simp [run] at first
  · simp only [run, Option.some.injEq] at first ⊢
    obtain ⟨rfl, moved⟩ := first
    obtain ⟨yields, further⟩ := second after moved
    exact ⟨yields, moved.trans further⟩

/-- Looking at the cursor and going on yields what going on with that cursor yields. -/
theorem yieldsFrom_here {next : Cursor → Engine β} {result : β} {taken : List Token}
    (yields : YieldsFrom cursor (next cursor) result taken) :
    YieldsFrom cursor (here >>= next) result taken :=
  -- Looking at the cursor does not move it.
  yields

/-- A move whose value is turned into another takes the same tokens. -/
theorem yieldsFrom_map {move : Engine α} {value : α} {taken : List Token} (result : α → β)
    (yields : YieldsFrom cursor move value taken) :
    YieldsFrom cursor (move >>= fun value => pure (result value)) (result value) taken := by
  -- The result is made of the value without reading on.
  rw [← List.append_nil taken]
  exact yieldsFrom_bind yields fun _ _ => yieldsFrom_pure (result value)

/-- The first of two alternatives is taken when it yields. -/
theorem yieldsFrom_orElse_left {first second : Engine α} {value : α} {taken : List Token}
    (yields : YieldsFrom cursor first value taken) :
    YieldsFrom cursor (first <|> second) value taken := by
  -- The second move is never tried.
  unfold YieldsFrom at yields ⊢
  rw [orElse_run]
  rcases run : first cursor with ⟨_ | found, after⟩
  · simp [run] at yields
  · rwa [run] at yields

/-- The second of two alternatives is taken when the first one fails. -/
theorem yieldsFrom_orElse_right {first second : Engine α} {value : α} {taken : List Token}
    (fails : FailsFrom cursor first)
    (yields : ∀ after, cursor.Moved [] after → YieldsFrom after second value taken) :
    YieldsFrom cursor (first <|> second) value taken := by
  -- The first move puts the cursor back, and the second one is tried from there.
  unfold FailsFrom at fails
  unfold YieldsFrom
  rw [orElse_run]
  rcases run : first cursor with ⟨_ | found, after⟩
  · rw [run] at fails
    obtain ⟨yields, further⟩ := yields after fails.2
    exact ⟨yields, fails.2.trans further⟩
  · simp [run] at fails

/-- Two alternatives that fail do so together. -/
theorem failsFrom_orElse {first second : Engine α} (fails : FailsFrom cursor first)
    (others : ∀ after, cursor.Moved [] after → FailsFrom after second) :
    FailsFrom cursor (first <|> second) := by
  -- Each move puts the cursor back, the first and then the second.
  unfold FailsFrom at fails ⊢
  rw [orElse_run]
  rcases run : first cursor with ⟨_ | found, after⟩
  · rw [run] at fails
    obtain ⟨failed, further⟩ := others after fails.2
    exact ⟨failed, fails.2.trans further⟩
  · simp [run] at fails

/-- A move with another behind it yields nothing when the first one fails. -/
theorem bind_eq_none {move : Engine α} {next : α → Engine β} (failed : (move cursor).1 = none) :
    ((move >>= next) cursor).1 = none := by
  -- Without a value there is nothing to go on with.
  rw [bind_run]
  rcases run : move cursor with ⟨_ | value, after⟩
  · rfl
  · rw [run] at failed
    cases failed

/-- An attempt yields what the move attempted yields. -/
theorem yieldsFrom_attempt {move : Engine α} {value : α} {taken : List Token}
    (yields : YieldsFrom cursor move value taken) :
    YieldsFrom cursor (attempt move) (some value) taken :=
  -- An attempt ends where its move does.
  ⟨congrArg some yields.1, yields.2⟩

/-- An attempt yields nothing when the move attempted fails. -/
theorem yieldsFrom_attempt_none {move : Engine α} (fails : FailsFrom cursor move) :
    YieldsFrom cursor (attempt move) none [] :=
  -- The move fails and puts the cursor back, and the attempt gives nothing.
  ⟨congrArg some fails.1, fails.2⟩

/-- A token that passes a test is taken from the front of the tokens. -/
theorem yieldsFrom_takeIf {test : Token → Bool} {token : Token} {behind : List Token}
    (front : cursor.rest = token :: behind) (passes : test token = true) :
    YieldsFrom cursor (takeIf test) token [token] := by
  -- The token is there, and it passes.
  have found : (takeIf test cursor).1 = some token := by
    unfold takeIf
    rw [front]
    exact congrArg Prod.fst (if_pos passes)
  exact ⟨found, moved_of_takeIf (Prod.ext found rfl)⟩

/-- A token of a kind is taken from the front of the tokens. -/
theorem yieldsFrom_take {kind : Kind} {token : Token} {behind : List Token}
    (front : cursor.rest = token :: behind) (same : token.kind = kind) :
    YieldsFrom cursor (take kind) token [token] :=
  -- The test is for the kind.
  yieldsFrom_takeIf front (by simp [same])

/-- Nothing is taken at the end of the tokens, and no token that does not pass the test. -/
theorem failsFrom_takeIf {test : Token → Bool}
    (other : ∀ next ∈ cursor.rest.head?, test next = false) : FailsFrom cursor (takeIf test) := by
  -- At the end there is no token, and any other one is refused.
  have failed : (takeIf test cursor).1 = none := by
    unfold takeIf
    rcases front : cursor.rest with _ | ⟨token, behind⟩
    · rfl
    · have differs : ¬ test token = true := Bool.eq_false_iff.mp (other token (by rw [front]; rfl))
      simp only [if_neg differs]
  exact ⟨failed, restores_takeIf test cursor failed⟩

/-- No token is taken that is of another kind. -/
theorem failsFrom_take {kind : Kind} (other : ∀ next ∈ cursor.rest.head?, next.kind ≠ kind) :
    FailsFrom cursor (take kind) :=
  -- The test is for the kind.
  failsFrom_takeIf fun next front => by simp [other next front]

/-- A production that is not under way yields what its rule yields where it is entered. -/
theorem yieldsFrom_guarded {production : Production} {parse : Engine Token} {tree : Token}
    {taken : List Token} (idle : cursor.busy production 0 = false)
    (yields : YieldsFrom { cursor with active := cursor.active.enter (cursor.step production) }
      parse tree taken) :
    YieldsFrom cursor (guarded production parse) tree taken := by
  rw [Cursor.busy, ← Cursor.step_eq] at idle
  -- the production is not under way, so it is entered and left again
  have left := ActiveSteps.leave_enter idle
  unfold YieldsFrom at yields ⊢
  rw [guarded_run parse idle]
  rcases run : parse { cursor with active := cursor.active.enter (cursor.step production) }
    with ⟨_ | found, after⟩
  · simp [run] at yields
  · simp only [run] at yields ⊢
    obtain ⟨found, moved⟩ := yields
    refine ⟨found, moved.rest, moved.pos, ?_⟩
    rw [moved.active]
    exact left

end Engine

section Failing

variable {cursor : Cursor} {production : Production}

/-- A production that yields nothing leaves the cursor where it stands. -/
theorem failsFrom_descend {limit : Nat}
    (failed : (descend sqlGrammar limit production cursor).1 = none) :
    FailsFrom cursor (descend sqlGrammar limit production) :=
  -- A production that fails puts the cursor back.
  ⟨failed, (parses_descend limit).restores production cursor failed⟩

/-- A production fails at the end of the tokens, and at a token that cannot be its first. -/
theorem failsFrom_of_next (limit : Nat)
    (other : ∀ next ∈ cursor.rest.head?, production.starts Token.startsOperand next = false) :
    FailsFrom cursor (descend sqlGrammar limit production) := by
  refine failsFrom_descend ?_
  rcases run : descend sqlGrammar limit production cursor with ⟨_ | tree, after⟩
  · rfl
  · -- What it took would begin with the token here.
    obtain ⟨taken, moved, derived⟩ := (parses_descend limit).derives run
    have opens := Symbol.opens_append derived.opens after.rest
    rw [← moved.rest, Symbol.opens, Option.any_eq_true] at opens
    obtain ⟨next, front, starts⟩ := opens
    rw [other next front] at starts
    cases starts

/-- A statement fails at tokens that do not lead one. -/
theorem failsFrom_statement (limit : Nat) (plain : leadsStatement cursor.rest = false) :
    FailsFrom cursor (descend sqlGrammar limit .statement) := by
  refine failsFrom_descend ?_
  -- a statement would be derived from tokens that lead one
  rcases run : descend sqlGrammar limit .statement cursor with ⟨_ | tree, after⟩
  · rfl
  · obtain ⟨taken, moved, derived⟩ := (parses_descend limit).derives run
    have leads := leadsStatement_append (derived.leadsStatement (.inl rfl)) after.rest
    rw [← moved.rest, plain] at leads
    cases leads

/-- A production fails when it is under way, or when its rule fails where it is entered. -/
theorem failsFrom_of_rule (limit : Nat)
    (rule : ∀ fewer, (sqlGrammar (descend sqlGrammar fewer) production
      { cursor with active := cursor.active.enter (cursor.step production) }).1 = none) :
    FailsFrom cursor (descend sqlGrammar limit production) := by
  refine failsFrom_descend ?_
  -- without a level it fails at once, and else its rule does
  cases limit with
  | zero =>
    show (guarded production fail cursor).1 = none
    unfold guarded
    simp only
    split <;> rfl
  | succ limit =>
    have failed := rule limit
    show (guarded production _ cursor).1 = none
    unfold guarded
    simp only
    split
    · rfl
    · rcases run : sqlGrammar (descend sqlGrammar limit) production
        { cursor with active := cursor.active.enter (cursor.step production) }
        with ⟨_ | tree, after⟩
      · rfl
      · rw [run] at failed
        cases failed

/-- An atom is under way at a token that is no sign. -/
structure Cursor.Blocked (cursor : Cursor) : Prop where
  /-- An atom was entered here. -/
  busy : cursor.busy .atom 0 = true
  /-- The token here is no sign. -/
  unsigned : ∀ next ∈ cursor.rest.head?, next.isSign = false

/-- Entering a production inside an atom stays inside it. -/
theorem Cursor.Blocked.enter (blocked : cursor.Blocked) (production : Production) :
    ({ cursor with active := cursor.active.enter (cursor.step production) } : Cursor).Blocked := by
  -- One more step under way frees no other one.
  refine ⟨?_, blocked.unsigned⟩
  rw [Cursor.busy_enter cursor production .atom (Nat.zero_le _), blocked.busy, Bool.or_true]

/-- A cursor that has not moved is still inside the atom. -/
theorem Cursor.Blocked.stay {after : Cursor} (blocked : cursor.Blocked)
    (moved : cursor.Moved [] after) : after.Blocked := by
  -- At the same place the same tokens are ahead and the same steps under way.
  have rest : cursor.rest = after.rest := moved.rest
  refine ⟨?_, rest ▸ blocked.unsigned⟩
  rw [Cursor.busy_moved moved]
  exact blocked.busy

/-- The rule of a chain is to parse its operands. -/
theorem sqlGrammar_chain {operand : Production} {chain : Chain}
    (rule : production.chain? = some (chain, operand)) (call : Production → Engine Token) :
    sqlGrammar call production = chain.parse (call operand) := by
  -- The rules of the chains are all of this form.
  cases production <;> cases rule <;> rfl

/-- A production fails when it is under way. -/
theorem failsFrom_of_busy (limit : Nat) (busy : cursor.busy production 0 = true) :
    FailsFrom cursor (descend sqlGrammar limit production) := by
  -- The guard comes first on every level, so that the limit plays no part.
  rw [Cursor.busy, ← Cursor.step_eq] at busy
  refine failsFrom_descend ?_
  cases limit with
  | zero => exact congrArg Prod.fst (if_pos busy)
  | succ limit => exact congrArg Prod.fst (if_pos busy)

/-- An expression with a sign fails at a token that is none. -/
theorem failsFrom_sign (limit : Nat) (unsigned : ∀ next ∈ cursor.rest.head?, next.isSign = false)
    (choice : production = .unaryPrefixExpr ∨ production = .minusExpr) :
    FailsFrom cursor (descend sqlGrammar limit production) := by
  -- Both productions begin with a sign, each with its own.
  refine failsFrom_of_next limit fun next front => ?_
  have neither := unsigned next front
  rw [Token.isSign, Bool.or_eq_false_iff] at neither
  rcases choice with rfl | rfl
  · exact neither.1
  · exact neither.2

/-- Inside an atom that is no sign there is no simple expression at the same token. -/
theorem Cursor.Blocked.failsFrom_simpleExpr (blocked : cursor.Blocked) (limit : Nat) :
    FailsFrom cursor (descend sqlGrammar limit .simpleExpr) := by
  refine failsFrom_of_rule limit fun fewer => ?_
  have inside := blocked.enter .simpleExpr
  refine (failsFrom_orElse (failsFrom_sign fewer inside.unsigned (.inl rfl)) ?_).1
  intro second stayed
  refine failsFrom_orElse (failsFrom_sign fewer (inside.stay stayed).unsigned (.inr rfl)) ?_
  intro third stayed'
  -- The guard refuses the atom, which is under way.
  exact failsFrom_of_busy fewer ((inside.stay stayed).stay stayed').busy

/-- Inside an atom a chain fails when its operands do. -/
theorem Cursor.Blocked.failsFrom_chain {operand : Production} {chain : Chain}
    (blocked : cursor.Blocked) (rule : production.chain? = some (chain, operand))
    (operands : ∀ {after : Cursor}, after.Blocked → ∀ limit,
      FailsFrom after (descend sqlGrammar limit operand)) (limit : Nat) :
    FailsFrom cursor (descend sqlGrammar limit production) := by
  -- A chain needs a first operand, and its step is the only one that is added.
  refine failsFrom_of_rule limit fun fewer => ?_
  rw [sqlGrammar_chain rule]
  exact bind_eq_none (operands (blocked.enter production) fewer).1

/--
An atom that is no bracket is not itself an expression.

The expression would come down to the same atom at the same token, which the guard refuses.
-/
theorem Cursor.Blocked.failsFrom_orExpr (blocked : cursor.Blocked) (limit : Nat) :
    FailsFrom cursor (descend sqlGrammar limit .orExpr) := by
  -- Each chain on the way down begins with its operand at the same token.
  have math : ∀ {after : Cursor}, after.Blocked → ∀ limit,
      FailsFrom after (descend sqlGrammar limit .mathExpr) :=
    fun blocked => blocked.failsFrom_chain rfl fun blocked => blocked.failsFrom_simpleExpr
  have conjunction : ∀ {after : Cursor}, after.Blocked → ∀ limit,
      FailsFrom after (descend sqlGrammar limit .andExpr) :=
    fun blocked => blocked.failsFrom_chain rfl math
  exact blocked.failsFrom_chain rfl conjunction limit

end Failing

section Ready

/-- How far down the grammar a production stands below those that begin at the same token as it. -/
def Production.depth : Production → Nat
  | statement => 0
  | singleStatement => 1
  | part => 2
  | listExpr => 3
  | orExpr => 4
  | andExpr => 5
  | mathExpr => 6
  | simpleExpr => 7
  | unaryPrefixExpr | minusExpr => 8
  | atom => 9
  | bracketExpr | funExpr => 10

/-- The operands of a chain stand below it. -/
theorem Production.depth_chain {production operand : Production} {chain : Chain}
    (rule : production.chain? = some (chain, operand)) : production.depth + 1 ≤ operand.depth := by
  -- The depths are listed, and each chain stands above its operand.
  cases production <;> cases rule <;> decide

/-- A cursor at which productions from a depth on can be entered, with the levels left for them. -/
structure Cursor.Ready (cursor : Cursor) (depth limit : Nat) : Prop where
  /-- The levels left cover the steps that are not under way. -/
  room : cursor.room ≤ limit
  /-- No production from the depth on is under way here. -/
  idle : ∀ production : Production, depth ≤ production.depth → cursor.busy production 0 = false
  /-- No production at all is under way further on. -/
  ahead : ∀ (production : Production) (ahead : Nat), 0 < ahead → ahead ≤ cursor.rest.length →
    cursor.busy production ahead = false

namespace Cursor.Ready

variable {cursor after : Cursor} {depth limit : Nat}

/-- Productions further down can be entered as well. -/
theorem mono (ready : cursor.Ready depth limit) {deeper : Nat} (below : depth ≤ deeper) :
    cursor.Ready deeper limit :=
  -- Fewer productions are asked to be idle.
  ⟨ready.room, fun production further => ready.idle production (Nat.le_trans below further),
    ready.ahead⟩

/-- A cursor that has not moved is as ready as it was. -/
theorem stay (ready : cursor.Ready depth limit) (moved : cursor.Moved [] after) :
    after.Ready depth limit := by
  -- At the same place the same tokens are ahead and the same steps under way.
  have rest : cursor.rest = after.rest := moved.rest
  refine ⟨Nat.le_trans (Cursor.room_moved moved) ready.room, ?_, ?_⟩
  · intro production further
    rw [Cursor.busy_moved moved]
    exact ready.idle production further
  · intro production ahead some within
    rw [Cursor.busy_moved moved, List.length_nil, Nat.zero_add]
    exact ready.ahead production ahead some (by rwa [rest])

/-- Behind a token that was taken every production can be entered. -/
theorem past (ready : cursor.Ready depth limit) {taken : List Token} {deeper : Nat}
    (moved : cursor.Moved taken after) (some : taken ≠ []) : after.Ready deeper limit := by
  have length := congrArg List.length moved.rest
  rw [List.length_append] at length
  -- behind a token taken the cursor is at a place that nothing was entered at
  have further := List.length_pos_iff.mpr some
  refine ⟨Nat.le_trans (Cursor.room_moved moved) ready.room, ?_, ?_⟩
  · intro production _
    rw [Cursor.busy_moved moved]
    exact ready.ahead production _ (by omega) (by omega)
  · intro production ahead _ within
    rw [Cursor.busy_moved moved]
    exact ready.ahead production _ (by omega) (by omega)

/-- Entering a production leaves those below it to be entered. -/
theorem enter {production : Production} (ready : cursor.Ready production.depth (limit + 1)) :
    ({ cursor with active := cursor.active.enter (cursor.step production) } : Cursor).Ready
      (production.depth + 1) limit := by
  have room := ready.room
  have less := Cursor.room_enter (ready.idle production (Nat.le_refl _))
  -- only the production entered is under way here, and it is not one of those deeper
  refine ⟨by omega, ?_, ?_⟩
  · intro inner further
    have apart : inner ≠ production := by
      rintro rfl
      omega
    rw [Cursor.busy_enter cursor production inner (Nat.zero_le _),
      ready.idle inner (by omega)]
    simp [apart]
  · intro inner ahead some within
    have apart : ahead ≠ 0 := by omega
    rw [Cursor.busy_enter cursor production inner within, ready.ahead inner ahead some within]
    simp [apart]

end Cursor.Ready

/-- The tokens left behind a move are those that stood behind the tokens taken. -/
theorem Cursor.Moved.rest_eq {cursor after : Cursor} {taken behind : List Token}
    (moved : cursor.Moved taken after) (rest : cursor.rest = taken ++ behind) :
    after.rest = behind :=
  -- The tokens taken are those at the front, and the rest is left.
  (List.append_cancel_left (rest.symm.trans moved.rest)).symm

/-- Where a production can be entered, it yields what its rule yields one level further down. -/
theorem yieldsFrom_descend {cursor : Cursor} {limit : Nat} {production : Production} {tree : Token}
    {taken : List Token} (ready : cursor.Ready production.depth limit)
    (rule : ∀ fewer entered, entered.rest = cursor.rest →
      entered.Ready (production.depth + 1) fewer → entered.busy production 0 = true →
      YieldsFrom entered (sqlGrammar (descend sqlGrammar fewer) production) tree taken) :
    YieldsFrom cursor (descend sqlGrammar limit production) tree taken := by
  have idle := ready.idle production (Nat.le_refl _)
  -- The production itself is a step that is not under way, so there is a level for it.
  have some := Cursor.room_pos idle
  have room := ready.room
  obtain ⟨fewer, rfl⟩ : ∃ fewer, limit = fewer + 1 := ⟨limit - 1, by omega⟩
  refine yieldsFrom_guarded idle (rule fewer _ rfl ready.enter ?_)
  rw [Cursor.busy_enter cursor production production (Nat.zero_le _)]
  simp

end Ready

end SqlLayout
