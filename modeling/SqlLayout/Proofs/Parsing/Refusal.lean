import SqlLayout.Proofs.Parsing.Bounds

/-!
What the guard refuses.

A production comes down to itself at the same token only by way of an atom.
So nothing is refused but an expression inside an atom that begins where the expression would.
-/

namespace SqlLayout

open Engine

namespace Production

/-- The productions on the way down to an atom, the atom included. -/
def towardsAtom : List Production :=
  [listExpr, orExpr, andExpr, mathExpr, simpleExpr, atom]

/-- The productions that a rule tries before it has taken a token. -/
def leading : Production → List Production
  | statement => [singleStatement]
  | singleStatement => [bracketExpr, part]
  | listExpr => [orExpr]
  | orExpr => [andExpr]
  | andExpr => [mathExpr]
  | mathExpr => [simpleExpr]
  | simpleExpr => [unaryPrefixExpr, minusExpr, atom]
  | atom => [bracketExpr, statement, orExpr, funExpr]
  -- The other rules begin with a token of their own.
  | part | unaryPrefixExpr | minusExpr | bracketExpr | funExpr => []

/-- The productions that may be under way where one is tried, as long as no atom is. -/
def above : Production → List Production
  | statement | listExpr => []
  | singleStatement => [statement]
  | part | bracketExpr => [statement, singleStatement]
  | orExpr => [listExpr]
  | andExpr => [listExpr, orExpr]
  | mathExpr => [listExpr, orExpr, andExpr]
  | simpleExpr => [listExpr, orExpr, andExpr, mathExpr]
  | unaryPrefixExpr | minusExpr | atom => [listExpr, orExpr, andExpr, mathExpr, simpleExpr]
  -- A function is tried only inside an atom.
  | funExpr => []

/-- No production may be under way where it is tried itself. -/
theorem not_mem_above (production : Production) : production ∉ production.above := by
  -- The table is looked through.
  cases production <;> decide

/-- What a rule tries first finds under way what the rule found, and the rule itself. -/
theorem above_leading {production next : Production} (leads : next ∈ production.leading) :
    next ≠ .listExpr ∧ (production = .atom ∨
      production ∈ next.above ∧ ∀ other ∈ production.above, other ∈ next.above) := by
  -- The two tables are looked through once.
  have all : ∀ production, ∀ next ∈ leading production, next ≠ .listExpr ∧ (production = .atom ∨
      production ∈ next.above ∧ ∀ other ∈ production.above, other ∈ next.above) := by
    intro production
    cases production <;> decide
  exact all production next leads

end Production

namespace Cursor

/-- A cursor at which, and ahead of which, nothing is under way. -/
def Fresh (cursor : Cursor) : Prop :=
  ∀ production ahead, ahead ≤ cursor.rest.length → cursor.busy production ahead = false

/--
A cursor at which a production is tried in the course of a run.

What is under way there has led down to the production without taking a token.
-/
structure Arrives (cursor : Cursor) (production : Production) : Prop where
  /-- Nothing is under way further ahead. -/
  ahead : ∀ other ahead, 0 < ahead → ahead ≤ cursor.rest.length → cursor.busy other ahead = false
  /-- What is under way here stands above the production, or leads to an atom that is. -/
  here : ∀ other, cursor.busy other 0 = true → other ∈ production.above ∨
    other ∈ Production.towardsAtom ∧ cursor.busy .atom 0 = true ∧ production ≠ .listExpr

/-- A cursor inside a production that has just been entered there. -/
structure Inside (cursor : Cursor) (production : Production) : Prop where
  /-- What the rule tries first is tried in the course of the run. -/
  near : ∀ next ∈ production.leading, ∀ after, cursor.Moved [] after → after.Arrives next
  /-- Behind a token nothing is under way. -/
  far : ∀ taken after, cursor.Moved taken after → taken ≠ [] → after.Fresh

/-- Going on leaves a fresh cursor fresh. -/
theorem onward_fresh : Onward Fresh := by
  -- What is under way ahead of the new place is what was under way further ahead of the old one.
  intro cursor after taken moved fresh production ahead within
  have length := congrArg List.length moved.rest
  rw [List.length_append] at length
  rw [busy_moved moved]
  exact fresh production _ (by omega)

/-- Any production may be tried at a fresh cursor. -/
theorem Fresh.arrives {cursor : Cursor} (fresh : cursor.Fresh) (production : Production) :
    cursor.Arrives production := by
  -- Nothing is under way, so there is nothing to stand above the production.
  refine ⟨fun other ahead _ within => fresh other ahead within, ?_⟩
  intro other busy
  rw [fresh other 0 (Nat.zero_le _)] at busy
  cases busy

/-- What is under way where a production is tried stays under way for what its rule tries first. -/
theorem Arrives.above_next {cursor : Cursor} {production next other : Production}
    (arrives : cursor.Arrives production) (leads : next ∈ production.leading)
    (busy : other = production ∨ cursor.busy other 0 = true) :
    other ∈ next.above ∨ other ∈ Production.towardsAtom ∧
      (.atom = production ∨ cursor.busy .atom 0 = true) ∧ next ≠ .listExpr := by
  obtain ⟨apart, passes⟩ := Production.above_leading leads
  -- Under an atom all that leads to it may be under way, and else only what stands above.
  rcases passes with rfl | ⟨own, passes⟩
  · have above : ∀ other ∈ Production.above .atom, other ∈ Production.towardsAtom := by decide
    refine .inr ⟨?_, .inl rfl, apart⟩
    rcases busy with rfl | busy
    · decide
    · exact (arrives.here other busy).elim (above other) And.left
  · rcases busy with rfl | busy
    · exact .inl own
    · rcases arrives.here other busy with stands | ⟨member, atom, _⟩
      · exact .inl (passes other stands)
      · exact .inr ⟨member, .inr atom, apart⟩

/-- Entering a production where it is tried leads inside it. -/
theorem Arrives.inside {cursor : Cursor} {production : Production}
    (arrives : cursor.Arrives production) :
    ({ cursor with active := cursor.active.enter (cursor.step production) } : Cursor).Inside
      production := by
  -- What was under way before stays so, and the production itself is added at the cursor.
  have entered := fun other ahead (within : ahead ≤ cursor.rest.length) =>
    busy_enter cursor production other within
  -- Away from the cursor the entry changes nothing.
  have apart : ∀ other ahead, 0 < ahead → ahead ≤ cursor.rest.length →
      ({ cursor with active := cursor.active.enter (cursor.step production) } : Cursor).busy
        other ahead = false := by
    intro other ahead further within
    rw [entered other ahead within, arrives.ahead other ahead further within, Bool.or_false]
    exact decide_eq_false fun same => by omega
  refine ⟨?_, ?_⟩
  · -- No token was taken, so the same is under way as where the rule began.
    intro next leads after moved
    have rest : cursor.rest = after.rest := moved.rest
    have same : ∀ other ahead, after.busy other ahead = _ := fun other ahead => by
      rw [busy_moved moved, List.length_nil, Nat.zero_add]
    refine ⟨?_, ?_⟩
    · intro other ahead further within
      rw [same]
      exact apart other ahead further (rest ▸ within)
    · intro other busy
      rw [same, entered other 0 (Nat.zero_le _)] at busy
      rw [same, entered .atom 0 (Nat.zero_le _)]
      have passed := arrives.above_next leads (by simpa using busy)
      simpa using passed
  · -- A token was taken, so all that is under way lies behind.
    intro taken after moved some other ahead within
    have length : cursor.rest.length = taken.length + after.rest.length := by
      rw [← List.length_append]
      exact congrArg List.length moved.rest
    have further := List.length_pos_iff.mpr some
    rw [busy_moved moved]
    exact apart other _ (by omega) (by omega)

end Cursor

/-- The productions that the guard may refuse. -/
def Production.recursive : List Production :=
  [orExpr, andExpr, mathExpr, simpleExpr, atom]

/-- A refusal of an expression that began with an atom under way at the same token. -/
def Refusal.CutsRecursion (refusal : Refusal) : Prop :=
  refusal.step.production ∈ Production.recursive ∧
    refusal.active.contains ⟨.atom, refusal.step.token⟩ = true

instance (refusal : Refusal) : Decidable refusal.CutsRecursion :=
  inferInstanceAs (Decidable (_ ∧ _))

/-- A production that is refused where it is tried in the course of a run is cut inside an atom. -/
theorem Cursor.Arrives.cuts {cursor : Cursor} {production : Production}
    (arrives : cursor.Arrives production) (busy : cursor.busy production 0 = true) :
    Refusal.CutsRecursion ⟨cursor.step production, cursor.active⟩ := by
  -- Nothing stands above itself, so an atom is under way, and the list is tried nowhere then.
  rcases arrives.here production busy with own | ⟨member, atom, apart⟩
  · exact absurd own production.not_mem_above
  · refine ⟨?_, ?_⟩
    · have others : ∀ other ∈ Production.towardsAtom, other ≠ .listExpr →
          other ∈ Production.recursive := by decide
      exact others production member apart
    · rw [step_eq]
      exact atom

/--
The rules of the grammar, with a clause tried at every token that opens no bracketed statement.

At a token other than a root keyword the clause is given up as soon as it has been entered.
-/
def trialGrammar : Grammar
  | call, .singleStatement => do
    let tokens := (← here).rest
    if opensStatement tokens then
      let bracket ← call .bracketExpr
      if bracket.wrapsStatement then return bracket else fail
    else if tokens.head?.any Token.isRootKeyword then
      let first ← call .part
      let others ← repeated (call .part) (← here).rest.length
      return .node .singleStatement (first :: others)
    -- The guard is asked all the same.
    else guarded .part fail
  | call, production => sqlGrammar call production

section Moves

variable {α β : Type} {cursor : Cursor}

/-- From a cursor two moves come to the same, and every refusal on the way cuts recursion. -/
def CutsFrom (cursor : Cursor) (move other : Engine α) : Prop :=
  other cursor = move cursor ∧ ∃ more, (move cursor).2.refusals = more ++ cursor.refusals ∧
    ∀ refusal ∈ more, refusal.CutsRecursion

/-- A move without refusals. -/
theorem cutsFrom_silent {move : Engine α} (silent : (move cursor).2.refusals = cursor.refusals) :
    CutsFrom cursor move move :=
  -- No refusal is added.
  ⟨rfl, [], silent, List.forall_mem_nil _⟩

/-- Taking a token refuses nothing. -/
theorem cutsFrom_takeIf (test : Token → Bool) :
    CutsFrom cursor (takeIf test) (takeIf test) := by
  -- Only the guard writes down refusals.
  refine cutsFrom_silent ?_
  unfold takeIf
  split
  · rfl
  · split <;> rfl

/-- Moves made one after the other, where each of them cuts recursion only. -/
theorem cutsFrom_bind {move other : Engine α} {next next' : α → Engine β}
    (first : CutsFrom cursor move other)
    (second : ∀ value after, move cursor = (some value, after) →
      CutsFrom after (next value) (next' value)) :
    CutsFrom cursor (move >>= next) (other >>= next') := by
  obtain ⟨same, more, noted, cuts⟩ := first
  unfold CutsFrom
  rw [bind_run, bind_run, same]
  rcases run : move cursor with ⟨_ | value, after⟩
  · rw [run] at noted
    exact ⟨rfl, more, noted, cuts⟩
  · -- The refusals of the second move come in front of those of the first.
    obtain ⟨same', more', noted', cuts'⟩ := second value after run
    rw [run] at noted
    have noted : after.refusals = more ++ cursor.refusals := noted
    refine ⟨same', more' ++ more, ?_, List.forall_mem_append.mpr ⟨cuts', cuts⟩⟩
    show (next value after).2.refusals = _
    rw [noted', noted, List.append_assoc]

/-- Looking at the cursor and going on. -/
theorem cutsFrom_here {next next' : Cursor → Engine β}
    (rest : CutsFrom cursor (next cursor) (next' cursor)) :
    CutsFrom cursor (here >>= next) (here >>= next') :=
  -- Looking at the cursor adds no refusals.
  rest

/-- Alternatives, where each of them cuts recursion only. -/
theorem cutsFrom_orElse {first first' second second' : Engine α}
    (one : CutsFrom cursor first first')
    (other : ∀ after, first cursor = (none, after) → CutsFrom after second second') :
    CutsFrom cursor (first <|> second) (first' <|> second') := by
  -- The second alternative is tried with the refusals of the first behind it.
  obtain ⟨same, more, noted, cuts⟩ := one
  unfold CutsFrom
  rw [orElse_run, orElse_run, same]
  rcases run : first cursor with ⟨_ | value, after⟩
  · obtain ⟨same', more', noted', cuts'⟩ := other after run
    rw [run] at noted
    have noted : after.refusals = more ++ cursor.refusals := noted
    refine ⟨same', more' ++ more, ?_, List.forall_mem_append.mpr ⟨cuts', cuts⟩⟩
    show (second after).2.refusals = _
    rw [noted', noted, List.append_assoc]
  · rw [run] at noted
    exact ⟨rfl, more, noted, cuts⟩

/-- An attempt at a move that cuts recursion only. -/
theorem cutsFrom_attempt {move other : Engine α} (cuts : CutsFrom cursor move other) :
    CutsFrom cursor (attempt move) (attempt other) := by
  -- The outcome is kept as it is, and so are the refusals.
  obtain ⟨same, noted⟩ := cuts
  unfold CutsFrom
  rw [attempt_run, attempt_run, same]
  exact ⟨rfl, noted⟩

/-- A production under the guard, tried in the course of a run. -/
theorem cutsFrom_guarded {production : Production} {parse parse' : Engine Token}
    (arrives : cursor.Arrives production)
    (rule : CutsFrom { cursor with active := cursor.active.enter (cursor.step production) }
      parse parse') :
    CutsFrom cursor (guarded production parse) (guarded production parse') := by
  -- Either the guard refuses the production and logs it, or the rule runs within it.
  by_cases refused : cursor.active.contains (cursor.step production) = true
  · -- The one refusal here is of this very production.
    have busy : cursor.busy production 0 = true := by
      rwa [Cursor.busy, ← Cursor.step_eq]
    unfold CutsFrom guarded
    simp only [refused, if_true]
    exact ⟨trivial, [_], rfl, List.forall_mem_singleton.mpr (arrives.cuts busy)⟩
  · obtain ⟨same, more, noted, cuts⟩ := rule
    have idle : cursor.active.contains (cursor.step production) = false := by simpa using refused
    unfold CutsFrom
    rw [guarded_run parse idle, guarded_run parse' idle, same]
    refine ⟨rfl, more, ?_, cuts⟩
    -- Leaving the production and going back keep the refusals.
    rcases run : parse { cursor with active := cursor.active.enter (cursor.step production) }
      with ⟨_ | tree, after⟩
    · rw [run] at noted
      exact noted
    · rw [run] at noted
      exact noted

/-- What was attempted is what came of it. -/
theorem run_of_attempt {move : Engine α} {outcome : Option α} {after : Cursor}
    (run : attempt move cursor = (some outcome, after)) : move cursor = (outcome, after) := by
  -- An attempt never fails, and gives what its move came to.
  rw [attempt_run, Prod.mk.injEq, Option.some.injEq] at run
  exact Prod.ext run.1 run.2

/-- A fresh cursor stays fresh through a move that goes on or stays. -/
theorem Cursor.Fresh.after {move : Engine α} {outcome : Option α} {after : Cursor}
    (fresh : cursor.Fresh) (advances : Advances move) (run : move cursor = (outcome, after)) :
    after.Fresh := by
  -- Nothing is under way ahead of a fresh cursor, wherever it is moved to.
  obtain ⟨taken, moved⟩ := advances cursor
  rw [run] at moved
  exact onward_fresh moved fresh

/-- Behind a token taken inside a production nothing is under way. -/
theorem Cursor.Inside.taken {production : Production} (inside : cursor.Inside production)
    {test : Token → Bool} {token : Token} {after : Cursor}
    (run : takeIf test cursor = (some token, after)) : after.Fresh :=
  -- One token is enough to leave the place of the production behind.
  inside.far [token] after (moved_of_takeIf run) (List.cons_ne_nil _ _)

end Moves

section Rules

variable {call call' : Production → Engine Token} (parses : Parses call)
  (calls : ∀ production cursor, cursor.Arrives production →
    CutsFrom cursor (call production) (call' production))
include parses calls

/-- The links of a chain, tried where nothing is under way. -/
theorem cutsFrom_links {chain : Chain} {operand : Production} (turns : Nat) {cursor : Cursor}
    (fresh : cursor.Fresh) :
    CutsFrom cursor (chain.links (call operand) turns) (chain.links (call' operand) turns) := by
  -- Each link is taken from a fresh cursor and leaves one behind it.
  induction turns generalizing cursor with
  | zero => exact cutsFrom_silent rfl
  | succ turns ih =>
    refine cutsFrom_here (cutsFrom_bind (cutsFrom_attempt (cutsFrom_takeIf _)) ?_)
    intro separator behind separate
    cases separator with
    | none => exact cutsFrom_silent rfl
    | some separator =>
      have fresh := fresh.after (advances_takeIf _) (run_of_attempt separate)
      refine cutsFrom_bind (cutsFrom_attempt (calls _ _ (fresh.arrives _))) ?_
      intro next after operate
      cases next with
      | some next =>
        have fresh := fresh.after (parses.advances _) (run_of_attempt operate)
        exact cutsFrom_bind (ih fresh) fun _ _ _ => cutsFrom_silent rfl
      | none =>
        -- A separator without an operand is kept or given back, and nothing more is tried.
        refine cutsFrom_silent ?_
        simp only
        split <;> rfl

/-- Clauses one after the other, tried where nothing is under way. -/
theorem cutsFrom_clauses (turns : Nat) {cursor : Cursor} (fresh : cursor.Fresh) :
    CutsFrom cursor (repeated (call .part) turns) (repeated (call' .part) turns) := by
  -- Each clause is tried from a fresh cursor and leaves one behind it.
  induction turns generalizing cursor with
  | zero => exact cutsFrom_silent rfl
  | succ turns ih =>
    refine cutsFrom_bind (cutsFrom_attempt (calls _ _ (fresh.arrives _))) ?_
    intro clause after run
    cases clause with
    | none => exact cutsFrom_silent rfl
    | some clause =>
      have fresh := fresh.after (parses.advances _) (run_of_attempt run)
      exact cutsFrom_bind (ih fresh) fun _ _ _ => cutsFrom_silent rfl

section Inside

variable {production : Production} {cursor : Cursor} (inside : cursor.Inside production)
include inside

omit calls in
/-- Behind a tree that was found inside a production nothing is under way. -/
theorem fresh_of_found {after behind : Cursor} (stayed : cursor.Moved [] after)
    {next : Production} {tree : Token} (run : call next after = (some tree, behind)) :
    behind.Fresh := by
  -- A tree takes at least one token.
  obtain ⟨taken, moved, derived⟩ := parses.derives run
  exact inside.far ([] ++ taken) behind (stayed.trans moved)
    (derived.taken_ne_nil (List.cons_ne_nil _ _))

/-- A chain, from inside its production. -/
theorem cutsFrom_chain {chain : Chain} {operand : Production}
    (rule : production.chain? = some (chain, operand)) :
    CutsFrom cursor (chain.parse (call operand)) (chain.parse (call' operand)) := by
  -- The first operand is what the rule tries first, and the links come behind its tokens.
  have leads : operand ∈ production.leading := by
    cases production <;> cases rule <;> decide
  refine cutsFrom_bind (calls _ _ (inside.near _ leads _ (.refl cursor))) ?_
  intro first after run
  have fresh := fresh_of_found parses inside (.refl cursor) run
  refine cutsFrom_here (cutsFrom_bind (cutsFrom_links parses calls _ fresh) ?_)
  intro others final _
  exact cutsFrom_silent rfl

end Inside

omit parses calls in
/-- A production that is entered and given up leaves no trace. -/
theorem guarded_fail {production : Production} {cursor : Cursor}
    (idle : cursor.busy production 0 = false) :
    guarded production fail cursor = (none, cursor) := by
  -- Leaving takes away exactly what entering put there.
  rw [Cursor.busy, ← Cursor.step_eq] at idle
  have left := ActiveSteps.leave_enter idle
  rw [guarded_run fail idle]
  obtain ⟨pos, rest, active, refusals⟩ := cursor
  exact congrArg (fun steps => (none, Cursor.mk pos rest steps refusals)) left

/-- A single statement, from inside its production: a clause is never refused there. -/
theorem cutsFrom_singleStatement {cursor : Cursor} (inside : cursor.Inside .singleStatement) :
    CutsFrom cursor (sqlGrammar call .singleStatement) (trialGrammar call' .singleStatement) := by
  -- A bracket and a clause are both tried before a token has been taken.
  have bracket := inside.near .bracketExpr (by decide) cursor (.refl cursor)
  have clause := inside.near .part (by decide) cursor (.refl cursor)
  refine cutsFrom_here ?_
  simp only
  split
  · refine cutsFrom_bind (calls _ _ bracket) ?_
    intro tree after _
    refine cutsFrom_silent ?_
    split <;> rfl
  · split
    · refine cutsFrom_bind (calls _ _ clause) ?_
      intro first after run
      have fresh := fresh_of_found parses inside (.refl cursor) run
      refine cutsFrom_here (cutsFrom_bind (cutsFrom_clauses parses calls _ fresh) ?_)
      intro others final _
      exact cutsFrom_silent rfl
    · -- No clause is under way at a token where one is tried.
      have idle : cursor.busy .part 0 = false := by
        by_contra busy
        have member : Production.part ∈ Production.recursive :=
          (clause.cuts (by simpa using busy)).1
        exact absurd member (by decide)
      exact ⟨guarded_fail idle, [], rfl, List.forall_mem_nil _⟩

/-- An atom, from inside its production. -/
theorem cutsFrom_atom {cursor : Cursor} (inside : cursor.Inside .atom) :
    CutsFrom cursor (sqlGrammar call .atom) (sqlGrammar call' .atom) := by
  -- Each alternative that fails leaves the cursor where it stood.
  have tried : ∀ next ∈ Production.leading .atom, ∀ after, cursor.Moved [] after →
      CutsFrom after (call next) (call' next) :=
    fun next leads after stayed => calls next after (inside.near next leads after stayed)
  have first := Cursor.Moved.refl cursor
  refine cutsFrom_bind ?_ ?_
  · refine cutsFrom_orElse (tried _ (by decide) _ first) ?_
    intro second failed
    have second := first.trans (parses.stays failed)
    refine cutsFrom_orElse (tried _ (by decide) _ second) ?_
    intro third failed
    have third := second.trans (parses.stays failed)
    refine cutsFrom_orElse (tried _ (by decide) _ third) ?_
    intro fourth failed
    have fourth := third.trans (parses.stays failed)
    refine cutsFrom_orElse (tried _ (by decide) _ fourth) ?_
    intro fifth _
    refine cutsFrom_orElse (cutsFrom_takeIf _) fun sixth _ => ?_
    exact cutsFrom_orElse (cutsFrom_takeIf _) fun seventh _ => cutsFrom_takeIf _
  · intro head after _
    refine cutsFrom_bind (cutsFrom_attempt (cutsFrom_takeIf _)) fun marker _ _ => ?_
    exact cutsFrom_bind (cutsFrom_attempt (cutsFrom_takeIf _)) fun _ _ _ => cutsFrom_silent rfl

omit parses in
/-- A token and the tree of a production, which is tried behind the token and so where it is new. -/
theorem cutsFrom_pair {production operand : Production} {kind : Kind} {cursor : Cursor}
    (inside : cursor.Inside production) (test : Token → Bool) :
    CutsFrom cursor
      (do let sign ← takeIf test; let tree ← call operand; return Token.node kind [sign, tree])
      (do let sign ← takeIf test; let tree ← call' operand; return Token.node kind [sign, tree]) := by
  -- Behind the sign the cursor is fresh, and its operand is called from there.
  refine cutsFrom_bind (cutsFrom_takeIf test) ?_
  intro sign after run
  refine cutsFrom_bind (calls _ _ ((inside.taken run).arrives operand)) ?_
  exact fun _ _ _ => cutsFrom_silent rfl

/-- Every rule, from inside its production. -/
theorem cutsFrom_rule {production : Production} {cursor : Cursor}
    (inside : cursor.Inside production) :
    CutsFrom cursor (sqlGrammar call production) (trialGrammar call' production) := by
  -- Behind a token that a rule takes first, any production may be tried.
  have fresh : ∀ {test : Token → Bool} {token : Token} {after : Cursor},
      takeIf test cursor = (some token, after) → ∀ next, CutsFrom after (call next) (call' next) :=
    fun run next => calls next _ ((inside.taken run).arrives next)
  have ends : ∀ {α : Type} (value : α) after, CutsFrom after (pure value : Engine α) (pure value) :=
    fun _ _ => cutsFrom_silent rfl
  cases production with
  | statement => exact cutsFrom_chain parses calls inside rfl
  | singleStatement => exact cutsFrom_singleStatement parses calls inside
  | part =>
    refine cutsFrom_bind (cutsFrom_takeIf _) ?_
    intro keyword after run
    exact cutsFrom_bind (cutsFrom_attempt (fresh run _)) fun _ _ _ => ends _ _
  | listExpr => exact cutsFrom_chain parses calls inside rfl
  | orExpr => exact cutsFrom_chain parses calls inside rfl
  | andExpr => exact cutsFrom_chain parses calls inside rfl
  | mathExpr => exact cutsFrom_chain parses calls inside rfl
  | simpleExpr =>
    -- An alternative that fails leaves the cursor where the rule began.
    have first := Cursor.Moved.refl cursor
    refine cutsFrom_orElse (calls _ _ (inside.near _ (by decide) _ first)) ?_
    intro second failed
    have second := first.trans (parses.stays failed)
    refine cutsFrom_orElse (calls _ _ (inside.near _ (by decide) _ second)) ?_
    intro third failed
    have third := second.trans (parses.stays failed)
    exact calls _ _ (inside.near _ (by decide) _ third)
  | unaryPrefixExpr => exact cutsFrom_pair calls inside _
  | minusExpr => exact cutsFrom_pair calls inside _
  | atom => exact cutsFrom_atom parses calls inside
  | bracketExpr =>
    -- Behind the opening bracket a list is tried where a statement was tried in vain.
    refine cutsFrom_bind (cutsFrom_takeIf _) ?_
    intro opening after run
    refine cutsFrom_bind (cutsFrom_attempt (cutsFrom_orElse (fresh run _) ?_)) ?_
    · intro again failed
      have stays := (inside.taken run).after (parses.advances _) failed
      exact calls _ _ (stays.arrives _)
    · intro inner behind _
      exact cutsFrom_bind (cutsFrom_takeIf _) fun _ _ _ => ends _ _
  | funExpr => exact cutsFrom_pair calls inside _

end Rules

/-- In a run a production is refused only to cut recursion, and a clause tried in vain is not. -/
theorem cutsFrom_descend (limit : Nat) (production : Production) {cursor : Cursor}
    (arrives : cursor.Arrives production) :
    CutsFrom cursor (descend sqlGrammar limit production)
      (descend trialGrammar limit production) := by
  -- The guard is asked at every level, and the rule is entered from inside its production.
  induction limit generalizing production cursor with
  | zero => exact cutsFrom_guarded arrives (cutsFrom_silent rfl)
  | succ limit ih =>
    refine cutsFrom_guarded arrives ?_
    exact cutsFrom_rule (parses_descend limit) (fun next _ tried => ih next tried) arrives.inside

/-- From a fresh cursor behind which recursion was cut only, it is cut only throughout. -/
theorem cuts_descend (limit : Nat) (production : Production) {cursor : Cursor}
    (fresh : cursor.Fresh) (before : ∀ refusal ∈ cursor.refusals, refusal.CutsRecursion) :
    descend trialGrammar limit production cursor = descend sqlGrammar limit production cursor ∧
      ∀ refusal ∈ (descend sqlGrammar limit production cursor).2.refusals,
        refusal.CutsRecursion := by
  -- The refusals of the run stand in front of those before it.
  obtain ⟨same, more, noted, cuts⟩ := cutsFrom_descend limit production (fresh.arrives _)
  refine ⟨same, ?_⟩
  rw [noted]
  exact List.forall_mem_append.mpr ⟨cuts, before⟩

/-- The refusals of a finished descent cut recursion if those at its cursor do. -/
theorem Descent.cuts_finish {root : Token} {unwrapped : Bool} {cursor : Cursor}
    (cuts : ∀ refusal ∈ cursor.refusals, refusal.CutsRecursion) :
    ∀ refusal ∈ (Descent.finish root unwrapped cursor).refusals, refusal.CutsRecursion := by
  -- They are the same ones the other way round.
  intro refusal member
  exact cuts refusal (List.mem_reverse.mp member)

/-- A whole list of tokens comes to the same with clauses tried in vain, and cuts recursion only. -/
theorem cuts_parseTokens (tokens : List Token) :
    trialGrammar.parse tokens = parseTokens tokens ∧
      ∀ refusal ∈ (parseTokens tokens).refusals, refusal.CutsRecursion := by
  -- Where the tokens begin nothing is under way, whatever was refused before.
  have fresh : ∀ refusals, ({ Cursor.start tokens with refusals } : Cursor).Fresh :=
    fun _ _ _ _ => rfl
  obtain ⟨same, cuts⟩ := @cuts_descend (nestingLimit tokens) .statement (.start tokens)
    (fresh []) (List.forall_mem_nil _)
  unfold parseTokens Grammar.parse
  simp only
  rcases run : descend sqlGrammar (nestingLimit tokens) .statement (.start tokens)
    with ⟨found, after⟩
  rw [run] at same cuts
  rw [same]
  cases found with
  | some root => exact ⟨rfl, Descent.cuts_finish cuts⟩
  | none =>
    -- The second try keeps the refusals of the first behind its own.
    obtain ⟨same, cuts⟩ := cuts_descend (nestingLimit tokens) .bracketExpr
      (fresh after.refusals) cuts
    simp only at same cuts ⊢
    rw [same]
    refine ⟨rfl, ?_⟩
    split
    · exact Descent.cuts_finish cuts
    · exact Descent.cuts_finish cuts

/--
The guard cuts left recursion in expressions and nothing else.

In every run, what is refused is a chain of expressions or an atom, at a token where an atom is
under way.
No other production is ever refused, and this holds too of a run that tries a clause wherever a
statement may begin.
-/
theorem refusals_cut_recursion (tokens : List Token) :
    trialGrammar.parse tokens = parseTokens tokens ∧
      ∀ refusal ∈ (parseTokens tokens).refusals,
        refusal.step.production ∈
            ([.orExpr, .andExpr, .mathExpr, .simpleExpr, .atom] : List Production) ∧
          refusal.active.contains ⟨.atom, refusal.step.token⟩ = true := by
  -- Cutting recursion is just what is said of each refusal.
  obtain ⟨same, cuts⟩ := cuts_parseTokens tokens
  refine ⟨same, ?_⟩
  intro refusal member
  exact cuts refusal member

/-- The first refusal in a selection of one name: an expression inside the atom at that name. -/
theorem refusals_cut_recursion_name : ∃ tokens refusal,
    tokens = [.lexical .partToken "SELECT".toList, .lexical .name ['A']] ∧
    refusal ∈ (parseTokens tokens).refusals ∧ refusal.step = ⟨.orExpr, some 1⟩ ∧
    refusal.active.contains ⟨.atom, some 1⟩ = true := by
  -- The refusal is found by computing; that an atom is under way is the general law.
  have refused : ∃ refusal ∈ (parseTokens [.lexical .partToken "SELECT".toList,
      .lexical .name ['A']]).refusals, refusal.step = ⟨.orExpr, some 1⟩ := by decide +kernel
  obtain ⟨refusal, member, step⟩ := refused
  refine ⟨_, refusal, rfl, member, step, ?_⟩
  have cuts := ((refusals_cut_recursion _).2 refusal member).2
  rwa [step] at cuts

end SqlLayout
