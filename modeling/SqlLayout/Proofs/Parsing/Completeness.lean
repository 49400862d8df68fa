import SqlLayout.Proofs.Parsing.Yield

/-!
Completeness of the descent on canonical trees.

The descent finds every canonical tree in its leaves, so parsing inverts flattening.
-/

namespace SqlLayout

open Engine

/-- The choices for the first child of an atom, in the order in which they are tried. -/
def atomHead (call : Production → Engine Token) : Engine Token :=
  call .bracketExpr <|> call .statement <|> call .orExpr <|> call .funExpr <|>
    take .name <|> take .text <|> takeText .mathOp "*".toList

/--
The descent finds trees of a symbol in front of any tokens that may stand behind them.

The cursor may stand anywhere and any steps may be under way that cannot be in the way.
-/
def Symbol.Found : Symbol → (trees : List Token) → Prop
  | one production, trees => ∀ tree, trees = [tree] →
    ∀ {cursor : Cursor} {limit : Nat} {behind : List Token}, cursor.Ready production.depth limit →
    cursor.rest = tree.tips ++ behind → production.Ends behind →
    -- A clause without a list would take a statement behind it for its list.
    (production = .part → tree.children.length = 1 →
      ∀ next ∈ behind.head?, next.isRootKeyword = false) →
    YieldsFrom cursor (descend sqlGrammar limit production) tree tree.tips
  | head, trees => ∀ tree, trees = [tree] →
    ∀ {cursor : Cursor} {limit : Nat} {behind : List Token}, cursor.Ready 10 limit →
    cursor.busy .atom 0 = true → cursor.rest = tree.tips ++ behind →
    -- A name in front of a bracket would be a function.
    (∀ next ∈ behind.head?, next.kind ≠ .openBracket) →
    YieldsFrom cursor (atomHead (descend sqlGrammar limit)) tree tree.tips
  | links production, trees => ∀ {chain : Chain} {operand : Production},
    production.chain? = some (chain, operand) →
    ∀ {cursor : Cursor} {limit turns : Nat} {behind : List Token}, cursor.Ready 0 limit →
    cursor.rest = Token.tipsAll trees ++ behind → production.Ends behind →
    (Token.tipsAll trees).length ≤ turns →
    YieldsFrom cursor (chain.links (descend sqlGrammar limit operand) turns) trees
      (Token.tipsAll trees)
  | clauses, trees => trees.IsChain Token.Precedes →
    ∀ {cursor : Cursor} {limit turns : Nat} {behind : List Token}, cursor.Ready 0 limit →
    cursor.rest = Token.tipsAll trees ++ behind → Production.singleStatement.Ends behind →
    (Token.tipsAll trees).length ≤ turns →
    YieldsFrom cursor (repeated (descend sqlGrammar limit .part) turns) trees (Token.tipsAll trees)

section Found

/-- A tree that is found and is no clause is yielded in front of whatever may stand behind it. -/
theorem Symbol.Found.yields {production : Production} {tree : Token}
    (found : (Symbol.one production).Found [tree]) (other : production ≠ .part) {cursor : Cursor}
    {limit : Nat} {behind : List Token} (ready : cursor.Ready production.depth limit)
    (rest : cursor.rest = tree.tips ++ behind) (ends : production.Ends behind) :
    YieldsFrom cursor (descend sqlGrammar limit production) tree tree.tips :=
  -- Only for a clause is there more to be asked of what follows.
  found tree rfl ready rest ends fun clause => absurd clause other

/-- A chain is found when its first operand and its links are. -/
theorem found_chain {production operand : Production} {chain : Chain} {first : Token}
    {others : List Token} (rule : production.chain? = some (chain, operand))
    (canonical : Canonical (.links production) others)
    (head : (Symbol.one operand).Found [first]) (tail : (Symbol.links production).Found others) :
    (Symbol.one production).Found [.node chain.kind (first :: others)] := by
  rintro _ ⟨⟩ cursor limit behind ready rest ends _
  refine yieldsFrom_descend ready fun fewer entered same inside _ => ?_
  rw [Token.tips_node, List.append_assoc] at rest
  rw [sqlGrammar_chain rule, Token.tips_node]
  have operands : operand ≠ .part := by
    cases production <;> cases rule <;> decide
  refine yieldsFrom_bind (head.yields operands (inside.mono (Production.depth_chain rule))
    (same.trans rest) (canonical.ends_links rule ends)) ?_
  intro after moved
  have left := moved.rest_eq (same.trans rest)
  -- The links have as many turns as tokens are left, which covers their own.
  refine yieldsFrom_here (yieldsFrom_map _
    (tail rule (inside.past moved first.tips_ne_nil) left ends ?_))
  rw [left, List.length_append]
  omega

/-- Behind the last operand of a chain there is no link. -/
theorem found_linksEnd {production : Production} : (Symbol.links production).Found [] := by
  intro chain operand rule cursor limit turns behind _ rest ends _
  -- Only its separator would make the chain go on.
  have absent : FailsFrom cursor (take chain.separator) := by
    refine failsFrom_take fun next front same => ?_
    have rest : cursor.rest = behind := rest
    rw [rest] at front
    have admitted := ends next front
    rw [same, Production.not_admits_separator rule] at admitted
    cases admitted
  exact Chain.links_stop _ turns absent.1

/-- A link is found when its operand and the links behind it are. -/
theorem found_link {production operand : Production} {chain : Chain} {separator next : Token}
    {others : List Token} (rule : production.chain? = some (chain, operand))
    (separates : separator.IsLeaf chain.separator)
    (canonical : Canonical (.links production) others)
    (head : (Symbol.one operand).Found [next]) (tail : (Symbol.links production).Found others) :
    (Symbol.links production).Found (separator :: next :: others) := by
  -- A separator, its operand and the links behind are read in turn, each up to what may follow.
  intro chain' operand' rule' cursor limit turns behind ready rest ends enough
  cases rule.symm.trans rule'
  have operands : operand ≠ .part := by
    cases production <;> cases rule <;> decide
  simp only [Token.tipsAll_cons, separates.tips, List.cons_append, List.nil_append,
    List.append_assoc, List.length_cons, List.length_append] at rest enough ⊢
  -- The separator alone is a token, so there is a turn for it.
  obtain ⟨turns, rfl⟩ : ∃ fewer, turns = fewer + 1 := ⟨turns - 1, by omega⟩
  rw [Chain.links, ← List.singleton_append]
  refine yieldsFrom_here (yieldsFrom_bind (yieldsFrom_attempt
    (yieldsFrom_take rest separates.kind)) ?_)
  intro middle past
  have ready' : middle.Ready operand.depth limit := ready.past past (List.cons_ne_nil _ _)
  have left := past.rest_eq rest
  refine yieldsFrom_bind (yieldsFrom_attempt (head.yields operands ready' left
    (canonical.ends_links rule ends))) ?_
  intro after moved
  refine yieldsFrom_map _
    (tail rule (ready'.past moved next.tips_ne_nil) (moved.rest_eq left) ends ?_)
  omega

/-- A bracket around a statement is found as a single statement when it is found as a bracket. -/
theorem found_bracketed {bracket : Token} (canonical : Canonical (.one .bracketExpr) [bracket])
    (around : (bracket.child? .statement).isSome = true)
    (inner : (Symbol.one .bracketExpr).Found [bracket]) :
    (Symbol.one .singleStatement).Found [bracket] := by
  -- Two levels are entered at the bracket, and the look ahead picks the rule between them.
  rintro _ ⟨⟩ cursor limit behind ready rest _ _
  have derived : Derives (.one .bracketExpr) [bracket] bracket.tips := by
    simpa using canonical.derives
  have wraps := derived.wrapsStatement.trans around
  refine yieldsFrom_descend ready fun fewer entered same inside _ => ?_
  have opens : opensStatement entered.rest = true := by
    rw [same, rest]
    exact derived.opensStatement wraps behind
  refine yieldsFrom_here ?_
  -- The look ahead goes for the bracket, and the bracket is not given up once it is read.
  simp only [opens, if_true]
  rw [← List.append_nil bracket.tips]
  refine yieldsFrom_bind (inner.yields (by decide) (inside.mono (by decide)) (same.trans rest)
    fun _ _ => rfl) ?_
  intro after moved
  simp only [wraps, if_true]
  exact yieldsFrom_pure bracket

/-- A clause may end in front of the clauses that it may precede. -/
theorem ends_clauses {clause : Token} {others behind : List Token}
    (canonical : Canonical .clauses others) (apart : (clause :: others).IsChain Token.Precedes)
    (ends : Production.singleStatement.Ends behind) :
    Production.part.Ends (Token.tipsAll others ++ behind) ∧ (clause.children.length = 1 →
      ∀ next ∈ (Token.tipsAll others ++ behind).head?, next.isRootKeyword = false) := by
  -- By what the clauses behind it begin with, if there are any.
  cases canonical with
  | clausesEnd =>
    refine ⟨fun next front => ?_, fun _ next front => ?_⟩
    · have admitted := ends next front
      simp only [Production.admits] at admitted ⊢
      simp_all
    · have admitted := ends next front
      cases kind : next.kind <;> simp_all [Production.admits, Token.isRootKeyword]
  | @clause second _ head _ =>
    -- What follows is the keyword of the next clause.
    obtain ⟨keyword, more, front, kind, leaves⟩ := head.clause_leaves
    rw [Token.tipsAll_cons, leaves]
    refine ⟨fun next same => ?_, fun bare next same => ?_⟩
    · cases same
      simp [Production.admits, kind]
    · cases same
      have other : clause.Precedes second := (List.isChain_cons_cons.mp apart).1
      simpa [front] using other bare

/-- Clauses behind a root keyword are found when each of them is. -/
theorem found_single {first : Token} {others : List Token}
    (root : first.children.head?.any Token.isRootKeyword = true)
    (canonical : Canonical (.one .part) [first]) (clauses : Canonical .clauses others)
    (apart : (first :: others).IsChain Token.Precedes) (head : (Symbol.one .part).Found [first])
    (tail : Symbol.clauses.Found others) :
    (Symbol.one .singleStatement).Found [.node .singleStatement (first :: others)] := by
  -- The first clause is called for, and the loop finds the others.
  rintro _ ⟨⟩ cursor limit behind ready rest ends _
  obtain ⟨keyword, more, front, kind, leaves⟩ := canonical.clause_leaves
  refine yieldsFrom_descend ready fun fewer entered same inside _ => ?_
  rw [Token.tips_node, List.append_assoc] at rest
  rw [Token.tips_node]
  have rest' := same.trans rest
  -- A keyword stands at the front, so the look ahead finds no bracket.
  have bare : opensStatement entered.rest = false := by
    rw [rest', leaves]
    simp [opensStatement, kind]
  have rooted : entered.rest.head?.any Token.isRootKeyword = true := by
    rw [rest', leaves]
    simpa [front] using root
  refine yieldsFrom_here ?_
  simp only [bare, rooted, if_true, Bool.false_eq_true, if_false]
  obtain ⟨ends', list⟩ := ends_clauses clauses apart ends
  refine yieldsFrom_bind (head first rfl (inside.mono (by decide)) rest' ends' fun _ => list) ?_
  intro after moved
  have left := moved.rest_eq rest'
  refine yieldsFrom_here (yieldsFrom_map _ (tail (List.IsChain.tail apart)
    (inside.past moved first.tips_ne_nil) left ends ?_))
  rw [left, List.length_append]
  omega

/-- Behind the last clause of a single statement there is none. -/
theorem found_clausesEnd : Symbol.clauses.Found [] := by
  intro _ cursor limit turns behind _ rest ends _
  have rest : cursor.rest = behind := rest
  -- what stands behind the clauses opens no other, so none is read
  have absent : FailsFrom cursor (descend sqlGrammar limit .part) := by
    refine failsFrom_of_next limit fun next front => ?_
    rw [rest] at front
    have admitted := ends next front
    cases kind : next.kind <;> simp_all [Production.admits, Production.starts]
  exact repeated_stop turns ((parses_descend limit).restores .part) absent.1

/-- Clauses are found when the first one and the others are. -/
theorem found_clause {first : Token} {others : List Token} (canonical : Canonical .clauses others)
    (head : (Symbol.one .part).Found [first]) (tail : Symbol.clauses.Found others) :
    Symbol.clauses.Found (first :: others) := by
  intro apart cursor limit turns behind ready rest ends enough
  rw [Token.tipsAll_cons, List.append_assoc] at rest
  rw [Token.tipsAll_cons, List.length_append] at enough
  have some := List.length_pos_iff.mpr first.tips_ne_nil
  obtain ⟨turns, rfl⟩ : ∃ fewer, turns = fewer + 1 := ⟨turns - 1, by omega⟩
  obtain ⟨ends', list⟩ := ends_clauses canonical apart ends
  rw [repeated, Token.tipsAll_cons]
  -- the clause is found first, and the others with one turn less behind it
  refine yieldsFrom_bind (yieldsFrom_attempt (head first rfl (ready.mono (Nat.zero_le _)) rest ends'
    fun _ => list)) ?_
  intro after moved
  refine yieldsFrom_map _ (tail (List.IsChain.tail apart) (ready.past moved first.tips_ne_nil)
    (moved.rest_eq rest) ends ?_)
  omega

/-- A clause without a list is found in front of what is no list. -/
theorem found_barePart {keyword : Token} (leads : keyword.IsLeaf .partToken) :
    (Symbol.one .part).Found [.node .part [keyword]] := by
  rintro _ ⟨⟩ cursor limit behind ready rest ends list
  refine yieldsFrom_descend ready fun fewer entered same _ _ => ?_
  simp only [Token.tips_node, leads.tips, Token.tipsAll_nil, List.append_nil] at rest ⊢
  have rest' := same.trans rest
  rw [← List.append_nil [keyword]]
  refine yieldsFrom_bind (yieldsFrom_take rest' leads.kind) ?_
  intro after moved
  -- what stands behind the keyword neither continues a list nor opens one
  have absent : FailsFrom after (descend sqlGrammar fewer .listExpr) := by
    refine failsFrom_of_next fewer fun next front => ?_
    rw [moved.rest_eq rest'] at front
    have admitted := ends next front
    have other := list rfl rfl next front
    cases kind : next.kind <;> simp_all [Production.admits, Production.starts, Token.startsOperand,
      Token.startsAtom, Token.isSign, Token.is]
  exact yieldsFrom_map _ (yieldsFrom_attempt_none absent)

/-- A clause with a list is found when the list is. -/
theorem found_part {keyword list : Token} (leads : keyword.IsLeaf .partToken)
    (inner : (Symbol.one .listExpr).Found [list]) :
    (Symbol.one .part).Found [.node .part [keyword, list]] := by
  -- The keyword is taken, and the list that follows it is the one that is attempted.
  rintro _ ⟨⟩ cursor limit behind ready rest ends _
  refine yieldsFrom_descend ready fun fewer entered same inside _ => ?_
  simp only [Token.tips_node, leads.tips, Token.tipsAll_cons, Token.tipsAll_nil, List.append_nil,
    List.append_assoc] at rest ⊢
  have rest' := same.trans rest
  refine yieldsFrom_bind (yieldsFrom_take rest' leads.kind) ?_
  intro after moved
  exact yieldsFrom_map _ (yieldsFrom_attempt (inner.yields (by decide)
    (inside.past moved (List.cons_ne_nil _ _)) (moved.rest_eq rest') ends))

/-- A simple expression is found when the one of its choices is found that it is. -/
theorem found_simple {production : Production} {tree : Token}
    (choice : production ∈ [.unaryPrefixExpr, .minusExpr, .atom])
    (canonical : Canonical (.one production) [tree])
    (inner : (Symbol.one production).Found [tree]) :
    (Symbol.one .simpleExpr).Found [tree] := by
  -- The three choices are tried in order, and the first token rules out those in front.
  rintro _ ⟨⟩ cursor limit behind ready rest ends _
  obtain ⟨first, more, leaves, starts⟩ := canonical.exists_first
  refine yieldsFrom_descend ready fun fewer entered same inside _ => ?_
  have rest' := same.trans rest
  have front : entered.rest.head? = some first := by
    rw [rest', leaves]
    rfl
  simp only [List.mem_cons, List.not_mem_nil, or_false] at choice
  rcases choice with rfl | rfl | rfl
  · exact yieldsFrom_orElse_left (inner.yields (by decide) inside rest' ends)
  · -- A minus is no prefix.
    have other : FailsFrom entered (descend sqlGrammar fewer .unaryPrefixExpr) := by
      refine failsFrom_of_next fewer fun next there => ?_
      cases front.symm.trans there
      simp_all [Production.starts, Token.is]
    refine yieldsFrom_orElse_right other fun after stayed => yieldsFrom_orElse_left ?_
    exact inner.yields (by decide) (inside.stay stayed) (stayed.rest_eq rest') ends
  · -- An atom begins with no sign.
    have unsigned : ∀ next ∈ entered.rest.head?, next.isSign = false := by
      intro next there
      cases front.symm.trans there
      exact Token.isSign_of_startsAtom starts
    refine yieldsFrom_orElse_right (failsFrom_sign fewer unsigned (.inl rfl))
      fun second stayed => ?_
    have rest'' : second.rest = entered.rest := stayed.rest.symm
    refine yieldsFrom_orElse_right (failsFrom_sign fewer (rest'' ▸ unsigned) (.inr rfl))
      fun third stayed' => ?_
    have ready' := (inside.stay stayed).stay stayed'
    exact inner.yields (by decide) (ready'.mono (by decide)) ((stayed.trans stayed').rest_eq rest')
      ends

/-- A leaf with a tree behind it is found when the tree is. -/
theorem found_behind {production inner : Production} {kind result : Kind} {test : Token → Bool}
    {token tree : Token} (rule : ∀ call : Production → Engine Token,
      sqlGrammar call production = do return .node result [← takeIf test, ← call inner])
    (leaf : token.IsLeaf kind) (passes : test token = true) (other : inner ≠ .part)
    (follows : ∀ kind, production.admits kind = true → inner.admits kind = true)
    (found : (Symbol.one inner).Found [tree]) :
    (Symbol.one production).Found [.node result [token, tree]] := by
  rintro _ ⟨⟩ cursor limit behind ready rest ends _
  refine yieldsFrom_descend ready fun fewer entered same inside _ => ?_
  simp only [Token.tips_node, leaf.tips, Token.tipsAll_cons, Token.tipsAll_nil, List.append_nil,
    List.append_assoc] at rest ⊢
  have rest' := same.trans rest
  rw [rule]
  -- the token is taken, and behind it the tree ends where the production does
  refine yieldsFrom_bind (yieldsFrom_takeIf rest' passes) ?_
  intro after moved
  exact yieldsFrom_map _ (found.yields other (inside.past moved (List.cons_ne_nil _ _))
    (moved.rest_eq rest') fun next front => follows _ (ends next front))

/-- A bracket is found as the first child of an atom. -/
theorem found_headBracket {tree : Token} (inner : (Symbol.one .bracketExpr).Found [tree]) :
    Symbol.head.Found [tree] := by
  -- A bracket is the first choice for the head of an atom.
  rintro _ ⟨⟩ cursor limit behind ready _ rest _
  exact yieldsFrom_orElse_left (inner.yields (by decide) ready rest fun _ _ => rfl)

/--
The choices for the first child of an atom that are tried in front of a function fail at a name, at
a text and at a star.
-/
theorem yieldsFrom_atomHead {cursor : Cursor} {limit : Nat} {tree first : Token}
    {more taken : List Token} (busy : cursor.busy .atom 0 = true)
    (rest : cursor.rest = first :: more)
    (kind : first.kind ≠ .openBracket) (starts : first.startsAtom = true)
    (yields : ∀ after, cursor.Moved [] after → YieldsFrom after
      (descend sqlGrammar limit .funExpr <|> take .name <|> take .text <|>
        takeText .mathOp "*".toList) tree taken) :
    YieldsFrom cursor (atomHead (descend sqlGrammar limit)) tree taken := by
  -- Each choice needs another first token, or an atom that is not yet under way.
  have front : ∀ after : Cursor, cursor.Moved [] after → after.rest = first :: more :=
    fun after stayed => stayed.rest_eq rest
  refine yieldsFrom_orElse_right (failsFrom_of_next limit fun next there => ?_)
    fun second stayed => ?_
  · rw [rest] at there
    cases there
    simp [Production.starts, kind]
  refine yieldsFrom_orElse_right (failsFrom_of_next limit fun next there => ?_)
    fun third stayed' => ?_
  · rw [front second stayed] at there
    cases there
    cases sort : first.kind <;>
      simp_all [Production.starts, Token.startsAtom, Token.isRootKeyword, Token.is]
  have still := stayed.trans stayed'
  have blocked : third.Blocked := by
    refine ⟨?_, fun next there => ?_⟩
    · rw [Cursor.busy_moved still]
      exact busy
    · rw [front third still] at there
      cases there
      exact Token.isSign_of_startsAtom starts
  -- The guard refuses the atom inside the expression.
  refine yieldsFrom_orElse_right (blocked.failsFrom_orExpr limit) fun fourth stayed'' => ?_
  exact yields fourth (still.trans stayed'')

/-- A function is found as the first child of an atom. -/
theorem found_headFunction {tree : Token} (canonical : Canonical (.one .funExpr) [tree])
    (inner : (Symbol.one .funExpr).Found [tree]) : Symbol.head.Found [tree] := by
  rintro _ ⟨⟩ cursor limit behind ready busy rest _
  -- a function begins with a name, which opens no statement and no bracket
  obtain ⟨first, more, leaves, starts⟩ := canonical.exists_first
  have kind : first.kind = .name := by simpa [Production.starts] using starts
  have front : cursor.rest = first :: (more ++ behind) := by
    rw [rest, leaves]
    rfl
  refine yieldsFrom_atomHead busy front (by simp [kind]) (by simp [Token.startsAtom, kind]) ?_
  intro after stayed
  exact yieldsFrom_orElse_left (inner.yields (by decide) (ready.stay stayed) (stayed.rest_eq rest)
    fun _ _ => rfl)

/-- There is no function at a token that no bracket follows. -/
theorem failsFrom_function {cursor : Cursor} {token : Token} {behind : List Token} (limit : Nat)
    (rest : cursor.rest = token :: behind)
    (alone : ∀ next ∈ behind.head?, next.kind ≠ .openBracket) :
    FailsFrom cursor (descend sqlGrammar limit .funExpr) := by
  refine failsFrom_of_rule limit fun fewer => ?_
  show ((take .name >>= _ : Engine Token) _).1 = none
  rw [bind_run]
  rcases run : take .name { cursor with active := cursor.active.enter (cursor.step .funExpr) }
    with ⟨_ | found, after⟩
  · rfl
  · -- A name was taken, and its arguments would begin with a bracket.
    have front : token :: behind = [found] ++ after.rest := rest ▸ (moved_of_takeIf run).rest
    have bracket : FailsFrom after (descend sqlGrammar fewer .bracketExpr) := by
      refine failsFrom_of_next fewer fun next there => ?_
      cases front
      simpa [Production.starts] using alone next there
    exact bind_eq_none bracket.1

/-- A name, a text or a star that no bracket follows is found as the first child of an atom. -/
theorem found_headLeaf {token : Token} {kind : Kind} (leaf : token.IsLeaf kind)
    (starts : token.startsAtom = true) (solid : kind ≠ .openBracket) :
    Symbol.head.Found [token] := by
  -- Without a bracket behind it the name is not taken for a function's.
  rintro _ ⟨⟩ cursor limit behind _ busy rest alone
  rw [leaf.tips] at rest ⊢
  have rests : ∀ {after : Cursor}, cursor.Moved [] after → after.rest = token :: behind :=
    fun stayed => stayed.rest_eq rest
  have others : ∀ {after : Cursor} {other : Kind}, cursor.Moved [] after → kind ≠ other →
      FailsFrom after (take other) := by
    intro after other stayed apart
    refine failsFrom_take fun next front => ?_
    rw [rests stayed] at front
    cases front
    rwa [leaf.kind]
  refine yieldsFrom_atomHead busy rest (by rwa [leaf.kind]) starts fun first stayed => ?_
  -- The choices behind a function are tried in turn, each at the same token.
  refine yieldsFrom_orElse_right (failsFrom_function limit (rests stayed) alone)
    fun second stayed' => ?_
  have here := stayed.trans stayed'
  by_cases names : kind = .name
  · exact yieldsFrom_orElse_left (yieldsFrom_take (rests here) (leaf.kind.trans names))
  refine yieldsFrom_orElse_right (others here names) fun third stayed'' => ?_
  have there := here.trans stayed''
  by_cases quotes : kind = .text
  · exact yieldsFrom_orElse_left (yieldsFrom_take (rests there) (leaf.kind.trans quotes))
  refine yieldsFrom_orElse_right (others there quotes) fun fourth last => ?_
  -- Of the tokens that an atom can begin with only the star is left.
  have star : token.is .mathOp "*".toList = true := by
    simpa [Token.startsAtom, leaf.kind, solid, names, quotes] using starts
  exact yieldsFrom_takeIf (rests (there.trans last)) star

/-- An optional token of a kind is found, or found to be absent in front of another kind. -/
theorem yieldsFrom_optional {cursor : Cursor} {kind : Kind} {token : Option Token}
    {behind : List Token} (rest : cursor.rest = token.toList ++ behind)
    (same : ∀ some ∈ token, some.kind = kind)
    (apart : ∀ next ∈ behind.head?, next.kind ≠ kind) :
    YieldsFrom cursor (attempt (take kind)) token token.toList := by
  -- a token that is there is taken; what stands in its place is of another kind
  cases token with
  | none =>
    refine yieldsFrom_attempt_none (failsFrom_take fun next front => ?_)
    rw [rest] at front
    exact apart next front
  | some token => exact yieldsFrom_attempt (yieldsFrom_take rest (same token rfl))

/-- An atom is found when its first child is. -/
theorem found_atom {first : Token} {marker byname : Option Token}
    (marked : ∀ token ∈ marker, token.IsLeaf .outerJoinMarker)
    (named : ∀ token ∈ byname, token.IsLeaf .name) (inner : Symbol.head.Found [first]) :
    (Symbol.one .atom).Found [.node .atom (first :: marker.toList ++ byname.toList)] := by
  -- The head comes first, and then each optional child where its token stands.
  rintro _ ⟨⟩ cursor limit behind ready rest ends _
  refine yieldsFrom_descend ready fun fewer entered same inside busy => ?_
  simp only [List.cons_append, Token.tips_node, Token.tipsAll_append, Token.tipsAll_toList marked,
    Token.tipsAll_toList named, List.append_assoc] at rest ⊢
  have rest' := same.trans rest
  -- Neither a name nor a marker nor a bracket stands behind an atom.
  have beyond : ∀ next ∈ behind.head?, next.kind ≠ .openBracket ∧ next.kind ≠ .outerJoinMarker ∧
      next.kind ≠ .name := by
    intro next front
    have admitted := ends next front
    refine ⟨?_, ?_, ?_⟩ <;> intro kind <;> simp [Production.admits, kind] at admitted
  have behindMarker : ∀ next ∈ (byname.toList ++ behind).head?, next.kind ≠ .openBracket ∧
      next.kind ≠ .outerJoinMarker := by
    intro next front
    cases byname with
    | none => exact ⟨(beyond next front).1, (beyond next front).2.1⟩
    | some name =>
      cases front
      simp [(named _ rfl).kind]
  have behindHead : ∀ next ∈ (marker.toList ++ (byname.toList ++ behind)).head?,
      next.kind ≠ .openBracket := by
    intro next front
    cases marker with
    | none => exact (behindMarker next front).1
    | some token =>
      cases front
      simp [(marked _ rfl).kind]
  refine yieldsFrom_bind (inner first rfl inside busy rest' behindHead) ?_
  intro second moved
  have rest'' := moved.rest_eq rest'
  refine yieldsFrom_bind (yieldsFrom_optional rest''
    (fun token member => (marked token member).kind)
    fun next front => (behindMarker next front).2) ?_
  intro third moved'
  exact yieldsFrom_map _ (yieldsFrom_optional (moved'.rest_eq rest'')
    (fun token member => (named token member).kind) fun next front => (beyond next front).2.2)

/-- A bracket with nothing in it is found. -/
theorem found_emptyBracket {opening closing : Token} (opens : opening.IsLeaf .openBracket)
    (closes : closing.IsLeaf .closeBracket) :
    (Symbol.one .bracketExpr).Found [.node .bracketExpr [opening, closing]] := by
  rintro _ ⟨⟩ cursor limit behind ready rest _ _
  refine yieldsFrom_descend ready fun fewer entered same _ _ => ?_
  simp only [Token.tips_node, opens.tips, closes.tips, Token.tipsAll_cons, Token.tipsAll_nil,
    List.append_nil, List.append_assoc] at rest ⊢
  have rest' := same.trans rest
  refine yieldsFrom_bind (yieldsFrom_take rest' opens.kind) ?_
  intro after moved
  have left := moved.rest_eq rest'
  -- Neither choice for the contents begins with a closing bracket.
  have absent : ∀ {inner : Production} {there : Cursor}, inner = .statement ∨ inner = .listExpr →
      there.rest = [closing] ++ behind → FailsFrom there (descend sqlGrammar fewer inner) := by
    intro inner there choice left
    refine failsFrom_of_next fewer fun next front => ?_
    rw [left] at front
    cases front
    rcases choice with rfl | rfl <;> simp [Production.starts, Token.startsOperand, Token.startsAtom,
      Token.isSign, Token.isRootKeyword, Token.is, closes.kind]
  have nothing := failsFrom_orElse (absent (.inl rfl) left) fun there stayed =>
    absent (.inr rfl) (stayed.rest_eq left)
  rw [← List.nil_append [closing]]
  refine yieldsFrom_bind (yieldsFrom_attempt_none nothing) ?_
  intro last stayed
  exact yieldsFrom_map _ (yieldsFrom_take (stayed.rest_eq left) closes.kind)

/-- A bracket is found when what it holds is found as a statement or else as a list. -/
theorem found_bracket {opening inner closing : Token} (opens : opening.IsLeaf .openBracket)
    (closes : closing.IsLeaf .closeBracket)
    (contents : ∀ {cursor : Cursor} {limit : Nat} {behind : List Token}, cursor.Ready 0 limit →
      cursor.rest = inner.tips ++ closing :: behind →
      YieldsFrom cursor (descend sqlGrammar limit .statement <|> descend sqlGrammar limit .listExpr)
        inner inner.tips) :
    (Symbol.one .bracketExpr).Found [.node .bracketExpr [opening, inner, closing]] := by
  rintro _ ⟨⟩ cursor limit behind ready rest _ _
  refine yieldsFrom_descend ready fun fewer entered same inside _ => ?_
  simp only [Token.tips_node, opens.tips, closes.tips, Token.tipsAll_cons, Token.tipsAll_nil,
    List.append_nil, List.append_assoc] at rest ⊢
  have rest' := same.trans rest
  -- the three parts are found one behind the other, each where the last one ended
  refine yieldsFrom_bind (yieldsFrom_take rest' opens.kind) ?_
  intro after moved
  have left := moved.rest_eq rest'
  refine yieldsFrom_bind (yieldsFrom_attempt (contents (inside.past moved (List.cons_ne_nil _ _))
    left)) ?_
  intro last moved'
  exact yieldsFrom_map _ (yieldsFrom_take (moved'.rest_eq left) closes.kind)

/-- What stands in a bracket ends in front of the closing bracket. -/
theorem ends_closing {closing : Token} (closes : closing.IsLeaf .closeBracket)
    (production : Production) (choice : production = .statement ∨ production = .listExpr)
    (behind : List Token) : production.Ends (closing :: behind) := by
  -- A closing bracket is no separator, and so goes on neither a statement nor a list.
  intro next front
  cases front
  rcases choice with rfl | rfl <;> simp [Production.admits, closes.kind]

end Found

/-- The descent finds every canonical tree, whatever stands behind it that may. -/
theorem Canonical.found {symbol : Symbol} {trees : List Token}
    (canonical : Canonical symbol trees) : symbol.Found trees := by
  -- One lemma for each way to derive a tree.
  induction canonical with
  | chain rule _ links head tail => exact found_chain rule links head tail
  | linksEnd => exact found_linksEnd
  | link rule separates _ links head tail => exact found_link rule separates links head tail
  | bracketed bracket around inner => exact found_bracketed bracket around inner
  | single root clause clauses apart head tail =>
    exact found_single root clause clauses apart head tail
  | clausesEnd => exact found_clausesEnd
  | clause _ clauses head tail => exact found_clause clauses head tail
  | barePart leads => exact found_barePart leads
  | part leads _ inner => exact found_part leads inner
  | simple choice canonical inner => exact found_simple choice canonical inner
  | signed signs _ inner =>
    exact found_behind (fun _ => rfl) signs (by simp [signs.kind]) (by decide) (fun _ => id) inner
  | negated signs minus _ inner =>
    exact found_behind (fun _ => rfl) signs (by simp [Token.is, signs.kind, minus]) (by decide)
      (fun _ => id) inner
  | headTree choice canonical inner =>
    simp only [List.mem_cons, List.not_mem_nil, or_false] at choice
    rcases choice with rfl | rfl
    · exact found_headBracket inner
    · exact found_headFunction canonical inner
  | headName leaf =>
    exact found_headLeaf leaf (by simp [Token.startsAtom, leaf.kind]) (by decide)
  | headText leaf =>
    exact found_headLeaf leaf (by simp [Token.startsAtom, leaf.kind]) (by decide)
  | headStar leaf star =>
    exact found_headLeaf leaf (by simp [Token.startsAtom, Token.is, leaf.kind, star]) (by decide)
  | atom _ marked named inner => exact found_atom marked named inner
  | emptyBracket opens closes => exact found_emptyBracket opens closes
  | bracketStatement opens _ closes inner =>
    refine found_bracket opens closes fun ready rest => yieldsFrom_orElse_left ?_
    exact inner.yields (by decide) ready rest (ends_closing closes .statement (.inl rfl) _)
  | bracketList opens contents plain closes inner =>
    refine found_bracket opens closes ?_
    intro cursor limit behind ready rest
    -- The statement is tried first, and it must not take the front of the list.
    have absent : leadsStatement cursor.rest = false := by
      rw [rest]
      exact contents.not_leadsStatement plain _
    refine yieldsFrom_orElse_right (failsFrom_statement limit absent) fun after stayed => ?_
    exact inner.yields (by decide) ((ready.stay stayed).mono (Nat.zero_le _)) (stayed.rest_eq rest)
      (ends_closing closes .listExpr (.inr rfl) _)
  | function names _ inner =>
    exact found_behind (fun _ => rfl) names (by simp [names.kind]) (by decide) (fun _ => id) inner

/-- Parsing the leaves of a canonical statement gives the statement back, with no residue. -/
theorem parseTokens_tips {tree : Token} (canonical : Canonical (.one .statement) [tree]) :
    (parseTokens tree.tips).root = tree ∧ (parseTokens tree.tips).residue = none ∧
      (parseTokens tree.tips).unwrapped = false := by
  have ready : (Cursor.start tree.tips).Ready 0 (nestingLimit tree.tips) :=
    ⟨Nat.le_of_eq (Cursor.room_start _), fun _ _ => rfl, fun _ _ _ _ => rfl⟩
  -- nothing stands behind the statement, so its descent takes all of its leaves
  obtain ⟨yields, moved⟩ := canonical.found.yields (by decide) ready (List.append_nil _).symm nofun
  have left : _ = [] := moved.rest_eq (List.append_nil _).symm
  unfold parseTokens Grammar.parse
  simp only
  rcases run : descend sqlGrammar (nestingLimit tree.tips) .statement (Cursor.start tree.tips)
    with ⟨_ | root, after⟩
  · rw [run] at yields
    cases yields
  · rw [run] at yields left
    cases yields
    have none : residueText? after.rest = none := congrArg residueText? left
    show (Descent.finish tree false after).root = tree ∧
      (Descent.finish tree false after).residue = Option.none ∧ false = false
    simp only [Descent.finish, none, and_self]

/-- A select of a prefixed function, joined to one in brackets of all columns, is read as it is. -/
theorem parseTokens_tips_union : ∃ tree, Canonical (.one .statement) [tree] ∧
    tree.tips.map Token.text = ["SELECT".toList, "NOT".toList, "F".toList, "(".toList, ")".toList,
      "UNION".toList, "(".toList, "SELECT".toList, "*".toList, ")".toList] ∧
    (parseTokens tree.tips).root = tree ∧ (parseTokens tree.tips).residue = none := by
  -- The tree is put together from its leaves up.
  have leaf : ∀ kind text, (Token.lexical kind text).IsLeaf kind := fun _ _ => ⟨rfl, rfl⟩
  have opens := leaf .openBracket "(".toList
  have closes := leaf .closeBracket ")".toList
  have alone : ∀ {first}, Canonical .head [first] → Canonical (.one .atom) [.node .atom [first]] :=
    fun head => @Canonical.atom _ none none head (by simp) (by simp)
  -- A select of one operand.
  have select : ∀ {operand}, Canonical (.one .simpleExpr) [operand] →
      Canonical (.one .singleStatement) [.node .singleStatement
        [.node .part [.lexical .partToken "SELECT".toList, .node .listExpr
          [.node .orExpr [.node .andExpr [.node .mathExpr [operand]]]]]]] := by
    intro operand simple
    have conjunction := Canonical.chain (rfl : Production.andExpr.chain? = _)
      (.chain rfl simple .linksEnd) .linksEnd
    have list := Canonical.chain (rfl : Production.listExpr.chain? = _)
      (.chain rfl conjunction .linksEnd) .linksEnd
    exact .single rfl (.part (leaf .partToken _) list) .clausesEnd (.singleton _)
  have call := Canonical.function (leaf .name "F".toList) (.emptyBracket opens closes)
  have negated := Canonical.signed (leaf .unaryPrefix "NOT".toList)
    (alone (.headTree (by decide) call))
  have star := alone (.headStar (leaf .mathOp "*".toList) rfl)
  have union : Production.statement.chain? = some (⟨.statement, .unionToken, false⟩, _) := rfl
  have second := Canonical.chain union (select (.simple (by decide) star)) .linksEnd
  have bracket := Canonical.bracketed (.bracketStatement opens second closes) rfl
  have both := Canonical.chain union (select (.simple (by decide) negated))
    (.link union (leaf .unionToken "UNION".toList) bracket .linksEnd)
  exact ⟨_, both, rfl, (parseTokens_tips both).1, (parseTokens_tips both).2.1⟩

end SqlLayout
