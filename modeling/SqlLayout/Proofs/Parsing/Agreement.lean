import SqlLayout.Proofs.Parsing.Mirror

/-! The rules of the grammar agree on cursors that mirror each other, and so does the descent. -/

namespace SqlLayout

open Engine

section Rules

variable {alike : Token → Token → Prop} {tail : List Token} {limit limit' : Nat}
  {call call' : Production → Engine Token}

/-- The trees two productions yield have one shape, wherever the cursors mirror each other. -/
def CallsAgree (alike : Token → Token → Prop) (tail : List Token) (limit limit' : Nat)
    (call call' : Production → Engine Token) : Prop :=
  ∀ production cursor mirror, Mirrors alike tail 0 limit limit' cursor mirror →
    AgreeFrom cursor mirror (call production) (call' production)
      fun tree tree' => SameShape alike [tree] [tree']

/-- A move and one tried in its place agree where both agree from cursors that mirror each other. -/
theorem Mirrors.orElse {related : Token → Token → Prop} {first second first' second' : Engine Token}
    {cursor mirror : Cursor} (mirrors : Mirrors alike tail 0 limit limit' cursor mirror)
    (restores : Restores first) (restores' : Restores first')
    (one : AgreeFrom cursor mirror first first' related)
    (other : ∀ {cursor mirror : Cursor}, Mirrors alike tail 0 limit limit' cursor mirror →
      AgreeFrom cursor mirror second second' related) :
    AgreeFrom cursor mirror (first <|> second) (first' <|> second') related :=
  -- When the first move fails it puts both cursors back, and they still mirror each other.
  agreeFrom_orElse restores restores' one fun _ _ back back' =>
    other (mirrors.moved back back' rfl (Nat.zero_le _))

variable (indistinct : Indistinct alike)
  (closes : ∀ token ∈ tail.head?, token.kind = Kind.closeBracket)
  (parses : Parses call) (parses' : Parses call')
  (agree : CallsAgree alike tail limit limit' call call')

include indistinct closes in
/-- Tokens of a kind are taken alike, unless the kind is that of closing brackets. -/
theorem agreeFrom_take {skip : Nat} {cursor mirror : Cursor}
    (mirrors : Mirrors alike tail skip limit limit' cursor mirror) {kind : Kind}
    (other : kind ≠ .closeBracket) :
    AgreeFrom cursor mirror (take kind) (take kind) alike := by
  refine agreeFrom_takeIf mirrors ?_ ?_
  · intro left right like
    rw [indistinct.kind like]
  · -- the tail begins with a closing bracket, which is not of the kind
    intro _ token member
    rw [closes token member]
    exact beq_false_of_ne (Ne.symm other)

include indistinct closes in
/-- Operators of a text are taken alike. -/
theorem agreeFrom_takeText {skip : Nat} {cursor mirror : Cursor}
    (mirrors : Mirrors alike tail skip limit limit' cursor mirror) (text : Text) :
    AgreeFrom cursor mirror (takeText .mathOp text) (takeText .mathOp text) alike := by
  -- A minus is told by its kind and text, and what stands in the tail is no operator.
  refine agreeFrom_takeIf mirrors ?_ ?_
  · intro left right like
    exact Token.is_congr (indistinct.kind like) (fun kind => indistinct.text like (.inr kind)) text
  · intro _ token member
    unfold Token.is
    rw [closes token member]
    rfl

include indistinct in
/-- Tokens that are alike are root keywords together. -/
theorem isRootKeyword_congr {left right : Token} (like : alike left right) :
    left.isRootKeyword = right.isRootKeyword :=
  -- A keyword is told by its kind and text, and like keywords share both.
  Token.isRootKeyword_congr (indistinct.kind like) fun kind => indistinct.text like (.inl kind)

include indistinct closes in
/-- A root keyword stands in front of tokens that are alike, or of none of them. -/
theorem head?_isRootKeyword_append {left right : List Token} (likes : List.Forall₂ alike left right) :
    left.head?.any Token.isRootKeyword = (right ++ tail).head?.any Token.isRootKeyword := by
  cases likes with
  | nil =>
    -- A closing bracket is no keyword.
    rcases tail with _ | ⟨closing, others⟩
    · rfl
    · simp [Token.isRootKeyword, closes closing rfl]
  | cons like _ => simp [isRootKeyword_congr indistinct like]

include indistinct closes in
/-- Tokens that are alike open a statement together. -/
theorem opensStatement_append {left right : List Token} (likes : List.Forall₂ alike left right) :
    opensStatement left = opensStatement (right ++ tail) := by
  -- behind the opening brackets both look at the same token, or the tail closes one
  have behind : ∀ {left right : List Token}, List.Forall₂ alike left right →
      (left.dropWhile fun token => token.kind == .openBracket).head?.any Token.isRootKeyword =
        ((right ++ tail).dropWhile fun token => token.kind == .openBracket).head?.any
          Token.isRootKeyword := by
    intro left right likes
    induction likes with
    | nil =>
      rcases tail with _ | ⟨closing, others⟩
      · rfl
      · simp [Token.isRootKeyword, closes closing rfl]
    | cons like others ih =>
      rw [List.cons_append, List.dropWhile_cons, List.dropWhile_cons, indistinct.kind like]
      split
      · exact ih
      · exact head?_isRootKeyword_append indistinct closes (.cons like others)
  unfold opensStatement
  rw [behind likes]
  cases likes with
  | nil =>
    rcases tail with _ | ⟨closing, others⟩
    · rfl
    · simp [closes closing rfl]
  | cons like _ => simp [indistinct.kind like]

/-- Where two moves put trees of one shape in front of what agrees further on, they agree. -/
theorem agreeFrom_front {first first' : List Token} {move move' more more' : Engine (List Token)}
    {cursor mirror after after' : Cursor} {taken taken' : List Token}
    (run : move cursor = ((more after).1.map (first ++ ·), (more after).2))
    (run' : move' mirror = ((more' after').1.map (first' ++ ·), (more' after').2))
    (shape : SameShape alike first first') (length : taken.length = taken'.length)
    (moved : cursor.Moved taken after) (moved' : mirror.Moved taken' after')
    (rest : AgreeFrom after after' more more' (SameShape alike)) :
    AgreeFrom cursor mirror move move' (SameShape alike) := by
  -- both go on behind `after`, and fail or end there as that does
  rcases further : more after with ⟨_ | others, final⟩
  · obtain ⟨final', further'⟩ := rest.fails further
    rw [further] at run
    rw [further'] at run'
    exact agreeFrom_fails run run'
  · obtain ⟨others', final', last, last', further', shapes, length', onward, onward'⟩ :=
      rest.yields further
    rw [further] at run
    rw [further'] at run'
    refine agreeFrom_yields run run' (shape.append shapes) ?_ (moved.trans onward)
      (moved'.trans onward')
    rw [List.length_append, List.length_append, length, length']

include parses parses'

/-- Where both lack an operand behind a separator, they keep it or give it back together. -/
theorem agreeFrom_links_missing {operand : Production} {chain : Chain} {turns turns' : Nat}
    {cursor mirror behind behind' after after' : Cursor} {separator separator' : Token}
    (separate : take chain.separator cursor = (some separator, behind))
    (separate' : take chain.separator mirror = (some separator', behind'))
    (like : alike separator separator') (operate : call operand behind = (none, after))
    (operate' : call' operand behind' = (none, after')) :
    AgreeFrom cursor mirror (chain.links (call operand) (turns + 1))
      (chain.links (call' operand) (turns' + 1)) (SameShape alike) := by
  have back := (moved_of_takeIf separate).trans (parses.stays operate)
  have back' := (moved_of_takeIf separate').trans (parses'.stays operate')
  -- which of the two depends on the chain alone
  by_cases keeps : chain.keepsDangling = true
  · refine agreeFrom_yields (Chain.links_kept separate turns keeps operate)
      (Chain.links_kept separate' turns' keeps operate') (.flagged like .nil) ?_ back back'
    rfl
  · have rewound : cursor.Moved [] (after.rewind cursor) := ⟨rfl, rfl, back.active⟩
    have rewound' : mirror.Moved [] (after'.rewind mirror) := ⟨rfl, rfl, back'.active⟩
    exact agreeFrom_yields (Chain.links_given separate turns keeps operate)
      (Chain.links_given separate' turns' keeps operate') .nil rfl rewound rewound'

include indistinct closes agree

/-- The links of a chain agree when there are turns enough for both. -/
theorem agreeFrom_links {production operand : Production} {chain : Chain}
    (rule : production.chain? = some (chain, operand)) {turns turns' : Nat}
    {cursor mirror : Cursor} (mirrors : Mirrors alike tail 0 limit limit' cursor mirror)
    (enough : cursor.rest.length ≤ turns) (enough' : mirror.rest.length ≤ turns') :
    AgreeFrom cursor mirror (chain.links (call operand) turns) (chain.links (call' operand) turns')
      (SameShape alike) := by
  -- The second loop may have more turns left; what both have is no more than they need.
  induction turns generalizing turns' cursor mirror with
  | zero =>
    -- Nothing is left to the first cursor, and no separator to the second.
    have bare : cursor.rest = [] := List.eq_nil_of_length_eq_zero (by omega)
    have absent : take chain.separator cursor = (none, cursor) := by
      rw [take, takeIf, bare]
    obtain ⟨after', absent'⟩ := (agreeFrom_take indistinct closes mirrors
      (Production.separator_ne rule).2).fails absent
    have stop := Chain.links_stop (call' operand) turns' (congrArg Prod.fst absent')
    exact agreeFrom_yields rfl (Prod.ext stop.1 rfl) .nil rfl (.refl cursor) stop.2
  | succ turns ih =>
    have separators := agreeFrom_take indistinct closes mirrors (Production.separator_ne rule).2
    rcases separate : take chain.separator cursor with ⟨_ | separator, behind⟩
    · obtain ⟨behind', separate'⟩ := separators.fails separate
      have stop := Chain.links_stop (call operand) (turns + 1) (congrArg Prod.fst separate)
      have stop' := Chain.links_stop (call' operand) turns' (congrArg Prod.fst separate')
      exact agreeFrom_yields (Prod.ext stop.1 rfl) (Prod.ext stop'.1 rfl) .nil rfl stop.2 stop'.2
    · obtain ⟨separator', behind', _, _, separate', like, _⟩ := separators.yields separate
      have past := moved_of_takeIf separate
      have past' := moved_of_takeIf separate'
      -- The separator is a token taken, so the second cursor has a turn left as well.
      have fewer := congrArg List.length past.rest
      have fewer' := congrArg List.length past'.rest
      rw [List.length_append, List.length_singleton] at fewer fewer'
      obtain ⟨turns', rfl⟩ : ∃ less, turns' = less + 1 := ⟨turns' - 1, by omega⟩
      have onward := mirrors.moved past past' rfl (Nat.zero_le _)
      have operands := agree operand behind behind' onward
      rcases operate : call operand behind with ⟨_ | next, after⟩
      · obtain ⟨after', operate'⟩ := operands.fails operate
        exact agreeFrom_links_missing parses parses' separate separate' like operate operate'
      · obtain ⟨next', after', taken, taken', operate', shape, length, moved, moved'⟩ :=
          operands.yields operate
        have less := parses.shorter operate
        have less' := parses'.shorter operate'
        refine agreeFrom_front (Chain.links_next separate turns operate)
          (Chain.links_next separate' turns' operate') (.leaf like shape) ?_ (past.trans moved)
          (past'.trans moved') (ih (onward.moved moved moved' length (Nat.zero_le _)) ?_ ?_)
        · rw [List.length_append, List.length_append, length]
          rfl
        · omega
        · omega

/-- Chains agree. -/
theorem agreeFrom_chain {production operand : Production} {chain : Chain}
    (rule : production.chain? = some (chain, operand)) {cursor mirror : Cursor}
    (mirrors : Mirrors alike tail 0 limit limit' cursor mirror) :
    AgreeFrom cursor mirror (chain.parse (call operand)) (chain.parse (call' operand))
      fun tree tree' => SameShape alike [tree] [tree'] := by
  -- The first operand is read alike, and then the links behind it.
  refine agreeFrom_bind (agree operand cursor mirror mirrors) ?_
  intro first first' after after' taken taken' length moved moved' _ _ head
  have further := mirrors.moved moved moved' length (Nat.zero_le _)
  refine agreeFrom_here (agreeFrom_bind (agreeFrom_links indistinct closes parses parses' agree rule
    further (Nat.le_refl _) (Nat.le_refl _)) ?_)
  intro others others' _ _ _ _ _ _ _ _ _ links
  -- The trees of the links stand behind the tree of the first operand.
  exact agreeFrom_pure (.node (head.cons links) .nil)

omit indistinct closes in
/-- Clauses agree when there are turns enough for both. -/
theorem agreeFrom_clauses {turns turns' : Nat} {cursor mirror : Cursor}
    (mirrors : Mirrors alike tail 0 limit limit' cursor mirror)
    (enough : cursor.rest.length ≤ turns) (enough' : mirror.rest.length ≤ turns') :
    AgreeFrom cursor mirror (repeated (call .part) turns) (repeated (call' .part) turns')
      (SameShape alike) := by
  -- As for links, with a clause for the separator and its operand.
  induction turns generalizing turns' cursor mirror with
  | zero =>
    -- A clause takes a token, and none is left to the first cursor.
    have absent : (call .part cursor).1 = none := by
      rcases run : call .part cursor with ⟨_ | first, after⟩
      · rfl
      · have less := parses.shorter run
        omega
    have absent' := (agree .part cursor mirror mirrors).1 absent
    have stop := repeated_stop turns' (parses'.restores .part) absent'
    exact agreeFrom_yields rfl (Prod.ext stop.1 rfl) .nil rfl (.refl cursor) stop.2
  | succ turns ih =>
    have clauses := agree .part cursor mirror mirrors
    rcases run : call .part cursor with ⟨_ | first, after⟩
    · obtain ⟨after', run'⟩ := clauses.fails run
      have stop := repeated_stop (turns + 1) (parses.restores .part) (congrArg Prod.fst run)
      have stop' := repeated_stop turns' (parses'.restores .part) (congrArg Prod.fst run')
      exact agreeFrom_yields (Prod.ext stop.1 rfl) (Prod.ext stop'.1 rfl) .nil rfl stop.2 stop'.2
    · obtain ⟨first', after', taken, taken', run', shape, length, moved, moved'⟩ :=
        clauses.yields run
      have less := parses.shorter run
      have less' := parses'.shorter run'
      obtain ⟨turns', rfl⟩ : ∃ fewer, turns' = fewer + 1 := ⟨turns' - 1, by omega⟩
      have turn : repeated (call .part) (turns + 1) cursor =
          ((repeated (call .part) turns after).1.map ([first] ++ ·),
            (repeated (call .part) turns after).2) := by
        rw [repeated_run, run]
        rfl
      have turn' : repeated (call' .part) (turns' + 1) mirror =
          ((repeated (call' .part) turns' after').1.map ([first'] ++ ·),
            (repeated (call' .part) turns' after').2) := by
        rw [repeated_run, run']
        rfl
      exact agreeFrom_front turn turn' shape length moved moved'
        (ih (mirrors.moved moved moved' length (Nat.zero_le _)) (by omega) (by omega))

/-- Single statements agree. -/
theorem agreeFrom_singleStatement {cursor mirror : Cursor}
    (mirrors : Mirrors alike tail 0 limit limit' cursor mirror) :
    AgreeFrom cursor mirror (sqlGrammar call .singleStatement) (sqlGrammar call' .singleStatement)
      fun tree tree' => SameShape alike [tree] [tree'] := by
  -- both look at the same tokens ahead, and so choose the same rule
  obtain ⟨front, split, likes⟩ := mirrors.ahead
  have opens := opensStatement_append indistinct closes likes
  have root := head?_isRootKeyword_append indistinct closes likes
  rw [← split] at opens root
  refine agreeFrom_here ?_
  simp only
  rw [← opens, ← root]
  split
  · refine agreeFrom_bind (agree .bracketExpr cursor mirror mirrors) ?_
    intro bracket bracket' after after' taken taken' length moved moved' run run' shape
    obtain ⟨_, _, derived⟩ := parses.derives run
    obtain ⟨_, _, derived'⟩ := parses'.derives run'
    have wraps := shape.wrapsStatement indistinct derived derived'
    rw [← wraps]
    split
    · exact agreeFrom_pure shape
    · exact agreeFrom_fail
  · split
    · refine agreeFrom_bind (agree .part cursor mirror mirrors) ?_
      intro first first' after after' taken taken' length moved moved' _ _ head
      have further := mirrors.moved moved moved' length (Nat.zero_le _)
      refine agreeFrom_here (agreeFrom_bind (agreeFrom_clauses parses parses' agree further
        (Nat.le_refl _) (Nat.le_refl _)) ?_)
      intro others others' _ _ _ _ _ _ _ _ _ clauses
      exact agreeFrom_pure (.node (head.cons clauses) .nil)
    · exact agreeFrom_fail

/-- Atoms agree. -/
theorem agreeFrom_atom {cursor mirror : Cursor}
    (mirrors : Mirrors alike tail 0 limit limit' cursor mirror) :
    AgreeFrom cursor mirror (sqlGrammar call .atom) (sqlGrammar call' .atom)
      fun tree tree' => SameShape alike [tree] [tree'] := by
  -- The choices for the first child are tried in one order on both sides.
  have leaf : ∀ {cursor mirror : Cursor} {move : Engine Token},
      AgreeFrom cursor mirror move move alike →
      AgreeFrom cursor mirror move move fun tree tree' => SameShape alike [tree] [tree'] :=
    fun agree => agree.weaken fun _ _ like => .leaf like .nil
  refine agreeFrom_bind (?_ : AgreeFrom cursor mirror _ _ fun tree tree' =>
    SameShape alike [tree] [tree']) ?_
  · -- The four productions are tried in turn, and then the three sorts of a single token.
    refine mirrors.orElse (parses.restores _) (parses'.restores _) (agree _ _ _ mirrors) ?_
    intro _ _ mirrors
    refine mirrors.orElse (parses.restores _) (parses'.restores _) (agree _ _ _ mirrors) ?_
    intro _ _ mirrors
    refine mirrors.orElse (parses.restores _) (parses'.restores _) (agree _ _ _ mirrors) ?_
    intro _ _ mirrors
    refine mirrors.orElse (parses.restores _) (parses'.restores _) (agree _ _ _ mirrors) ?_
    intro _ _ mirrors
    refine mirrors.orElse (restores_takeIf _) (restores_takeIf _)
      (leaf (agreeFrom_take indistinct closes mirrors nofun)) ?_
    intro _ _ mirrors
    refine mirrors.orElse (restores_takeIf _) (restores_takeIf _)
      (leaf (agreeFrom_take indistinct closes mirrors nofun)) ?_
    intro _ _ mirrors
    exact leaf (agreeFrom_takeText indistinct closes mirrors _)
  · intro first first' after after' taken taken' length moved moved' _ _ head
    replace mirrors := mirrors.moved moved moved' length (Nat.zero_le _)
    refine agreeFrom_bind (agreeFrom_attempt (restores_takeIf _) (restores_takeIf _)
      (agreeFrom_take indistinct closes mirrors nofun)) ?_
    intro marker marker' after after' taken taken' length moved moved' _ _ marks
    replace mirrors := mirrors.moved moved moved' length (Nat.zero_le _)
    refine agreeFrom_bind (agreeFrom_attempt (restores_takeIf _) (restores_takeIf _)
      (agreeFrom_take indistinct closes mirrors nofun)) ?_
    intro byname byname' _ _ _ _ _ _ _ _ _ names
    exact agreeFrom_pure (.node ((head.cons (.ofOption marks)).append (.ofOption names)) .nil)

omit indistinct closes parses' agree in
/-- A closing bracket behind the end of the tokens closes no bracket that was opened among them. -/
theorem rest_ne_nil_of_open {cursor behind after : Cursor} {opening : Token} {inner : Option Token}
    (closed : Closed cursor.rest) (opened : take .openBracket cursor = (some opening, behind))
    (contents : attempt (call .statement <|> call .listExpr) behind = (some inner, after)) :
    after.rest ≠ [] := by
  have reads := (readsFrom_contents parses behind).2
  rw [contents] at reads
  obtain ⟨taken, moved, said⟩ := reads inner rfl
  have kinds := (readsFrom_take cursor .openBracket).2
  rw [opened] at kinds
  obtain ⟨_, past, rfl, opens⟩ := kinds opening rfl
  -- what is between the brackets is balanced, so a bracket is still open
  have balanced : countKind .openBracket taken = countKind .closeBracket taken := by
    cases inner with
    | none =>
      cases said
      rfl
    | some tree =>
      obtain ⟨_, _, derived⟩ := said
      exact derived.balanced
  intro bare
  have whole := closed cursor.rest List.suffix_rfl
  rw [(past.trans moved).rest, bare] at whole
  simp only [List.append_nil, List.singleton_append, countKind_cons, opens, if_true, reduceCtorEq,
    if_false] at whole
  omega

/--
Brackets agree.

What is under way at the bracket itself plays no part, as everything in it stands further on.
-/
theorem agreeFrom_bracketExpr {skip : Nat} {cursor mirror : Cursor}
    (mirrors : Mirrors alike tail skip limit limit' cursor mirror) (near : skip ≤ 1) :
    AgreeFrom cursor mirror (sqlGrammar call .bracketExpr) (sqlGrammar call' .bracketExpr)
      fun tree tree' => SameShape alike [tree] [tree'] := by
  -- The opening bracket takes both cursors past what is under way at it.
  refine agreeFrom_bind (agreeFrom_take indistinct closes mirrors nofun) ?_
  intro opening opening' behind behind' _ _ _ _ _ run run' like
  have past := moved_of_takeIf run
  have past' := moved_of_takeIf run'
  have inside := mirrors.moved past past' rfl near
  have restored := restores_orElse (parses.restores .statement) (parses.restores .listExpr)
  have restored' := restores_orElse (parses'.restores .statement) (parses'.restores .listExpr)
  refine agreeFrom_bind (agreeFrom_attempt restored restored' (agreeFrom_orElse
    (parses.restores _) (parses'.restores _) (agree _ _ _ inside) ?_)) ?_
  · intro after after' back back'
    exact agree _ _ _ (inside.moved back back' rfl (Nat.zero_le _))
  · intro inner inner' after after' taken taken' length moved moved' contents _ shape
    have further := inside.moved moved moved' length (Nat.zero_le _)
    refine agreeFrom_bind (?_ : AgreeFrom after after' _ _ alike) ?_
    · refine agreeFrom_takeIf further ?_ ?_
      · intro left right like
        rw [indistinct.kind like]
      · -- The bracket that was opened here is not closed yet, so this is not the end.
        intro bare token member
        have some : tail ≠ [] := by
          rintro rfl
          cases member
        exact absurd bare (rest_ne_nil_of_open parses (mirrors.closed some) run contents)
    · intro closing closing' _ _ _ _ _ _ _ _ _ like'
      exact agreeFrom_pure (.node ((SameShape.leaf like (.ofTrees shape)).append
        (.leaf like' .nil)) .nil)

omit indistinct closes parses parses' in
/-- A token that both take alike and the tree of a production behind it agree. -/
theorem agreeFrom_pair {kind : Kind} {operand : Production} {first first' : Engine Token}
    {cursor mirror : Cursor} (mirrors : Mirrors alike tail 0 limit limit' cursor mirror)
    (leads : AgreeFrom cursor mirror first first' alike) :
    AgreeFrom cursor mirror
      (do let sign ← first; let tree ← call operand; return .node kind [sign, tree])
      (do let sign ← first'; let tree ← call' operand; return .node kind [sign, tree])
      fun tree tree' => SameShape alike [tree] [tree'] := by
  -- The sign is read alike, and then the tree behind it.
  refine agreeFrom_bind leads ?_
  intro sign sign' _ _ _ _ length moved moved' _ _ like
  refine agreeFrom_bind (agree operand _ _ (mirrors.moved moved moved' length (Nat.zero_le _))) ?_
  intro tree tree' _ _ _ _ _ _ _ _ _ shape
  exact agreeFrom_pure (.node (.leaf like shape) .nil)

/-- Clauses with a keyword in front agree. -/
theorem agreeFrom_part {cursor mirror : Cursor}
    (mirrors : Mirrors alike tail 0 limit limit' cursor mirror) :
    AgreeFrom cursor mirror (sqlGrammar call .part) (sqlGrammar call' .part)
      fun tree tree' => SameShape alike [tree] [tree'] := by
  -- The keyword is read alike, and then the list that may follow.
  refine agreeFrom_bind (agreeFrom_take indistinct closes mirrors nofun) ?_
  intro keyword keyword' after after' taken taken' length moved moved' _ _ like
  have further := mirrors.moved moved moved' length (Nat.zero_le _)
  refine agreeFrom_bind (agreeFrom_attempt (parses.restores _) (parses'.restores _)
    (agree _ _ _ further)) ?_
  intro list list' _ _ _ _ _ _ _ _ _ shape
  exact agreeFrom_pure (.node (.leaf like (.ofTrees shape)) .nil)

/-- Every rule of the grammar agrees on cursors that go on in the same way. -/
theorem agreeFrom_sqlGrammar (production : Production) {cursor mirror : Cursor}
    (mirrors : Mirrors alike tail 0 limit limit' cursor mirror) :
    AgreeFrom cursor mirror (sqlGrammar call production) (sqlGrammar call' production)
      fun tree tree' => SameShape alike [tree] [tree'] := by
  have chains : ∀ (production : Production) {operand : Production} {chain : Chain},
      production.chain? = some (chain, operand) → AgreeFrom cursor mirror
        (chain.parse (call operand)) (chain.parse (call' operand))
          fun tree tree' => SameShape alike [tree] [tree'] :=
    fun _ _ _ rule => agreeFrom_chain indistinct closes parses parses' agree rule mirrors
  -- one rule after the other, each agreeing where the productions it calls do
  cases production with
  | statement => exact chains .statement rfl
  | singleStatement =>
    exact agreeFrom_singleStatement indistinct closes parses parses' agree mirrors
  | part => exact agreeFrom_part indistinct closes parses parses' agree mirrors
  | listExpr => exact chains .listExpr rfl
  | orExpr => exact chains .orExpr rfl
  | andExpr => exact chains .andExpr rfl
  | mathExpr => exact chains .mathExpr rfl
  | simpleExpr =>
    refine mirrors.orElse (parses.restores _) (parses'.restores _) (agree _ _ _ mirrors) ?_
    intro _ _ mirrors
    exact mirrors.orElse (parses.restores _) (parses'.restores _) (agree _ _ _ mirrors)
      (agree _ _ _)
  | unaryPrefixExpr =>
    exact agreeFrom_pair agree mirrors (agreeFrom_take indistinct closes mirrors nofun)
  | minusExpr =>
    exact agreeFrom_pair agree mirrors (agreeFrom_takeText indistinct closes mirrors _)
  | atom => exact agreeFrom_atom indistinct closes parses parses' agree mirrors
  | bracketExpr =>
    exact agreeFrom_bracketExpr indistinct closes parses parses' agree mirrors (Nat.zero_le _)
  | funExpr =>
    exact agreeFrom_pair agree mirrors (agreeFrom_take indistinct closes mirrors nofun)

end Rules

/--
Two descents agree on cursors that go on in the same way when their rules do.

Where a limit is used up, every production is under way, so that the limit refuses nothing that
the guard would not.
-/
theorem callsAgree_of_rules {alike : Token → Token → Prop} {tail : List Token}
    {grammar grammar' : Grammar}
    (rules : ∀ limit limit',
      CallsAgree alike tail limit limit' (descend grammar limit) (descend grammar' limit') →
      ∀ production cursor mirror, Mirrors alike tail 0 limit limit' cursor mirror →
        AgreeFrom cursor mirror (grammar (descend grammar limit) production)
          (grammar' (descend grammar' limit') production)
          fun tree tree' => SameShape alike [tree] [tree'])
    (limit limit' : Nat) :
    CallsAgree alike tail limit limit' (descend grammar limit) (descend grammar' limit') := by
  -- on one limit: the room left is what keeps either from running out
  induction limit generalizing limit' with
  | zero =>
    intro production cursor mirror mirrors
    have busy := mirrors.busy production 0 (Nat.le_refl 0) (Nat.zero_le _)
    have full : cursor.busy production 0 = true := by
      by_contra idle
      have room := Cursor.room_pos (by simpa using idle)
      have := mirrors.room
      omega
    cases limit' with
    | zero => exact agreeFrom_guarded busy fun idle => by simp [full] at idle
    | succ limit' => exact agreeFrom_guarded busy fun idle => by simp [full] at idle
  | succ limit ih =>
    intro production cursor mirror mirrors
    have busy := mirrors.busy production 0 (Nat.le_refl 0) (Nat.zero_le _)
    cases limit' with
    | zero =>
      refine agreeFrom_guarded busy fun idle => ?_
      have room := Cursor.room_pos (busy ▸ idle)
      have := mirrors.room'
      omega
    | succ limit' =>
      refine agreeFrom_guarded busy fun idle => ?_
      exact rules limit limit' (ih limit') production _ _ (mirrors.enter idle)

/-- The descent agrees with itself on cursors that go on in the same way. -/
theorem callsAgree_descend {alike : Token → Token → Prop} {tail : List Token}
    (indistinct : Indistinct alike) (closes : ∀ token ∈ tail.head?, token.kind = Kind.closeBracket)
    (limit limit' : Nat) :
    CallsAgree alike tail limit limit' (descend sqlGrammar limit) (descend sqlGrammar limit') :=
  -- Each level of the descent agrees when the level below it does.
  callsAgree_of_rules (fun limit limit' agree production _ _ mirrors =>
    agreeFrom_sqlGrammar indistinct closes (parses_descend limit) (parses_descend limit') agree
      production mirrors) limit limit'

end SqlLayout
