import SqlLayout.Proofs.Parsing.Outcome

/-! The leaves of a parsed tree are the tokens it was parsed from, none lost and none moved. -/

namespace SqlLayout

namespace Token

/-- Whether a child is an operator at the end of the expression whose operands it should join. -/
def dangles (parent : Kind) (child : Token) (later : List Token) : Bool :=
  later.isEmpty && (parent == .orExpr && child.kind == .orOp ||
    parent == .andExpr && child.kind == .andOp)

mutual

/-- The leaves of a tree in pre-order, each with whether it dangles. -/
def leaves (dangling : Bool) : Token → List (Token × Bool)
  | ⟨kind, text, [], comments⟩ => [(⟨kind, text, [], comments⟩, dangling)]
  | ⟨kind, _, first :: rest, _⟩ => leavesAll kind (first :: rest)

/-- The leaves of the children of a token of a kind. -/
def leavesAll (parent : Kind) : List Token → List (Token × Bool)
  | [] => []
  | first :: rest => first.leaves (first.dangles parent rest) ++ leavesAll parent rest

end

/-- A leaf is the token it was read as, with a warning behind its comments if it dangles. -/
def ReadAs (leaf : Token × Bool) (token : Token) : Prop :=
  leaf.1 = if leaf.2 then token.addComment syntaxWarning else token

/-- A token with nothing below it is its own leaf. -/
theorem leaves_of_bare {token : Token} (bare : token.children = []) (dangling : Bool) :
    token.leaves dangling = [(token, dangling)] := by
  -- With no children the token is its own leaf.
  obtain ⟨kind, text, children, comments⟩ := token
  cases bare
  rfl

/-- The leaves of a token with children are those of the children. -/
theorem leaves_node (kind : Kind) (first : Token) (rest : List Token) (dangling : Bool) :
    (node kind (first :: rest)).leaves dangling = leavesAll kind (first :: rest) :=
  rfl

/-- Only operators of an expression of their own sort dangle. -/
theorem dangles_eq_false {parent : Kind} {child : Token} {later : List Token}
    (other : child.kind ≠ .orOp ∧ child.kind ≠ .andOp) : child.dangles parent later = false := by
  simp [dangles, other.1, other.2]

end Token

/-- An operator that a chain keeps without an operand behind it dangles there. -/
theorem Production.dangles_of_keeps {production operand : Production} {chain : Chain}
    {separator : Token} (rule : production.chain? = some (chain, operand))
    (keeps : chain.keepsDangling = true) (kind : separator.kind = chain.separator) :
    separator.dangles chain.kind [] = true := by
  -- Only alternatives and conjunctions keep such an operator.
  cases production <;> cases rule <;> simp_all [Token.dangles]

/-- Whether what a symbol stands for may be among the children of a token of a kind. -/
def Symbol.Under : Symbol → Kind → Prop
  -- Separators belong to a chain of their own kind.
  | .links production, parent => production.kinds = [parent]
  | _, _ => True

/-- A derived tree has children, whose leaves are its own. -/
theorem Derives.leaves_one {production : Production} {tree : Token} {taken : List Token}
    (derived : Derives (.one production) [tree] taken) (dangling : Bool) :
    tree.leaves dangling = Token.leavesAll tree.kind tree.children := by
  generalize symbol_eq : Symbol.one production = symbol at derived
  generalize trees_eq : [tree] = trees at derived
  -- every production but two makes a node, and those two pass their tree on
  induction derived generalizing production tree with
  | bracketed _ _ inner => exact inner rfl trees_eq
  | simple _ _ inner => exact inner rfl trees_eq
  | linksEnd | link | dangling | clausesEnd | clause | headTree | headToken => cases symbol_eq
  | _ =>
    cases trees_eq
    rfl

/-- The leaves of a derived tree do not depend on what stands behind it. -/
theorem Derives.leavesAll_cons {production : Production} {tree : Token} {taken : List Token}
    (derived : Derives (.one production) [tree] taken) (parent : Kind) (others : List Token) :
    Token.leavesAll parent (tree :: others) =
      Token.leavesAll parent [tree] ++ Token.leavesAll parent others := by
  -- A production gives one tree, whose leaves do not depend on what stands behind it.
  simp only [Token.leavesAll, derived.leaves_one, List.append_nil]

/-- The kinds of token that an atom can begin with are none of operators that dangle. -/
theorem headToken_kind {token : Token}
    (choice : token.kind = .name ∨ token.kind = .text ∨ token.is .mathOp "*".toList = true) :
    token.kind ≠ .orOp ∧ token.kind ≠ .andOp := by
  -- A name, a text and a star are no `AND` or `OR`.
  simp only [Token.is, Bool.and_eq_true, beq_iff_eq] at choice
  rcases choice with kind | kind | ⟨kind, _⟩ <;> simp [kind]

/-- The leaves of the first child of an atom do not depend on what stands behind it. -/
theorem Derives.leavesAll_head {tree : Token} {taken : List Token}
    (derived : Derives .head [tree] taken) (parent : Kind) (others : List Token) :
    Token.leavesAll parent (tree :: others) =
      Token.leavesAll parent [tree] ++ Token.leavesAll parent others := by
  -- The head of an atom is a tree of a production or a token that cannot dangle.
  cases derived with
  | headTree _ inner => exact inner.leavesAll_cons parent others
  | headToken choice =>
    simp only [Token.leavesAll, Token.dangles_eq_false (headToken_kind choice), List.append_nil]

namespace Token

/-- A token that cannot dangle is read as itself, whatever stands behind it. -/
theorem readAs_cons {token : Token} {trees taken : List Token} {parent : Kind}
    (bare : token.children = []) (other : token.kind ≠ .orOp ∧ token.kind ≠ .andOp)
    (rest : List.Forall₂ ReadAs (leavesAll parent trees) taken) :
    List.Forall₂ ReadAs (leavesAll parent (token :: trees)) (token :: taken) := by
  -- The leaf is the token itself, and carries no warning.
  rw [leavesAll, dangles_eq_false other, leaves_of_bare bare]
  exact .cons rfl rest

/-- A token with another tree behind it is read as itself. -/
theorem readAs_cons_cons {token next : Token} {trees taken : List Token} {parent : Kind}
    (bare : token.children = [])
    (rest : List.Forall₂ ReadAs (leavesAll parent (next :: trees)) taken) :
    List.Forall₂ ReadAs (leavesAll parent (token :: next :: trees)) (token :: taken) := by
  -- With another child behind it the token does not dangle.
  rw [leavesAll, leaves_of_bare bare]
  exact .cons rfl rest

/-- A token that dangles is read as itself before its warning. -/
theorem readAs_dangling {token : Token} {parent : Kind} (bare : token.children = [])
    (dangles : token.dangles parent [] = true) :
    List.Forall₂ ReadAs (leavesAll parent [token.addComment syntaxWarning]) [token] := by
  -- The leaf is the token with the warning added, as the last child of its kind of parent.
  have flagged : (token.addComment syntaxWarning).dangles parent [] = true := dangles
  have bare : (token.addComment syntaxWarning).children = [] := bare
  rw [leavesAll, flagged, leaves_of_bare bare]
  exact .cons rfl .nil

/-- The leaves of a token with children are those of the children. -/
theorem readAs_node {parent kind : Kind} {first : Token} {rest taken : List Token}
    (below : List.Forall₂ ReadAs (leavesAll kind (first :: rest)) taken) :
    List.Forall₂ ReadAs (leavesAll parent [.node kind (first :: rest)]) taken := by
  -- The leaves of a tree are those of its children.
  rwa [leavesAll, leaves_node, leavesAll.eq_1, List.append_nil]

/-- A token and a tree behind it, below one node, are read as the token and what the tree is. -/
theorem readAs_pair {parent kind : Kind} {token tree : Token} {taken : List Token}
    (bare : ∀ other ∈ token :: taken, other.children = [])
    (inner : (∀ other ∈ taken, other.children = []) →
      List.Forall₂ ReadAs (leavesAll kind [tree]) taken) :
    List.Forall₂ ReadAs (leavesAll parent [.node kind [token, tree]]) (token :: taken) := by
  -- The sign has the tree behind it and so cannot dangle.
  rw [List.forall_mem_cons] at bare
  exact readAs_node (readAs_cons_cons bare.1 (inner bare.2))

/-- A token that is there or not, and cannot dangle, is read as itself in front of other trees. -/
theorem readAs_optional {parent kind : Kind} {token : Option Token} {trees taken : List Token}
    (same : ∀ some ∈ token, some.kind = kind) (other : kind ≠ .orOp ∧ kind ≠ .andOp)
    (bare : ∀ some ∈ token.toList, some.children = [])
    (rest : List.Forall₂ ReadAs (leavesAll parent trees) taken) :
    List.Forall₂ ReadAs (leavesAll parent (token.toList ++ trees)) (token.toList ++ taken) := by
  -- A token that is missing gives no leaf and was not read.
  cases token with
  | none => exact rest
  | some token =>
    have leaf := bare token (List.mem_singleton_self token)
    exact readAs_cons leaf (by rwa [same token rfl]) rest

end Token

/-- A derived tree and others behind it are read as what it was derived from and what they are. -/
theorem Derives.readAs_cons {production : Production} {tree : Token} {others taken more : List Token}
    {parent : Kind} (derived : Derives (.one production) [tree] taken)
    (head : List.Forall₂ Token.ReadAs (Token.leavesAll parent [tree]) taken)
    (tail : List.Forall₂ Token.ReadAs (Token.leavesAll parent others) more) :
    List.Forall₂ Token.ReadAs (Token.leavesAll parent (tree :: others)) (taken ++ more) := by
  -- The leaves of the first tree stand in front of those of the others.
  rw [derived.leavesAll_cons]
  exact List.rel_append head tail

/-- The leaves of derived trees are the tokens they were derived from. -/
theorem Derives.leaves {symbol : Symbol} {trees taken : List Token}
    (derived : Derives symbol trees taken) (bare : ∀ token ∈ taken, token.children = [])
    (parent : Kind) (under : symbol.Under parent) :
    List.Forall₂ Token.ReadAs (Token.leavesAll parent trees) taken := by
  -- Each rule puts tokens of its own around what the trees below it are read as.
  induction derived generalizing parent with
  | chain rule first _ head tail =>
    rw [List.forall_mem_append] at bare
    have behind := tail bare.2 _ (Production.kinds_chain rule)
    exact Token.readAs_node (first.readAs_cons (head bare.1 _ trivial) behind)
  | linksEnd => exact .nil
  | link rule kind next _ head tail =>
    rw [List.cons_append, List.forall_mem_cons, List.forall_mem_append] at bare
    refine Token.readAs_cons_cons bare.1 ?_
    exact next.readAs_cons (head bare.2.1 _ trivial) (tail bare.2.2 _ under)
  | @dangling production _ chain separator rule keeps kind =>
    have same : chain.kind = parent :=
      List.head_eq_of_cons_eq ((Production.kinds_chain rule).symm.trans under)
    rw [← same]
    exact Token.readAs_dangling (bare _ (List.mem_singleton_self _))
      (Production.dangles_of_keeps rule keeps kind)
  | bracketed _ _ inner => exact inner bare parent trivial
  | single _ first _ head tail =>
    rw [List.forall_mem_append] at bare
    have behind := tail bare.2 .singleStatement trivial
    exact Token.readAs_node (first.readAs_cons (head bare.1 _ trivial) behind)
  | clausesEnd => exact .nil
  | clause first _ head tail =>
    rw [List.forall_mem_append] at bare
    exact first.readAs_cons (head bare.1 _ trivial) (tail bare.2 _ trivial)
  | barePart kind =>
    have leaf := bare _ (List.mem_singleton_self _)
    exact Token.readAs_node (Token.readAs_cons leaf (by simp [kind]) .nil)
  | part kind _ inner => exact Token.readAs_pair bare fun leaves => inner leaves _ trivial
  | simple _ _ inner => exact inner bare parent trivial
  | signed kind _ inner => exact Token.readAs_pair bare fun leaves => inner leaves _ trivial
  | negated minus _ inner => exact Token.readAs_pair bare fun leaves => inner leaves _ trivial
  | headTree _ _ inner => exact inner bare parent trivial
  | headToken choice =>
    exact Token.readAs_cons (bare _ (List.mem_singleton_self _)) (headToken_kind choice) .nil
  | @atom _ marker byname _ first marked named inner =>
    rw [List.forall_mem_append, List.forall_mem_append] at bare
    have ending := @Token.readAs_optional .atom _ byname [] [] named (by simp) bare.2.2 .nil
    rw [List.append_nil] at ending
    refine Token.readAs_node ?_
    rw [List.append_eq, first.leavesAll_head]
    exact List.rel_append (inner bare.1 _ trivial)
      (Token.readAs_optional marked (by simp) bare.2.1 ending)
  | @emptyBracket opening closing opens closes =>
    have last := bare closing (List.mem_cons_of_mem opening (List.mem_singleton_self closing))
    exact Token.readAs_pair bare fun _ => Token.readAs_cons last (by simp [closes]) .nil
  | bracket _ opens contents closes inner =>
    rw [List.cons_append, List.forall_mem_cons, List.forall_mem_append] at bare
    refine Token.readAs_node (Token.readAs_cons_cons bare.1 ?_)
    refine contents.readAs_cons (inner bare.2.1 _ trivial) ?_
    exact Token.readAs_cons (bare.2.2 _ (List.mem_singleton_self _)) (by simp [closes]) .nil
  | function kind _ inner => exact Token.readAs_pair bare fun leaves => inner leaves _ trivial

/-- A reader of two lists of trees meets the tokens of the first and then those of the second. -/
theorem Token.walk_append (front back : List Token) :
    Token.walk (front ++ back) = Token.walk front ++ Token.walk back := by
  -- The walk goes through the front before it comes to what is behind it.
  fun_induction Token.walk front with
  | case1 => rfl
  | case2 top stack ih =>
    rw [List.cons_append, Token.walk, ← List.append_assoc, ih, List.cons_append]

/-- Whether a reader of a list of trees meets no residue. -/
def Token.NoResidue (trees : List Token) : Prop :=
  ∀ token ∈ Token.walk trees, token.kind ≠ .unparsed

/-- There is no residue in no trees. -/
theorem Token.noResidue_nil : Token.NoResidue [] := by
  simp [Token.NoResidue, Token.walk]

/-- There is no residue in trees when there is none in the first, below it and in the others. -/
theorem Token.noResidue_cons (tree : Token) (others : List Token) :
    Token.NoResidue (tree :: others) ↔
      tree.kind ≠ .unparsed ∧ Token.NoResidue tree.children ∧ Token.NoResidue others := by
  -- The walk meets the tree, then what is below it, and then the others.
  unfold Token.NoResidue
  rw [Token.walk, Token.walk_append, List.forall_mem_cons, List.forall_mem_append]

/-- A reader meets no residue in derived trees. -/
theorem Derives.noResidue {symbol : Symbol} {trees taken : List Token}
    (derived : Derives symbol trees taken) (bare : ∀ token ∈ taken, token.children = [])
    (lexical : ∀ token ∈ taken, token.kind ≠ .unparsed) : Token.NoResidue trees := by
  -- Every tree is a node of the grammar's own kinds, or a token that was read.
  induction derived with
  | @chain production _ _ _ _ _ _ rule =>
    cases production <;> simp [Production.chain?] at rule <;> obtain ⟨rfl, _⟩ := rule <;>
      simp_all [Token.noResidue_cons, Token.noResidue_nil, Token.node]
  | @atom _ marker byname =>
    cases marker <;> cases byname <;>
      simp_all [Token.noResidue_cons, Token.noResidue_nil, Token.node]
  | _ => simp_all [Token.noResidue_cons, Token.noResidue_nil, Token.node, Token.addComment]

/-- The leaves of a statement, those of its residue left out. -/
def Token.statementLeaves (root : Token) : List (Token × Bool) :=
  Token.leavesAll root.kind (root.children.filter fun child => child.kind != .unparsed)

/-- What a reader finds of the residue of a statement, if tokens were left behind it. -/
structure Token.KeepsResidue (root : Token) (left : List Token) : Prop where
  /-- The root is a statement. -/
  kind : root.kind = .statement
  /-- There is a residue right below the root exactly when tokens were left. -/
  present : (∃ child ∈ root.children, child.kind = .unparsed) ↔ left ≠ []
  /-- It is the last child, with the tokens on one line. -/
  last : left ≠ [] → root.children.getLast? =
    some (.residue ([' '].intercalate (left.map Token.display)))
  /-- It is the only one in the tree. -/
  only : (root.descendants.filter fun token => token.kind == .unparsed).length =
    if left = [] then 0 else 1

/-- Trees without residue are none themselves. -/
theorem Token.NoResidue.kind_ne {trees : List Token} (none : Token.NoResidue trees) :
    ∀ tree ∈ trees, tree.kind ≠ .unparsed := by
  -- Each of the trees is met by the walk.
  induction trees with
  | nil => exact nofun
  | cons tree others ih =>
    obtain ⟨here, -, rest⟩ := (Token.noResidue_cons tree others).mp none
    exact List.forall_mem_cons.mpr ⟨here, ih rest⟩

/-- A statement without residue keeps the tokens left behind it as its only residue. -/
theorem Token.keepsResidue_withResidue {root : Token} (kind : root.kind = .statement)
    (none : Token.NoResidue root.children) (left : List Token) :
    (root.withResidue left).KeepsResidue left := by
  -- Without tokens left the statement has no residue anywhere, and with some it has the one put in.
  have within : root.descendants.filter (fun token => token.kind == .unparsed) = [] := by
    rw [List.filter_eq_nil_iff]
    intro token member
    simpa using none token member
  rcases left with _ | ⟨first, others⟩
  · refine ⟨kind, ?_, nofun, ?_⟩
    · simpa [Token.withResidue, residueText?] using none.kind_ne
    · exact congrArg List.length within
  · refine ⟨kind, ?_, ?_, ?_⟩
    · simp [Token.withResidue, residueText?, Token.push, Token.residue, Token.lexical]
    · simp [Token.withResidue, residueText?, Token.push]
    · -- Nothing is below the residue itself.
      have all : (root.withResidue (first :: others)).descendants = root.descendants ++
          [.residue ([' '].intercalate ((first :: others).map Token.display))] := by
        show Token.walk (root.children ++ [_]) = _
        rw [Token.walk_append]
        congr 1
        simp [Token.walk, Token.residue, Token.lexical]
      rw [all, List.filter_append, within]
      rfl

/-- The leaves of a statement without residue stay its leaves when it is given one. -/
theorem Token.statementLeaves_withResidue {root : Token} (none : Token.NoResidue root.children)
    (left : List Token) :
    (root.withResidue left).statementLeaves = Token.leavesAll root.kind root.children := by
  have kept : root.children.filter (fun child => child.kind != .unparsed) = root.children := by
    rw [List.filter_eq_self]
    simpa using none.kind_ne
  -- a residue is the one child that is filtered out again
  rcases left with _ | ⟨first, others⟩
  · show Token.leavesAll root.kind (root.children.filter _) = _
    rw [kept]
  · show Token.leavesAll root.kind ((root.children ++ [_]).filter _) = _
    rw [List.filter_append, kept]
    simp [Token.residue, Token.lexical]

/-- A list of lexical tokens comes to a statement, maybe an empty one, and its residue. -/
theorem parseTokens_parts (tokens : List Token)
    (lexical : ∀ token ∈ tokens, token.kind.isLexical = true ∧ token.children = []) :
    ∃ root taken left, tokens = taken ++ left ∧ (parseTokens tokens).root = root.withResidue left ∧
      (Derives (.one .statement) [root] taken ∨ root = .node .statement [] ∧ taken = []) ∧
      (parseTokens tokens).root.statementLeaves = Token.leavesAll root.kind root.children ∧
      List.Forall₂ Token.ReadAs (parseTokens tokens).root.statementLeaves taken ∧
      (parseTokens tokens).root.KeepsResidue left := by
  -- Everything is read off the statement at the front and what it left.
  have bare : ∀ token ∈ tokens, token.children = [] := fun token member => (lexical token member).2
  have plain : ∀ token ∈ tokens, token.kind ≠ .unparsed := by
    intro token member same
    have kind := (lexical token member).1
    rw [same] at kind
    cases kind
  -- either a statement was read in front of what is left, or nothing was
  rcases parseTokens_cases tokens with ⟨root, taken, left, rfl, derived, -, result⟩ | ⟨-, result⟩
  · rw [List.forall_mem_append] at bare plain
    have none := derived.noResidue bare.1 plain.1
    have leaves := derived.leaves bare.1 .statement trivial
    have kind := derived.kind_mem
    simp only [Production.kinds, List.mem_singleton] at kind
    have inner := ((Token.noResidue_cons root []).mp none).2.1
    have same := Token.statementLeaves_withResidue inner left
    rw [← result] at same
    refine ⟨root, taken, left, rfl, result, .inl derived, same, ?_, ?_⟩
    · rw [same]
      rwa [Token.leavesAll, derived.leaves_one, Token.leavesAll, List.append_nil] at leaves
    · rw [result]
      exact Token.keepsResidue_withResidue kind inner left
  · have same := @Token.statementLeaves_withResidue (.node .statement []) Token.noResidue_nil tokens
    rw [← result] at same
    refine ⟨.node .statement [], [], tokens, rfl, result, .inr ⟨rfl, rfl⟩, same, ?_, ?_⟩
    · rw [same]
      exact .nil
    · rw [result]
      exact Token.keepsResidue_withResidue rfl Token.noResidue_nil tokens

/--
A list of lexical tokens is parsed without losing, doubling or moving any of them.

The leaves of the statement are the tokens up to some count, in their order.
Only an operator that dangles differs from its token, by the warning behind its comments.
The tokens from that count on are the residue.
-/
theorem parseTokens_leaves (tokens : List Token)
    (lexical : ∀ token ∈ tokens, token.kind.isLexical = true ∧ token.children = []) :
    ∃ count ≤ tokens.length,
      List.Forall₂ Token.ReadAs (parseTokens tokens).root.statementLeaves (tokens.take count) ∧
      (parseTokens tokens).root.KeepsResidue (tokens.drop count) := by
  -- The tokens read and the tokens left make up the list, so that the count divides it.
  obtain ⟨root, taken, left, split, _, _, _, leaves, keeps⟩ := parseTokens_parts tokens lexical
  refine ⟨taken.length, by simp [split], ?_, ?_⟩
  · rwa [split, List.take_left, ← split]
  · rwa [split, List.drop_left, ← split]

/-- There are such tokens with an operator that dangles and a bracket that is left behind it. -/
theorem parseTokens_leaves_dangling : ∃ tokens : List Token,
    tokens.map Token.kind = [.partToken, .name, .andOp, .closeBracket, .name] ∧
    (parseTokens tokens).root.statementLeaves.map Prod.snd = [false, false, true] ∧
    ∃ count ≤ tokens.length,
      List.Forall₂ Token.ReadAs (parseTokens tokens).root.statementLeaves (tokens.take count) ∧
      (parseTokens tokens).root.KeepsResidue (tokens.drop count) :=
  -- That the `AND` dangles is computed; how the tokens divide is the general law.
  ⟨[.lexical .partToken "SELECT".toList, .lexical .name ['A'], .lexical .andOp "AND".toList,
      .lexical .closeBracket [')'], .lexical .name ['B']],
    rfl, by decide +kernel, parseTokens_leaves _ (by decide)⟩

end SqlLayout
