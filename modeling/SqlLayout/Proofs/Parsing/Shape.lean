import SqlLayout.Proofs.Bind.Restore
import SqlLayout.Proofs.Parsing.Front
import SqlLayout.Proofs.Parsing.Leaves

/-! Shapes: every node of a parsed tree has the children that the grammar gives to its kind. -/

namespace SqlLayout

/-- Whether kinds are operands joined by separators, with one separator more if it may dangle. -/
def alternate (operands : List Kind) (separator : Kind) (dangling : Bool) : List Kind → Bool
  | [] => false
  | [operand] => operands.contains operand
  | operand :: joint :: rest =>
    -- A separator that nothing follows is one that dangles.
    operands.contains operand && joint == separator &&
      if rest.isEmpty then dangling else alternate operands separator dangling rest

/-- Whether a node of a kind may have children of these kinds, in this order. -/
def Kind.allows : Kind → List Kind → Bool
  | statement, kinds => alternate [singleStatement, bracketExpr] unionToken false kinds
  | singleStatement, kinds => !kinds.isEmpty && kinds.all (· == part)
  | part, kinds => [[partToken], [partToken, listExpr]].contains kinds
  | listExpr, kinds => alternate [orExpr] listSeparator false kinds
  | orExpr, kinds => alternate [andExpr] orOp true kinds
  | andExpr, kinds => alternate [mathExpr] andOp true kinds
  | mathExpr, kinds => alternate [unaryPrefixExpr, minusExpr, atom] mathOp false kinds
  | unaryPrefixExpr, kinds => kinds == [unaryPrefix, atom]
  | minusExpr, kinds => kinds == [mathOp, atom]
  | atom, kinds =>
    -- Behind the first child the outer join marker comes before the alias.
    kinds.head?.any [bracketExpr, statement, orExpr, funExpr, name, text, mathOp].contains &&
      [[], [outerJoinMarker], [name], [outerJoinMarker, name]].contains kinds.tail
  | bracketExpr, kinds =>
    [[openBracket, closeBracket], [openBracket, statement, closeBracket],
      [openBracket, listExpr, closeBracket]].contains kinds
  | funExpr, kinds => kinds == [name, bracketExpr]
  -- Raw text and comments are no tokens of a tree, and residue is not below a statement.
  | raw, _ | comment, _ | unparsed, _ => false
  | _, kinds => kinds.isEmpty

/-- What the grammar asks of some nodes beyond the kinds of their children. -/
def Token.heeds (token : Token) : Bool :=
  match token.kind with
  -- A bracket in the place of a single statement holds a statement.
  | .statement => token.children.all fun child => child.kind != .bracketExpr ||
      child.children.map Token.kind == [.openBracket, .statement, .closeBracket]
  | .singleStatement => token.children.head?.any fun first =>
      first.children.head?.any Token.isRootKeyword
  | .minusExpr => token.children.head?.any fun sign => sign.text == "-".toList
  | .atom => token.children.head?.all fun head => head.kind != .mathOp || head.text == "*".toList
  | _ => true

/-- Whether a node is as the grammar has it. -/
structure Token.Fits (token : Token) : Prop where
  /-- The children are those of a node of its kind. -/
  children : token.kind.allows (token.children.map Token.kind) = true
  /-- The children say what they have to. -/
  heeds : token.heeds = true
  /-- A lexical token has text, and a structural one has neither text nor comments. -/
  own : if token.kind.isLexical then token.text ≠ [] else token.text = [] ∧ token.comments = []

/--
Whether a tree is as parsing leaves it.

The root may be empty, and it may end in residue.
Everything else is as the grammar has it, so that there is no residue further down.
-/
structure Token.FitsRoot (root : Token) : Prop where
  /-- The root is a statement. -/
  kind : root.kind = .statement
  /-- The root has neither text nor comments. -/
  own : root.text = [] ∧ root.comments = []
  /-- The children are those of a statement, if there are any, and then residue, if there is any. -/
  parts : ∃ body rest, root.children = body ++ rest ∧
    (body = [] ∨ (Token.node .statement body).Fits) ∧ (∀ node ∈ Token.walk body, node.Fits) ∧
    (rest = [] ∨ ∃ residue, rest = [.residue residue])

/-- A first operand and what follows it in turn alternate. -/
theorem alternate_of_alternates {chain : Chain} {operands : List Kind} {first : Token}
    {others : List Token} (operand : first.kind ∈ operands)
    (turns : Alternates chain operands others) :
    alternate operands chain.separator chain.keepsDangling ((first :: others).map Token.kind) =
      true := by
  induction turns generalizing first with
  | nil => simpa [alternate] using operand
  | last keeps separator => simp [alternate, operand, separator, keeps]
  | @link token next others separator operand' _ ih =>
    -- Behind the separator the chain goes on with its next operand as the first.
    have rest := ih operand'
    rw [List.map_cons] at rest
    simp [alternate, operand, separator, rest]

/-- A node of a chain may have operands joined by its separators below it. -/
theorem Production.allows_chain {production operand : Production} {chain : Chain}
    (rule : production.chain? = some (chain, operand)) (kinds : List Kind) :
    chain.kind.allows kinds =
      alternate operand.kinds chain.separator chain.keepsDangling kinds := by
  -- Each chain allows its operands and its separators by turns.
  cases production <;> cases rule <;> rfl

/-- A bracket in the place of a single statement holds a statement. -/
theorem Derives.wraps {bracket : Token} {taken : List Token}
    (derived : Derives (.one .bracketExpr) [bracket] taken)
    (wraps : bracket.wrapsStatement = true) :
    bracket.children.map Token.kind = [.openBracket, .statement, .closeBracket] := by
  cases derived with
  | chain rule => cases rule
  | emptyBracket opens closes =>
    simp [Token.wrapsStatement, Token.node, closes] at wraps
  | bracket choice opens contents closes =>
    have kind := contents.kind_mem
    simp only [List.mem_cons, List.not_mem_nil, or_false] at choice
    -- A list in the bracket is no statement.
    rcases choice with rfl | rfl
    · simp [Token.node, opens, closes, List.mem_singleton.mp kind]
    · simp [Token.wrapsStatement, Token.node, List.mem_singleton.mp kind] at wraps

/-- Among single statements and what joins them, every bracket holds a statement. -/
theorem Derives.brackets_wrap {symbol : Symbol} {trees taken : List Token}
    (derived : Derives symbol trees taken)
    (place : symbol = .one .singleStatement ∨ symbol = .links .statement) :
    ∀ tree ∈ trees, tree.kind = .bracketExpr →
      tree.children.map Token.kind = [.openBracket, .statement, .closeBracket] := by
  -- Only statements and their links are of interest, and their operands are single statements.
  induction derived with
  | chain rule =>
    rcases place with same | same
    · cases same
      cases rule
    · cases same
  | linksEnd => exact nofun
  | link rule kind _ _ head tail =>
    rcases place with same | same
    · cases same
    · cases same
      cases rule
      refine List.forall_mem_cons.mpr ⟨fun bracket => ?_, List.forall_mem_cons.mpr
        ⟨head (.inl rfl) _ (List.mem_singleton_self _), tail (.inr rfl)⟩⟩
      -- The separator itself is no bracket.
      rw [kind] at bracket
      cases bracket
  | dangling rule keeps =>
    rcases place with same | same
    · cases same
    · cases same
      cases rule
      cases keeps
  | bracketed inner wraps =>
    intro tree member _
    rw [List.mem_singleton.mp member]
    exact inner.wraps wraps
  | single =>
    intro tree member bracket
    rw [List.mem_singleton.mp member] at bracket
    cases bracket
  | _ => rcases place with same | same <;> cases same

/-- The first token of a clause is its keyword. -/
theorem Derives.part_head {first keyword : Token} {taken : List Token}
    (derived : Derives (.one .part) [first] (keyword :: taken)) :
    first.children.head? = some keyword := by
  generalize read : keyword :: taken = tokens at derived
  -- the keyword is the first token taken and the first child
  cases derived with
  | chain rule => cases rule
  | barePart _ =>
    cases read
    rfl
  | part _ _ =>
    cases read
    rfl

/-- What follows the first clause of a single statement are clauses. -/
theorem Derives.clauses_kind {trees taken : List Token} (derived : Derives .clauses trees taken) :
    ∀ tree ∈ trees, tree.kind = .part := by
  -- Each turn adds one clause.
  generalize symbol_eq : Symbol.clauses = symbol at derived
  induction derived with
  | clausesEnd => exact nofun
  | clause head _ _ tail =>
    exact List.forall_mem_cons.mpr ⟨List.mem_singleton.mp head.kind_mem, tail symbol_eq⟩
  | _ => cases symbol_eq

/-- A node fits when the kinds of its children do and they say what they have to. -/
theorem Token.fits_node {kind : Kind} {children : List Token} (structural : kind.isLexical = false)
    (allowed : kind.allows (children.map Token.kind) = true)
    (heeds : (Token.node kind children).heeds = true) : (Token.node kind children).Fits :=
  -- A node that is no leaf has neither a text nor comments.
  ⟨allowed, heeds, by rw [if_neg (by simpa [Token.node] using structural)]; exact ⟨rfl, rfl⟩⟩

/-- A reader of a tree and of others meets the root, what is below it and the others. -/
theorem Token.forall_walk_cons {tree : Token} {others : List Token} {P : Token → Prop} :
    (∀ node ∈ Token.walk (tree :: others), P node) ↔
      P tree ∧ (∀ node ∈ Token.walk tree.children, P node) ∧ ∀ node ∈ Token.walk others, P node := by
  -- The walk meets the tree, then what is below it, and then the others.
  rw [Token.walk, Token.walk_append, List.forall_mem_cons, List.forall_mem_append]

/-- A token that was read has nothing below it and fits. -/
def Token.FitsLeaf (token : Token) : Prop :=
  token.children = [] ∧ token.Fits

/-- A token that was read is the only node that a reader of it meets. -/
theorem Token.FitsLeaf.walk_cons {token : Token} (leaf : token.FitsLeaf) {others : List Token}
    (rest : ∀ node ∈ Token.walk others, node.Fits) :
    ∀ node ∈ Token.walk (token :: others), node.Fits := by
  -- Below a leaf there is nothing to be met.
  refine Token.forall_walk_cons.mpr ⟨leaf.2, ?_, rest⟩
  simp [leaf.1, Token.walk]

/-- An operator that dangles fits with the warning on it. -/
theorem Token.FitsLeaf.addComment {token : Token} (leaf : token.FitsLeaf)
    (lexical : token.kind.isLexical = true) (comment : Text) :
    (token.addComment comment).FitsLeaf := by
  obtain ⟨bare, fits⟩ := leaf
  -- a comment changes neither the text nor the children
  have own := fits.own
  rw [if_pos lexical] at own
  refine ⟨bare, fits.children, fits.heeds, ?_⟩
  show if token.kind.isLexical = true then token.text ≠ [] else _
  rwa [if_pos lexical]

/-- The children of a chain say what they have to. -/
theorem Derives.heeds_chain {production operand : Production} {chain : Chain} {first : Token}
    {others taken more : List Token} (rule : production.chain? = some (chain, operand))
    (head : Derives (.one operand) [first] taken) (tail : Derives (.links production) others more) :
    (Token.node chain.kind (first :: others)).heeds = true := by
  cases production with
  | statement =>
    cases rule
    -- Only a statement has brackets among its operands.
    have here := head.brackets_wrap (.inl rfl) first (List.mem_singleton_self _)
    have rest := tail.brackets_wrap (.inr rfl)
    simp only [Token.heeds, Token.node, List.all_eq_true, Bool.or_eq_true, bne_iff_ne, beq_iff_eq]
    intro child member
    by_cases bracket : child.kind = .bracketExpr
    · rcases List.mem_cons.mp member with rfl | member
      · exact .inr (here bracket)
      · exact .inr (rest child member bracket)
    · exact .inl bracket
  | listExpr | orExpr | andExpr | mathExpr =>
    cases rule
    rfl
  | _ => cases rule

/-- Behind the first child of an atom come the outer join marker and the alias, if they are there. -/
theorem allows_atom {first : Token} {marker byname : Option Token}
    (head : first.kind ∈ [.bracketExpr, .statement, .orExpr, .funExpr, .name, .text, .mathOp])
    (marked : ∀ token ∈ marker, token.kind = .outerJoinMarker)
    (named : ∀ token ∈ byname, token.kind = .name) :
    Kind.allows .atom ((first :: marker.toList ++ byname.toList).map Token.kind) = true := by
  simp only [Kind.allows, List.map_cons, List.cons_append, List.head?_cons, List.tail_cons,
    Option.any_some, Bool.and_eq_true, List.contains_iff_mem]
  refine ⟨head, ?_⟩
  -- the marker stands before the alias, and either may be missing
  cases marker with
  | none =>
    cases byname with
    | none => decide
    | some byname => simp [named byname rfl]
  | some marker =>
    cases byname with
    | none => simp [marked marker rfl]
    | some byname => simp [marked marker rfl, named byname rfl]

/-- The first child of an atom is of one of seven kinds, and the only operator is a star. -/
theorem Derives.head_kind {tree : Token} {taken : List Token} (derived : Derives .head [tree] taken) :
    tree.kind ∈ [.bracketExpr, .statement, .orExpr, .funExpr, .name, .text, .mathOp] ∧
      (tree.kind = .mathOp → tree.text = "*".toList) := by
  -- a tree has the kind of its production; of the operators only the star is taken
  cases derived with
  | headTree choice inner =>
    have kind := inner.kind_mem
    simp only [List.mem_cons, List.not_mem_nil, or_false] at choice
    rcases choice with rfl | rfl | rfl | rfl <;>
      rw [List.mem_singleton.mp kind] <;> exact ⟨by simp, by simp⟩
  | headToken choice =>
    simp only [Token.is, Bool.and_eq_true, beq_iff_eq] at choice
    rcases choice with kind | kind | ⟨kind, star⟩
    · rw [kind]
      exact ⟨by simp, by simp⟩
    · rw [kind]
      exact ⟨by simp, by simp⟩
    · rw [kind]
      exact ⟨by simp, fun _ => star⟩

/-- A reader of no trees meets only what fits. -/
theorem Token.walk_nil_fits : ∀ node ∈ Token.walk [], node.Fits := by
  simp [Token.walk]

/-- A reader of trees side by side meets only what fits when it does in either. -/
theorem Token.walk_append_fits {front back : List Token}
    (here : ∀ node ∈ Token.walk front, node.Fits) (there : ∀ node ∈ Token.walk back, node.Fits) :
    ∀ node ∈ Token.walk (front ++ back), node.Fits := by
  -- What the walk meets is in the one part or in the other.
  rw [Token.walk_append]
  exact List.forall_mem_append.mpr ⟨here, there⟩

/-- A reader of a node meets only what fits when the node does and all below it. -/
theorem Token.walk_node_fits {kind : Kind} {children : List Token}
    (here : (Token.node kind children).Fits) (below : ∀ node ∈ Token.walk children, node.Fits) :
    ∀ node ∈ Token.walk [.node kind children], node.Fits :=
  -- The walk meets the node and what is below it.
  Token.forall_walk_cons.mpr ⟨here, below, Token.walk_nil_fits⟩

/-- A token that is there or not fits when it does as a leaf. -/
theorem Token.walk_optional_fits {token : Option Token}
    (leaf : ∀ some ∈ token.toList, some.FitsLeaf) :
    ∀ node ∈ Token.walk token.toList, node.Fits := by
  -- There is one leaf to be met, or nothing.
  cases token with
  | none => exact Token.walk_nil_fits
  | some token => exact (leaf token (List.mem_singleton_self token)).walk_cons Token.walk_nil_fits

/-- A node over a token that was read and a tree that fits below it. -/
theorem Token.walk_pair_fits {kind : Kind} {token tree : Token} {taken : List Token}
    (structural : kind.isLexical = false) (allowed : kind.allows [token.kind, tree.kind] = true)
    (heeds : (Token.node kind [token, tree]).heeds = true)
    (leaf : ∀ other ∈ token :: taken, other.FitsLeaf)
    (inner : (∀ other ∈ taken, other.FitsLeaf) → ∀ node ∈ Token.walk [tree], node.Fits) :
    ∀ node ∈ Token.walk [.node kind [token, tree]], node.Fits := by
  -- Below the node are a leaf and a tree.
  rw [List.forall_mem_cons] at leaf
  exact Token.walk_node_fits (Token.fits_node structural allowed heeds)
    (leaf.1.walk_cons (inner leaf.2))

/-- A bracket allows a statement or a list between its two tokens. -/
theorem allows_bracket {production : Production} {opening inner closing : Token}
    (choice : production ∈ [.statement, .listExpr]) (opens : opening.kind = .openBracket)
    (kind : inner.kind ∈ production.kinds) (closes : closing.kind = .closeBracket) :
    Kind.allows .bracketExpr ([opening, inner, closing].map Token.kind) = true := by
  -- Between the brackets stands a statement or a list.
  simp only [List.mem_cons, List.not_mem_nil, or_false] at choice
  rcases choice with rfl | rfl
  · simp [Kind.allows, opens, closes, List.mem_singleton.mp kind]
  · simp [Kind.allows, opens, closes, List.mem_singleton.mp kind]

/-- Every node of derived trees fits, if the tokens they are derived from do. -/
theorem Derives.fits {symbol : Symbol} {trees taken : List Token}
    (derived : Derives symbol trees taken) (leaf : ∀ token ∈ taken, token.FitsLeaf) :
    ∀ node ∈ Token.walk trees, node.Fits := by
  -- Each rule makes one node at most, whose children have the kinds that the rule asks for.
  induction derived with
  | chain rule first others head tail =>
    rw [List.forall_mem_append] at leaf
    have turns := alternate_of_alternates first.kind_mem (others.alternates rule)
    rw [← Production.allows_chain rule] at turns
    have here := Token.fits_node (Production.chain_sorts rule).1 turns
      (Derives.heeds_chain rule first others)
    exact Token.walk_node_fits here (Token.walk_append_fits (head leaf.1) (tail leaf.2))
  | linksEnd => exact Token.walk_nil_fits
  | link rule kind first others head tail =>
    rw [List.cons_append, List.forall_mem_cons, List.forall_mem_append] at leaf
    exact leaf.1.walk_cons (Token.walk_append_fits (head leaf.2.1) (tail leaf.2.2))
  | dangling rule _ kind =>
    have here := leaf _ (List.mem_singleton_self _)
    have lexical := (Production.chain_sorts rule).2
    rw [← kind] at lexical
    exact (here.addComment lexical _).walk_cons Token.walk_nil_fits
  | bracketed _ _ inner => exact inner leaf
  | single root first others head tail =>
    rw [List.forall_mem_append] at leaf
    refine Token.walk_node_fits (Token.fits_node rfl ?_ ?_)
      (Token.walk_append_fits (head leaf.1) (tail leaf.2))
    · simpa [Kind.allows, List.mem_singleton.mp first.kind_mem] using others.clauses_kind
    · simp [Token.heeds, Token.node, first.part_head, root]
  | clausesEnd => exact Token.walk_nil_fits
  | clause first others head tail =>
    rw [List.forall_mem_append] at leaf
    exact Token.walk_append_fits (head leaf.1) (tail leaf.2)
  | barePart kind =>
    have here := leaf _ (List.mem_singleton_self _)
    refine Token.walk_node_fits (Token.fits_node rfl ?_ rfl) (here.walk_cons Token.walk_nil_fits)
    simp [Kind.allows, kind]
  | part kind first inner =>
    refine Token.walk_pair_fits rfl ?_ rfl leaf inner
    simp [Kind.allows, kind, List.mem_singleton.mp first.kind_mem]
  | simple _ _ inner => exact inner leaf
  | signed kind first inner =>
    refine Token.walk_pair_fits rfl ?_ rfl leaf inner
    simp [Kind.allows, kind, List.mem_singleton.mp first.kind_mem]
  | negated minus first inner =>
    simp only [Token.is, Bool.and_eq_true, beq_iff_eq] at minus
    refine Token.walk_pair_fits rfl ?_ ?_ leaf inner
    · simp [Kind.allows, minus.1, List.mem_singleton.mp first.kind_mem]
    · simp [Token.heeds, Token.node, minus.2]
  | headTree _ _ inner => exact inner leaf
  | headToken _ => exact (leaf _ (List.mem_singleton_self _)).walk_cons Token.walk_nil_fits
  | @atom _ marker byname _ first marked named inner =>
    rw [List.forall_mem_append, List.forall_mem_append] at leaf
    have kind := first.head_kind
    refine Token.walk_node_fits (Token.fits_node rfl (allows_atom kind.1 marked named) ?_)
      (Token.walk_append_fits (Token.walk_append_fits (inner leaf.1)
        (Token.walk_optional_fits leaf.2.1)) (Token.walk_optional_fits leaf.2.2))
    simp only [Token.heeds, Token.node, List.cons_append, List.head?_cons, Option.all_some,
      Bool.or_eq_true, bne_iff_ne, beq_iff_eq]
    exact or_iff_not_imp_left.mpr fun operator => kind.2 (not_not.mp operator)
  | emptyBracket opens closes =>
    refine Token.walk_pair_fits rfl (by simp [Kind.allows, opens, closes]) rfl leaf fun last => ?_
    exact (last _ (List.mem_singleton_self _)).walk_cons Token.walk_nil_fits
  | bracket choice opens contents closes inner =>
    rw [List.cons_append, List.forall_mem_cons, List.forall_mem_append] at leaf
    have last := (leaf.2.2 _ (List.mem_singleton_self _)).walk_cons Token.walk_nil_fits
    have here := Token.fits_node rfl (allows_bracket choice opens contents.kind_mem closes) rfl
    exact Token.walk_node_fits here
      (leaf.1.walk_cons (Token.walk_append_fits (inner leaf.2.1) last))
  | function kind first inner =>
    refine Token.walk_pair_fits rfl ?_ rfl leaf inner
    simp [Kind.allows, kind, List.mem_singleton.mp first.kind_mem]

/-- A whole piece is of a kind that a leaf of a tree may have. -/
theorem Piece.Whole.allows {piece : Piece} (whole : piece.Whole) (token : piece.kind ≠ .comment) :
    piece.kind.allows [] = true ∧ piece.kind.isLexical = true := by
  -- A lexical kind other than that of comments allows no children and needs none.
  obtain ⟨lexical, solid⟩ := whole.lexical
  refine ⟨?_, lexical⟩
  generalize piece.kind = kind at *
  cases kind <;> simp_all [Kind.isLexical, Kind.allows]

/-- A lexical token with text and with nothing below it fits. -/
theorem Token.fitsLeaf {token : Token} (bare : token.children = [])
    (allowed : token.kind.allows [] = true) (lexical : token.kind.isLexical = true)
    (solid : token.text ≠ []) : token.FitsLeaf := by
  refine ⟨bare, ?_, ?_, by rwa [if_pos lexical]⟩
  · rwa [bare, List.map_nil]
  · -- Only structural kinds ask for more.
    unfold Token.heeds
    generalize token.kind = kind at lexical
    cases kind <;> simp_all [Kind.isLexical]

/-- The tokens of a text fit, whatever its markers are. -/
theorem BindSyntax.tokens_fit (style : BindSyntax) (sql : Text) :
    ∀ token ∈ style.tokens sql, token.FitsLeaf := by
  intro token member
  obtain ⟨origin, among, rfl⟩ := List.mem_map.mp member
  have whole := (tokenize_whole _).1 origin among
  obtain ⟨allowed, lexical⟩ := whole.text.allows whole.kind
  have solid := markers_cutAt_ne_nil 0 (style.find sql) sql
  rcases Codec.restore_cases (style.cut sql).markers origin with
    ⟨same, _⟩ | ⟨_, marker, _, _, present, same⟩
  · rw [BindCut.codec, same]
    exact Token.fitsLeaf whole.leaf allowed lexical whole.text.edges.1
  · -- A marker that is put back has text of its own.
    rw [BindCut.codec, same]
    exact Token.fitsLeaf whole.leaf allowed lexical (solid marker (List.mem_of_getElem? present))

/-- A statement whose children fit is a whole tree, with or without tokens left behind it. -/
theorem Token.fitsRoot_withResidue {body : List Token}
    (here : body = [] ∨ (Token.node .statement body).Fits)
    (below : ∀ node ∈ Token.walk body, node.Fits) (left : List Token) :
    ((Token.node .statement body).withResidue left).FitsRoot := by
  -- With nothing left the root has no more children, and else one residue.
  unfold Token.withResidue
  rcases residueText? left with _ | text
  · exact ⟨rfl, ⟨rfl, rfl⟩, body, [], (List.append_nil body).symm, here, below, .inl rfl⟩
  · exact ⟨rfl, ⟨rfl, rfl⟩, body, [.residue text], rfl, here, below, .inr ⟨text, rfl⟩⟩

/-- Tokens that fit come to a tree that fits, whatever is left behind the statement. -/
theorem parseTokens_fitsRoot {tokens : List Token} (leaf : ∀ token ∈ tokens, token.FitsLeaf) :
    (parseTokens tokens).root.FitsRoot := by
  rcases parseTokens_cases tokens with
    ⟨root, taken, left, split, derived, _, result⟩ | ⟨_, result⟩
  · rw [split, List.forall_mem_append] at leaf
    have fits := Token.forall_walk_cons.mp (derived.fits leaf.1)
    rw [result]
    -- A statement is a chain of single statements.
    cases derived with
    | chain rule _ _ =>
      cases rule
      exact Token.fitsRoot_withResidue (.inr fits.1) fits.2.1 left
  · rw [result]
    exact Token.fitsRoot_withResidue (.inl rfl) (by simp [Token.walk]) _

/--
Every parsed tree is a derivation of the grammar.

This holds for every text and every way to recognise markers.
-/
theorem parse_fits (style : BindSyntax) (sql : Text) : (style.parse sql).root.FitsRoot := by
  -- The tree is that of the tokens, each of which fits.
  rw [style.root_parse]
  exact parseTokens_fitsRoot (style.tokens_fit sql)

end SqlLayout
