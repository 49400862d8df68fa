import SqlLayout.Proofs.Parsing.Carry
import SqlLayout.Proofs.Parsing.Front

/-!
The descent over tokens with other texts.

Names, literals and markers have no say in how tokens are read.
The tree stays the same, with the changed tokens as its leaves.
-/

namespace SqlLayout

open Engine

section Rules

variable {change : Token → Token} {call call' : Production → Engine Token}
  (keeps : KeepsSyntax change) (parses : Parses call)
  (carries : ∀ production cursor,
    CarriesFrom change cursor (call production) (call' production) (Token.recast change))

include keeps in
/-- A token is a root keyword exactly when its changed self is. -/
theorem isRootKeyword_change (token : Token) :
    (change token).isRootKeyword = token.isRootKeyword :=
  -- Only a keyword is asked for its text, and keywords keep theirs.
  (Token.isRootKeyword_congr (keeps.kind token).symm
    fun kind => (keeps.text token (.inl kind)).symm).symm

include keeps in
/-- Changed tokens open a statement exactly when the tokens do. -/
theorem opensStatement_map (tokens : List Token) :
    opensStatement (tokens.map change) = opensStatement tokens := by
  -- The brackets are told by their kinds, and the keyword behind them by its text.
  unfold opensStatement
  simp only [List.head?_map, List.dropWhile_map, Option.any_map, Function.comp_def, keeps.kind,
    isRootKeyword_change keeps]

include keeps in
/-- Tokens of a lexical kind are taken alike. -/
theorem carriesFrom_take {kind : Kind} (lexical : kind.isLexical = true) (cursor : Cursor) :
    CarriesFrom change cursor (take kind) (take kind) (Token.recast change) := by
  -- The test is for the kind, and that is kept.
  have taken : CarriesFrom change cursor (take kind) (take kind) change :=
    carriesFrom_takeIf fun token => by rw [keeps.kind]
  exact taken.recast (only_take kind) lexical

include keeps in
/-- Operators of a text are taken alike. -/
theorem carriesFrom_takeText (text : Text) (cursor : Cursor) :
    CarriesFrom change cursor (takeText .mathOp text) (takeText .mathOp text)
      (Token.recast change) := by
  -- The test is for the kind and the text of an operator, and both are kept.
  have taken : CarriesFrom change cursor (takeText .mathOp text) (takeText .mathOp text) change :=
    carriesFrom_takeIf fun token => (Token.is_congr (keeps.kind token).symm
      (fun kind => (keeps.text token (.inr kind)).symm) text).symm
  exact taken.recast (only_takeText .mathOp text) rfl

include parses carries

/-- A token and a tree behind it are carried over together. -/
theorem carriesFrom_pair {kind : Kind} (structural : kind.isLexical = false)
    {first : Engine Token} {cursor : Cursor}
    (carried : CarriesFrom change cursor first first (Token.recast change))
    (anchored : Only first Token.Anchored) (production : Production) :
    CarriesFrom change cursor
      (do let sign ← first; let operand ← call production; return .node kind [sign, operand])
      (do let sign ← first; let operand ← call' production; return .node kind [sign, operand])
      (Token.recast change) := by
  refine carriesFrom_bind carried ?_
  intro sign after taken
  refine carriesFrom_bind (carries production after) ?_
  intro operand final run
  -- neither of the two can dangle, so both are changed as they are on their own
  refine carriesFrom_node structural ?_ rfl
  simp only [List.forall_mem_cons, List.not_mem_nil, false_imp_iff, implies_true, and_true]
  exact ⟨anchored cursor sign after taken, parses.anchored production after operand final run⟩

include keeps

/-- The links of a chain are carried over. -/
theorem carriesFrom_links {production operand : Production} {chain : Chain}
    (rule : production.chain? = some (chain, operand)) (turns : Nat) (cursor : Cursor) :
    CarriesFrom change cursor (chain.links (call operand) turns) (chain.links (call' operand) turns)
      (Token.recastAll change chain.kind) := by
  -- The induction is on the turns, each of which takes one separator and one operand.
  have lexical := (Production.chain_sorts rule).2
  induction turns generalizing cursor with
  | zero => exact carriesFrom_pure rfl
  | succ turns ih =>
    have separators := carriesFrom_take keeps lexical cursor
    unfold CarriesFrom at separators ⊢
    rw [Chain.links_run, Chain.links_run, separators]
    rcases separate : take chain.separator cursor with ⟨_ | separator, behind⟩
    · rfl
    · have kind := only_take _ cursor separator behind separate
      have operands := carries operand behind
      unfold CarriesFrom at operands
      simp only [Option.map_some]
      rw [operands]
      rcases operate : call operand behind with ⟨_ | next, after⟩
      · simp only [Option.map_none]
        by_cases dangling : chain.keepsDangling = true
        · -- The operator dangles, and the warning is put on its changed self.
          have dangles := Production.dangles_of_keeps rule dangling kind
          simp only [dangling, if_true, Option.map_some]
          rw [Token.recastAll_dangling (by rwa [kind]) dangles]
        · -- The separator is given back on both sides.
          simp only [dangling]
          rfl
      · have anchored := parses.anchored operand behind next after operate
        have rest := ih after
        unfold CarriesFrom at rest
        simp only [Option.map_some]
        rw [rest]
        rcases chain.links (call operand) turns after with ⟨_ | others, final⟩
        · rfl
        · simp only [Option.map_some]
          rw [Token.recastAll_cons_cons, anchored.recastAll_cons]

/-- Chains are carried over. -/
theorem carriesFrom_chain {production operand : Production} {chain : Chain}
    (rule : production.chain? = some (chain, operand)) (cursor : Cursor) :
    CarriesFrom change cursor (chain.parse (call operand)) (chain.parse (call' operand))
      (Token.recast change) := by
  have structural := (Production.chain_sorts rule).1
  refine carriesFrom_bind (carries operand cursor) ?_
  intro first after run
  -- As many tokens are left on either side, and so as many turns.
  have turns : (after.over change).rest.length = after.rest.length := List.length_map ..
  refine carriesFrom_here ?_
  rw [turns]
  refine carriesFrom_bind (carriesFrom_links keeps parses carries rule _ after) ?_
  intro others _ _
  refine carriesFrom_pure ?_
  rw [Token.recast_node structural,
    (parses.anchored operand cursor first after run).recastAll_cons]

omit keeps parses in
/-- Clauses are carried over. -/
theorem carriesFrom_clauses (turns : Nat) (cursor : Cursor) :
    CarriesFrom change cursor (repeated (call .part) turns) (repeated (call' .part) turns)
      (List.map (Token.recast change)) := by
  -- Clauses follow each other without separators, so that none can dangle.
  induction turns generalizing cursor with
  | zero => exact carriesFrom_pure rfl
  | succ turns ih =>
    have clauses := carries .part cursor
    unfold CarriesFrom at clauses ⊢
    rw [repeated_run, repeated_run, clauses]
    rcases call .part cursor with ⟨_ | first, after⟩
    · rfl
    · have rest := ih after
      unfold CarriesFrom at rest
      simp only [Option.map_some]
      rw [rest]
      rcases repeated (call .part) turns after with ⟨_ | others, final⟩
      · rfl
      · rfl

omit keeps carries in
/-- Clauses cannot dangle. -/
theorem anchored_clauses (turns : Nat) :
    Only (repeated (call .part) turns) fun clauses => ∀ clause ∈ clauses, clause.Anchored := by
  -- each turn puts one clause, which is anchored, in front of the others
  induction turns with
  | zero =>
    rintro cursor clauses after ⟨⟩
    exact nofun
  | succ turns ih =>
    intro cursor clauses after run
    rw [repeated_run] at run
    rcases first : call .part cursor with ⟨_ | clause, behind⟩
    · rw [first] at run
      cases run
      exact nofun
    · rw [first] at run
      obtain ⟨others, found, rfl⟩ := Option.map_eq_some_iff.mp (congrArg Prod.fst run)
      rw [List.forall_mem_cons]
      exact ⟨parses.anchored .part cursor clause behind first,
        ih behind others _ (Prod.ext found rfl)⟩

/-- Single statements are carried over. -/
theorem carriesFrom_singleStatement (cursor : Cursor) :
    CarriesFrom change cursor (sqlGrammar call .singleStatement)
      (sqlGrammar call' .singleStatement) (Token.recast change) := by
  have opens : opensStatement (cursor.over change).rest = opensStatement cursor.rest :=
    opensStatement_map keeps cursor.rest
  have root : (cursor.over change).rest.head?.any Token.isRootKeyword =
      cursor.rest.head?.any Token.isRootKeyword := by
    simp only [Cursor.over, List.head?_map, Option.any_map, isRootKeyword_change keeps]
  refine carriesFrom_here ?_
  simp only
  -- Both look at the same kinds and keywords ahead, and go the same way.
  rw [opens, root]
  split
  · refine carriesFrom_bind (carries .bracketExpr cursor) ?_
    intro bracket after run
    obtain ⟨_, _, derived⟩ := parses.derives run
    have kind := derived.kind_mem
    simp only [Production.kinds, List.mem_singleton] at kind
    have wraps : (bracket.recast change).wrapsStatement = bracket.wrapsStatement :=
      Token.wrapsStatement_mapLeaves (Token.underWarning_kind keeps) (by rw [kind]; rfl) false
    rw [wraps]
    split
    · exact carriesFrom_pure rfl
    · exact carriesFrom_fail
  · split
    · refine carriesFrom_bind (carries .part cursor) ?_
      intro first after run
      have turns : (after.over change).rest.length = after.rest.length := List.length_map ..
      refine carriesFrom_here ?_
      rw [turns]
      refine carriesFrom_bind (carriesFrom_clauses carries _ after) ?_
      intro others final more
      refine carriesFrom_node rfl ?_ rfl
      rw [List.forall_mem_cons]
      exact ⟨parses.anchored .part cursor first after run,
        anchored_clauses parses _ after others final more⟩
    · exact carriesFrom_fail

/-- Atoms are carried over. -/
theorem carriesFrom_atom (cursor : Cursor) :
    CarriesFrom change cursor (sqlGrammar call .atom) (sqlGrammar call' .atom)
      (Token.recast change) := by
  -- The first child is a tree, or else a name, a text or a star.
  refine carriesFrom_bind (carriesFrom_orElse (carries _ cursor) fun after =>
    carriesFrom_orElse (carries _ after) fun after =>
    carriesFrom_orElse (carries _ after) fun after =>
    carriesFrom_orElse (carries _ after) fun after =>
    carriesFrom_orElse (carriesFrom_take keeps rfl after) fun after =>
    carriesFrom_orElse (carriesFrom_take keeps rfl after) (carriesFrom_takeText keeps _)) ?_
  intro head after first
  refine carriesFrom_bind (carriesFrom_attempt (carriesFrom_take keeps rfl after)) ?_
  intro marker behind marks
  refine carriesFrom_bind (carriesFrom_attempt (carriesFrom_take keeps rfl behind)) ?_
  intro byname final names
  have headed := only_orElse (parses.anchored _) (only_orElse (parses.anchored _)
    (only_orElse (parses.anchored _) (only_orElse (parses.anchored _) (only_orElse
      ((only_take _).anchored (by decide)) (only_orElse ((only_take _).anchored (by decide))
        ((only_takeText _ _).anchored (by decide))))))) cursor head after first
  have marked := only_attempt ((only_take _).anchored (by decide)) after marker behind marks
  have named := only_attempt ((only_take _).anchored (by decide)) behind byname final names
  refine carriesFrom_node rfl ?_ ?_
  · simp only [List.cons_append, List.forall_mem_cons, List.forall_mem_append, Option.mem_toList]
    exact ⟨headed, marked, named⟩
  · simp [Option.toList_map]

/-- Brackets are carried over. -/
theorem carriesFrom_bracketExpr (cursor : Cursor) :
    CarriesFrom change cursor (sqlGrammar call .bracketExpr) (sqlGrammar call' .bracketExpr)
      (Token.recast change) := by
  -- Bracket, contents and bracket are carried over one after the other.
  refine carriesFrom_bind (carriesFrom_take keeps rfl cursor) ?_
  intro opening behind opened
  refine carriesFrom_bind (carriesFrom_attempt (carriesFrom_orElse (carries .statement behind)
    fun after => carries .listExpr after)) ?_
  intro inner after contents
  refine carriesFrom_bind (carriesFrom_take keeps rfl after) ?_
  intro closing final closed
  -- no bracket dangles, nor does what stands between two of them
  have opens := (only_take _).anchored (by decide) cursor opening behind opened
  have holds := only_attempt (only_orElse (parses.anchored _) (parses.anchored _)) behind inner
    after contents
  have closes := (only_take _).anchored (by decide) after closing final closed
  refine carriesFrom_node rfl ?_ ?_
  · simp only [List.cons_append, List.forall_mem_cons, List.forall_mem_append, Option.mem_toList,
      List.mem_singleton, forall_eq]
    exact ⟨opens, holds, closes⟩
  · simp [Option.toList_map]

/-- Every rule of the grammar is carried over. -/
theorem carriesFrom_sqlGrammar (production : Production) (cursor : Cursor) :
    CarriesFrom change cursor (sqlGrammar call production) (sqlGrammar call' production)
      (Token.recast change) := by
  have chains : ∀ (production : Production) {operand : Production} {chain : Chain},
      production.chain? = some (chain, operand) → CarriesFrom change cursor
        (chain.parse (call operand)) (chain.parse (call' operand)) (Token.recast change) :=
    fun _ _ _ rule => carriesFrom_chain keeps parses carries rule cursor
  -- a rule puts together what it is given, and that was carried over
  cases production with
  | statement => exact chains .statement rfl
  | singleStatement => exact carriesFrom_singleStatement keeps parses carries cursor
  | part =>
    refine carriesFrom_bind (carriesFrom_take keeps rfl cursor) ?_
    intro keyword after taken
    refine carriesFrom_bind (carriesFrom_attempt (carries .listExpr after)) ?_
    intro list final attempted
    have leads := (only_take _).anchored (by decide) cursor keyword after taken
    have follows := only_attempt (parses.anchored _) after list final attempted
    refine carriesFrom_node rfl ?_ ?_
    · simp only [List.forall_mem_cons, Option.mem_toList]
      exact ⟨leads, follows⟩
    · simp [Option.toList_map]
  | listExpr => exact chains .listExpr rfl
  | orExpr => exact chains .orExpr rfl
  | andExpr => exact chains .andExpr rfl
  | mathExpr => exact chains .mathExpr rfl
  | simpleExpr =>
    exact carriesFrom_orElse (carries _ cursor) fun after =>
      carriesFrom_orElse (carries _ after) (carries _)
  | unaryPrefixExpr =>
    exact carriesFrom_pair parses carries rfl (carriesFrom_take keeps rfl cursor)
      ((only_take _).anchored (by decide)) .atom
  | minusExpr =>
    exact carriesFrom_pair parses carries rfl (carriesFrom_takeText keeps _ cursor)
      ((only_takeText _ _).anchored (by decide)) .atom
  | atom => exact carriesFrom_atom keeps parses carries cursor
  | bracketExpr => exact carriesFrom_bracketExpr keeps parses carries cursor
  | funExpr =>
    exact carriesFrom_pair parses carries rfl (carriesFrom_take keeps rfl cursor)
      ((only_take _).anchored (by decide)) .bracketExpr

end Rules

/-- The descent is carried over, however deep it may go. -/
theorem carriesFrom_descend {change : Token → Token} (keeps : KeepsSyntax change) (limit : Nat)
    (production : Production) (cursor : Cursor) :
    CarriesFrom change cursor (descend sqlGrammar limit production)
      (descend sqlGrammar limit production) (Token.recast change) := by
  induction limit generalizing production cursor with
  | zero => exact carriesFrom_guarded fun _ => carriesFrom_fail
  | succ limit ih =>
    -- Each rule calls the descent of one level less.
    exact carriesFrom_guarded fun cursor =>
      carriesFrom_sqlGrammar keeps (parses_descend limit) ih production cursor

/-- A production reads as many of the changed tokens, into the same tree over them. -/
theorem Production.parse_map {change : Token → Token} (keeps : KeepsSyntax change)
    (production : Production) (tokens : List Token) :
    production.parse (tokens.map change) = ((production.parse tokens).1.map (Token.recast change),
      (production.parse tokens).2.over change) := by
  -- The limit counts the tokens, and there are as many.
  have levels : nestingLimit (tokens.map change) = nestingLimit tokens := by
    simp [nestingLimit]
  unfold Production.parse
  rw [levels]
  exact carriesFrom_descend keeps _ production (Cursor.start tokens)

/-- The statement at the front of changed tokens takes as many, and is the same tree over them. -/
theorem front_map {change : Token → Token} (keeps : KeepsSyntax change) (tokens : List Token) :
    frontLength (tokens.map change) = frontLength tokens ∧
      frontStatement (tokens.map change) = (frontStatement tokens).recast change := by
  unfold frontLength frontStatement
  rw [Production.parse_map keeps]
  refine ⟨rfl, ?_⟩
  rcases (Production.statement.parse tokens).1 with _ | root
  · -- An empty statement has no leaves to change.
    exact (Token.recast_node rfl change []).symm
  · rfl

/-- A change that comments play no part in is made on leaves as they are, warnings included. -/
theorem Token.underWarning_of_blind {change : Token → Token}
    (blind : ∀ token comment, change (token.addComment comment) =
      (change token).addComment comment) : underWarning change = fun _ => change := by
  funext dangling leaf
  unfold underWarning
  split
  · -- A leaf with the warning is a leaf without it and one more comment.
    rename_i flagged
    obtain ⟨kind, text, children, comments⟩ := leaf
    obtain ⟨earlier, rfl⟩ := List.getLast?_eq_some_iff.mp flagged.2
    simp only [List.dropLast_concat]
    exact (blind ⟨kind, text, children, earlier⟩ syntaxWarning).symm
  · rfl

namespace Codec

/-- Putting markers back changes only the texts of names. -/
theorem keepsSyntax_restore (codec : Codec) : KeepsSyntax codec.restore := by
  refine ⟨?_, ?_⟩
  · intro token
    unfold restore
    split
    · split
      · rfl
      · rfl
    · rfl
  · intro token syntactic
    -- A keyword or an operator is no name.
    have other : token.kind ≠ .name := by
      rcases syntactic with kind | kind <;> simp [kind]
    rw [restore, if_neg other]

/-- Comments play no part in putting a marker back. -/
theorem restore_addComment (codec : Codec) (token : Token) (comment : Text) :
    codec.restore (token.addComment comment) = (codec.restore token).addComment comment := by
  -- What is looked at are the kind and the text, and a comment more changes neither.
  by_cases kind : token.kind = .name
  · simp only [restore, Token.addComment, kind, if_true]
    cases codec.markerOf? token.text with
    | none => simp only [kind]
    | some marker => rfl
  · simp only [restore, Token.addComment, kind, if_false]

end Codec

/-- The tokens of a text with a made-up name in the place of every marker. -/
def BindSyntax.codedTokens (style : BindSyntax) (sql : Text) : List Token :=
  tokenize (style.cut sql).encoded

/--
The texts of names, literals and markers have no say in how tokens are read.

As many of the changed tokens are read, and the tree is the same with the change made on every
leaf, on an operator that dangles below its warning.
A change that does not look at comments is made on the leaves as they are.
Putting markers back is such a change, so that it may be made before the descent or behind it.
-/
theorem parseTokens_map :
    (∀ change : Token → Token, KeepsSyntax change → ∀ tokens,
      frontLength (tokens.map change) = frontLength tokens ∧
      (parseTokens tokens).root =
        (frontStatement tokens).withResidue (tokens.drop (frontLength tokens)) ∧
      (parseTokens (tokens.map change)).root = ((frontStatement tokens).recast change).withResidue
        ((tokens.drop (frontLength tokens)).map change) ∧
      ((∀ token comment, change (token.addComment comment) = (change token).addComment comment) →
        (frontStatement tokens).recast change =
          (frontStatement tokens).mapLeaves (fun _ => change) false)) ∧
    ∀ (style : BindSyntax) (sql : Text), (style.parse sql).root =
      ((frontStatement (style.codedTokens sql)).mapLeaves
        (fun _ => (style.cut sql).codec.restore) false).withResidue
          (((style.codedTokens sql).drop (frontLength (style.codedTokens sql))).map
            (style.cut sql).codec.restore) := by
  have law : ∀ change : Token → Token, KeepsSyntax change → ∀ tokens,
      (parseTokens (tokens.map change)).root = ((frontStatement tokens).recast change).withResidue
        ((tokens.drop (frontLength tokens)).map change) := by
    intro change keeps tokens
    obtain ⟨count, tree⟩ := front_map keeps tokens
    rw [root_parseTokens, count, tree, List.map_drop]
  refine ⟨?_, ?_⟩
  · intro change keeps tokens
    refine ⟨(front_map keeps tokens).1, root_parseTokens tokens, law change keeps tokens, ?_⟩
    intro blind
    rw [Token.recast, Token.underWarning_of_blind blind]
  · intro style sql
    -- Markers are put back into the coded tokens before the descent.
    rw [style.root_parse, BindSyntax.tokens, Codec.decode,
      law _ (style.cut sql).codec.keepsSyntax_restore, Token.recast,
      Token.underWarning_of_blind (style.cut sql).codec.restore_addComment]
    rfl

/-- Names may all be given the text of a keyword, and a dangling operator and a residue stay. -/
theorem parseTokens_map_keyword : ∃ (change : Token → Token) (tokens : List Token),
    KeepsSyntax change ∧
    tokens.map Token.kind = [.partToken, .name, .andOp, .closeBracket, .name] ∧
    (change (.lexical .name ['A'])).text = "SELECT".toList ∧
    frontLength tokens = 3 ∧ frontLength (tokens.map change) = 3 ∧
    (parseTokens (tokens.map change)).root = ((frontStatement tokens).recast change).withResidue
      ((tokens.drop 3).map change) := by
  -- The length read is computed; that the tree is carried over is the general law.
  have keeps : KeepsSyntax fun token =>
      if token.kind = .name then { token with text := "SELECT".toList } else token := by
    refine ⟨fun token => ?_, fun token syntactic => ?_⟩
    · by_cases kind : token.kind = .name
      · rw [if_pos kind]
      · rw [if_neg kind]
    · rcases syntactic with kind | kind <;> simp [kind]
  have count : frontLength [.lexical .partToken "SELECT".toList, .lexical .name ['A'],
      .lexical .andOp "AND".toList, .lexical .closeBracket [')'], .lexical .name ['B']] = 3 := by
    decide +kernel
  obtain ⟨same, _, tree, _⟩ := parseTokens_map.1 _ keeps [.lexical .partToken "SELECT".toList,
    .lexical .name ['A'], .lexical .andOp "AND".toList, .lexical .closeBracket [')'],
    .lexical .name ['B']]
  rw [count] at same tree
  exact ⟨_, _, keeps, rfl, rfl, count, same, tree⟩

/-- An `AND` that carries the warning, spelled anew, and every other token as it is. -/
def Token.respellWarned (token : Token) : Token :=
  -- Only a text is changed, but a comment decides whether it is.
  if token.kind = .andOp ∧ syntaxWarning ∈ token.comments then { token with text := ['&'] }
  else token

/--
A change that looks at comments is not made on the leaves as they are.

It leaves the tokens of `SELECT A AND` alone, and so the tree over them.
The leaf of the dangling `AND` carries the warning, and would be spelled anew.
-/
theorem mapLeaves_unlike_warned : ∃ tokens : List Token,
    tokens = [.lexical .partToken "SELECT".toList, .lexical .name ['A'],
      .lexical .andOp "AND".toList] ∧
    (∀ token : Token, token.respellWarned = { token with text := token.respellWarned.text }) ∧
    (∀ token : Token, token.kind = .partToken ∨ token.kind = .mathOp →
      token.respellWarned = token) ∧
    (parseTokens (tokens.map Token.respellWarned)).root ≠
      (parseTokens tokens).root.mapLeaves (fun _ => Token.respellWarned) false := by
  refine ⟨_, rfl, ?_, ?_, ?_⟩
  · -- In either case the token keeps all but its text.
    rintro ⟨kind, text, children, comments⟩
    unfold Token.respellWarned
    split
    · rfl
    · rfl
  · -- A keyword or an operator of arithmetic is no `AND`.
    intro token syntactic
    have other : token.kind ≠ .andOp := by
      rcases syntactic with kind | kind <;> simp [kind]
    exact if_neg fun warned => other warned.1
  · -- The two trees are computed, and differ in the text of their last leaf.
    decide +kernel

end SqlLayout
