import SqlLayout.Proofs.Parsing.Leaves

/-! Trees and moves over changed tokens, and what of a move is carried over to them. -/

namespace SqlLayout

/--
A change of tokens that keeps all that the descent looks at.

The texts of names, literals and other tokens may be changed, and so may comments.
-/
structure KeepsSyntax (change : Token → Token) : Prop where
  /-- Every token stays of its kind. -/
  kind : ∀ token, (change token).kind = token.kind
  /-- Keywords and operators keep their texts. -/
  text : ∀ token, token.kind = .partToken ∨ token.kind = .mathOp →
    (change token).text = token.text

namespace Token

mutual

/--
A tree with every leaf changed, by a change that is told whether the leaf dangles.

The leaves are the tokens of lexical kinds.
-/
def mapLeaves (leaf : Bool → Token → Token) (dangling : Bool) : Token → Token
  | ⟨kind, text, children, comments⟩ =>
    -- Whatever may be below a lexical token, it was read as one token.
    if kind.isLexical then leaf dangling ⟨kind, text, children, comments⟩
    else ⟨kind, text, mapLeavesAll leaf kind children, comments⟩

/-- The children of a token of a kind, with every leaf changed. -/
def mapLeavesAll (leaf : Bool → Token → Token) (parent : Kind) : List Token → List Token
  | [] => []
  | first :: rest =>
    first.mapLeaves leaf (first.dangles parent rest) :: mapLeavesAll leaf parent rest

end

/-- A change of tokens made on a leaf, below the warning that the leaf carries if it dangles. -/
def underWarning (change : Token → Token) (dangling : Bool) (leaf : Token) : Token :=
  -- A comment of the token itself may have the text of the warning.
  if dangling ∧ leaf.comments.getLast? = some syntaxWarning then
    (change { leaf with comments := leaf.comments.dropLast }).addComment syntaxWarning
  else change leaf

/-- A tree over changed tokens: every leaf is what the token it was read as is changed to. -/
def recast (change : Token → Token) : Token → Token :=
  -- A whole tree stands at the end of no expression.
  mapLeaves (underWarning change) false

/-- The children of a token of a kind over changed tokens. -/
def recastAll (change : Token → Token) (parent : Kind) : List Token → List Token :=
  -- An operator at their end may dangle.
  mapLeavesAll (underWarning change) parent

section MapLeaves

variable {leaf : Bool → Token → Token}

/-- A token of a lexical kind is its own leaf. -/
theorem mapLeaves_lexical {token : Token} (lexical : token.kind.isLexical = true)
    (dangling : Bool) : token.mapLeaves leaf dangling = leaf dangling token := by
  -- The kind alone decides, whatever stands below the token.
  obtain ⟨kind, text, children, comments⟩ := token
  simp only at lexical
  rw [mapLeaves, if_pos lexical]

/-- The leaves of a token of another kind are those of its children. -/
theorem mapLeaves_structural {token : Token} (structural : token.kind.isLexical = false)
    (dangling : Bool) : token.mapLeaves leaf dangling =
      { token with children := mapLeavesAll leaf token.kind token.children } := by
  -- The token is kept around its changed children.
  obtain ⟨kind, text, children, comments⟩ := token
  simp only at structural
  rw [mapLeaves, structural]
  rfl

/-- A changed tree is of its own kind when every changed leaf is. -/
theorem mapLeaves_kind (kinds : ∀ dangling token, (leaf dangling token).kind = token.kind)
    (token : Token) (dangling : Bool) : (token.mapLeaves leaf dangling).kind = token.kind := by
  -- A leaf keeps its kind by assumption, and any other token is kept but for its children.
  by_cases lexical : token.kind.isLexical = true
  · rw [mapLeaves_lexical lexical, kinds]
  · rw [mapLeaves_structural (by simpa using lexical)]

/-- Changing the leaves of a tree does not change whether it is a bracket around a statement. -/
theorem wrapsStatement_mapLeaves
    (kinds : ∀ dangling token, (leaf dangling token).kind = token.kind) {token : Token}
    (structural : token.kind.isLexical = false) (dangling : Bool) :
    (token.mapLeaves leaf dangling).wrapsStatement = token.wrapsStatement := by
  -- Only the kinds of brackets nested at once and of what the innermost holds are looked at.
  fun_induction Token.wrapsStatement token generalizing dangling with
  | case1 kind text opening inner rest comments nested ih =>
    rw [mapLeaves_structural structural]
    simp only [mapLeavesAll, Token.wrapsStatement, mapLeaves_kind kinds, nested, if_true]
    exact ih (by rw [nested]; rfl) _
  | case2 kind text opening inner rest comments other =>
    rw [mapLeaves_structural structural]
    simp only [mapLeavesAll, Token.wrapsStatement, mapLeaves_kind kinds, other, if_false]
  | case3 token short =>
    -- A token with fewer than two children keeps their number.
    rw [mapLeaves_structural structural]
    obtain ⟨kind, text, children, comments⟩ := token
    rcases children with _ | ⟨first, _ | ⟨inner, rest⟩⟩
    · simp [mapLeavesAll, Token.wrapsStatement]
    · simp [mapLeavesAll, Token.wrapsStatement]
    · exact absurd rfl (short kind text first inner rest comments)

end MapLeaves

/-- Below a warning, too, a change that keeps kinds does so. -/
theorem underWarning_kind {change : Token → Token} (keeps : KeepsSyntax change) (dangling : Bool)
    (leaf : Token) : (leaf.underWarning change dangling).kind = leaf.kind := by
  unfold underWarning
  split
  · -- The warning is a comment, and the token below it is of the leaf's kind.
    exact keeps.kind _
  · exact keeps.kind leaf

/-- A token that dangles is changed below its warning. -/
theorem underWarning_addComment (change : Token → Token) (token : Token) :
    (token.addComment syntaxWarning).underWarning change true =
      (change token).addComment syntaxWarning := by
  obtain ⟨kind, text, children, comments⟩ := token
  have last : (comments ++ [syntaxWarning]).getLast? = some syntaxWarning := List.getLast?_concat
  rw [addComment, underWarning, if_pos ⟨rfl, last⟩]
  -- Without its last comment the leaf is the token again.
  simp only [List.dropLast_concat]

/-- A token of a lexical kind is changed as it is. -/
theorem recast_lexical {token : Token} (lexical : token.kind.isLexical = true)
    (change : Token → Token) : token.recast change = change token := by
  -- On its own the token does not dangle, and so carries no warning.
  rw [recast, mapLeaves_lexical lexical]
  exact if_neg (by simp)

/-- A token with children is changed in its children only. -/
theorem recast_node {kind : Kind} (structural : kind.isLexical = false) (change : Token → Token)
    (children : List Token) :
    (node kind children).recast change = node kind (recastAll change kind children) :=
  -- The token is no leaf of its own.
  mapLeaves_structural structural false

/-- A token that dangles nowhere, as it is no operator that may lack its right operand. -/
def Anchored (token : Token) : Prop :=
  token.kind ≠ .orOp ∧ token.kind ≠ .andOp

/-- A child that cannot dangle is changed as it is alone, whatever stands behind it. -/
theorem Anchored.recastAll_cons {first : Token} (anchored : first.Anchored)
    (change : Token → Token) (parent : Kind) (rest : List Token) :
    recastAll change parent (first :: rest) =
      first.recast change :: recastAll change parent rest := by
  -- The child is told that it does not dangle, as it would be told alone.
  unfold recastAll
  rw [mapLeavesAll, dangles_eq_false anchored]
  rfl

/-- A child with another one behind it is changed as it is alone. -/
theorem recastAll_cons_cons (change : Token → Token) (parent : Kind) (first next : Token)
    (rest : List Token) : recastAll change parent (first :: next :: rest) =
      first.recast change :: recastAll change parent (next :: rest) := by
  -- Only the last child can dangle.
  unfold recastAll
  rw [mapLeavesAll]
  rfl

/-- Children that cannot dangle are changed one by one. -/
theorem recastAll_eq_map {children : List Token} (anchored : ∀ child ∈ children, child.Anchored)
    (change : Token → Token) (parent : Kind) :
    recastAll change parent children = children.map (recast change) := by
  -- No child looks at what stands behind it.
  induction children with
  | nil => rfl
  | cons first rest ih =>
    rw [List.forall_mem_cons] at anchored
    rw [anchored.1.recastAll_cons, ih anchored.2, List.map_cons]

/-- An operator that dangles is changed below its warning. -/
theorem recastAll_dangling {separator : Token} {parent : Kind}
    (lexical : separator.kind.isLexical = true) (dangles : separator.dangles parent [] = true)
    (change : Token → Token) :
    recastAll change parent [separator.addComment syntaxWarning] =
      [(separator.recast change).addComment syntaxWarning] := by
  -- the warning changes neither the kind of the separator nor whether it dangles
  have flagged : (separator.addComment syntaxWarning).dangles parent [] = true := dangles
  have lexical' : (separator.addComment syntaxWarning).kind.isLexical = true := lexical
  unfold recastAll
  rw [mapLeavesAll, flagged, mapLeaves_lexical lexical', underWarning_addComment,
    recast_lexical lexical]
  rfl

end Token

/-- The cursor at the same place over changed tokens. -/
def Cursor.over (change : Token → Token) (cursor : Cursor) : Cursor :=
  -- Steps and refusals tell productions and places, and no texts.
  { cursor with rest := cursor.rest.map change }

namespace Engine

variable {α β γ δ : Type} {change : Token → Token} {cursor : Cursor}

/--
From a cursor, a move comes over changed tokens to what another comes to over the tokens.

What it yields is what the other yields, carried over to the changed tokens.
-/
def CarriesFrom (change : Token → Token) (cursor : Cursor) (move : Engine α)
    (changed : Engine β) (carry : α → β) : Prop :=
  -- The two end at the same place, with the same refusals, and fail together.
  changed (cursor.over change) = ((move cursor).1.map carry, (move cursor).2.over change)

/-- A value is carried over to its counterpart. -/
theorem carriesFrom_pure {value : α} {value' : β} {carry : α → β} (same : carry value = value') :
    CarriesFrom change cursor (pure value : Engine α) (pure value' : Engine β) carry := by
  -- Nothing is read on either side.
  rw [← same]
  rfl

/-- Failing is carried over. -/
theorem carriesFrom_fail {carry : α → β} :
    CarriesFrom change cursor (fail : Engine α) (fail : Engine β) carry :=
  rfl

/-- Moves made one after the other are carried over when each of them is. -/
theorem carriesFrom_bind {move : Engine α} {changed : Engine β} {next : α → Engine γ}
    {next' : β → Engine δ} {carry : α → β} {carry' : γ → δ}
    (first : CarriesFrom change cursor move changed carry)
    (second : ∀ value after, move cursor = (some value, after) →
      CarriesFrom change after (next value) (next' (carry value)) carry') :
    CarriesFrom change cursor (move >>= next) (changed >>= next') carry' := by
  -- The second moves run only when the first ones have yielded a value.
  unfold CarriesFrom at first ⊢
  rw [bind_run, bind_run, first]
  rcases run : move cursor with ⟨_ | value, after⟩
  · rfl
  · exact second value after run

/-- Looking at the cursor and going on is carried over when going on is. -/
theorem carriesFrom_here {next : Cursor → Engine γ} {next' : Cursor → Engine δ} {carry : γ → δ}
    (onward : CarriesFrom change cursor (next cursor) (next' (cursor.over change)) carry) :
    CarriesFrom change cursor (here >>= next) (here >>= next') carry :=
  -- The cursor that is looked at is carried over too.
  onward

/-- Alternatives are carried over when each of them is. -/
theorem carriesFrom_orElse {first second : Engine α} {first' second' : Engine β} {carry : α → β}
    (one : CarriesFrom change cursor first first' carry)
    (other : ∀ after, CarriesFrom change after second second' carry) :
    CarriesFrom change cursor (first <|> second) (first' <|> second') carry := by
  unfold CarriesFrom at one ⊢
  rw [orElse_run, orElse_run, one]
  rcases first cursor with ⟨_ | value, after⟩
  · -- Both second alternatives begin where the first ones ended.
    exact other after
  · rfl

/-- An attempt is carried over when the move attempted is. -/
theorem carriesFrom_attempt {move : Engine α} {changed : Engine β} {carry : α → β}
    (carries : CarriesFrom change cursor move changed carry) :
    CarriesFrom change cursor (attempt move) (attempt changed) (Option.map carry) := by
  -- The outcome that is carried over becomes the value.
  unfold CarriesFrom at carries ⊢
  rw [attempt_run, attempt_run, carries]
  rfl

/-- A token is taken when its changed self is, by a test that the change does not disturb. -/
theorem carriesFrom_takeIf {test : Token → Bool}
    (blind : ∀ token, test (change token) = test token) :
    CarriesFrom change cursor (takeIf test) (takeIf test) change := by
  -- There is a changed token exactly where there is a token.
  obtain ⟨pos, rest, active, refusals⟩ := cursor
  unfold CarriesFrom takeIf Cursor.over
  cases rest with
  | nil => rfl
  | cons next rest =>
    simp only [List.map_cons, blind]
    split
    · rfl
    · rfl

/-- A move that yields only values that meet a condition. -/
def Only (move : Engine α) (meets : α → Prop) : Prop :=
  ∀ cursor value after, move cursor = (some value, after) → meets value

/-- What is taken meets the test. -/
theorem only_takeIf (test : Token → Bool) : Only (takeIf test) fun token => test token = true := by
  -- The token that is taken has passed the test.
  intro cursor token after run
  have reads := (readsFrom_takeIf cursor test).2
  rw [run] at reads
  obtain ⟨_, _, _, passes⟩ := reads token rfl
  exact passes

/-- What one of two alternatives yields meets what both ask for. -/
theorem only_orElse {first second : Engine α} {meets : α → Prop} (one : Only first meets)
    (other : Only second meets) : Only (first <|> second) meets := by
  intro cursor value after run
  rw [orElse_run] at run
  -- the value is that of the second only where the first fails
  rcases tried : first cursor with ⟨_ | found, behind⟩
  · rw [tried] at run
    exact other behind value after run
  · rw [tried] at run
    cases run
    exact one cursor value after tried

/-- What an attempt has found, if anything, meets what the move attempted asks for. -/
theorem only_attempt {move : Engine α} {meets : α → Prop} (only : Only move meets) :
    Only (attempt move) fun outcome => ∀ value ∈ outcome, meets value := by
  -- What an attempt comes to is what its move came to.
  intro cursor outcome after run value (found : outcome = some value)
  rw [attempt_run] at run
  cases run
  exact only cursor value _ (Prod.ext found rfl)

/-- Carried over is what a move yields, so that only there the carrying matters. -/
theorem CarriesFrom.congr {move : Engine α} {changed : Engine β} {carry carry' : α → β}
    (carries : CarriesFrom change cursor move changed carry)
    (same : Only move fun value => carry value = carry' value) :
    CarriesFrom change cursor move changed carry' := by
  -- A move that fails carries nothing over.
  unfold CarriesFrom at carries ⊢
  rw [carries]
  rcases run : move cursor with ⟨_ | value, after⟩
  · rfl
  · rw [Option.map_some, Option.map_some, same cursor value after run]

/-- A production is refused over changed tokens exactly where it is over the tokens. -/
theorem carriesFrom_guarded {production : Production} {parse parse' : Engine Token}
    {carry : Token → Token} (carries : ∀ cursor, CarriesFrom change cursor parse parse' carry) :
    CarriesFrom change cursor (guarded production parse) (guarded production parse') carry := by
  -- A change of tokens moves no place, so that the same step is looked up on both sides.
  have same : (cursor.over change).step production = cursor.step production := by
    -- There is a token at the one cursor exactly when there is one at the other.
    simp [Cursor.step, Cursor.over]
  have inner := carries { cursor with active := cursor.active.enter (cursor.step production) }
  unfold CarriesFrom at inner ⊢
  -- The steps under way are those of the cursor itself.
  by_cases busy : cursor.active.contains (cursor.step production) = true
  · have busy' : (cursor.over change).active.contains ((cursor.over change).step production) :=
      same ▸ busy
    rw [guarded, guarded, if_pos busy, if_pos busy', same]
    rfl
  · have idle : cursor.active.contains (cursor.step production) = false := by simpa using busy
    have idle' : (cursor.over change).active.contains
        ((cursor.over change).step production) = false := same ▸ idle
    rw [guarded_run parse idle, guarded_run parse' idle', same]
    -- The step is entered on both sides before the rules run, and left behind them.
    have entered : parse' { cursor.over change with
        active := (cursor.over change).active.enter (cursor.step production) } = _ := inner
    rw [entered]
    rcases parse { cursor with active := cursor.active.enter (cursor.step production) }
      with ⟨_ | tree, after⟩
    · rfl
    · rfl

/-- A token taken by its kind is of that kind. -/
theorem only_take (kind : Kind) : Only (take kind) fun token => token.kind = kind := by
  -- The test is for the kind.
  intro cursor token after run
  simpa using only_takeIf _ cursor token after run

/-- A token taken by its kind and text is of that kind. -/
theorem only_takeText (kind : Kind) (text : Text) :
    Only (takeText kind text) fun token => token.kind = kind := by
  -- The test is for the kind and the text.
  intro cursor token after run
  have passes := only_takeIf _ cursor token after run
  simp only [Token.is, Bool.and_eq_true, beq_iff_eq] at passes
  exact passes.1

/-- Tokens of a kind other than that of a dangling operator cannot dangle. -/
theorem Only.anchored {move : Engine Token} {kind : Kind}
    (only : Only move fun token => token.kind = kind) (other : kind ≠ .orOp ∧ kind ≠ .andOp) :
    Only move Token.Anchored := by
  -- A token of another kind than `AND` and `OR` cannot dangle.
  intro cursor token after run
  rw [Token.Anchored, only cursor token after run]
  exact other

/-- Tokens of a lexical kind are carried over as trees without children are. -/
theorem CarriesFrom.recast {move changed : Engine Token} {kind : Kind}
    (carries : CarriesFrom change cursor move changed change)
    (only : Only move fun token => token.kind = kind) (lexical : kind.isLexical = true) :
    CarriesFrom change cursor move changed (Token.recast change) := by
  -- A lexical token is changed as it is, and the two changes come to the same.
  refine carries.congr fun cursor token after run => (Token.recast_lexical ?_ change).symm
  rwa [only cursor token after run]

/-- A production that reads what the grammar derives yields nothing that could dangle. -/
theorem Parses.anchored {call : Production → Engine Token} (parses : Parses call)
    (production : Production) : Only (call production) Token.Anchored := by
  intro cursor tree after run
  obtain ⟨_, _, derived⟩ := parses.derives run
  -- The kinds of trees are structural, and operators are tokens.
  have kinds : ∀ kind ∈ production.kinds, kind ≠ .orOp ∧ kind ≠ .andOp := by
    cases production <;> decide
  exact kinds tree.kind derived.kind_mem

/-- A token with children that cannot dangle is carried over with its children. -/
theorem carriesFrom_node {kind : Kind} (structural : kind.isLexical = false)
    {children children' : List Token} (anchored : ∀ child ∈ children, child.Anchored)
    (same : children' = children.map (Token.recast change)) :
    CarriesFrom change cursor (pure (.node kind children)) (pure (.node kind children'))
      (Token.recast change) := by
  -- None of the children dangles, so that they are changed one by one.
  refine carriesFrom_pure ?_
  rw [Token.recast_node structural, Token.recastAll_eq_map anchored, same]

end Engine

end SqlLayout
