import SqlLayout.Proofs.Bind.Marked
import SqlLayout.Proofs.Layout.Lays
import SqlLayout.Proofs.Parsing.Leaves

/-! The skeleton of a layout: a derived tree puts down the words of its leaves in order. -/

namespace SqlLayout

namespace Token

mutual

/-- The leaves of a tree in pre-order. -/
def tips : Token → List Token
  | ⟨kind, text, [], comments⟩ => [⟨kind, text, [], comments⟩]
  | ⟨_, _, first :: rest, _⟩ => tipsAll (first :: rest)

/-- The leaves of a list of trees in pre-order. -/
def tipsAll : List Token → List Token
  | [] => []
  | first :: rest => first.tips ++ tipsAll rest

end

/-- The leaves of trees are those of the first ones and then those of the others. -/
theorem tipsAll_append (front back : List Token) :
    tipsAll (front ++ back) = tipsAll front ++ tipsAll back := by
  -- Each tree brings its leaves to the front of those behind it.
  induction front with
  | nil => rfl
  | cons first front ih => rw [List.cons_append, tipsAll, tipsAll, ih, List.append_assoc]

mutual

/-- Whether they dangle aside, leaves are leaves. -/
theorem map_leaves (dangling : Bool) : (token : Token) →
    (token.leaves dangling).map Prod.fst = token.tips
  | ⟨_, _, [], _⟩ => rfl
  -- Leaves and tips are gathered from the same children.
  | ⟨kind, _, first :: rest, _⟩ => map_leavesAll kind (first :: rest)

/-- The same for the leaves of a list of trees. -/
theorem map_leavesAll (parent : Kind) : (trees : List Token) →
    (leavesAll parent trees).map Prod.fst = tipsAll trees
  | [] => rfl
  | first :: rest => by
    -- Each tree gives its own leaves, in front of those of the others.
    rw [leavesAll, tipsAll, List.map_append, map_leaves, map_leavesAll]

end

/-- The words of the leaves of trees. -/
def skeleton (trees : List Token) : List Text :=
  (tipsAll trees).flatMap words

/-- The words of no trees are none. -/
@[simp] theorem skeleton_nil : skeleton [] = [] := rfl

/-- The words of trees are those of the first and then those of the others. -/
theorem skeleton_cons (tree : Token) (trees : List Token) :
    skeleton (tree :: trees) = skeleton [tree] ++ skeleton trees := by
  simp [skeleton, tipsAll]

/-- The words of a token with nothing below it are its own. -/
theorem skeleton_bare {token : Token} (bare : token.children = []) :
    skeleton [token] = token.words := by
  -- It is its own only tip, and its words are what it is laid out as.
  obtain ⟨kind, text, children, comments⟩ := token
  cases bare
  simp [skeleton, tipsAll, tips]

/-- The words of a node are those of its children. -/
theorem skeleton_node (kind : Kind) (first : Token) (rest : List Token) :
    skeleton [node kind (first :: rest)] = skeleton (first :: rest) := by
  simp [skeleton, tipsAll, tips, node]

end Token

/-- Separators and operands laid out in turn, with instructions in front of each. -/
def linkOps (before between : List LayoutOp) (multiline : Bool) : List Token → List LayoutOp
  | [] => []
  | [separator] => before ++ separator.verbatim
  | separator :: next :: others =>
    before ++ (separator.verbatim ++
      (between ++ (next.layout multiline ++ linkOps before between multiline others)))

/-- The children of a statement are laid out one by one. -/
theorem statementOps_append (front back : List LaidOut) :
    statementOps (front ++ back) = statementOps front ++ statementOps back :=
  -- Each child has its own instructions.
  List.flatMap_append

/-- The children of a list are laid out one by one. -/
theorem listOps_append (multiline : Bool) (front back : List LaidOut) :
    listOps multiline (front ++ back) = listOps multiline front ++ listOps multiline back :=
  -- Each child has its own instructions.
  List.flatMap_append

/-- A list is laid out in turn. -/
theorem listOps_eq {others : List Token} (multiline : Bool)
    (turns : Alternates ⟨.listExpr, .listSeparator, false⟩ [.orExpr] others) :
    listOps multiline (layoutAll multiline others) =
      linkOps [] [breakOrBlank multiline] multiline others := by
  induction turns with
  | nil => rfl
  -- A list gives back a separator that nothing follows.
  | last keeps => cases keeps
  | @link token next others separator operand _ ih =>
    -- An item is told from a separator by its kind alone.
    have operand : next.kind ≠ .listSeparator := by
      rw [List.mem_singleton.mp operand]
      nofun
    simp only [listOps] at ih
    simp [listOps, layoutAll, linkOps, separator, operand, ih]

/-- Operands joined by operators are laid out in turn, once the first operand is behind them. -/
theorem joinedBy_eq {chain : Chain} {kind : Kind} {others : List Token} (multiline seen : Bool)
    (before between : LayoutOp) (apart : kind ≠ chain.separator)
    (turns : Alternates chain [kind] others) :
    joinedBy chain.separator before between seen (layoutAll multiline others) =
      linkOps [before] [between] multiline others := by
  -- Whether an operator has been seen changes on the way, so the induction is for both.
  induction turns generalizing seen with
  | nil => rfl
  | last _ separator => simp [layoutAll, joinedBy, linkOps, separator]
  | @link token next others separator operand _ ih =>
    have operand : next.kind ≠ chain.separator := by
      rw [List.mem_singleton.mp operand]
      exact apart
    simp [layoutAll, joinedBy, linkOps, separator, operand, ih]

/-- A token with nothing below it is laid out by its comments and its text. -/
theorem Token.layout_lexical {token : Token} (lexical : token.kind.isLexical = true)
    (multiline : Bool) : token.layout multiline = token.verbatim := by
  -- The layout goes by the kind, and no lexical kind has a rule of its own.
  obtain ⟨kind, text, children, comments⟩ := token
  cases kind <;> first | rfl | cases lexical

/-- Operands and operators with blanks between them are laid out in turn. -/
theorem spacedOut_eq {others : List Token} (multiline : Bool)
    (turns : Alternates ⟨.mathExpr, .mathOp, false⟩ Production.simpleExpr.kinds others) :
    (layoutAll multiline others).flatMap (fun laid => .write [' '] :: laid.2) =
      linkOps [.write [' ']] [.write [' ']] multiline others := by
  induction turns with
  | nil => rfl
  | last keeps => cases keeps
  | @link token next others separator _ _ ih =>
    -- An operator is lexical, and so it is laid out by its comments and its text.
    have plain : token.layout multiline = token.verbatim :=
      Token.layout_lexical (by rw [separator]; rfl) multiline
    simp [layoutAll, linkOps, plain, ih]

/-- Single statements joined by set operators are laid out in turn. -/
theorem statementOps_eq {others : List Token}
    (turns : Alternates ⟨.statement, .unionToken, false⟩ Production.singleStatement.kinds others) :
    statementOps (layoutAll true others) =
      linkOps [.startLine] [.newline, .startLine] true others := by
  induction turns with
  | nil => rfl
  | last keeps => cases keeps
  -- Neither of the two kinds with a layout of their own is that of an operand.
  | @link token next others separator operand _ ih =>
    have plain : next.kind ≠ .unionToken ∧ next.kind ≠ .unparsed := by
      simp only [Production.kinds, List.mem_cons, List.not_mem_nil, or_false] at operand
      rcases operand with kind | kind
      · simp [kind]
      · simp [kind]
    simp only [statementOps, List.cons_append] at ih
    simp [statementOps, layoutAll, linkOps, separator, plain.1, plain.2, ih]

/-- The instructions in front of the first operand of a chain, its separators and later operands. -/
def Production.joints (multiline : Bool) :
    Production → List LayoutOp × List LayoutOp × List LayoutOp
  | .statement => ([.startLine], [.startLine], [.newline, .startLine])
  | .listExpr => ([], [], [breakOrBlank multiline])
  | .orExpr => ([], [breakOrBlank multiline], [breakOrBlank multiline])
  | .andExpr => ([], [breakOrBlank multiline], [.write [' ']])
  | _ => ([], [.write [' ']], [.write [' ']])

/-- A statement is laid out by its first single statement, on a line of its own, and then in turn. -/
theorem statementOps_cons {first : Token} {others : List Token}
    (kind : first.kind ∈ Production.singleStatement.kinds)
    (turns : Alternates ⟨.statement, .unionToken, false⟩ Production.singleStatement.kinds others) :
    statementOps (layoutAll true (first :: others)) =
      .startLine :: (first.layout true ++ linkOps [.startLine] [.newline, .startLine] true others) := by
  -- The first single statement is no separator and no residue, and so begins a line.
  have plain : first.kind ≠ .unionToken ∧ first.kind ≠ .unparsed := by
    simp only [Production.kinds, List.mem_cons, List.not_mem_nil, or_false] at kind
    rcases kind with kind | kind
    · simp [kind]
    · simp [kind]
  have parts : layoutAll true (first :: others) =
      [(first, first.layout true)] ++ layoutAll true others := rfl
  rw [parts, statementOps_append, statementOps_eq turns]
  simp [statementOps, plain.1, plain.2]

/-- A list is laid out by its first item and then in turn. -/
theorem listOps_cons {first : Token} {others : List Token} (multiline : Bool)
    (kind : first.kind = .orExpr)
    (turns : Alternates ⟨.listExpr, .listSeparator, false⟩ [.orExpr] others) :
    listOps multiline (layoutAll multiline (first :: others)) =
      first.layout multiline ++ linkOps [] [breakOrBlank multiline] multiline others := by
  -- The first operand is no separator, and stands for itself.
  have plain : first.kind ≠ .listSeparator := by
    rw [kind]
    decide
  have parts : layoutAll multiline (first :: others) =
      [(first, first.layout multiline)] ++ layoutAll multiline others := rfl
  rw [parts, listOps_append, listOps_eq multiline turns]
  simp [listOps, plain]

/-- Operands joined by operators are laid out by the first one and then in turn. -/
theorem joinedBy_cons {chain : Chain} {operand : Kind} {first : Token} {others : List Token}
    (multiline : Bool) (before between : LayoutOp) (apart : operand ≠ chain.separator)
    (kind : first.kind = operand) (turns : Alternates chain [operand] others) :
    joinedBy chain.separator before between false (layoutAll multiline (first :: others)) =
      first.layout multiline ++ linkOps [before] [between] multiline others := by
  have plain : first.kind ≠ chain.separator := by rwa [kind]
  -- No operator has been seen in front of the first operand.
  rw [layoutAll, joinedBy, if_neg plain]
  exact congrArg (first.layout multiline ++ ·)
    (joinedBy_eq multiline false before between apart turns)

/-- A chain is laid out by its first operand and then in turn. -/
theorem layout_chain {production operand : Production} {chain : Chain} {first : Token}
    {others : List Token} (rule : production.chain? = some (chain, operand))
    (kind : first.kind ∈ operand.kinds) (turns : Alternates chain operand.kinds others)
    (multiline : Bool) :
    ∃ spread, (Token.node chain.kind (first :: others)).layout multiline =
      (production.joints multiline).1 ++ (first.layout spread ++
        linkOps (production.joints multiline).2.1 (production.joints multiline).2.2 spread
          others) := by
  -- Each chain has a way of its own to put its operands together.
  cases production with
  | statement =>
    cases rule
    exact ⟨true, statementOps_cons kind turns⟩
  | listExpr =>
    cases rule
    exact ⟨multiline, listOps_cons multiline (List.mem_singleton.mp kind) turns⟩
  | orExpr =>
    cases rule
    exact ⟨multiline, joinedBy_cons multiline _ _ (by decide) (List.mem_singleton.mp kind) turns⟩
  | andExpr =>
    cases rule
    exact ⟨multiline, joinedBy_cons multiline _ _ (by decide) (List.mem_singleton.mp kind) turns⟩
  | mathExpr =>
    cases rule
    exact ⟨multiline, congrArg (first.layout multiline ++ ·) (spacedOut_eq multiline turns)⟩
  | _ => cases rule

/-- What stands in front of the operands and separators of a chain are gaps. -/
theorem isGap_joints (production : Production) (multiline : Bool) :
    (∀ op ∈ (production.joints multiline).1, op.isGap = true) ∧
    (∀ op ∈ (production.joints multiline).2.1, op.isGap = true) ∧
    (∀ op ∈ (production.joints multiline).2.2, op.isGap = true) ∧
    (production.joints multiline).2.2 ≠ [] ∧
    ((production.joints multiline).2.1 = [] → production = .listExpr) := by
  -- The joints are listed, one production after the other.
  cases production <;> cases multiline <;> decide

/-- The first word of a legible token. -/
theorem Token.Legible.head_words {token : Token} (legible : token.Legible) :
    ∃ word rest, token.words = word :: rest ∧
      (word = token.text ∨ Piece.Whole ⟨.comment, word⟩) := by
  unfold Token.words
  -- The first comment comes first, or the text if there is none.
  rcases comments : token.comments with _ | ⟨comment, others⟩
  · exact ⟨token.text, [], rfl, .inl rfl⟩
  · refine ⟨comment, others ++ [token.text], rfl, .inr (legible.comments comment ?_)⟩
    rw [comments]
    exact .head others

/-- A comment begins with a character that may touch any word. -/
theorem touch_of_comment {comment : Text} (whole : Piece.Whole ⟨.comment, comment⟩) :
    ∀ c ∈ comment.head?, c ∈ ['/', '\x7b'] := by
  -- A comment is a literal span, and opens with a brace or with a slash.
  obtain ⟨opening, closing, encloses, ⟨rest, front⟩, _⟩ :=
    literal?_encloses whole.literal_of_comment.1
  change opening ++ rest = comment at front
  subst front
  cases encloses with
  | braces => simp
  | stars => simp

/-- The kinds of token that may touch any word, with the text of each. -/
def touching : List (Kind × Text) :=
  [(.openBracket, ['(']), (.closeBracket, [')']), (.listSeparator, [',']),
    (.outerJoinMarker, ['(', '+', ')'])]

/-- A bracket, a comma or a marker has the one text that its kind can have. -/
theorem Piece.Legible.text_of_kind {kind : Kind} {text word : Text}
    (legible : Piece.Legible ⟨kind, text⟩) (fixed : (kind, word) ∈ touching) : text = word := by
  -- No literal span, name or comment is of one of these kinds.
  have all : ∀ entry ∈ touching, entry.1 ≠ .text ∧ entry.1 ≠ .name ∧ entry.1 ≠ .comment := by
    decide
  have other := all _ fixed
  rcases legible with (⟨literal, _⟩ | ⟨lexeme, _⟩) | ⟨name, _⟩
  · obtain ⟨opening, closing, encloses, _⟩ := literal?_encloses literal
    have kinds : kind = .text ∨ kind = .name ∨ kind = .comment := by
      cases encloses with
      | text => simp
      | name => simp
      | braces => simp
      | stars => simp
    simp_all
  · -- Each of these kinds is that of one sweep, which knows one word.
    have all : ∀ sweep ∈ sweeps, ∀ entry ∈ touching, sweep.kind = entry.1 →
        sweep.pattern.alternatives = [entry.2] ∧ sweep.pattern.isWordy = false := by
      decide +kernel
    obtain ⟨sweep, member, same, among | ⟨run, _⟩⟩ := lexeme.sweep
    · rw [(all sweep member _ fixed same.symm).1] at among
      exact List.mem_singleton.mp among
    · have sign := (all sweep member _ fixed same.symm).2
      rw [run] at sign
      cases sign
  · -- A marker is a name.
    exact absurd name other.2.1

/-- A bracket, a comma or a marker may touch any word. -/
theorem Token.Legible.touch {token : Token} (legible : token.Legible)
    (fixed : token.kind ∈ touching.map Prod.fst) (words more : List Text) :
    Touch words (token.words ++ more) := by
  -- What may touch any word is told by its first character.
  obtain ⟨⟨kind, word⟩, fixed, rfl⟩ := List.mem_map.mp fixed
  obtain ⟨first, rest, split, either⟩ := legible.head_words
  -- The word begins with its own sign, or with that of a comment in front of it.
  have among : ∀ c ∈ first.head?, c ∈ ['(', ')', ',', '/', '\x7b'] := by
    intro c front
    rcases either with rfl | comment
    · have all : ∀ entry ∈ touching,
          entry.2.head?.all (['(', ')', ',', '/', '\x7b'].contains ·) = true := by
        decide
      rw [legible.text.text_of_kind fixed] at front
      exact List.contains_iff_mem.mp ((Option.all_eq_true _ _).mp (all _ fixed) c front)
    · have two := touch_of_comment comment c front
      simp only [List.mem_cons, List.not_mem_nil, or_false] at two ⊢
      simp [two]
  intro last _ next head c front
  rw [split] at head
  cases head
  simp only [mayTouch, Bool.or_eq_true, List.contains_iff_mem]
  exact .inl (.inl (among c front))

/-- The words of a legible token are no blanks. -/
theorem Token.Legible.words_solid {token : Token} (legible : token.Legible) :
    ∀ word ∈ token.words, word ≠ [' '] := by
  have solid : ∀ {kind : Kind} {word : Text}, Piece.Legible ⟨kind, word⟩ → word ≠ [' '] := by
    -- A legible word begins with a character that is no blank.
    rintro kind word legible rfl
    have first := legible.edges.2.1 ' ' rfl
    cases first
  intro word member
  rcases List.mem_append.mp member with comment | text
  · exact solid (.inl (legible.comments word comment))
  · rw [List.mem_singleton.mp text]
    exact solid legible.text

/-- The last word of a token is its text. -/
theorem getLast?_words (token : Token) : token.words.getLast? = some token.text :=
  -- The text of a token comes behind its comments.
  List.getLast?_concat

/-- A legible token is laid out by its words. -/
theorem Token.Legible.lays {token : Token} (legible : token.Legible) :
    Lays token.verbatim token.words :=
  -- All of its words are solid.
  lays_verbatim legible.words_solid

/-- The warning on an operator without an operand is a comment. -/
theorem whole_syntaxWarning : Piece.Whole ⟨.comment, syntaxWarning⟩ :=
  -- It is a comment between its marks, on one line.
  .literal (by decide +kernel) (by decide +kernel)

/-- A legible token with a warning on it is legible. -/
theorem Token.Legible.addComment {token : Token} (legible : token.Legible) :
    (token.addComment syntaxWarning).Legible := by
  refine ⟨legible.leaf, legible.text, ?_⟩
  -- The added comment stands behind those that were there.
  intro comment member
  rcases List.mem_append.mp member with own | added
  · exact legible.comments comment own
  · rw [List.mem_singleton.mp added]
    exact whole_syntaxWarning

/-- The first token of a list is that of its first part, if that is not empty. -/
theorem head?_append_of_ne {front : List Token} (filled : front ≠ []) (back : List Token) :
    (front ++ back).head? = front.head? := by
  -- The first token is one of the front.
  obtain ⟨token, rest, rfl⟩ := List.exists_cons_of_ne_nil filled
  rfl

/-- The first token of an operand is no operator but a minus or a star. -/
theorem Derives.first_kind {symbol : Symbol} {trees taken : List Token}
    (derived : Derives symbol trees taken) (tree : ∀ production, symbol ≠ .links production) :
    ∀ token ∈ taken.head?, token.kind = .mathOp →
      token.text = "-".toList ∨ token.text = "*".toList := by
  -- A token of another kind is no operator at all.
  have other : ∀ {first : Token} {rest : List Token}, first.kind ≠ .mathOp →
      ∀ token ∈ (first :: rest).head?, token.kind = .mathOp →
        token.text = "-".toList ∨ token.text = "*".toList := by
    rintro first rest apart token ⟨⟩ kind
    exact absurd kind apart
  induction derived with
  | chain _ first _ head _ =>
    rw [head?_append_of_ne (first.taken_ne_nil (List.cons_ne_nil _ _))]
    exact head (by simp)
  | linksEnd | link | dangling => exact absurd rfl (tree _)
  | bracketed _ _ inner => exact inner (by simp)
  | single _ _ _ head _ => exact head (by simp)
  | clausesEnd => simp
  | clause first _ head _ =>
    rw [head?_append_of_ne (first.taken_ne_nil (List.cons_ne_nil _ _))]
    exact head (by simp)
  | barePart kind => exact other (by simp [kind])
  | part kind _ _ => exact other (by simp [kind])
  | simple _ _ inner => exact inner (by simp)
  | signed kind _ _ => exact other (by simp [kind])
  | negated minus _ _ =>
    rintro token ⟨⟩ _
    simp only [Token.is, Bool.and_eq_true, beq_iff_eq] at minus
    exact .inl minus.2
  | headTree _ _ inner => exact inner (by simp)
  | headToken choice =>
    rintro token ⟨⟩ kind
    rcases choice with name | text | star
    · rw [name] at kind
      cases kind
    · rw [text] at kind
      cases kind
    · simp only [Token.is, Bool.and_eq_true, beq_iff_eq] at star
      exact .inr star.2
  | atom first _ _ inner =>
    rw [head?_append_of_ne (first.taken_ne_nil (List.cons_ne_nil _ _))]
    exact inner (by simp)
  | emptyBracket opens _ => exact other (by simp [opens])
  | bracket _ opens _ _ _ => exact other (by simp [opens])
  | function kind _ _ => exact other (by simp [kind])

/-- Only the operator begins with a plus. -/
theorem Piece.Legible.kind_of_plus {kind : Kind} {text : Text}
    (legible : Piece.Legible ⟨kind, text⟩) (plus : text.head? = some '+') :
    kind = .mathOp ∧ text = ['+'] := by
  -- The three ways for a piece to be legible are gone through for their first characters.
  rcases legible with (⟨literal, _⟩ | ⟨lexeme, _⟩) | ⟨_, marker⟩
  · -- A literal span begins with a quote, a brace or a slash.
    obtain ⟨c, front, among⟩ := literal.edges.1
    cases front.symm.trans plus
    simp at among
  · -- Among the words of the sweeps one begins with a plus, and names have none.
    have all : ∀ sweep ∈ sweeps, ∀ word ∈ sweep.pattern.alternatives, word.head? = some '+' →
        sweep.kind = .mathOp ∧ word = ['+'] := by decide +kernel
    obtain ⟨sweep, member, same, among | ⟨_, named⟩⟩ := lexeme.sweep
    · obtain ⟨kind', word⟩ := all sweep member _ among plus
      exact ⟨same.trans kind', word⟩
    · have name := named '+' (List.mem_of_head? plus)
      cases name
  · -- A marker begins with one of its three signs.
    obtain ⟨c, front, among⟩ := marker.begins
    cases front.symm.trans plus
    simp at among

/-- What is derived in a bracket may touch the bracket. -/
theorem Derives.touch {production : Production} {tree : Token} {taken : List Token}
    (derived : Derives (.one production) [tree] taken) (legible : ∀ token ∈ taken, token.Legible)
    {words : List Text} (bracket : words.getLast? = some ['(']) :
    Touch words (Token.skeleton [tree]) := by
  -- Behind a bracket only a plus would be joined to it, and no tree begins with one.
  have leaves := derived.leaves (fun token member => (legible token member).leaf) .bracketExpr trivial
  have tips := Token.map_leavesAll .bracketExpr [tree]
  have first := derived.first_kind nofun
  obtain ⟨token, rest, rfl⟩ := List.exists_cons_of_ne_nil (derived.taken_ne_nil nofun)
  rcases leaf : Token.leavesAll .bracketExpr [tree] with _ | ⟨⟨tip, dangles⟩, others⟩
  · rw [leaf] at leaves
    cases leaves
  · rw [leaf] at leaves tips
    have read : Token.ReadAs (tip, dangles) token := (List.forall₂_cons.mp leaves).1
    -- The first leaf is the first token, maybe with a warning on it.
    have here := legible token (.head rest)
    have same : tip.Legible ∧ tip.text = token.text := by
      cases dangles with
      | true =>
        cases read
        exact ⟨here.addComment, rfl⟩
      | false =>
        cases read
        exact ⟨here, rfl⟩
    obtain ⟨word, more, split, either⟩ := same.1.head_words
    intro last among next head c front
    cases bracket.symm.trans among
    rw [Token.skeleton, ← tips, List.map_cons, List.flatMap_cons, split] at head
    cases head
    have other : c ≠ '+' := by
      rintro rfl
      rcases either with rfl | comment
      · rw [same.2] at front
        obtain ⟨kind, text⟩ := here.text.kind_of_plus front
        have either := first token rfl kind
        rw [show token.text = ['+'] from text] at either
        exact absurd either (by decide +kernel)
      · have two := touch_of_comment comment '+' front
        simp at two
    simp [mayTouch, other]

/-- A bracket may touch any word. -/
theorem Derives.touch_bracket {tree : Token} {taken : List Token}
    (derived : Derives (.one .bracketExpr) [tree] taken) (legible : ∀ token ∈ taken, token.Legible)
    (words : List Text) : Touch words (Token.skeleton [tree]) := by
  cases derived with
  | chain rule => cases rule
  -- Either way the first word belongs to the opening bracket.
  | emptyBracket opens =>
    have here := legible _ (.head _)
    rw [Token.skeleton_node, Token.skeleton_cons, Token.skeleton_bare here.leaf]
    exact here.touch (by simp [opens, touching]) words _
  | bracket _ opens =>
    have here := legible _ (.head _)
    rw [Token.skeleton_node, Token.skeleton_cons, Token.skeleton_bare here.leaf]
    exact here.touch (by simp [opens, touching]) words _

/-- Whether trees that a symbol stands for are laid out by the words of their leaves. -/
def Symbol.LaysOut : Symbol → List Token → Prop
  | .links production, trees => ∀ multiline spread,
    let ops := linkOps (production.joints multiline).2.1 (production.joints multiline).2.2 spread trees
    Lays ops (Token.skeleton trees) ∧ (SetsOff ops ∨ ∀ words, Touch words (Token.skeleton trees))
  | .clauses, trees => ∀ multiline, Lays (inSequence (layoutAll multiline trees))
      (Token.skeleton trees) ∧ SetsOff (inSequence (layoutAll multiline trees))
  | _, trees => ∀ tree ∈ trees, ∀ multiline, Lays (tree.layout multiline) (Token.skeleton [tree])

/-- A clause begins a line. -/
theorem setsOff_part {tree : Token} (kind : tree.kind = .part) (multiline : Bool)
    (ops : List LayoutOp) : SetsOff (tree.layout multiline ++ ops) := by
  -- The instruction in front is the one that begins a line.
  obtain ⟨_, text, children, comments⟩ := tree
  cases kind
  rintro op ⟨⟩
  rfl

/-- The instructions that begin a line and move the margin are gaps. -/
theorem isGap_lines : (∀ op ∈ [LayoutOp.startLine], op.isGap = true) ∧
    (∀ op ∈ [LayoutOp.indent], op.isGap = true) ∧ (∀ op ∈ [LayoutOp.newline], op.isGap = true) ∧
    (∀ op ∈ [LayoutOp.indent, .newline], op.isGap = true) ∧
    (∀ op ∈ [LayoutOp.indent, .write [' ']], op.isGap = true) := by
  decide

/-- The trees of two lists are laid out one by one. -/
theorem layoutAll_append (multiline : Bool) (front back : List Token) :
    layoutAll multiline (front ++ back) = layoutAll multiline front ++ layoutAll multiline back := by
  -- The trees are laid out one by one.
  induction front with
  | nil => rfl
  | cons tree front ih => simp [layoutAll, ih]

/-- A bracket is its opening one, what it holds and its closing one. -/
theorem bracketOps_eq (multiline spread : Bool) (opening closing : Token) (inner : List Token) :
    bracketOps multiline (layoutAll spread (opening :: (inner ++ [closing]))) =
      opening.verbatim ++ ((if multiline then .indent :: .newline ::
        inSequence (layoutAll spread inner) ++ [.dedent, .newline]
        else inSequence (layoutAll spread inner)) ++ closing.verbatim) := by
  simp [bracketOps, layoutAll, layoutAll_append]

/-- A bracket is laid out around its contents. -/
theorem lays_bracketOps {opening closing : Token} {words : List Text} (multiline : Bool)
    (inner : List Token) (opens : opening.Legible) (closes : closing.Legible)
    (kind : closing.kind = .closeBracket)
    (contents : Lays (inSequence (layoutAll multiline inner)) words)
    (touch : Touch opening.words words) :
    Lays (bracketOps multiline (layoutAll multiline (opening :: (inner ++ [closing]))))
      (opening.words ++ (words ++ closing.words)) := by
  -- The closing bracket may touch whatever the contents end with.
  have behind : ∀ words, Touch words closing.words := by
    intro words
    have touch := closes.touch (by simp [kind, touching]) words []
    rwa [List.append_nil] at touch
  rw [bracketOps_eq]
  -- On several lines the contents are set off on both sides, on one line they are glued on.
  cases multiline with
  | true =>
    have lines := contents.dedent.spaced isGap_lines.2.2.1 nofun closes.lays
    have laid := opens.lays.spaced isGap_lines.2.2.2.1 nofun lines
    simpa using laid
  | false =>
    exact opens.lays.append (contents.append closes.lays (.inr (behind words)))
      (.inr (touch.append (behind opening.words)))

/-- A marker is glued on behind an atom, and an alias is set off by a blank. -/
theorem lays_suffixes {marker byname : Option Token} (multiline : Bool)
    (legible : ∀ token ∈ marker.toList ++ byname.toList, token.Legible)
    (marked : ∀ token ∈ marker, token.kind = .outerJoinMarker)
    (named : ∀ token ∈ byname, token.kind = .name) :
    let suffixes := marker.toList ++ byname.toList
    let ops := (layoutAll multiline suffixes).flatMap fun (token, ops) =>
      if token.kind == .outerJoinMarker then ops else .write [' '] :: ops
    Lays ops (Token.skeleton suffixes) ∧
      (SetsOff ops ∨ ∀ words, Touch words (Token.skeleton suffixes)) := by
  -- An alias is lexical, with a blank in front.
  have laysName : ∀ {token : Token}, token.Legible → token.kind = .name →
      Lays (.write [' '] :: token.layout multiline) (Token.skeleton [token]) := by
    intro token here kind
    rw [Token.layout_lexical (by rw [kind]; rfl), Token.skeleton_bare here.leaf]
    exact here.lays.gaps isGap_blank
  -- The marker is lexical, and has nothing in front.
  have laysMarker : ∀ {token : Token}, token.Legible → token.kind = .outerJoinMarker →
      Lays (token.layout multiline) (Token.skeleton [token]) := by
    intro token here kind
    rw [Token.layout_lexical (by rw [kind]; rfl), Token.skeleton_bare here.leaf]
    exact here.lays
  cases marker with
  | none =>
    cases byname with
    | none => exact ⟨lays_nil, .inl nofun⟩
    | some token =>
      have kind := named token rfl
      have laid := laysName (legible token (.head [])) kind
      exact ⟨by simpa [layoutAll, kind] using laid, .inl (by simp [SetsOff, layoutAll, kind, LayoutOp.isGap])⟩
  | some mark =>
    have here := legible mark (.head _)
    have kind := marked mark rfl
    have front := laysMarker here kind
    have touch : ∀ words, Touch words (Token.skeleton (mark :: byname.toList)) := by
      intro words
      rw [Token.skeleton_cons, Token.skeleton_bare here.leaf]
      exact here.touch (by simp [kind, touching]) words _
    -- Where there is a marker it comes first, and may touch what the atom ends with.
    refine ⟨?_, .inr touch⟩
    cases byname with
    | none => simpa [layoutAll, kind] using front
    | some token =>
      have kind' := named token rfl
      have laid := front.append (laysName (legible token (.tail mark (.head []))) kind')
        (.inl (by simp [SetsOff, LayoutOp.isGap]))
      rw [← Token.skeleton_cons] at laid
      simpa [layoutAll, kind, kind'] using laid

/-- A tree is laid out by the words of its leaves, on one line and on several. -/
def Token.LaysOut (tree : Token) : Prop :=
  ∀ multiline, Lays (tree.layout multiline) (Token.skeleton [tree])

/-- What a single tree is laid out by, whatever symbol it stands for. -/
theorem laysOut_single {tree : Token} (laysOut : tree.LaysOut) :
    ∀ other ∈ [tree], other.LaysOut := by
  -- There is only the one.
  intro other member
  rwa [List.mem_singleton.mp member]

section Nodes

/-- A chain is laid out by its first operand and by what follows that in turn. -/
theorem laysOut_chain {production operand : Production} {chain : Chain} {first : Token}
    {others : List Token} (rule : production.chain? = some (chain, operand))
    (kind : first.kind ∈ operand.kinds) (turns : Alternates chain operand.kinds others)
    (head : first.LaysOut) (tail : (Symbol.links production).LaysOut others) :
    (Token.node chain.kind (first :: others)).LaysOut := by
  intro multiline
  obtain ⟨spread, laid⟩ := layout_chain rule kind turns multiline
  have behind := tail multiline spread
  rw [laid, Token.skeleton_node, Token.skeleton_cons]
  -- What is in front of the first operand puts down no word.
  exact ((head spread).append behind.1
    (behind.2.imp_right fun touch => touch _)).gaps (isGap_joints production multiline).1

/-- A separator and its operand are set off from what is in front of them, or may touch it. -/
theorem laysOut_link {production operand : Production} {chain : Chain} {separator next : Token}
    {others : List Token} (rule : production.chain? = some (chain, operand))
    (kind : separator.kind = chain.separator) (here : separator.Legible) (head : next.LaysOut)
    (tail : (Symbol.links production).LaysOut others) :
    (Symbol.links production).LaysOut (separator :: next :: others) := by
  intro multiline spread
  obtain ⟨_, before, between, filled, list⟩ := isGap_joints production multiline
  have behind := tail multiline spread
  have operand := (head spread).append behind.1 (behind.2.imp_right fun touch => touch _)
  rw [Token.skeleton_cons, Token.skeleton_bare here.leaf, Token.skeleton_cons next others]
  refine ⟨(here.lays.spaced between filled operand).gaps before, ?_⟩
  by_cases bare : (production.joints multiline).2.1 = []
  · -- A comma is put right behind the item in front of it.
    cases list bare
    cases rule
    exact .inr fun words => here.touch (by simp [kind, touching]) words _
  · exact .inl (setsOff_append before bare _)

/-- An operator that dangles is set off from the operand in front of it. -/
theorem laysOut_dangling {production operand : Production} {chain : Chain} {separator : Token}
    (rule : production.chain? = some (chain, operand)) (keeps : chain.keepsDangling = true)
    (legible : separator.Legible) :
    (Symbol.links production).LaysOut [separator.addComment syntaxWarning] := by
  have here := legible.addComment
  intro multiline spread
  obtain ⟨_, before, _, _, list⟩ := isGap_joints production multiline
  rw [Token.skeleton_bare here.leaf]
  refine ⟨here.lays.gaps before, .inl (setsOff_append before ?_ _)⟩
  -- Only a comma has nothing in front of it, and no comma dangles.
  intro bare
  cases list bare
  cases rule
  cases keeps

/-- A clause without a list is laid out by its keyword. -/
theorem laysOut_barePart {keyword : Token} (here : keyword.Legible) :
    (Token.node .part [keyword]).LaysOut := by
  intro multiline
  rw [Token.skeleton_node, Token.skeleton_bare here.leaf]
  -- Behind the keyword there is the margin and a blank, and no word.
  have laid := (here.lays.gaps isGap_lines.1).append (lays_nil.gaps isGap_lines.2.2.2.2)
    (.inl (setsOff_append isGap_lines.2.2.2.2 (List.cons_ne_nil _ _) []))
  rw [List.append_nil, List.append_nil] at laid
  exact laid.dedent

/-- A clause is laid out by its keyword and, set off from that, its list. -/
theorem laysOut_part {keyword list : Token} (here : keyword.Legible) (inner : list.LaysOut) :
    (Token.node .part [keyword, list]).LaysOut := by
  -- The keyword begins a line, and a gap sets its list off.
  intro multiline
  rw [Token.skeleton_node, Token.skeleton_cons, Token.skeleton_bare here.leaf]
  exact ((here.lays.gaps isGap_lines.1).spaced isGap_lines.2.1 (List.cons_ne_nil _ _)
    (inner true)).dedent

/-- A prefix is set off from its operand by a blank. -/
theorem laysOut_signed {sign atom : Token} (here : sign.Legible) (kind : sign.kind = .unaryPrefix)
    (inner : atom.LaysOut) : (Token.node .unaryPrefixExpr [sign, atom]).LaysOut := by
  intro multiline
  -- The prefix is laid out as a child, which comes to its own words.
  have plain : sign.layout multiline = sign.verbatim :=
    Token.layout_lexical (by rw [kind]; rfl) multiline
  have laid := here.lays.spaced isGap_blank (List.cons_ne_nil _ _) (inner multiline)
  rw [Token.skeleton_node, Token.skeleton_cons, Token.skeleton_bare here.leaf]
  rw [← plain] at laid
  simpa [Token.layout, Token.node, Token.arrange, Token.spreads, layoutAll, spacedOut] using laid

/-- A minus and a function's name are put right in front of what they belong to. -/
theorem laysOut_glued {kind : Kind} {front tree : Token} (glued : kind ∈ [Kind.minusExpr, .funExpr])
    (here : front.Legible) (lexical : front.kind.isLexical = true) (inner : tree.LaysOut)
    (touch : Touch front.words (Token.skeleton [tree])) :
    (Token.node kind [front, tree]).LaysOut := by
  intro multiline
  have laid := here.lays.append (inner multiline) (.inr touch)
  rw [Token.skeleton_node, Token.skeleton_cons, Token.skeleton_bare here.leaf]
  rw [← Token.layout_lexical lexical multiline] at laid
  simp only [List.mem_cons, List.not_mem_nil, or_false] at glued
  -- Both kinds put their children one behind the other.
  rcases glued with rfl | rfl
  · simpa [Token.layout, Token.node, Token.arrange, Token.spreads, layoutAll, inSequence] using laid
  · simpa [Token.layout, Token.node, Token.arrange, Token.spreads, layoutAll, inSequence] using laid

/-- Nothing can run on into a minus that stands behind it. -/
theorem touch_minus {sign : Token} (minus : sign.text = "-".toList) (words : List Text) :
    Touch sign.words words := by
  -- A minus is made of one character, which joins with no other.
  intro word last first _ c _
  rw [getLast?_words, minus] at last
  cases last
  simp [mayTouch]

/-- A token that is an operand by itself is laid out by its words. -/
theorem laysOut_headToken {token : Token} (here : token.Legible)
    (choice : token.kind = .name ∨ token.kind = .text ∨ token.is .mathOp "*".toList = true) :
    token.LaysOut := by
  -- All three are lexical, so that there is nothing below the token.
  have lexical : token.kind.isLexical = true := by
    simp only [Token.is, Bool.and_eq_true, beq_iff_eq] at choice
    rcases choice with kind | kind | ⟨kind, _⟩
    · rw [kind]
      rfl
    · rw [kind]
      rfl
    · rw [kind]
      rfl
  intro multiline
  rw [Token.layout_lexical lexical, Token.skeleton_bare here.leaf]
  exact here.lays

/-- An atom is laid out by its first child and what is glued on or set off behind it. -/
theorem laysOut_atom {first : Token} {marker byname : Option Token} (inner : first.LaysOut)
    (legible : ∀ token ∈ marker.toList ++ byname.toList, token.Legible)
    (marked : ∀ token ∈ marker, token.kind = .outerJoinMarker)
    (named : ∀ token ∈ byname, token.kind = .name) :
    (Token.node .atom (first :: marker.toList ++ byname.toList)).LaysOut := by
  intro multiline
  -- The first child is glued to a marker, and set off from an alias.
  have behind := lays_suffixes multiline legible marked named
  rw [List.cons_append, Token.skeleton_node, Token.skeleton_cons]
  exact (inner multiline).append behind.1 (behind.2.imp_right fun touch => touch _)

/-- A bracket with nothing in it is laid out by its two ends. -/
theorem laysOut_emptyBracket {opening closing : Token} (here : opening.Legible)
    (there : closing.Legible) (closes : closing.kind = .closeBracket) :
    (Token.node .bracketExpr [opening, closing]).LaysOut := by
  -- With nothing between them, the two brackets touch.
  intro multiline
  rw [Token.skeleton_node, Token.skeleton_cons, Token.skeleton_bare here.leaf,
    Token.skeleton_bare there.leaf]
  exact lays_bracketOps _ [] here there closes lays_nil fun _ _ _ => by simp

/-- A bracket is laid out by its two ends and what it holds, which may touch the first of them. -/
theorem laysOut_bracket {opening inside closing : Token} (here : opening.Legible)
    (there : closing.Legible) (closes : closing.kind = .closeBracket) (inner : inside.LaysOut)
    (touch : Touch opening.words (Token.skeleton [inside])) :
    (Token.node .bracketExpr [opening, inside, closing]).LaysOut := by
  intro multiline
  rw [Token.skeleton_node, Token.skeleton_cons, Token.skeleton_cons inside,
    Token.skeleton_bare here.leaf, Token.skeleton_bare there.leaf]
  -- Whether the contents have lines of their own is for the bracket to say.
  have contents := inner
    ((Token.node .bracketExpr [opening, inside, closing]).contains .statement)
  rw [← List.append_nil (inside.layout _)] at contents
  exact lays_bracketOps _ [inside] here there closes contents touch

end Nodes

/-- Derived trees are laid out by the words of their leaves. -/
theorem Derives.laysOut {symbol : Symbol} {trees taken : List Token}
    (derived : Derives symbol trees taken) (legible : ∀ token ∈ taken, token.Legible) :
    symbol.LaysOut trees := by
  -- By induction on the derivation, with one lemma for each way to put children together.
  induction derived with
  | @chain _ _ _ first _ _ _ rule derived links head tail =>
    rw [List.forall_mem_append] at legible
    exact laysOut_single (laysOut_chain rule derived.kind_mem (links.alternates rule)
      (head legible.1 first (.head [])) (tail legible.2))
  | linksEnd => exact fun _ _ => ⟨lays_nil, .inl setsOff_nil⟩
  | @link _ _ _ _ next _ _ _ rule kind _ _ head tail =>
    rw [List.cons_append, List.forall_mem_cons, List.forall_mem_append] at legible
    obtain ⟨here, inner, rest⟩ := legible
    exact laysOut_link rule kind here (head inner next (.head [])) (tail rest)
  | dangling rule keeps _ => exact laysOut_dangling rule keeps (legible _ (.head []))
  | bracketed _ _ inner => exact inner legible
  | @single first _ others _ _ _ _ _ head tail =>
    rw [List.forall_mem_append] at legible
    refine laysOut_single fun multiline => ?_
    rw [Token.skeleton_node, Token.skeleton_cons]
    exact (head legible.1 first (.head []) multiline).append (tail legible.2 multiline).1
      (.inl (tail legible.2 multiline).2)
  | clausesEnd => exact fun _ => ⟨lays_nil, setsOff_nil⟩
  | @clause first others _ _ derived _ head tail =>
    rw [List.forall_mem_append] at legible
    intro multiline
    have behind := tail legible.2 multiline
    rw [Token.skeleton_cons]
    exact ⟨(head legible.1 first (.head []) multiline).append behind.1 (.inl behind.2),
      setsOff_part (List.mem_singleton.mp derived.kind_mem) multiline _⟩
  | barePart _ => exact laysOut_single (laysOut_barePart (legible _ (.head [])))
  | @part _ list _ _ _ inner =>
    rw [List.forall_mem_cons] at legible
    exact laysOut_single (laysOut_part legible.1 (inner legible.2 list (.head [])))
  | simple _ _ inner => exact inner legible
  | @signed _ atom _ kind _ inner =>
    rw [List.forall_mem_cons] at legible
    exact laysOut_single (laysOut_signed legible.1 kind (inner legible.2 atom (.head [])))
  | @negated _ atom _ minus _ inner =>
    rw [List.forall_mem_cons] at legible
    simp only [Token.is, Bool.and_eq_true, beq_iff_eq] at minus
    exact laysOut_single (laysOut_glued (by simp) legible.1 (by rw [minus.1]; rfl)
      (inner legible.2 atom (.head [])) (touch_minus minus.2 _))
  | headTree _ _ inner => exact inner legible
  | headToken choice => exact laysOut_single (laysOut_headToken (legible _ (.head [])) choice)
  | @atom first _ _ _ _ marked named inner =>
    rw [List.forall_mem_append] at legible
    exact laysOut_single (laysOut_atom (inner legible.1 first (.head [])) legible.2 marked named)
  | @emptyBracket opening closing _ closes =>
    have here := legible opening (.head [closing])
    have there := legible closing (.tail opening (.head []))
    exact laysOut_single (laysOut_emptyBracket here there closes)
  | @bracket _ opening inside closing _ _ opens derived closes inner =>
    rw [List.cons_append, List.forall_mem_cons, List.forall_mem_append] at legible
    obtain ⟨here, within, there⟩ := legible
    have last : opening.words.getLast? = some ['('] := by
      rw [getLast?_words, here.text.text_of_kind (by rw [opens]; exact .head _)]
    exact laysOut_single (laysOut_bracket here (there closing (.head [])) closes
      (inner within inside (.head [])) (derived.touch within last))
  | @function name arguments _ kind derived inner =>
    rw [List.forall_mem_cons] at legible
    exact laysOut_single (laysOut_glued (by simp) legible.1 (by rw [kind]; rfl)
      (inner legible.2 arguments (.head [])) (derived.touch_bracket legible.2 name.words))

end SqlLayout
