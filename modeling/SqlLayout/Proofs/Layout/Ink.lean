import SqlLayout.Proofs.Layout.Skeleton
import SqlLayout.Proofs.Parsing.Shape

/-! Ink: all that formatting adds to the leaves of a tree, or takes from them, are blanks. -/

namespace SqlLayout

/-- The ink that an instruction puts down. -/
def LayoutOp.ink : LayoutOp → Text
  | .write text => text.ink
  -- All other instructions put down blanks.
  | _ => []

/-- The ink that instructions put down in order. -/
def inkOf (ops : List LayoutOp) : Text :=
  -- The writer moves on, and never goes back.
  ops.flatMap LayoutOp.ink

@[simp] theorem inkOf_nil : inkOf [] = [] := rfl

@[simp] theorem inkOf_cons (op : LayoutOp) (ops : List LayoutOp) :
    inkOf (op :: ops) = op.ink ++ inkOf ops := rfl

@[simp] theorem inkOf_append (front back : List LayoutOp) :
    inkOf (front ++ back) = inkOf front ++ inkOf back :=
  -- Each instruction has its own ink.
  List.flatMap_append

namespace Writer

/-- The ink that a writer has put down so far. -/
def ink (writer : Writer) : Text :=
  -- The last character written stands in front.
  Text.ink writer.out.reverse

/-- Writing text puts down its ink. -/
theorem ink_write (writer : Writer) (text : Text) :
    (writer.write text).ink = writer.ink ++ text.ink := by
  -- The writer keeps its text the other way round.
  unfold ink write
  rw [List.reverse_append, List.reverse_reverse, Text.ink_append]

/-- Filling a line with blanks puts down no ink. -/
theorem ink_padTo (writer : Writer) (column : Nat) : (writer.padTo column).ink = writer.ink := by
  -- What is padded with are blanks, which leave no ink.
  rw [padTo, ink_write, Text.ink_of_blank (blank_replicate _), List.append_nil]

/-- Moving the margin to the right puts down no ink. -/
theorem ink_indent (writer : Writer) : writer.indent.ink = writer.ink := by
  unfold indent
  simp only
  split
  · exact ink_padTo _ _
  · -- A line that is too long for the margin gets one blank.
    exact (ink_write _ _).trans (List.append_nil _)

/-- A new line takes no ink from the old one. -/
theorem ink_newline (writer : Writer) : writer.newline.ink = writer.ink := by
  -- All that is lost or put down are blanks.
  obtain ⟨kept, gap, gap', old, blank, new, blank', _⟩ := exists_kept writer
  rw [ink, ink, old, new, Text.ink_append, Text.ink_append, Text.ink_of_blank blank,
    Text.ink_of_blank blank']

/-- One instruction puts down its ink behind what there is. -/
theorem ink_run (writer : Writer) (op : LayoutOp) : (writer.run op).ink = writer.ink ++ op.ink := by
  -- Only a text that is written brings ink.
  cases op with
  | write text => exact ink_write writer text
  | indent => exact (ink_indent writer).trans (List.append_nil _).symm
  | dedent => exact (List.append_nil _).symm
  | newline => exact (ink_newline writer).trans (List.append_nil _).symm
  | startLine =>
    show writer.startLine.ink = writer.ink ++ []
    unfold startLine
    split
    · rw [ink_newline, List.append_nil]
    · rw [List.append_nil]

/-- Instructions put down their ink in order. -/
theorem ink_runAll (writer : Writer) (ops : List LayoutOp) :
    (writer.runAll ops).ink = writer.ink ++ inkOf ops := by
  induction ops generalizing writer with
  | nil => exact (List.append_nil _).symm
  | cons op ops ih =>
    -- The rest of the instructions begins where the first one ended.
    show ((writer.run op).runAll ops).ink = _
    rw [ih, ink_run, inkOf_cons, List.append_assoc]

/-- All that has been written is kept to the end, blanks aside. -/
theorem ink_finish (writer : Writer) : writer.finish.ink = writer.ink :=
  -- Finishing trims the text, and trimming takes only blanks away.
  Text.ink_trim writer.out.reverse

end Writer

namespace Token

/-- A leaf as it is written: its comments and its text, behind the marker line if it is residue. -/
def written (leaf : Token) : Text :=
  leaf.comments.flatten ++ if leaf.kind = .unparsed then unparsedMarker ++ leaf.text else leaf.text

/-- The leaves of a tree in pre-order, written one behind the other. -/
def content (root : Token) : Text :=
  -- Nothing is put between them.
  root.tips.flatMap written

end Token

/-- A token laid out by its comments and its text puts down their ink. -/
theorem inkOf_verbatim (token : Token) :
    inkOf token.verbatim = Text.ink token.comments.flatten ++ token.text.ink := by
  unfold Token.verbatim
  rw [inkOf_append, inkOf_cons, inkOf_nil, List.append_nil]
  congr 1
  -- The blank behind each comment has no ink.
  induction token.comments with
  | nil => rfl
  | cons comment comments ih =>
    rw [List.flatMap_cons, inkOf_append, ih, List.flatten_cons, Text.ink_append]
    simp [LayoutOp.ink, Text.ink, isBlank]

/-- A line or a blank has no ink. -/
@[simp] theorem ink_breakOrBlank (multiline : Bool) : (breakOrBlank multiline).ink = [] := by
  -- It is a line break or a blank.
  cases multiline <;> decide

/-- The lexical tokens of a list are laid out by their comments and their text. -/
def Verbatim (laid : List LaidOut) : Prop :=
  ∀ entry ∈ laid, entry.1.kind.isLexical = true → entry.2 = entry.1.verbatim

/-- Each token of a list that is laid out stands beside its own layout. -/
theorem mem_layoutAll {multiline : Bool} {trees : List Token} {entry : LaidOut}
    (member : entry ∈ layoutAll multiline trees) :
    entry.1 ∈ trees ∧ entry.2 = entry.1.layout multiline := by
  -- A token is laid out for itself, wherever in the list it stands.
  induction trees with
  | nil => cases member
  | cons tree trees ih =>
    rw [layoutAll] at member
    rcases List.mem_cons.mp member with rfl | later
    · exact ⟨.head trees, rfl⟩
    · exact ⟨.tail tree (ih later).1, (ih later).2⟩

/-- In the layout of a list of trees the lexical tokens are laid out by comments and text. -/
theorem verbatim_layoutAll (multiline : Bool) (trees : List Token) :
    Verbatim (layoutAll multiline trees) := by
  -- A lexical token is laid out as it is written.
  intro entry member lexical
  rw [(mem_layoutAll member).2, Token.layout_lexical lexical]

/-- Laying out tokens one by one puts down their ink in order, if each is laid out in full. -/
theorem inkOf_flatMap {laid : List LaidOut} {each : LaidOut → List LayoutOp}
    (full : ∀ entry ∈ laid, inkOf (each entry) = inkOf entry.2) :
    inkOf (laid.flatMap each) = inkOf (inSequence laid) := by
  unfold inSequence
  -- The ink of each entry is kept in its place.
  induction laid with
  | nil => rfl
  | cons entry laid ih =>
    obtain ⟨first, rest⟩ := List.forall_mem_cons.mp full
    rw [List.flatMap_cons, List.flatMap_cons, inkOf_append, inkOf_append, first, ih rest]

/-- The children of a statement are laid out in full, if none of them is residue. -/
theorem inkOf_statementOps {laid : List LaidOut} (plain : Verbatim laid)
    (none : ∀ entry ∈ laid, entry.1.kind ≠ .unparsed) :
    inkOf (statementOps laid) = inkOf (inSequence laid) := by
  refine inkOf_flatMap ?_
  rintro ⟨token, ops⟩ member
  simp only
  split
  · -- A set operator is a lexical token.
    rename_i union
    have own : ops = token.verbatim := plain _ member (by rw [union]; rfl)
    simp [LayoutOp.ink, own]
  · rename_i residue
    exact absurd residue (none _ member)
  · simp [LayoutOp.ink]

/-- The children of a list are laid out in full. -/
theorem inkOf_listOps {laid : List LaidOut} (plain : Verbatim laid) (multiline : Bool) :
    inkOf (listOps multiline laid) = inkOf (inSequence laid) := by
  -- The gap behind a separator has no ink.
  refine inkOf_flatMap ?_
  rintro ⟨token, ops⟩ member
  simp only
  split
  · rename_i separator
    have own : ops = token.verbatim := plain _ member (by rw [separator]; rfl)
    simp [own]
  · rfl

/-- Operands joined by lexical operators are laid out in full, with blanks between them. -/
theorem inkOf_joinedBy {operator : Kind} {before between : LayoutOp} {laid : List LaidOut}
    (lexical : operator.isLexical = true) (blank : before.ink = []) (blank' : between.ink = [])
    (plain : Verbatim laid) (seen : Bool) :
    inkOf (joinedBy operator before between seen laid) = inkOf (inSequence laid) := by
  induction laid generalizing seen with
  | nil => rfl
  | cons entry laid ih =>
    obtain ⟨token, ops⟩ := entry
    obtain ⟨first, rest⟩ := List.forall_mem_cons.mp plain
    have behind := ih rest
    unfold inSequence at behind ⊢
    rw [joinedBy, List.flatMap_cons]
    split
    · rename_i same
      have own : ops = token.verbatim := first (by rw [same]; exact lexical)
      simp [blank, behind, own]
    · -- Only the first operand has nothing in front of it.
      cases seen <;> simp [blank', behind]

/-- Tokens with blanks between them are laid out in full. -/
theorem inkOf_spacedOut (glued : Token → Bool) (laid : List LaidOut) :
    inkOf (spacedOut glued laid) = inkOf (inSequence laid) := by
  -- The first child is taken as it is, and blanks stand between the others.
  cases laid with
  | nil => rfl
  | cons entry laid =>
    unfold spacedOut
    show inkOf (entry.2 ++ _) = inkOf (entry.2 ++ inSequence laid)
    rw [inkOf_append, inkOf_append]
    congr 1
    refine inkOf_flatMap ?_
    rintro ⟨token, ops⟩ _
    simp only
    split
    · rfl
    · simp [LayoutOp.ink, Text.ink, isBlank]

/-- The kinds that alternate are those of the operands and that of the separators. -/
theorem mem_of_alternate {operands kinds : List Kind} {separator : Kind} {dangling : Bool}
    (turns : alternate operands separator dangling kinds = true) :
    ∀ kind ∈ kinds, kind ∈ operands ∨ kind = separator := by
  -- An operand comes first, and then separators and operands by turns.
  fun_induction alternate operands separator dangling kinds with
  | case1 => cases turns
  | case2 operand =>
    intro kind member
    rw [List.mem_singleton.mp member]
    exact .inl (by simpa using turns)
  | case3 operand joint rest ih =>
    simp only [Bool.and_eq_true, List.contains_iff_mem, beq_iff_eq] at turns
    obtain ⟨⟨first, same⟩, behind⟩ := turns
    intro kind member
    rcases List.mem_cons.mp member with rfl | member
    · exact .inl first
    · rcases List.mem_cons.mp member with rfl | member
      · exact .inr same
      · -- There is something behind the separator, so that the chain goes on.
        rw [if_neg (by simpa using List.ne_nil_of_mem member)] at behind
        exact ih behind kind member

/-- A clause has a keyword, and at most one list behind it. -/
theorem exists_clause {children : List Token}
    (allowed : Kind.allows .part (children.map Token.kind) = true) :
    ∃ keyword, ∃ list : Option Token, children = keyword :: list.toList ∧
      keyword.kind = .partToken := by
  -- A clause has two shapes, with a list and without.
  simp only [Kind.allows, List.contains_iff_mem, List.mem_cons, List.not_mem_nil, or_false,
    List.map_eq_cons_iff, List.map_eq_nil_iff] at allowed
  rcases allowed with ⟨keyword, _, rfl, lead, rfl⟩ | ⟨keyword, _, rfl, lead, list, _, rfl, _, rfl⟩
  · exact ⟨keyword, none, rfl, lead⟩
  · exact ⟨keyword, some list, rfl, lead⟩

/-- A bracket has what it holds between an opening and a closing one. -/
theorem exists_brackets {children : List Token}
    (allowed : Kind.allows .bracketExpr (children.map Token.kind) = true) :
    ∃ opening inner closing, children = opening :: (inner ++ [closing]) ∧
      opening.kind = .openBracket ∧ closing.kind = .closeBracket := by
  simp only [Kind.allows, List.contains_iff_mem, List.mem_cons, List.not_mem_nil, or_false,
    List.map_eq_cons_iff, List.map_eq_nil_iff] at allowed
  -- A bracket has three shapes, and in all of them the ends are brackets.
  rcases allowed with ⟨opening, _, rfl, opens, closing, _, rfl, closes, rfl⟩ |
    ⟨opening, _, rfl, opens, inner, _, rfl, _, closing, _, rfl, closes, rfl⟩ |
    ⟨opening, _, rfl, opens, inner, _, rfl, _, closing, _, rfl, closes, rfl⟩
  · exact ⟨opening, [], closing, rfl, opens, closes⟩
  · exact ⟨opening, [inner], closing, rfl, opens, closes⟩
  · exact ⟨opening, [inner], closing, rfl, opens, closes⟩

/-- A clause is laid out in full, whether a list follows its keyword or not. -/
theorem inkOf_partOps {keyword : Token} {list : Option Token} (lead : keyword.kind = .partToken)
    (spread : Bool) :
    inkOf (partOps (layoutAll spread (keyword :: list.toList))) =
      inkOf (inSequence (layoutAll spread (keyword :: list.toList))) := by
  -- The keyword is lexical, and laid out as such.
  have own : keyword.layout spread = keyword.verbatim :=
    Token.layout_lexical (by rw [lead]; rfl) spread
  cases list with
  | none => simp [partOps, inSequence, layoutAll, own, LayoutOp.ink, Text.ink, isBlank]
  | some list => simp [partOps, inSequence, layoutAll, own, LayoutOp.ink]

/-- A bracket is laid out in full, on one line or on several. -/
theorem inkOf_bracketOps {opening closing : Token} (opens : opening.kind = .openBracket)
    (closes : closing.kind = .closeBracket) (inner : List Token) (multiline spread : Bool) :
    inkOf (bracketOps multiline (layoutAll spread (opening :: (inner ++ [closing])))) =
      inkOf (inSequence (layoutAll spread (opening :: (inner ++ [closing])))) := by
  -- The two brackets are lexical, and what moves the margin has no ink.
  have own : opening.layout spread = opening.verbatim :=
    Token.layout_lexical (by rw [opens]; rfl) spread
  have own' : closing.layout spread = closing.verbatim :=
    Token.layout_lexical (by rw [closes]; rfl) spread
  cases multiline with
  | true => simp [bracketOps, inSequence, layoutAll, layoutAll_append, own, own', LayoutOp.ink]
  | false => simp [bracketOps, inSequence, layoutAll, layoutAll_append, own, own']

/-- A structural token that fits is laid out by its children, with only blanks between them. -/
theorem Token.Fits.inkOf_arrange {token : Token} (fits : token.Fits)
    (structural : token.kind.isLexical = false) (multiline spread : Bool) :
    inkOf (token.arrange multiline (layoutAll spread token.children)) =
      inkOf (inSequence (layoutAll spread token.children)) := by
  -- Every kind has its own way of putting children together, and all of them add blanks only.
  have plain := verbatim_layoutAll spread token.children
  have allowed := fits.children
  unfold Token.arrange
  generalize token.contains .statement = holds
  generalize token.kind = kind at structural allowed
  cases kind with
  | statement =>
    refine inkOf_statementOps plain ?_
    intro entry member residue
    -- The children are single statements, brackets and set operators.
    have among := mem_of_alternate allowed entry.1.kind
      (List.mem_map_of_mem (mem_layoutAll member).1)
    simp [residue] at among
  | singleStatement | minusExpr | funExpr => rfl
  | part =>
    obtain ⟨keyword, list, same, lead⟩ := exists_clause allowed
    rw [same]
    exact inkOf_partOps lead spread
  | listExpr => exact inkOf_listOps plain multiline
  | orExpr => exact inkOf_joinedBy rfl (ink_breakOrBlank _) (ink_breakOrBlank _) plain false
  | andExpr => exact inkOf_joinedBy rfl (ink_breakOrBlank _) rfl plain false
  | mathExpr | unaryPrefixExpr | atom => exact inkOf_spacedOut _ _
  | bracketExpr =>
    obtain ⟨opening, inner, closing, same, opens, closes⟩ := exists_brackets allowed
    rw [same]
    exact inkOf_bracketOps opens closes inner holds spread
  | unparsed => cases allowed
  | _ => cases structural

/-- Of the tokens that fit, the lexical ones are those with nothing below them. -/
theorem Token.Fits.isLexical_eq {token : Token} (fits : token.Fits) :
    token.kind.isLexical = token.children.isEmpty := by
  -- The two sorts of kind differ in whether they allow children.
  have allowed := fits.children
  generalize token.kind = kind at allowed ⊢
  generalize token.children = children at allowed ⊢
  cases children with
  | nil => cases kind <;> simp_all [Kind.isLexical, Kind.allows, alternate]
  | cons first rest => cases kind <;> simp_all [Kind.isLexical, Kind.allows]

/-- A lexical token is written as it is laid out, blanks aside. -/
theorem Token.ink_written {token : Token} (lexical : token.kind.isLexical = true) :
    Text.ink token.written = inkOf token.verbatim := by
  -- Residue is structural.
  have other : token.kind ≠ .unparsed := by
    intro residue
    rw [residue] at lexical
    cases lexical
  rw [inkOf_verbatim, Token.written, if_neg other, Text.ink_append]

mutual

/-- A tree all of whose nodes fit puts down the ink of its leaves. -/
theorem Token.inkOf_layout (multiline : Bool) : (tree : Token) →
    (∀ node ∈ Token.walk [tree], node.Fits) →
    inkOf (tree.layout multiline) = Text.ink tree.content
  | ⟨kind, text, [], comments⟩, fits => by
    -- A token with nothing below it is its own leaf.
    have lexical := (Token.forall_walk_cons.mp fits).1.isLexical_eq
    rw [Token.layout_lexical lexical, ← Token.ink_written lexical, Token.content, Token.tips,
      List.flatMap_singleton]
  | ⟨kind, text, first :: rest, comments⟩, fits => by
    -- Any other has the leaves of its children, and is laid out by them.
    obtain ⟨here, below, _⟩ := Token.forall_walk_cons.mp fits
    rw [Token.layout, here.inkOf_arrange here.isLexical_eq]
    exact Token.inkOf_layoutAll _ (first :: rest) below

/-- Trees all of whose nodes fit put down the ink of their leaves in order. -/
theorem Token.inkOf_layoutAll (multiline : Bool) : (trees : List Token) →
    (∀ node ∈ Token.walk trees, node.Fits) →
    inkOf (inSequence (layoutAll multiline trees)) =
      Text.ink ((Token.tipsAll trees).flatMap Token.written)
  | [], _ => rfl
  | first :: rest, fits => by
    -- The children are met one after the other, each with what is below it.
    obtain ⟨here, below, others⟩ := Token.forall_walk_cons.mp fits
    have one : ∀ node ∈ Token.walk [first], node.Fits :=
      Token.forall_walk_cons.mpr ⟨here, below, by simp [Token.walk]⟩
    have front := Token.inkOf_layout multiline first one
    have back := Token.inkOf_layoutAll multiline rest others
    rw [Token.tipsAll, List.flatMap_append, Text.ink_append, ← back]
    show inkOf (first.layout multiline ++ inSequence (layoutAll multiline rest)) = _
    rw [inkOf_append, front, Token.content]

end

/-- A token without text and comments of its own is written by the leaves of its children. -/
theorem Token.content_eq {token : Token} (plain : token.text = [] ∧ token.comments = [])
    (kind : token.kind = .statement) :
    token.content = (Token.tipsAll token.children).flatMap Token.written := by
  obtain ⟨_, text, children, comments⟩ := token
  cases kind
  obtain ⟨rfl, rfl⟩ := plain
  -- Without children it is a leaf itself, with nothing to write.
  cases children with
  | nil => rfl
  | cons first rest => rfl

/-- What holds of all that a reader of trees meets holds of the trees themselves. -/
theorem Token.forall_mem_of_walk {trees : List Token} {P : Token → Prop}
    (met : ∀ node ∈ Token.walk trees, P node) : ∀ tree ∈ trees, P tree := by
  -- A tree is met before what is below it.
  induction trees with
  | nil => exact nofun
  | cons tree trees ih =>
    obtain ⟨here, _, others⟩ := Token.forall_walk_cons.mp met
    exact List.forall_mem_cons.mpr ⟨here, ih others⟩

/-- A statement puts down the ink of its leaves, and of its residue below the marker line. -/
theorem Token.FitsRoot.inkOf_layout {root : Token} (fits : root.FitsRoot) :
    inkOf (root.layout true) = Text.ink root.content := by
  -- A root is its body and, behind that, at most one residue.
  obtain ⟨kind, own, body, rest, split, _, below, residue⟩ := fits
  have other : ∀ entry ∈ layoutAll true body, entry.1.kind ≠ .unparsed := by
    -- A residue fits nowhere in front of the end.
    intro entry member kind
    have allowed := (Token.forall_mem_of_walk below entry.1 (mem_layoutAll member).1).children
    rw [kind] at allowed
    cases allowed
  have front := inkOf_statementOps (verbatim_layoutAll true body) other
  rw [Token.inkOf_layoutAll true body below] at front
  have laid : root.layout true = statementOps (layoutAll true root.children) := by
    obtain ⟨_, text, children, comments⟩ := root
    cases kind
    rfl
  rw [laid, Token.content_eq own kind, split, layoutAll_append, statementOps_append, inkOf_append,
    front, Token.tipsAll_append, List.flatMap_append, Text.ink_append]
  congr 1
  rcases residue with rfl | ⟨text, rfl⟩
  · rfl
  · show inkOf [.startLine, .write unparsedMarker, .newline, .write text] =
      Text.ink (unparsedMarker ++ text ++ [])
    simp [LayoutOp.ink]

/--
Formatting drops, adds and reorders nothing but blanks.

This holds for every text and every way to recognise markers.
What is laid out of a parsed tree are its leaves, and the line that announces its residue.
-/
theorem ink_format (style : BindSyntax) (sql : Text) (width : IndentWidth) :
    Text.ink (format width (style.parse sql).root) = Text.ink (style.parse sql).root.content := by
  have fits : (style.parse sql).root.FitsRoot := by
    rw [style.root_parse]
    exact parseTokens_fitsRoot (style.tokens_fit sql)
  -- A writer begins with no ink at all.
  rw [format, Writer.ink_finish, Writer.ink_runAll, fits.inkOf_layout]
  exact List.nil_append _

end SqlLayout
