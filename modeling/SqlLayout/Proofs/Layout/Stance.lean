import SqlLayout.Proofs.Layout.Ink

/-!
Stances: where a writer stands, and which instructions lead from one stance to another.

A line that may be fresh takes neither a blank nor a margin, so that every line begins with a word.
The margin is never moved back further than it was moved to the right.
-/

namespace SqlLayout

/-- A text that neither begins nor ends with a blank, and that stays on one line. -/
structure Text.Tidy (text : Text) : Prop where
  /-- The first character is no blank. -/
  begins : ∃ c ∈ text.head?, isBlank c = false
  /-- The last character is no blank. -/
  ends : ∃ c ∈ text.getLast?, isBlank c = false
  /-- There is no line break. -/
  unbroken : '\n' ∉ text

/-- Where a writer stands. -/
structure Stance where
  /-- The number of widths the margin is to the right. -/
  level : Nat
  /-- Whether there may be no word on the line yet. -/
  fresh : Bool

/-- Whether instructions can be carried out in a stance, and the stance they lead to. -/
inductive Stance.Leads : Stance → List LayoutOp → Stance → Prop where
  | done (stance : Stance) : Leads stance [] stance
  | word {level : Nat} {fresh : Bool} {text : Text} {ops : List LayoutOp} {target : Stance}
      (tidy : text.Tidy) (rest : Leads ⟨level, false⟩ ops target) :
      Leads ⟨level, fresh⟩ (.write text :: ops) target
  | blank {level : Nat} {ops : List LayoutOp} {target : Stance}
      (rest : Leads ⟨level, false⟩ ops target) :
      Leads ⟨level, false⟩ (.write [' '] :: ops) target
  | indent {level : Nat} {ops : List LayoutOp} {target : Stance}
      (rest : Leads ⟨level + 1, false⟩ ops target) : Leads ⟨level, false⟩ (.indent :: ops) target
  | dedent {level : Nat} {fresh : Bool} {ops : List LayoutOp} {target : Stance}
      (rest : Leads ⟨level, fresh⟩ ops target) : Leads ⟨level + 1, fresh⟩ (.dedent :: ops) target
  | newline {level : Nat} {fresh : Bool} {ops : List LayoutOp} {target : Stance}
      (rest : Leads ⟨level, true⟩ ops target) : Leads ⟨level, fresh⟩ (.newline :: ops) target
  | startLine {level : Nat} {fresh : Bool} {ops : List LayoutOp} {target : Stance}
      (rest : Leads ⟨level, true⟩ ops target) : Leads ⟨level, fresh⟩ (.startLine :: ops) target
  -- What can be done on a line that may be fresh can be done on any line.
  | loosen {level : Nat} {ops : List LayoutOp} {target : Stance}
      (rest : Leads ⟨level, true⟩ ops target) : Leads ⟨level, false⟩ ops target

/-- Instructions one behind the other lead on. -/
theorem Stance.Leads.append {origin middle target : Stance} {front back : List LayoutOp}
    (leads : origin.Leads front middle) (leads' : middle.Leads back target) :
    origin.Leads (front ++ back) target := by
  -- The induction is on the instructions in front, one rule at a time.
  induction leads with
  | done => exact leads'
  | word tidy _ ih => exact .word tidy (ih leads')
  | blank _ ih => exact .blank (ih leads')
  | indent _ ih => exact .indent (ih leads')
  | dedent _ ih => exact .dedent (ih leads')
  | newline _ ih => exact .newline (ih leads')
  | startLine _ ih => exact .startLine (ih leads')
  | loosen _ ih => exact .loosen (ih leads')

/-- Whether instructions leave the margin where it was, from and to lines that may be fresh. -/
def Settles (before after : Bool) (ops : List LayoutOp) : Prop :=
  ∀ level, Stance.Leads ⟨level, before⟩ ops ⟨level, after⟩

/-- No instructions leave everything as it is. -/
theorem settles_nil (fresh : Bool) : Settles fresh fresh [] :=
  -- Nothing is moved, at any level.
  fun _ => .done _

/-- Instructions one behind the other leave the margin where it was. -/
theorem Settles.append {before middle after : Bool} {front back : List LayoutOp}
    (settles : Settles before middle front) (settles' : Settles middle after back) :
    Settles before after (front ++ back) :=
  -- The second part starts from where the first one ends.
  fun level => (settles level).append (settles' level)

/-- What can be done on a line that may be fresh can be done on any line. -/
theorem Settles.loosen {after : Bool} {ops : List LayoutOp} (settles : Settles true after ops)
    (before : Bool) : Settles before after ops := by
  -- A line that may be fresh or not is fresh enough.
  cases before with
  | true => exact settles
  | false => exact fun level => .loosen (settles level)

/-- A line with a word on it will do wherever a line may be fresh. -/
theorem Settles.relax {before : Bool} {ops : List LayoutOp} (settles : Settles before false ops)
    (after : Bool) : Settles before after ops := by
  -- A stance that is not fresh may be taken for one that may be.
  cases after with
  | false => exact settles
  | true =>
    have last := settles.append fun level => .loosen (.done ⟨level, true⟩)
    rwa [List.append_nil] at last

/-- A new line may be fresh. -/
theorem settles_newline (before : Bool) : Settles before true [.newline] :=
  -- Whatever stood before, a new line is fresh.
  fun _ => .newline (.done _)

/-- A line that is begun may be fresh. -/
theorem settles_startLine (before : Bool) : Settles before true [.startLine] :=
  -- Whatever stood before, the line is fresh then.
  fun _ => .startLine (.done _)

/-- A blank goes behind a word. -/
theorem settles_blank : Settles false false [.write [' ']] :=
  -- A blank behind ink leaves the line as it was.
  fun _ => .blank (.done _)

/-- A new line or a blank goes behind a word. -/
theorem settles_breakOrBlank (multiline : Bool) : Settles false true [breakOrBlank multiline] := by
  -- A break makes the line fresh, and a blank leaves it either way.
  cases multiline with
  | true => exact settles_newline false
  | false => exact settles_blank.relax true

/-- A tidy text goes anywhere. -/
theorem settles_word {text : Text} (tidy : text.Tidy) : Settles true false [.write text] :=
  -- A tidy word may stand anywhere.
  fun _ => .word tidy (.done _)

/-- What is laid out one by one may be carried out in order. -/
theorem settles_flatMap {α : Type} {items : List α} {each : α → List LayoutOp} {fresh : Bool}
    (all : ∀ item ∈ items, Settles fresh fresh (each item)) :
    Settles fresh fresh (items.flatMap each) := by
  induction items with
  | nil => exact settles_nil fresh
  | cons item items ih =>
    -- Each item leaves the stance as it found it, so that the next one begins there.
    obtain ⟨first, rest⟩ := List.forall_mem_cons.mp all
    exact first.append (ih rest)

/-- Whether the comments of a token and its text are tidy. -/
def Token.Tidy (token : Token) : Prop :=
  ∀ word ∈ token.words, word.Tidy

/-- A tidy token is put down word by word, with blanks between them. -/
theorem Token.Tidy.settles {token : Token} (tidy : token.Tidy) :
    Settles true false token.verbatim := by
  obtain ⟨comments, text⟩ := List.forall_mem_append.mp tidy
  -- Behind each comment stands a blank, and the text comes last.
  refine Settles.append (settles_flatMap fun comment member => ?_)
    (settles_word (text _ (List.mem_singleton_self _)))
  exact ((settles_word (comments comment member)).append settles_blank).relax true

/-- Whether each token of a list is laid out so that a word stands at its end. -/
def AllSettled (laid : List LaidOut) : Prop :=
  ∀ entry ∈ laid, Settles true false entry.2

/-- A lexical token among others is put down by its comments and its text. -/
theorem AllSettled.verbatim {laid : List LaidOut} (settled : AllSettled laid)
    (plain : Verbatim laid) {entry : LaidOut} (member : entry ∈ laid)
    (lexical : entry.1.kind.isLexical = true) :
    Settles true false entry.1.verbatim := by
  -- Its layout is what the entry was laid out as.
  rw [← plain entry member lexical]
  exact settled entry member

/-- Tokens one behind the other end with a word, if there are any. -/
theorem AllSettled.inSequence {laid : List LaidOut} (settled : AllSettled laid)
    (filled : laid ≠ []) : Settles true false (inSequence laid) := by
  -- The first entry begins the line, and the others may follow on it.
  obtain ⟨first, others, rfl⟩ := List.exists_cons_of_ne_nil filled
  obtain ⟨here, rest⟩ := List.forall_mem_cons.mp settled
  exact here.append (settles_flatMap fun entry member => (rest entry member).loosen false)

/-- Tokens with blanks between them end with a word, if there are any. -/
theorem AllSettled.spacedOut {laid : List LaidOut} (settled : AllSettled laid) (filled : laid ≠ [])
    (glued : Token → Bool) : Settles true false (spacedOut glued laid) := by
  obtain ⟨first, others, rfl⟩ := List.exists_cons_of_ne_nil filled
  obtain ⟨here, rest⟩ := List.forall_mem_cons.mp settled
  -- Every later child is put right behind the one before, or behind a blank.
  refine here.append (settles_flatMap ?_)
  rintro ⟨token, ops⟩ member
  have own := (rest _ member).loosen false
  simp only
  split
  · exact own
  · exact settles_blank.append own

/-- Behind a word the operators and operands of a chain end with a word. -/
theorem AllSettled.joinedBy {operator : Kind} {before between : LayoutOp} {laid : List LaidOut}
    (settled : AllSettled laid) (plain : Verbatim laid) (lexical : operator.isLexical = true)
    (gap : Settles false true [before]) (gap' : Settles false true [between]) (seen : Bool) :
    Settles false false (joinedBy operator before between seen laid) := by
  -- What an operator has been seen to change is only what is put in front of operands.
  induction laid generalizing seen with
  | nil => exact settles_nil false
  | cons entry laid ih =>
    obtain ⟨token, ops⟩ := entry
    have behind := ih (List.forall_mem_cons.mp settled).2 (List.forall_mem_cons.mp plain).2
    rw [SqlLayout.joinedBy]
    split
    · -- In front of an operator there is always a gap.
      rename_i same
      have own := settled.verbatim plain (.head laid) (by rw [same]; exact lexical)
      exact (gap.append own).append (behind true)
    · -- An operand in front of all operators begins where the chain does.
      have own := settled _ (.head laid)
      cases seen with
      | true => exact (gap'.append own).append (behind true)
      | false => exact (own.loosen false).append (behind false)

/-- The children of a statement are put down from one line to another. -/
theorem AllSettled.statementOps {laid : List LaidOut} (settled : AllSettled laid)
    (plain : Verbatim laid) (none : ∀ entry ∈ laid, entry.1.kind ≠ .unparsed) :
    Settles true true (statementOps laid) := by
  refine settles_flatMap ?_
  rintro ⟨token, ops⟩ member
  -- Each child begins a line, and a set operator closes its own.
  simp only
  split
  · rename_i union
    have own := settled.verbatim plain member (by rw [union]; rfl)
    exact ((settles_startLine true).append own).append (settles_newline false)
  · -- There is no residue among the children by assumption.
    rename_i residue
    exact absurd residue (none _ member)
  · exact ((settles_startLine true).append (settled _ member)).relax true

/-- The children of a list are put down from one line to another. -/
theorem AllSettled.listOps {laid : List LaidOut} (settled : AllSettled laid) (plain : Verbatim laid)
    (multiline : Bool) : Settles true true (listOps multiline laid) := by
  refine settles_flatMap ?_
  rintro ⟨token, ops⟩ member
  -- Behind a separator there is a gap, and no two items stand in a row.
  simp only
  split
  · rename_i separator
    have own := settled.verbatim plain member (by rw [separator]; rfl)
    exact own.append (settles_breakOrBlank multiline)
  · exact (settled _ member).relax true

/-- Trees whose kinds alternate begin with an operand, which is no separator. -/
theorem head_of_alternate {operand separator : Kind} {dangling : Bool} {trees : List Token}
    (turns : alternate [operand] separator dangling (trees.map Token.kind) = true)
    (apart : operand ≠ separator) :
    ∃ first rest, trees = first :: rest ∧ first.kind ≠ separator := by
  -- The first kind is that of the operand, whatever follows it.
  have begins : ∀ tree ∈ trees.head?, tree.kind = operand := by
    match trees with
    | [] => exact nofun
    | [first] =>
      rintro tree ⟨⟩
      simpa [alternate] using turns
    | first :: joint :: rest =>
      rintro tree ⟨⟩
      simp only [List.map_cons, alternate, Bool.and_eq_true, List.contains_iff_mem] at turns
      exact List.mem_singleton.mp turns.1.1
  cases trees with
  | nil => cases turns
  | cons first rest =>
    refine ⟨first, rest, rfl, ?_⟩
    rw [begins first rfl]
    exact apart

/-- Kinds that alternate end with an operand, if no separator may dangle. -/
theorem last_of_alternate {operands kinds : List Kind} {separator : Kind}
    (turns : alternate operands separator false kinds = true) :
    ∃ front last, kinds = front ++ [last] ∧ last ∈ operands := by
  -- That nothing dangles is said of the same argument at every turn.
  generalize dangling_eq : false = dangling at turns
  fun_induction alternate operands separator dangling kinds with
  | case1 => cases turns
  | case2 operand => exact ⟨[], operand, rfl, by simpa using turns⟩
  | case3 operand joint rest ih =>
    simp only [Bool.and_eq_true] at turns
    -- A separator is never the last one, as none dangles.
    have behind := turns.2
    split at behind
    · rw [← dangling_eq] at behind
      cases behind
    · obtain ⟨front, last, rfl, member⟩ := ih behind
      exact ⟨operand :: joint :: front, last, rfl, member⟩

/-- Trees are laid out to end with a word when those in front and behind are. -/
theorem settled_append {multiline : Bool} {front back : List Token} :
    AllSettled (layoutAll multiline (front ++ back)) ↔
      AllSettled (layoutAll multiline front) ∧ AllSettled (layoutAll multiline back) := by
  -- The entries of the one list stand in front of those of the other.
  unfold AllSettled
  rw [layoutAll_append, List.forall_mem_append]

/-- The first of trees is laid out to end with a word, and so are those behind it. -/
theorem settled_cons {multiline : Bool} {first : Token} {rest : List Token} :
    AllSettled (layoutAll multiline (first :: rest)) ↔
      Settles true false (first.layout multiline) ∧ AllSettled (layoutAll multiline rest) :=
  -- The first entry stands in front of the others.
  List.forall_mem_cons

/-- A statement ends with its last operand. -/
theorem settles_statement {children : List Token} {spread : Bool}
    (allowed : Kind.allows .statement (children.map Token.kind) = true)
    (settled : AllSettled (layoutAll spread children)) :
    Settles true false (statementOps (layoutAll spread children)) := by
  -- Neither a set operator nor residue is an operand, and residue is no child at all.
  have none : ∀ entry ∈ layoutAll spread children, entry.1.kind ≠ .unparsed := by
    intro entry member residue
    have among := mem_of_alternate allowed entry.1.kind
      (List.mem_map_of_mem (mem_layoutAll member).1)
    simp [residue] at among
  obtain ⟨_, _, split, operand⟩ := last_of_alternate allowed
  obtain ⟨front, back, rfl, rfl, single⟩ := List.map_eq_append_iff.mp split
  obtain ⟨last, rfl, rfl⟩ := List.map_eq_singleton_iff.mp single
  obtain ⟨before, here⟩ := settled_append.mp settled
  have body : Settles true false (statementOps (layoutAll spread [last])) := by
    have own := (settles_startLine true).append (settled_cons.mp here).1
    simp only [List.mem_cons, List.not_mem_nil, or_false] at operand
    rcases operand with kind | kind
    · simpa [layoutAll, statementOps, kind] using own
    · simpa [layoutAll, statementOps, kind] using own
  rw [layoutAll_append, List.forall_mem_append] at none
  rw [layoutAll_append, statementOps_append]
  exact (before.statementOps (verbatim_layoutAll spread front) none.1).append body

/-- A list ends with its last item. -/
theorem settles_list {children : List Token} {spread : Bool}
    (allowed : Kind.allows .listExpr (children.map Token.kind) = true)
    (settled : AllSettled (layoutAll spread children)) (multiline : Bool) :
    Settles true false (listOps multiline (layoutAll spread children)) := by
  -- The last item is followed by no separator, so the line is left with a word on it.
  obtain ⟨_, _, split, operand⟩ := last_of_alternate allowed
  obtain ⟨front, back, rfl, rfl, single⟩ := List.map_eq_append_iff.mp split
  obtain ⟨last, rfl, rfl⟩ := List.map_eq_singleton_iff.mp single
  obtain ⟨before, here⟩ := settled_append.mp settled
  have body : Settles true false (listOps multiline (layoutAll spread [last])) := by
    have kind := List.mem_singleton.mp operand
    simpa [layoutAll, listOps, kind] using (settled_cons.mp here).1
  rw [layoutAll_append, listOps_append]
  exact (before.listOps (verbatim_layoutAll spread front) multiline).append body

/-- Operands and operators end with a word, where the first of them is an operand. -/
theorem settles_chain {first : Token} {rest : List Token} {spread : Bool} {operator : Kind}
    {before between : LayoutOp} (apart : first.kind ≠ operator)
    (lexical : operator.isLexical = true) (settled : AllSettled (layoutAll spread (first :: rest)))
    (gap : Settles false true [before]) (gap' : Settles false true [between]) :
    Settles true false
      (joinedBy operator before between false (layoutAll spread (first :: rest))) := by
  obtain ⟨here, later⟩ := settled_cons.mp settled
  -- An operator has to be seen before a gap is put in front of an operand.
  have behind := later.joinedBy (verbatim_layoutAll spread rest) lexical gap gap' false
  rw [layoutAll, joinedBy, if_neg apart]
  exact here.append behind

/-- A clause moves the margin for its list, and back. -/
theorem settles_part {keyword : Token} {list : Option Token} {spread : Bool}
    (lead : keyword.kind = .partToken)
    (settled : AllSettled (layoutAll spread (keyword :: list.toList))) :
    Settles true false (partOps (layoutAll spread (keyword :: list.toList))) := by
  obtain ⟨own, later⟩ := settled_cons.mp settled
  rw [Token.layout_lexical (by rw [lead]; rfl)] at own
  -- What stands at the new margin ends with a word, or is a single blank.
  have within : ∀ {ops}, Settles false false ops →
      Settles true false (.startLine :: keyword.verbatim ++ .indent :: ops ++ [.dedent]) := by
    intro ops inner level
    have body : Stance.Leads ⟨level, false⟩ (.indent :: ops ++ [.dedent]) ⟨level, false⟩ :=
      .indent ((inner (level + 1)).append (.dedent (.done _)))
    have whole := ((settles_startLine true level).append (own level)).append body
    simpa using whole
  cases list with
  | none => exact within settles_blank
  | some list => exact within ((settled_cons.mp later).1.loosen false)

/-- A bracket moves the margin for what it holds, and back, if it is laid out on several lines. -/
theorem settles_bracket {opening closing : Token} {inner : List Token} {spread : Bool}
    (opens : opening.kind = .openBracket) (closes : closing.kind = .closeBracket)
    (settled : AllSettled (layoutAll spread (opening :: (inner ++ [closing])))) (multiline : Bool) :
    Settles true false
      (bracketOps multiline (layoutAll spread (opening :: (inner ++ [closing])))) := by
  -- A bracket is its two ends with the contents between them, on one line or on several.
  obtain ⟨front, later⟩ := settled_cons.mp settled
  obtain ⟨middle, back⟩ := settled_append.mp later
  -- Both ends are lexical, and so they are words of their own.
  have back := (settled_cons.mp back).1
  rw [Token.layout_lexical (by rw [opens]; rfl)] at front
  rw [Token.layout_lexical (by rw [closes]; rfl)] at back
  -- The contents keep the stance, whichever it is.
  have held : ∀ {fresh}, Settles fresh fresh (inSequence (layoutAll spread inner)) := by
    intro fresh
    refine settles_flatMap fun entry member => ?_
    cases fresh with
    | true => exact (middle entry member).relax true
    | false => exact (middle entry member).loosen false
  rw [bracketOps_eq]
  -- On several lines the margin moves around the contents, on one line nothing moves.
  cases multiline with
  | true =>
    have lines : Settles false true (.indent :: .newline ::
        inSequence (layoutAll spread inner) ++ [.dedent, .newline]) :=
      fun level => .indent (.newline ((held (level + 1)).append (.dedent (.newline (.done _)))))
    exact front.append (lines.append back)
  | false => exact front.append (held.append (back.loosen false))

/-- A structural token that fits ends with a word, if its children do. -/
theorem Token.Fits.settles_arrange {token : Token} (fits : token.Fits)
    (structural : token.kind.isLexical = false) {spread : Bool}
    (settled : AllSettled (layoutAll spread token.children)) (multiline : Bool) :
    Settles true false (token.arrange multiline (layoutAll spread token.children)) := by
  -- Whatever the kind, there is at least one child to begin with.
  have allowed := fits.children
  have filled : layoutAll spread token.children ≠ [] := by
    have below := fits.isLexical_eq
    rw [structural] at below
    have some := List.isEmpty_eq_false_iff.mp below.symm
    obtain ⟨first, rest, children⟩ := List.exists_cons_of_ne_nil some
    rw [children]
    exact List.cons_ne_nil _ _
  unfold Token.arrange
  -- From here on the kind alone decides, so that the token is forgotten.
  generalize token.contains .statement = holds
  generalize token.kind = kind at structural allowed
  cases kind with
  | statement => exact settles_statement allowed settled
  | singleStatement | minusExpr | funExpr => exact settled.inSequence filled
  | part =>
    obtain ⟨keyword, list, same, lead⟩ := exists_clause allowed
    rw [same] at settled ⊢
    exact settles_part lead settled
  | listExpr => exact settles_list allowed settled multiline
  | orExpr =>
    obtain ⟨first, rest, same, operand⟩ := head_of_alternate allowed nofun
    rw [same] at settled ⊢
    exact settles_chain operand rfl settled (settles_breakOrBlank _) (settles_breakOrBlank _)
  | andExpr =>
    obtain ⟨first, rest, same, operand⟩ := head_of_alternate allowed nofun
    rw [same] at settled ⊢
    exact settles_chain operand rfl settled (settles_breakOrBlank _) (settles_blank.relax true)
  | mathExpr | unaryPrefixExpr | atom => exact settled.spacedOut filled _
  | bracketExpr =>
    obtain ⟨opening, inner, closing, same, opens, closes⟩ := exists_brackets allowed
    rw [same] at settled ⊢
    exact settles_bracket opens closes settled holds
  | unparsed => cases allowed
  | _ => cases structural

mutual

/-- A tree all of whose nodes fit is laid out to end with a word, if its leaves are tidy. -/
theorem Token.settles_layout (multiline : Bool) : (tree : Token) →
    (∀ node ∈ Token.walk [tree], node.Fits) → (∀ leaf ∈ tree.tips, leaf.Tidy) →
    Settles true false (tree.layout multiline)
  | ⟨kind, text, [], comments⟩, fits, tidy => by
    -- A token with nothing below it is its own leaf.
    have lexical := (Token.forall_walk_cons.mp fits).1.isLexical_eq
    rw [Token.layout_lexical lexical]
    exact (tidy _ (List.mem_singleton_self _)).settles
  | ⟨kind, text, first :: rest, comments⟩, fits, tidy => by
    -- A node is laid out around its children, each of which settles.
    obtain ⟨here, below, _⟩ := Token.forall_walk_cons.mp fits
    rw [Token.layout]
    exact here.settles_arrange here.isLexical_eq
      (Token.settled_layoutAll _ (first :: rest) below tidy) _

/-- So are trees in a row. -/
theorem Token.settled_layoutAll (multiline : Bool) : (trees : List Token) →
    (∀ node ∈ Token.walk trees, node.Fits) → (∀ leaf ∈ Token.tipsAll trees, leaf.Tidy) →
    AllSettled (layoutAll multiline trees)
  | [], _, _ => nofun
  | first :: rest, fits, tidy => by
    -- What fits and is tidy is passed on to the first tree and to the others.
    obtain ⟨here, below, others⟩ := Token.forall_walk_cons.mp fits
    obtain ⟨front, back⟩ := List.forall_mem_append.mp tidy
    have one : ∀ node ∈ Token.walk [first], node.Fits :=
      Token.forall_walk_cons.mpr ⟨here, below, by simp [Token.walk]⟩
    exact settled_cons.mpr ⟨Token.settles_layout multiline first one front,
      Token.settled_layoutAll multiline rest others back⟩

end

/-- A tree that is as the grammar has it, and has tidy leaves. -/
structure Token.Sound (tree : Token) : Prop where
  /-- Every node fits. -/
  fits : ∀ node ∈ Token.walk [tree], node.Fits
  /-- Every leaf is tidy. -/
  tidy : ∀ leaf ∈ tree.tips, leaf.Tidy

/-- The children of a sound tree are laid out to end with words. -/
theorem Token.Sound.settled {tree : Token} (sound : tree.Sound) (multiline : Bool) :
    AllSettled (layoutAll multiline tree.children) := by
  obtain ⟨fits, tidy⟩ := sound
  obtain ⟨kind, text, children, comments⟩ := tree
  -- A token with nothing below it has no children to lay out.
  cases children with
  | nil => exact nofun
  | cons first rest =>
    exact Token.settled_layoutAll multiline _ (Token.forall_walk_cons.mp fits).2.1 tidy

/-- The children of a sound tree are sound. -/
theorem Token.Sound.child {tree child : Token} (sound : tree.Sound)
    (member : child ∈ tree.children) : child.Sound := by
  obtain ⟨fits, tidy⟩ := sound
  obtain ⟨kind, text, children, comments⟩ := tree
  obtain ⟨front, back, rfl⟩ := List.append_of_mem member
  have below := (Token.forall_walk_cons.mp fits).2.1
  have tips : ∀ leaf ∈ Token.tipsAll (front ++ child :: back), leaf.Tidy := by
    -- A token with a child has the leaves of its children.
    cases front with
    | nil => exact tidy
    | cons first front => exact tidy
  rw [Token.walk_append, List.forall_mem_append] at below
  rw [Token.tipsAll_append, List.forall_mem_append] at tips
  obtain ⟨here, deeper, _⟩ := Token.forall_walk_cons.mp below.2
  exact ⟨Token.forall_walk_cons.mpr ⟨here, deeper, by simp [Token.walk]⟩,
    (List.forall_mem_append.mp tips.2).1⟩

end SqlLayout
