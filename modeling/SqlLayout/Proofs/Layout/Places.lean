import SqlLayout.Proofs.Layout.Stance

/-!
Places: where a token stands in a tree, and where its layout stands within that of the tree.

The way to a token is a list of child numbers from the root down.
-/

namespace SqlLayout

/-- Where a token stands in a tree. -/
structure Place where
  /-- The kinds of the tokens above it, the outermost in front. -/
  above : List Kind
  /-- The leaves in front of it, in pre-order. -/
  before : List Token
  /-- The token itself. -/
  node : Token
  deriving DecidableEq

namespace Token

/-- The place that a way down a tree leads to, if there is a token. -/
def place? (tree : Token) : (way : List Nat) → Option Place
  | [] => some ⟨[], [], tree⟩
  | number :: way => do
    let child ← tree.children[number]?
    let place ← child.place? way
    -- All that is in front of the child is in front of what is below it.
    let before := tipsAll (tree.children.take number) ++ place.before
    return ⟨tree.kind :: place.above, before, place.node⟩

/-- A way down a tree leads through one of the children, unless it ends at once. -/
theorem place?_cons {tree : Token} {number : Nat} {way : List Nat} {place : Place} :
    tree.place? (number :: way) = some place ↔
      ∃ front child back inner, tree.children = front ++ child :: back ∧ front.length = number ∧
        child.place? way = some inner ∧
        place = ⟨tree.kind :: inner.above, tipsAll front ++ inner.before, inner.node⟩ := by
  constructor
  · intro reached
    obtain ⟨child, present, reached⟩ := Option.bind_eq_some_iff.mp reached
    obtain ⟨inner, below, same⟩ := Option.bind_eq_some_iff.mp reached
    obtain ⟨within, rfl⟩ := List.getElem?_eq_some_iff.mp present
    -- the number cuts the children into those before the child, the child, and those behind it
    refine ⟨tree.children.take number, _, tree.children.drop (number + 1), inner, ?_, ?_, below,
      (Option.some.inj same).symm⟩
    · rw [← List.drop_eq_getElem_cons within, List.take_append_drop]
    · exact List.length_take_of_le (Nat.le_of_lt within)
  · rintro ⟨front, child, back, inner, children, rfl, below, rfl⟩
    simp only [place?, children, List.getElem?_append_right (Nat.le_refl _), Nat.sub_self,
      List.getElem?_cons_zero, List.take_left, Option.bind_eq_bind, Option.bind_some, below]
    rfl

/-- What stands at a place of a sound tree is sound. -/
theorem Sound.place {tree : Token} (sound : tree.Sound) {way : List Nat} {place : Place}
    (reached : tree.place? way = some place) : place.node.Sound := by
  -- Along the way each step goes to a child, and a child of a sound tree is sound.
  induction way generalizing tree place with
  | nil =>
    cases reached
    exact sound
  | cons number way ih =>
    obtain ⟨front, child, back, inner, children, _, below, rfl⟩ := place?_cons.mp reached
    have member : child ∈ tree.children := by simp [children]
    exact @ih child (sound.child member) inner below

/-- The node at the front of a sound tree fits. -/
theorem Sound.here {tree : Token} (sound : tree.Sound) : tree.Fits :=
  -- The tree is the first token that a reader of it meets.
  (forall_walk_cons.mp sound.fits).1

/-- A token on the way to a clause is no lexical one. -/
theorem Sound.structural {tree : Token} (sound : tree.Sound) {way : List Nat} {place : Place}
    (reached : tree.place? way = some place) (clause : place.node.kind = .part) :
    tree.kind.isLexical = false := by
  cases way with
  | nil =>
    cases reached
    rw [clause]
    rfl
  | cons number way =>
    -- There is something below it.
    obtain ⟨front, child, back, _, children, _⟩ := place?_cons.mp reached
    rw [sound.here.isLexical_eq, children]
    simp

/-- Only a single statement has clauses right below it, and only a statement single statements. -/
theorem Fits.parent {token child : Token} (fits : token.Fits) (member : child ∈ token.children) :
    (child.kind = .part → token.kind = .singleStatement) ∧
      (child.kind = .singleStatement → token.kind = .statement) := by
  -- What a token that fits allows is listed for every kind.
  have allowed := fits.children
  have among : child.kind ∈ token.children.map Token.kind := List.mem_map_of_mem member
  generalize token.kind = kind at allowed ⊢
  generalize token.children.map Token.kind = kinds at allowed among
  generalize child.kind = inner at among
  -- The other kinds list the kinds of their children, or those that alternate.
  cases kind with
  | singleStatement =>
    simp only [Kind.allows, Bool.and_eq_true, List.all_eq_true, beq_iff_eq] at allowed
    simp [allowed.2 inner among]
  | statement | listExpr | orExpr | andExpr | mathExpr =>
    have either := mem_of_alternate allowed inner among
    simp only [List.mem_cons, List.not_mem_nil, or_false] at either
    refine ⟨?_, ?_⟩ <;> rintro rfl <;> simp at either ⊢
  | atom =>
    obtain ⟨head, tail, rfl⟩ := List.exists_cons_of_ne_nil (List.ne_nil_of_mem among)
    simp only [Kind.allows, Bool.and_eq_true, List.contains_iff_mem, List.head?_cons,
      Option.any_some, List.tail_cons] at allowed
    grind
  | part | bracketExpr | unaryPrefixExpr | minusExpr | funExpr =>
    simp only [Kind.allows, List.contains_iff_mem, beq_iff_eq] at allowed
    grind
  | _ => simp_all [Kind.allows]

/-- What a reader of a child meets is below the token. -/
theorem mem_descendants {token child : Token} (member : child ∈ token.children) :
    ∀ node ∈ walk [child], node ∈ token.descendants := by
  -- the walk of the children is the walks of those before, of the child and of those behind
  obtain ⟨front, back, split⟩ := List.append_of_mem member
  intro node met
  rw [descendants, split, ← List.singleton_append, walk_append, walk_append]
  simp [met]

/-- What has a clause somewhere below it has a statement there, unless it is next to the clause. -/
theorem Sound.contains_statement {tree : Token} (sound : tree.Sound) {way : List Nat}
    {place : Place} (reached : tree.place? way = some place) (clause : place.node.kind = .part)
    (apart : tree.kind ∉ [.statement, .singleStatement, .part]) :
    tree.contains .statement = true := by
  -- Down the way the clause comes nearer, and the last two steps to it are through a statement.
  induction way generalizing tree place with
  | nil =>
    cases reached
    exact absurd (List.mem_cons_of_mem _ (List.mem_cons_of_mem _ (List.mem_singleton.mpr clause)))
      apart
  | cons number way ih =>
    obtain ⟨front, child, back, inner, children, _, below, rfl⟩ := place?_cons.mp reached
    have member : child ∈ tree.children := by simp [children]
    have within := mem_descendants member
    obtain ⟨part, single⟩ := sound.here.parent member
    by_cases statement : child.kind = .statement
    · have here : child ∈ tree.descendants := within child (by rw [walk]; exact .head _)
      exact List.any_eq_true.mpr ⟨child, here, beq_iff_eq.mpr statement⟩
    · -- Neither a clause nor a single statement is right below the token.
      have apart' : child.kind ∉ [.statement, .singleStatement, .part] := by
        simp only [List.mem_cons, List.not_mem_nil, or_false, not_or] at apart ⊢
        exact ⟨statement, fun kind => apart.1 (single kind), fun kind => apart.2.1 (part kind)⟩
      have deeper := @ih child (sound.child member) inner below clause apart'
      obtain ⟨node, met, kind⟩ := List.any_eq_true.mp deeper
      have here : node ∈ walk [child] := by
        rw [walk, List.append_nil]
        exact .tail child met
      exact List.any_eq_true.mpr ⟨node, within node here, kind⟩

end Token

/--
Whether instructions have others among them, behind some ink and with the margin moved.

Where the inner ones begin, the line may be fresh.
-/
def Frames (ops inner : List LayoutOp) (ink : Text) (deeper : Nat) : Prop :=
  ∃ front back, ops = front ++ (inner ++ back) ∧ inkOf front = ink ∧
    ∀ level, Stance.Leads ⟨level, true⟩ front ⟨level + deeper, true⟩

/-- Instructions are among themselves. -/
theorem frames_self (ops : List LayoutOp) : Frames ops ops [] 0 :=
  -- Nothing stands on either side of the instructions.
  ⟨[], [], (List.append_nil ops).symm, rfl, fun _ => .done _⟩

/-- What is among instructions among others is among those. -/
theorem Frames.trans {outer middle inner : List LayoutOp} {ink ink' : Text} {deeper deeper' : Nat}
    (frames : Frames outer middle ink deeper) (frames' : Frames middle inner ink' deeper') :
    Frames outer inner (ink ++ ink') (deeper + deeper') := by
  obtain ⟨front, back, rfl, rfl, leads⟩ := frames
  obtain ⟨front', back', rfl, rfl, leads'⟩ := frames'
  -- what opened first is closed last, and the two runs before the part add up
  refine ⟨front ++ front', back' ++ back, by simp, inkOf_append front front', fun level => ?_⟩
  -- the inner run starts where the outer one left off, as many levels deep
  rw [← Nat.add_assoc]
  exact (leads level).append (leads' (level + deeper))

/-- What is among instructions is among them with more behind. -/
theorem Frames.append {ops inner : List LayoutOp} {ink : Text} {deeper : Nat}
    (frames : Frames ops inner ink deeper) (more : List LayoutOp) :
    Frames (ops ++ more) inner ink deeper := by
  -- What is added behind stands behind the inner instructions too.
  obtain ⟨front, back, rfl, same, leads⟩ := frames
  exact ⟨front, back ++ more, by simp, same, leads⟩

/-- Instructions behind those that leave the margin where it was. -/
theorem Settles.frames {front : List LayoutOp} (settles : Settles true true front)
    (inner back : List LayoutOp) : Frames (front ++ (inner ++ back)) inner (inkOf front) 0 :=
  -- The front ends on a fresh line, and all of its ink is before the inner instructions.
  ⟨front, back, rfl, rfl, settles⟩

section Children

variable {front back : List Token} {child : Token} {spread : Bool}

/-- Trees in front of a child, the child and trees behind it are laid out one by one. -/
theorem layoutAll_split (front back : List Token) (child : Token) (spread : Bool) :
    layoutAll spread (front ++ child :: back) =
      layoutAll spread front ++ (child, child.layout spread) :: layoutAll spread back :=
  -- The children are laid out one by one.
  layoutAll_append spread front (child :: back)

/-- A child stands behind the children in front of it. -/
theorem frames_inSequence (settled : AllSettled (layoutAll spread front)) :
    Frames (inSequence (layoutAll spread (front ++ child :: back))) (child.layout spread)
      (inkOf (inSequence (layoutAll spread front))) 0 := by
  -- what comes before has settled where it began, so the child is laid at that depth
  have before : Settles true true (inSequence (layoutAll spread front)) :=
    settles_flatMap fun entry member => (settled entry member).relax true
  have laid := before.frames (child.layout spread) (inSequence (layoutAll spread back))
  rw [layoutAll_split]
  simpa [inSequence] using laid

/-- A child of a statement begins a line. -/
theorem frames_statementOps (settled : AllSettled (layoutAll spread front))
    (none : ∀ tree ∈ front, tree.kind ≠ .unparsed)
    (apart : child.kind ≠ .unionToken ∧ child.kind ≠ .unparsed) :
    Frames (statementOps (layoutAll spread (front ++ child :: back))) (child.layout spread)
      (inkOf (inSequence (layoutAll spread front))) 0 := by
  -- A separator is on a line with nothing else, and any other child begins one.
  have plain := verbatim_layoutAll spread front
  have none' : ∀ entry ∈ layoutAll spread front, entry.1.kind ≠ .unparsed :=
    fun entry member => none entry.1 (mem_layoutAll member).1
  -- before the child comes a fresh line, which leaves no ink
  have before := (settled.statementOps plain none').append (settles_startLine true)
  have laid := before.frames (child.layout spread) (statementOps (layoutAll spread back))
  have ink : inkOf (statementOps (layoutAll spread front) ++ [.startLine]) =
      inkOf (inSequence (layoutAll spread front)) := by
    rw [inkOf_append, inkOf_statementOps plain none']
    simp [LayoutOp.ink]
  rw [ink] at laid
  -- and the statement is cut right at the child, which no separator of its own precedes
  have same : statementOps (layoutAll spread (front ++ child :: back)) =
      statementOps (layoutAll spread front) ++ [.startLine] ++
        (child.layout spread ++ statementOps (layoutAll spread back)) := by
    rw [layoutAll_split, statementOps_append]
    simp [statementOps, apart.1, apart.2]
  rwa [same]

/-- An item of a list stands behind the items in front of it. -/
theorem frames_listOps (settled : AllSettled (layoutAll spread front)) (multiline : Bool)
    (apart : child.kind ≠ .listSeparator) :
    Frames (listOps multiline (layoutAll spread (front ++ child :: back))) (child.layout spread)
      (inkOf (inSequence (layoutAll spread front))) 0 := by
  have plain := verbatim_layoutAll spread front
  have laid := (settled.listOps plain multiline).frames (child.layout spread)
    -- a list writes nothing in front of an element beyond what its separator left
    (listOps multiline (layoutAll spread back))
  rw [inkOf_listOps plain] at laid
  have same : listOps multiline (layoutAll spread (front ++ child :: back)) =
      listOps multiline (layoutAll spread front) ++
        (child.layout spread ++ listOps multiline (layoutAll spread back)) := by
    rw [layoutAll_split, listOps_append]
    simp [listOps, apart]
  rwa [same]

/-- A child that is not glued on stands behind a blank, or in front. -/
theorem frames_spacedOut (settled : AllSettled (layoutAll spread front)) (glued : Token → Bool)
    (apart : glued child = false) :
    Frames (spacedOut glued (layoutAll spread (front ++ child :: back))) (child.layout spread)
      (inkOf (inSequence (layoutAll spread front))) 0 := by
  -- The children in front are written with blanks between them.
  cases front with
  -- the first child has nothing before it; any other follows one blank
  | nil => exact ⟨[], _, rfl, rfl, fun _ => .done _⟩
  | cons first rest =>
    have filled : layoutAll spread (first :: rest) ≠ [] := List.cons_ne_nil _ _
    have before := ((settled.spacedOut filled glued).append settles_blank).relax true
    have ink : inkOf (spacedOut glued (layoutAll spread (first :: rest)) ++ [.write [' ']]) =
        inkOf (inSequence (layoutAll spread (first :: rest))) := by
      rw [inkOf_append, inkOf_spacedOut]
      exact List.append_nil _
    let behind := (layoutAll spread back).flatMap fun entry =>
      if glued entry.1 then entry.2 else .write [' '] :: entry.2
    have same : spacedOut glued (layoutAll spread (first :: rest ++ child :: back)) =
        spacedOut glued (layoutAll spread (first :: rest)) ++ [.write [' ']] ++
          (child.layout spread ++ behind) := by
      rw [layoutAll_split]
      simp [layoutAll, spacedOut, apart, behind]
    have laid := before.frames (child.layout spread) behind
    rwa [ink, ← same] at laid

/-- An operand among others stands behind those in front, maybe with an instruction between. -/
theorem exists_joinedBy {operator : Kind} (before between : LayoutOp) (seen : Bool)
    (laid behind : List LaidOut) (token : Token) (ops : List LayoutOp)
    (apart : token.kind ≠ operator) :
    ∃ seen' back, joinedBy operator before between seen (laid ++ (token, ops) :: behind) =
      joinedBy operator before between seen laid ++
        ((if seen' then [between] else []) ++ (ops ++ back)) ∧ (laid = [] → seen' = seen) := by
  -- whether a line was begun at the child depends on the operators among the children before it
  induction laid generalizing seen with
  | nil =>
    refine ⟨seen, joinedBy operator before between seen behind, ?_, fun _ => rfl⟩
    rw [List.nil_append, joinedBy.eq_2, if_neg apart]
    simp [joinedBy]
  | cons entry laid ih =>
    obtain ⟨first, front⟩ := entry
    rw [List.cons_append, joinedBy, joinedBy]
    split
    · obtain ⟨seen', back, same, _⟩ := ih true
      exact ⟨seen', back, by rw [same]; simp, fun empty => absurd empty (List.cons_ne_nil _ _)⟩
    · obtain ⟨seen', back, same, _⟩ := ih seen
      exact ⟨seen', back, by rw [same]; simp, fun empty => absurd empty (List.cons_ne_nil _ _)⟩

/-- An operand of a chain stands behind the operands and operators in front of it. -/
theorem frames_joinedBy {operator operand : Kind} {dangling : Bool} {before between : LayoutOp}
    (allowed : alternate [operand] operator dangling
      ((front ++ child :: back).map Token.kind) = true) (other : operand ≠ operator)
    (lexical : operator.isLexical = true) (settled : AllSettled (layoutAll spread front))
    (gap : Settles false true [before]) (gap' : Settles false true [between])
    (blank : before.ink = []) (blank' : between.ink = []) (apart : child.kind ≠ operator) :
    Frames (joinedBy operator before between false (layoutAll spread (front ++ child :: back)))
      (child.layout spread) (inkOf (inSequence (layoutAll spread front))) 0 := by
  -- The chain is cut at the operand, behind the separator that stands in front of it.
  have plain := verbatim_layoutAll spread front
  obtain ⟨seen, behind, same, none⟩ := exists_joinedBy before between false (layoutAll spread front)
    (layoutAll spread back) child (child.layout spread) apart
  have ink : inkOf (joinedBy operator before between false (layoutAll spread front) ++
      if seen then [between] else []) = inkOf (inSequence (layoutAll spread front)) := by
    rw [inkOf_append, inkOf_joinedBy lexical blank blank' plain]
    cases seen <;> simp [blank']
  have leads : Settles true true (joinedBy operator before between false (layoutAll spread front) ++
      if seen then [between] else []) := by
    cases front with
    | nil =>
      rw [none rfl]
      exact settles_nil true
    | cons first rest =>
      -- What stands in front begins with an operand, and so ends with a word.
      obtain ⟨_, _, split, operand⟩ := head_of_alternate allowed other
      obtain ⟨rfl, rfl⟩ := List.cons.inj split
      have chain := settles_chain operand lexical settled gap gap'
      cases seen with
      | true => exact chain.append gap'
      | false => exact (chain.append (settles_nil false)).relax true
  have laid := leads.frames (child.layout spread) behind
  rw [ink] at laid
  rwa [layoutAll_split, same, ← List.append_assoc]

/-- The list of a clause stands behind its keyword, at the next margin. -/
theorem frames_partOps {keyword list : Token} (lead : keyword.kind = .partToken)
    (settled : AllSettled (layoutAll spread [keyword])) :
    Frames (partOps (layoutAll spread [keyword, list])) (list.layout spread)
      (inkOf (inSequence (layoutAll spread [keyword]))) 1 := by
  have own := (settled_cons.mp settled).1
  have plain : keyword.layout spread = keyword.verbatim :=
    Token.layout_lexical (by rw [lead]; rfl) spread
  -- the lead word stands on its own line and what it leads is one level in
  refine ⟨.startLine :: keyword.layout spread ++ [.indent], [.dedent], ?_, ?_, fun level => ?_⟩
  · rw [plain]
    simp [partOps, layoutAll]
  · simp [inSequence, layoutAll, LayoutOp.ink]
  · exact ((settles_startLine true level).append (own level)).append
      (.indent (.loosen (.done _)))

/-- What a bracket on several lines holds begins a line at the next margin. -/
theorem frames_bracketOps {opening closing : Token} {front back : List Token}
    (opens : opening.kind = .openBracket)
    (settled : AllSettled (layoutAll spread (opening :: front))) :
    Frames (bracketOps true (layoutAll spread (opening :: (front ++ child :: back ++ [closing]))))
      (child.layout spread) (inkOf (inSequence (layoutAll spread (opening :: front)))) 1 := by
  obtain ⟨own, within⟩ := settled_cons.mp settled
  have plain : opening.layout spread = opening.verbatim :=
    Token.layout_lexical (by rw [opens]; rfl) spread
  have before : Settles true true (inSequence (layoutAll spread front)) :=
    settles_flatMap fun entry member => (within entry member).relax true
  -- the opening bracket is followed by a line one level in, which the closing one undoes
  refine ⟨opening.layout spread ++ .indent :: .newline :: inSequence (layoutAll spread front),
    inSequence (layoutAll spread back) ++ [.dedent, .newline] ++ closing.verbatim, ?_, ?_,
    fun level => ?_⟩
  · rw [bracketOps_eq, plain, layoutAll_split]
    simp [inSequence]
  · simp [inSequence, layoutAll, LayoutOp.ink]
  · exact (own level).append (.indent (.newline (before (level + 1))))

end Children

/-- What follows the keyword of a clause is its list. -/
theorem split_clause {front back : List Token} {child keyword : Token} {list : Option Token}
    (same : front ++ child :: back = keyword :: list.toList) (other : child ≠ keyword) :
    front = [keyword] ∧ list = some child ∧ back = [] := by
  -- a clause has two children at most, and the child is not the first
  cases front with
  | nil => exact absurd (List.cons.inj same).1 other
  | cons first front =>
    obtain ⟨rfl, rest⟩ := List.cons.inj same
    cases list with
    | none => simp at rest
    | some list =>
      rcases List.append_eq_singleton_iff.mp rest with ⟨rfl, single⟩ | ⟨_, none⟩
      · obtain ⟨rfl, rfl⟩ := List.cons.inj single
        exact ⟨rfl, rfl, rfl⟩
      · cases none

/-- What is neither the opening nor the closing bracket stands between them. -/
theorem split_brackets {front back inner : List Token} {child opening closing : Token}
    (same : front ++ child :: back = opening :: (inner ++ [closing])) (other : child ≠ opening)
    (other' : child ≠ closing) :
    ∃ front' back', front = opening :: front' ∧ back = back' ++ [closing] := by
  cases front with
  | nil => exact absurd (List.cons.inj same).1 other
  | cons first front =>
    -- the child is neither the first nor the last, so both brackets stay outside it
    obtain ⟨rfl, rest⟩ := List.cons.inj same
    rcases List.eq_nil_or_concat' back with rfl | ⟨back, last, rfl⟩
    · obtain ⟨_, single⟩ := List.append_inj' rest rfl
      exact absurd (List.cons.inj single).1 other'
    · have rest : (front ++ child :: back) ++ [last] = inner ++ [closing] := by simpa using rest
      obtain ⟨_, single⟩ := List.append_inj' rest rfl
      obtain ⟨rfl, _⟩ := List.cons.inj single
      exact ⟨front, back, rfl, rfl⟩

/-- Whether a token of a kind has its children further to the right, if they have lines. -/
def Kind.indents (kind : Kind) : Bool :=
  kind == .part || kind == .bracketExpr

/-- A structural child of a token that fits is laid out within it, behind the children in front. -/
theorem Token.Fits.frames {token child : Token} {front back : List Token} (fits : token.Fits)
    (children : token.children = front ++ child :: back)
    (structural : child.kind.isLexical = false)
    (holds : token.kind = .bracketExpr → token.contains .statement = true) {spread : Bool}
    (settled : AllSettled (layoutAll spread token.children)) (multiline : Bool) :
    Frames (token.arrange multiline (layoutAll spread token.children)) (child.layout spread)
      (inkOf (inSequence (layoutAll spread front))) (if token.kind.indents then 1 else 0) := by
  -- Every kind has its own way of putting children together, and each frames the child.
  have allowed := fits.children
  rw [children] at allowed settled ⊢
  have before := (settled_append.mp settled).1
  -- A lexical kind is none of a structural child.
  have apart : ∀ kind : Kind, kind.isLexical = true → child.kind ≠ kind := by
    rintro kind lexical rfl
    rw [structural] at lexical
    cases lexical
  unfold Token.arrange
  generalize token.contains .statement = spreads at holds
  generalize token.kind = kind at allowed holds
  cases kind with
  | statement =>
    have among := mem_of_alternate allowed
    have none : ∀ kind ∈ (front ++ child :: back).map Token.kind, kind ≠ .unparsed := by
      rintro kind member rfl
      have either := among _ member
      simp at either
    refine frames_statementOps before (fun tree member => none _ ?_) ⟨apart _ rfl, none _ ?_⟩
    · exact List.mem_map_of_mem (List.mem_append_left _ member)
    · exact List.mem_map_of_mem (List.mem_append_right _ (.head back))
  | singleStatement | minusExpr | funExpr => exact frames_inSequence before
  | part =>
    obtain ⟨keyword, list, same, lead⟩ := exists_clause allowed
    have other : child ≠ keyword := fun equal => apart _ rfl (equal ▸ lead)
    obtain ⟨rfl, rfl, rfl⟩ := split_clause same other
    exact frames_partOps lead before
  | listExpr => exact frames_listOps before multiline (apart _ rfl)
  | orExpr =>
    exact frames_joinedBy allowed nofun rfl before (settles_breakOrBlank _) (settles_breakOrBlank _)
      (ink_breakOrBlank _) (ink_breakOrBlank _) (apart _ rfl)
  | andExpr =>
    exact frames_joinedBy allowed nofun rfl before (settles_breakOrBlank _)
      (settles_blank.relax true) (ink_breakOrBlank _) rfl (apart _ rfl)
  | mathExpr | unaryPrefixExpr => exact frames_spacedOut before _ rfl
  | atom => exact frames_spacedOut before _ (beq_eq_false_iff_ne.mpr (apart _ rfl))
  | bracketExpr =>
    obtain ⟨opening, inner, closing, same, opens, closes⟩ := exists_brackets allowed
    have other : child ≠ opening := fun equal => apart _ rfl (equal ▸ opens)
    have other' : child ≠ closing := fun equal => apart _ rfl (equal ▸ closes)
    obtain ⟨front, back, rfl, rfl⟩ := split_brackets same other other'
    rw [holds rfl]
    have laid := @frames_bracketOps child spread opening closing front back opens before
    simpa [Kind.indents] using laid
  | unparsed => cases allowed
  | _ => simp [Kind.allows] at allowed

/-- The number of tokens above a place that have their children further to the right. -/
def Place.depth (place : Place) : Nat :=
  place.above.countP Kind.indents

/-- A token is laid out by putting its children together. -/
theorem Token.layout_eq (token : Token) (multiline : Bool) :
    token.layout multiline =
      token.arrange multiline (layoutAll (token.spreads multiline) token.children) := by
  -- This is the rule of the layout, for the token taken apart.
  cases token
  rfl

/--
A clause is laid out within the layout of a sound tree, behind the leaves in front of it.

The margin has then been moved once for each clause and each bracket above it.
-/
theorem Token.Sound.frames {tree : Token} (sound : tree.Sound) {way : List Nat} {place : Place}
    (reached : tree.place? way = some place) (clause : place.node.kind = .part) (multiline : Bool) :
    ∃ spread, Frames (tree.layout multiline) (place.node.layout spread)
      (Text.ink (place.before.flatMap Token.written)) place.depth := by
  -- Each step down the way frames a child in its parent, and frames in frames add up.
  induction way generalizing tree place multiline with
  | nil =>
    cases reached
    exact ⟨multiline, frames_self _⟩
  | cons number way ih =>
    obtain ⟨front, child, back, inner, children, _, below, rfl⟩ := place?_cons.mp reached
    have inside : child.Sound := sound.child (by simp [children])
    obtain ⟨spread, deeper⟩ := @ih child inside inner below clause (tree.spreads multiline)
    -- A bracket above a clause holds a statement, and so has lines of its own.
    have holds : tree.kind = .bracketExpr → tree.contains .statement = true :=
      fun kind => sound.contains_statement reached clause (by simp [kind])
    have here := sound.here.frames children (inside.structural below clause) holds
      (sound.settled (tree.spreads multiline)) multiline
    have fits : ∀ node ∈ Token.walk front, node.Fits := by
      have all := (Token.forall_walk_cons.mp sound.fits).2.1
      rw [children, Token.walk_append, List.forall_mem_append] at all
      exact all.1
    rw [← tree.layout_eq, Token.inkOf_layoutAll _ front fits] at here
    refine ⟨spread, ?_⟩
    have whole := here.trans deeper
    rw [← Text.ink_append, ← List.flatMap_append, Nat.add_comm, Place.depth,
      ← List.countP_cons] at whole
    exact whole

end SqlLayout
