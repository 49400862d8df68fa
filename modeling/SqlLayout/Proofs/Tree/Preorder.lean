import SqlLayout.Proofs.Layout.Places

/-!
The tokens below a token, read off a stack, are those of the recursive pre-order.

The end of the stack is its top, so the children of a token are pushed in reverse.
-/

namespace SqlLayout

namespace Token

mutual

/-- The tokens of a tree in recursive pre-order: the token itself and then those of its children. -/
def preorder : Token → List Token
  | ⟨kind, text, children, comments⟩ =>
    ⟨kind, text, children, comments⟩ :: preorderAll children

/-- The tokens of a list of trees in recursive pre-order. -/
def preorderAll : List Token → List Token
  | [] => []
  | first :: rest => first.preorder ++ preorderAll rest

end

/-- A tree in pre-order is its root and then the trees below it. -/
theorem preorder_eq (tree : Token) : tree.preorder = tree :: preorderAll tree.children := by
  -- This is the rule of the order, for the tree taken apart.
  cases tree
  rfl

/-- The trees of two lists are read one list after the other. -/
theorem preorderAll_append (front back : List Token) :
    preorderAll (front ++ back) = preorderAll front ++ preorderAll back := by
  -- The trees are read one by one.
  induction front with
  | nil => rfl
  | cons first rest ih => rw [List.cons_append, preorderAll, preorderAll, ih, List.append_assoc]

/-- Children that are put in front of the rest of the stack are read as the recursion reads them. -/
theorem walk_eq_preorderAll (stack : List Token) : walk stack = preorderAll stack := by
  -- The walk puts the children of a tree in front of the trees behind it.
  fun_induction walk stack with
  | case1 => rfl
  | case2 top stack ih => rw [ih, preorderAll_append, preorderAll, preorder_eq, List.cons_append]

/-! ### The stack -/

/--
One turn of a reader: the tree at the end of the stack is met, and its children take its place.

They are pushed in reverse, so that the first child is met next.
-/
def turn (stack : List Token) : Option (Token × List Token) :=
  -- An empty stack ends the reading.
  stack.getLast?.map fun top => (top, stack.dropLast ++ top.children.reverse)

/-- The tokens that a reader meets, turn after turn, until its stack is empty. -/
inductive Meets : (stack met : List Token) → Prop
  | done {stack} (empty : turn stack = none) : Meets stack []
  | step {stack top next met} (turned : turn stack = some (top, next)) (later : Meets next met) :
      Meets stack (top :: met)

/-- Only an empty stack ends the reading. -/
theorem turn_eq_none {stack : List Token} : turn stack = none ↔ stack = [] := by
  -- A turn takes the last one of the stack, and fails only where there is none.
  rw [turn, Option.map_eq_none_iff, List.getLast?_eq_none_iff]

/-- A turn takes the tree at the end. -/
theorem turn_eq_some {stack next : List Token} {top : Token} :
    turn stack = some (top, next) ↔
      ∃ below, stack = below ++ [top] ∧ next = below ++ top.children.reverse := by
  rw [turn, Option.map_eq_some_iff]
  -- the top of the stack is its last, and what lies below it stays
  constructor
  · rintro ⟨_, last, same⟩
    obtain ⟨below, rfl⟩ := List.getLast?_eq_some_iff.mp last
    cases same
    exact ⟨below, rfl, by rw [List.dropLast_concat]⟩
  · rintro ⟨below, rfl, rfl⟩
    exact ⟨top, List.getLast?_concat, by rw [List.dropLast_concat]⟩

/-- A turn leaves to be met what was to be met before it, less the tree it takes. -/
theorem walk_turn {stack next : List Token} {top : Token} (turned : turn stack = some (top, next)) :
    walk stack.reverse = top :: walk next.reverse := by
  -- The stack is kept the other way round, and the turn puts the children back in their order.
  obtain ⟨below, rfl, rfl⟩ := turn_eq_some.mp turned
  rw [List.reverse_concat, walk, List.reverse_append, List.reverse_reverse]

/-- A reader comes to an end, whatever its stack, and meets the trees from the top down. -/
theorem meets_iff {stack met : List Token} : Meets stack met ↔ met = walk stack.reverse := by
  constructor
  · intro meets
    induction meets with
    | done empty => rw [turn_eq_none.mp empty, List.reverse_nil, walk]
    | step turned _ ih => rw [walk_turn turned, ih]
  · rintro rfl
    -- The induction follows the reading of the stack as it stands from the top down.
    suffices reads : ∀ trees, Meets trees.reverse (walk trees) by
      simpa only [List.reverse_reverse] using reads stack.reverse
    intro trees
    fun_induction walk trees with
    | case1 => exact .done (turn_eq_none.mpr rfl)
    | case2 top trees ih =>
      refine .step (turn_eq_some.mpr ⟨trees.reverse, List.reverse_cons, rfl⟩) ?_
      rwa [← List.reverse_append]

/-! ### The places below a token -/

/-- The token that a way down a tree leads to. -/
def at? (tree : Token) (way : List Nat) : Option Token :=
  -- What stands above it and in front of it plays no part.
  (tree.place? way).map Place.node

/-- No way at all leads to the tree itself. -/
@[simp]
theorem at?_nil (tree : Token) : tree.at? [] = some tree :=
  rfl

/-- A way leads through one of the children. -/
@[simp]
theorem at?_cons (tree : Token) (number : Nat) (way : List Nat) :
    tree.at? (number :: way) = tree.children[number]?.bind fun child => child.at? way := by
  -- Where a place is reached, its node is what is found there.
  simp only [at?, place?]
  cases tree.children[number]? with
  | none => rfl
  | some child => cases place : child.place? way <;> simp [place]

mutual

/-- The tokens of a tree in pre-order, each with the way to it. -/
def ways : Token → List (List Nat × Token)
  | ⟨kind, text, children, comments⟩ =>
    ([], ⟨kind, text, children, comments⟩) :: waysFrom 0 children

/-- The tokens of the children from a number on, each with the way to it from their parent. -/
def waysFrom : (number : Nat) → (children : List Token) → List (List Nat × Token)
  | _, [] => []
  | number, first :: rest =>
    first.ways.map (Prod.map (number :: ·) id) ++ waysFrom (number + 1) rest

end

mutual

/-- Without the ways, the tokens of a tree are those of the pre-order. -/
theorem map_snd_ways : (tree : Token) → tree.ways.map Prod.snd = tree.preorder
  | ⟨_, _, children, _⟩ => by
    -- The tree itself comes first, and below it the order reads the children.
    rw [ways, preorder, List.map_cons, map_snd_waysFrom]

/-- The same for the children from a number on. -/
theorem map_snd_waysFrom (number : Nat) : (children : List Token) →
    (waysFrom number children).map Prod.snd = preorderAll children
  | [] => rfl
  | first :: rest => by
    -- Numbers only go in front of the ways, and the nodes stay as they are.
    rw [waysFrom, preorderAll, ← map_snd_ways first, ← map_snd_waysFrom (number + 1) rest,
      List.map_append, List.map_map]
    rfl

end

mutual

/-- The ways listed for a tree are those that lead to a token. -/
theorem mem_ways {way : List Nat} {node : Token} : (tree : Token) →
    ((way, node) ∈ tree.ways ↔ tree.at? way = some node)
  | ⟨_, _, children, _⟩ => by
    -- The tree itself has the empty way, and any other way begins with a child's number.
    rw [ways, List.mem_cons, mem_waysFrom]
    cases way with
    | nil => simp [eq_comm]
    | cons number rest => simp

/-- The ways listed from a number on lead through one of the children. -/
theorem mem_waysFrom {way : List Nat} {node : Token} {number : Nat} : (children : List Token) →
    ((way, node) ∈ waysFrom number children ↔ ∃ index rest, way = (number + index) :: rest ∧
      (children[index]?.bind fun child => child.at? rest) = some node)
  | [] => by simp [waysFrom]
  | first :: others => by
    rw [waysFrom, List.mem_append, mem_waysFrom others, List.mem_map]
    -- the first of the children has the next number, and the others those behind it
    constructor
    · rintro (⟨⟨rest, _⟩, listed, same⟩ | ⟨index, rest, rfl, reached⟩)
      · cases same
        exact ⟨0, rest, rfl, (mem_ways first).mp listed⟩
      · exact ⟨index + 1, rest, by rw [Nat.add_assoc, Nat.add_comm 1], reached⟩
    · rintro ⟨index, rest, rfl, reached⟩
      cases index with
      | zero => exact .inl ⟨(rest, node), (mem_ways first).mpr reached, rfl⟩
      | succ index => exact .inr ⟨index, rest, by rw [Nat.add_assoc, Nat.add_comm 1], reached⟩

end

mutual

/-- The ways in a tree are listed in lexicographic order, so none of them twice. -/
theorem pairwise_ways : (tree : Token) → (tree.ways.map Prod.fst).Pairwise (· < ·)
  | ⟨_, _, children, _⟩ => by
    -- The empty way of the tree itself is before every way to something below it.
    refine List.pairwise_cons.mpr ⟨fun way below => ?_, pairwise_waysFrom 0 children⟩
    obtain ⟨⟨_, node⟩, listed, rfl⟩ := List.mem_map.mp below
    obtain ⟨index, rest, rfl, _⟩ := (mem_waysFrom children).mp listed
    exact List.nil_lt_cons _ _

/-- The same for the children from a number on. -/
theorem pairwise_waysFrom (number : Nat) : (children : List Token) →
    ((waysFrom number children).map Prod.fst).Pairwise (· < ·)
  | [] => .nil
  | first :: others => by
    have within := pairwise_ways first
    have behind := pairwise_waysFrom (number + 1) others
    rw [waysFrom, List.map_append, List.map_map]
    refine List.pairwise_append.mpr ⟨?_, behind, fun way inside other outside => ?_⟩
    · rw [List.pairwise_map] at within ⊢
      exact within.imp fun before => List.cons_lt_cons_iff.mpr (.inr ⟨rfl, before⟩)
    · -- The ways through the other children begin with greater numbers.
      obtain ⟨⟨rest, _⟩, _, rfl⟩ := List.mem_map.mp inside
      obtain ⟨⟨_, node⟩, listed, rfl⟩ := List.mem_map.mp outside
      obtain ⟨index, rest', rfl, _⟩ := (mem_waysFrom others).mp listed
      exact List.cons_lt_cons_iff.mpr (.inl (by omega))

end

/-- The tokens below a token in pre-order, each with the way to it. -/
def waysBelow (token : Token) : List (List Nat × Token) :=
  -- The token itself is not among them.
  waysFrom 0 token.children

/-- The ways listed below a token are those that lead to a token, less the one to the tree. -/
theorem mem_waysBelow {token node : Token} {way : List Nat} :
    (way, node) ∈ token.waysBelow ↔ way ≠ [] ∧ token.at? way = some node := by
  -- A way below the tree begins with the number of a child.
  rw [waysBelow, mem_waysFrom]
  cases way with
  | nil => simp
  | cons number rest => simp

/-- The tokens a reader finds below a token are those that a way leads down to. -/
theorem mem_descendants_iff {token node : Token} :
    node ∈ token.descendants ↔ ∃ way, way ≠ [] ∧ token.at? way = some node := by
  rw [descendants, walk_eq_preorderAll, ← map_snd_waysFrom 0, List.mem_map]
  -- the reader meets what is listed, and each is listed with the way to it
  constructor
  · rintro ⟨⟨way, _⟩, listed, rfl⟩
    exact ⟨way, mem_waysBelow.mp listed⟩
  · rintro ⟨way, down⟩
    exact ⟨(way, node), mem_waysBelow.mpr down, rfl⟩

/--
The stack reads a tree in pre-order.

From the children of a token, pushed in reverse, a reader comes to an end and meets the tokens of
the recursive pre-order. These are the tokens at the places below the token, one for each place and
in the order of the places, so a kind is contained if it stands at some place below.
-/
theorem descendants_preorder (token : Token) :
    (∀ met, Meets token.children.reverse met ↔ met = token.descendants) ∧
      token.descendants = preorderAll token.children ∧
      token.waysBelow.map Prod.snd = token.descendants ∧
      (token.waysBelow.map Prod.fst).Pairwise (· < ·) ∧
      (∀ way node, (way, node) ∈ token.waysBelow ↔ way ≠ [] ∧ token.at? way = some node) ∧
      ∀ kind, token.contains kind = true ↔
        ∃ way node, way ≠ [] ∧ token.at? way = some node ∧ node.kind = kind := by
  -- The walk with a stack and the recursion read the same tokens.
  have recursive : token.descendants = preorderAll token.children :=
    walk_eq_preorderAll token.children
  refine ⟨fun met => ?_, recursive, ?_, pairwise_waysFrom 0 token.children,
    fun way node => mem_waysBelow, fun kind => ?_⟩
  · rw [meets_iff, List.reverse_reverse, descendants]
  · rw [recursive, waysBelow, map_snd_waysFrom]
  · rw [contains, List.any_eq_true]
    constructor
    · rintro ⟨node, met, same⟩
      obtain ⟨way, down, reached⟩ := mem_descendants_iff.mp met
      exact ⟨way, node, down, reached, beq_iff_eq.mp same⟩
    · rintro ⟨way, node, down, reached, rfl⟩
      exact ⟨node, mem_descendants_iff.mpr ⟨way, down, reached⟩, beq_self_eq_true _⟩

/-- A comparison of two atoms has five tokens below it. -/
example :
    let left := node .atom [lexical .name "A".toList]
    let right := node .atom [lexical .name "B".toList]
    let sign := lexical .mathOp "=".toList
    ((node .mathExpr [left, sign, right]).waysBelow).map Prod.fst =
      [[0], [0, 0], [1], [2], [2, 0]] := by
  rfl

end Token

end SqlLayout
