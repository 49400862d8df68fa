import SqlLayout.Proofs.Layout.Skeleton

/-!
Canonical trees of the grammar, in which every choice is the one that the descent makes first.

Each is derived from its own leaves, and its first leaf and what may stand behind it are known.
-/

namespace SqlLayout

/-- A token of a kind with nothing below it. -/
structure Token.IsLeaf (token : Token) (kind : Kind) : Prop where
  /-- The token is of that kind. -/
  kind : token.kind = kind
  /-- The token has no children. -/
  bare : token.children = []

/--
A clause may stand directly in front of another one.

A clause without a list would take a statement for its list, so no root keyword may follow it.
-/
def Token.Precedes (clause next : Token) : Prop :=
  clause.children.length = 1 → next.children.head?.any Token.isRootKeyword = false

/--
The trees that are canonical for a symbol of the grammar.

No separator dangles, an atom holds no statement or expression but in a bracket, and a bracket
holds a list only where no statement could begin.
-/
inductive Canonical : Symbol → (trees : List Token) → Prop where
  | chain {production operand : Production} {chain : Chain} {first : Token} {others : List Token}
      (rule : production.chain? = some (chain, operand)) (head : Canonical (.one operand) [first])
      (tail : Canonical (.links production) others) :
      Canonical (.one production) [.node chain.kind (first :: others)]
  | linksEnd {production : Production} : Canonical (.links production) []
  | link {production operand : Production} {chain : Chain} {separator next : Token}
      {others : List Token} (rule : production.chain? = some (chain, operand))
      (separates : separator.IsLeaf chain.separator) (head : Canonical (.one operand) [next])
      (tail : Canonical (.links production) others) :
      Canonical (.links production) (separator :: next :: others)
  -- A single statement is a bracket around a statement, or clauses behind a root keyword.
  | bracketed {bracket : Token} (inner : Canonical (.one .bracketExpr) [bracket])
      (around : (bracket.child? .statement).isSome = true) :
      Canonical (.one .singleStatement) [bracket]
  | single {first : Token} {others : List Token}
      (root : first.children.head?.any Token.isRootKeyword = true)
      (head : Canonical (.one .part) [first]) (tail : Canonical .clauses others)
      (apart : (first :: others).IsChain Token.Precedes) :
      Canonical (.one .singleStatement) [.node .singleStatement (first :: others)]
  | clausesEnd : Canonical .clauses []
  | clause {first : Token} {others : List Token} (head : Canonical (.one .part) [first])
      (tail : Canonical .clauses others) : Canonical .clauses (first :: others)
  | barePart {keyword : Token} (leads : keyword.IsLeaf .partToken) :
      Canonical (.one .part) [.node .part [keyword]]
  | part {keyword list : Token} (leads : keyword.IsLeaf .partToken)
      (inner : Canonical (.one .listExpr) [list]) :
      Canonical (.one .part) [.node .part [keyword, list]]
  | simple {production : Production} {tree : Token}
      (choice : production ∈ [.unaryPrefixExpr, .minusExpr, .atom])
      (inner : Canonical (.one production) [tree]) : Canonical (.one .simpleExpr) [tree]
  | signed {sign atom : Token} (signs : sign.IsLeaf .unaryPrefix)
      (inner : Canonical (.one .atom) [atom]) :
      Canonical (.one .unaryPrefixExpr) [.node .unaryPrefixExpr [sign, atom]]
  | negated {sign atom : Token} (signs : sign.IsLeaf .mathOp) (minus : sign.text = "-".toList)
      (inner : Canonical (.one .atom) [atom]) :
      Canonical (.one .minusExpr) [.node .minusExpr [sign, atom]]
  -- The first child of an atom is a bracket or a function, or else a name, a text or a star.
  | headTree {production : Production} {tree : Token}
      (choice : production ∈ [.bracketExpr, .funExpr])
      (inner : Canonical (.one production) [tree]) : Canonical .head [tree]
  | headName {token : Token} (names : token.IsLeaf .name) : Canonical .head [token]
  | headText {token : Token} (quotes : token.IsLeaf .text) : Canonical .head [token]
  | headStar {token : Token} (leaf : token.IsLeaf .mathOp) (star : token.text = "*".toList) :
      Canonical .head [token]
  | atom {first : Token} {marker byname : Option Token} (inner : Canonical .head [first])
      (marked : ∀ token ∈ marker, token.IsLeaf .outerJoinMarker)
      (named : ∀ token ∈ byname, token.IsLeaf .name) :
      Canonical (.one .atom) [.node .atom (first :: marker.toList ++ byname.toList)]
  | emptyBracket {opening closing : Token} (opens : opening.IsLeaf .openBracket)
      (closes : closing.IsLeaf .closeBracket) :
      Canonical (.one .bracketExpr) [.node .bracketExpr [opening, closing]]
  | bracketStatement {opening inner closing : Token} (opens : opening.IsLeaf .openBracket)
      (contents : Canonical (.one .statement) [inner]) (closes : closing.IsLeaf .closeBracket) :
      Canonical (.one .bracketExpr) [.node .bracketExpr [opening, inner, closing]]
  | bracketList {opening inner closing : Token} (opens : opening.IsLeaf .openBracket)
      (contents : Canonical (.one .listExpr) [inner]) (plain : opensStatement inner.tips = false)
      (closes : closing.IsLeaf .closeBracket) :
      Canonical (.one .bracketExpr) [.node .bracketExpr [opening, inner, closing]]
  | function {name arguments : Token} (names : name.IsLeaf .name)
      (inner : Canonical (.one .bracketExpr) [arguments]) :
      Canonical (.one .funExpr) [.node .funExpr [name, arguments]]

section Leaves

namespace Token

/-- A token with nothing below it is its own only leaf. -/
@[simp] theorem IsLeaf.tips {token : Token} {kind : Kind} (leaf : token.IsLeaf kind) :
    token.tips = [token] := by
  -- A leaf has no children, and is its own only tip.
  obtain ⟨kind, text, children, comments⟩ := token
  obtain ⟨_, rfl⟩ := leaf
  rfl

/-- The leaves of a node are those of its first child and then those of the others. -/
@[simp] theorem tips_node (kind : Kind) (first : Token) (others : List Token) :
    (node kind (first :: others)).tips = first.tips ++ tipsAll others := rfl

/-- The leaves of trees are those of the first one and then those of the others. -/
@[simp] theorem tipsAll_cons (first : Token) (others : List Token) :
    tipsAll (first :: others) = first.tips ++ tipsAll others := rfl

/-- No trees have no leaves. -/
@[simp] theorem tipsAll_nil : tipsAll [] = [] := rfl

/-- Tokens with nothing below them are their own leaves. -/
theorem tipsAll_toList {token : Option Token} {kind : Kind}
    (leaf : ∀ some ∈ token, some.IsLeaf kind) : tipsAll token.toList = token.toList := by
  -- There is one leaf or none.
  cases token with
  | none => rfl
  | some token => simp [(leaf token rfl).tips]

/-- Every tree has a leaf. -/
theorem tips_ne_nil (token : Token) : token.tips ≠ [] := by
  -- A token with children has the tips of the first of them, and one without has itself.
  obtain ⟨kind, text, children, comments⟩ := token
  cases children with
  | nil => exact List.cons_ne_nil _ _
  | cons first rest => exact List.append_ne_nil_of_left_ne_nil (tips_ne_nil first) _

end Token

/-- The first leaf of a canonical clause is its keyword. -/
theorem Canonical.clause_leaves {clause : Token} (canonical : Canonical (.one .part) [clause]) :
    ∃ keyword more, clause.children.head? = some keyword ∧ keyword.kind = .partToken ∧
      clause.tips = keyword :: more := by
  -- A clause is its keyword alone, or its keyword and a list behind it.
  cases canonical with
  | chain rule => simp [Production.chain?] at rule
  | @barePart keyword leads =>
    exact ⟨keyword, [], rfl, leads.kind, by simp [leads.tips]⟩
  | @part keyword list leads _ =>
    exact ⟨keyword, list.tips, rfl, leads.kind, by simp [leads.tips]⟩

/-- A canonical tree is derived from its own leaves. -/
theorem Canonical.derives {symbol : Symbol} {trees : List Token}
    (canonical : Canonical symbol trees) : Derives symbol trees (Token.tipsAll trees) := by
  -- rule by rule: a canonical tree is derived by the rule it is canonical for
  induction canonical with
  | chain rule _ _ head tail => simpa using Derives.chain rule head tail
  | linksEnd => exact .linksEnd
  | link rule separates _ _ head tail =>
    simpa [separates.tips] using Derives.link rule separates.kind head tail
  | bracketed _ around inner => exact .bracketed inner (inner.wrapsStatement.trans around)
  | single root canonical _ _ head tail =>
    obtain ⟨keyword, more, front, _, leaves⟩ := canonical.clause_leaves
    rw [Token.tipsAll_cons, Token.tipsAll_nil, List.append_nil, leaves] at head
    simpa [leaves] using Derives.single (by simpa [front] using root) head tail
  | clausesEnd => exact .clausesEnd
  | clause _ _ head tail => simpa using Derives.clause head tail
  | barePart leads => simpa [leads.tips] using Derives.barePart leads.kind
  | part leads _ inner => simpa [leads.tips] using Derives.part leads.kind inner
  | simple choice _ inner => exact .simple choice inner
  | signed signs _ inner => simpa [signs.tips] using Derives.signed signs.kind inner
  | @negated sign _ signs minus _ inner =>
    have negative : sign.is .mathOp "-".toList = true := by simp [Token.is, signs.kind, minus]
    simpa [signs.tips] using Derives.negated negative inner
  | headTree choice _ inner =>
    refine .headTree ?_ inner
    simp only [List.mem_cons, List.not_mem_nil, or_false] at choice
    rcases choice with rfl | rfl <;> simp
  | headName names => simpa [names.tips] using Derives.headToken (.inl names.kind)
  | headText quotes => simpa [quotes.tips] using Derives.headToken (.inr (.inl quotes.kind))
  | @headStar token leaf star =>
    have starred : token.is .mathOp "*".toList = true := by simp [Token.is, leaf.kind, star]
    simpa [leaf.tips] using Derives.headToken (.inr (.inr starred))
  | atom _ marked named inner =>
    have derived := Derives.atom inner (fun token member => (marked token member).kind)
      fun token member => (named token member).kind
    simpa [Token.tipsAll_append, Token.tipsAll_toList marked, Token.tipsAll_toList named]
      using derived
  | emptyBracket opens closes =>
    simpa [opens.tips, closes.tips] using Derives.emptyBracket opens.kind closes.kind
  | bracketStatement opens _ closes inner =>
    have derived := Derives.bracket (by simp) opens.kind inner closes.kind
    simpa [opens.tips, closes.tips] using derived
  | bracketList opens _ _ closes inner =>
    have derived := Derives.bracket (by simp) opens.kind inner closes.kind
    simpa [opens.tips, closes.tips] using derived
  | function names _ inner => simpa [names.tips] using Derives.function names.kind inner

end Leaves

section Edges

/-- Whether a token can be the first of an atom that holds no statement outside of brackets. -/
def Token.startsAtom (token : Token) : Bool :=
  token.kind == .openBracket || token.kind == .name || token.kind == .text ||
    token.is .mathOp "*".toList

/-- Whether a token is a sign that stands in front of an atom. -/
def Token.isSign (token : Token) : Bool :=
  token.kind == .unaryPrefix || token.is .mathOp "-".toList

/-- A token that can be the first of a canonical atom is no sign. -/
theorem Token.isSign_of_startsAtom {token : Token} (starts : token.startsAtom = true) :
    token.isSign = false := by
  -- The kinds that atoms start with are those of no sign; a star is told by its text.
  cases kind : token.kind <;> simp_all [Token.startsAtom, Token.isSign, Token.is]

/-- Whether a token can be the first of a production, given which can be the first of an atom. -/
def Production.starts (atomic : Token → Bool) (token : Token) : Production → Bool
  | statement | singleStatement => token.kind == .openBracket || token.isRootKeyword
  | part => token.kind == .partToken
  | listExpr | orExpr | andExpr | mathExpr | simpleExpr => token.isSign || atomic token
  | unaryPrefixExpr => token.kind == .unaryPrefix
  | minusExpr => token.is .mathOp "-".toList
  | atom => atomic token
  | bracketExpr => token.kind == .openBracket
  | funExpr => token.kind == .name

/-- Whether tokens can be those of a symbol, as far as the first of them goes. -/
def Symbol.opens (atomic : Token → Bool) : Symbol → List Token → Bool
  | one production, tokens => tokens.head?.any fun token => production.starts atomic token
  | head, tokens => tokens.head?.any atomic
  -- What follows a first operand or clause may be nothing.
  | links _, _ | clauses, _ => true

/-- A chain can begin with what its operands can begin with. -/
theorem Production.starts_chain {production operand : Production} {chain : Chain}
    (rule : production.chain? = some (chain, operand)) (atomic : Token → Bool) (token : Token) :
    production.starts atomic token = operand.starts atomic token := by
  -- A chain starts as its first operand does.
  cases production <;> cases rule <;> rfl

/-- A simple expression can begin with what each of its choices can begin with. -/
theorem Production.starts_simple {production : Production} {atomic : Token → Bool} {token : Token}
    (choice : production ∈ [.unaryPrefixExpr, .minusExpr, .atom])
    (starts : production.starts atomic token = true) :
    Production.simpleExpr.starts atomic token = true := by
  -- With a sign, or else with an atom, each of the three choices is one of the starts.
  simp only [List.mem_cons, List.not_mem_nil, or_false] at choice
  rcases choice with rfl | rfl | rfl <;> simp_all [Production.starts, Token.isSign]

section Opens

variable {atomic : Token → Bool} {production other : Production} {tokens : List Token}

/-- Tokens in front of others open a production when they do so alone. -/
theorem Symbol.opens_append (opens : (Symbol.one production).opens atomic tokens = true)
    (more : List Token) : (Symbol.one production).opens atomic (tokens ++ more) = true := by
  -- What opens a production is its first token, and that one stays in front.
  cases tokens with
  | nil => cases opens
  | cons token tokens => exact opens

/-- Tokens open a production that can begin with all that another one can begin with. -/
theorem Symbol.opens_mono (opens : (Symbol.one production).opens atomic tokens = true)
    (wider : ∀ token, production.starts atomic token = true → other.starts atomic token = true) :
    (Symbol.one other).opens atomic tokens = true := by
  -- The first token starts the wider production as well.
  cases tokens with
  | nil => cases opens
  | cons token tokens => exact wider token opens

/-- Tokens that open a chain open it with others behind them, and need only open its operand. -/
theorem Symbol.opens_chain {operand : Production} {chain : Chain}
    (rule : production.chain? = some (chain, operand))
    (opens : (Symbol.one operand).opens atomic tokens = true) (more : List Token) :
    (Symbol.one production).opens atomic (tokens ++ more) = true := by
  -- A chain opens with its first operand, whatever links follow.
  refine Symbol.opens_append (Symbol.opens_mono opens fun token starts => ?_) more
  rw [Production.starts_chain rule, starts]

end Opens

/-- Whether a token can be the first of an atom, be it a statement or an expression itself. -/
def Token.startsOperand (token : Token) : Bool :=
  token.isSign || token.isRootKeyword || token.startsAtom

/-- What is derived begins with a token that can be its first. -/
theorem Derives.opens {symbol : Symbol} {trees taken : List Token}
    (derived : Derives symbol trees taken) : symbol.opens Token.startsOperand taken = true := by
  -- what comes first in a rule is a token or another production, which opens it
  induction derived with
  | chain rule _ _ head _ => exact Symbol.opens_chain rule head _
  | linksEnd | link | dangling | clausesEnd | clause => rfl
  | bracketed _ _ inner =>
    refine Symbol.opens_mono inner fun token starts => ?_
    simp_all [Production.starts]
  | single root => simp [Symbol.opens, Production.starts, root]
  | barePart kind => simp [Symbol.opens, Production.starts, kind]
  | part kind => simp [Symbol.opens, Production.starts, kind]
  | simple choice _ inner =>
    exact Symbol.opens_mono inner fun token => Production.starts_simple choice
  | signed kind => simp [Symbol.opens, Production.starts, kind]
  | negated minus => simpa [Symbol.opens, Production.starts] using minus
  | headTree choice _ inner =>
    refine Symbol.opens_mono inner
      (fun token starts => ?_ : ∀ token, _ → Production.atom.starts _ _ = _)
    simp only [List.mem_cons, List.not_mem_nil, or_false] at choice
    rcases choice with rfl | rfl | rfl | rfl
    all_goals
      simp only [Production.starts, Token.startsOperand, Token.startsAtom,
        Bool.or_eq_true] at starts ⊢
      grind
  | headToken choice =>
    rcases choice with kind | kind | star
    all_goals simp_all [Symbol.opens, Token.startsOperand, Token.startsAtom]
  | atom _ _ _ inner => exact Symbol.opens_append inner _
  | emptyBracket opens => simp [Symbol.opens, Production.starts, opens]
  | bracket _ opens => simp [Symbol.opens, Production.starts, opens]
  | function kind => simp [Symbol.opens, Production.starts, kind]

/-- The leaves of a canonical tree begin with a token that can be their first. -/
theorem Canonical.opens {symbol : Symbol} {trees : List Token}
    (canonical : Canonical symbol trees) :
    symbol.opens Token.startsAtom (Token.tipsAll trees) = true := by
  -- the first child of a canonical atom holds no statement, so fewer tokens can open it
  induction canonical with
  | chain rule _ _ head _ => simpa using Symbol.opens_chain rule head _
  | linksEnd | link | clausesEnd | clause => rfl
  | bracketed _ _ inner =>
    refine Symbol.opens_mono inner fun token starts => ?_
    simp_all [Production.starts]
  | single root head =>
    obtain ⟨keyword, more, front, _, leaves⟩ := head.clause_leaves
    simp_all [Symbol.opens, Production.starts]
  | barePart leads => simp [Symbol.opens, Production.starts, leads.tips, leads.kind]
  | part leads => simp [Symbol.opens, Production.starts, leads.tips, leads.kind]
  | simple choice _ inner =>
    exact Symbol.opens_mono inner fun token => Production.starts_simple choice
  | signed signs => simp [Symbol.opens, Production.starts, signs.tips, signs.kind]
  | negated signs minus =>
    simp [Symbol.opens, Production.starts, Token.is, signs.tips, signs.kind, minus]
  | headTree choice _ inner =>
    refine Symbol.opens_mono inner
      (fun token starts => ?_ : ∀ token, _ → Production.atom.starts _ _ = _)
    simp only [List.mem_cons, List.not_mem_nil, or_false] at choice
    rcases choice with rfl | rfl <;> simp_all [Production.starts, Token.startsAtom]
  | headName leaf => simp [Symbol.opens, Token.startsAtom, leaf.tips, leaf.kind]
  | headText leaf => simp [Symbol.opens, Token.startsAtom, leaf.tips, leaf.kind]
  | headStar leaf star =>
    simp [Symbol.opens, Token.startsAtom, Token.is, leaf.tips, leaf.kind, star]
  | @atom first _ _ _ _ _ inner =>
    have front : (Symbol.one .atom).opens Token.startsAtom (Token.tipsAll [first]) = true := inner
    simpa using Symbol.opens_append front _
  | emptyBracket opens => simp [Symbol.opens, Production.starts, opens.tips, opens.kind]
  | bracketStatement opens => simp [Symbol.opens, Production.starts, opens.tips, opens.kind]
  | bracketList opens => simp [Symbol.opens, Production.starts, opens.tips, opens.kind]
  | function names => simp [Symbol.opens, Production.starts, names.tips, names.kind]

/-- The first leaf of a canonical tree can be the first of its production. -/
theorem Canonical.exists_first {production : Production} {tree : Token}
    (canonical : Canonical (.one production) [tree]) :
    ∃ first more, tree.tips = first :: more ∧
      production.starts Token.startsAtom first = true := by
  -- The tips of a canonical tree open its production, and there is a first one.
  have opens := canonical.opens
  obtain ⟨first, more, leaves⟩ := List.exists_cons_of_ne_nil tree.tips_ne_nil
  refine ⟨first, more, leaves, ?_⟩
  simpa [Symbol.opens, leaves] using opens

/-- Whether a token of a kind may stand behind a tree of a production. -/
def Production.admits : Production → Kind → Bool
  | statement, kind => kind == .closeBracket
  | singleStatement, kind => [.unionToken, .closeBracket].contains kind
  | part, kind | listExpr, kind => [.partToken, .unionToken, .closeBracket].contains kind
  | orExpr, kind => [.listSeparator, .partToken, .unionToken, .closeBracket].contains kind
  | andExpr, kind => [.orOp, .listSeparator, .partToken, .unionToken, .closeBracket].contains kind
  | mathExpr, kind =>
    [.andOp, .orOp, .listSeparator, .partToken, .unionToken, .closeBracket].contains kind
  | simpleExpr, kind | unaryPrefixExpr, kind | minusExpr, kind | atom, kind =>
    [.mathOp, .andOp, .orOp, .listSeparator, .partToken, .unionToken, .closeBracket].contains kind
  -- A closing bracket ends its tree, whatever follows.
  | bracketExpr, _ | funExpr, _ => true

/-- Whether a tree of a production may end in front of tokens. -/
def Production.Ends (production : Production) (behind : List Token) : Prop :=
  ∀ next ∈ behind.head?, production.admits next.kind = true

/-- Behind an operand stands the separator of its chain, or what may stand behind the chain. -/
theorem Production.admits_chain {production operand : Production} {chain : Chain}
    (rule : production.chain? = some (chain, operand)) (kind : Kind) :
    operand.admits kind = (kind == chain.separator || production.admits kind) := by
  -- The links of each chain are listed with its production.
  cases production <;> cases rule <;> cases kind <;> rfl

/-- The separator of a chain does not stand behind the chain. -/
theorem Production.not_admits_separator {production operand : Production} {chain : Chain}
    (rule : production.chain? = some (chain, operand)) :
    production.admits chain.separator = false := by
  -- No chain admits its own separator behind it, as that would be one more link.
  cases production <;> cases rule <;> rfl

/-- An operand of a chain may end in front of the links behind it. -/
theorem Canonical.ends_links {production operand : Production} {chain : Chain}
    {others behind : List Token} (canonical : Canonical (.links production) others)
    (rule : production.chain? = some (chain, operand)) (ends : production.Ends behind) :
    operand.Ends (Token.tipsAll others ++ behind) := by
  intro next front
  rw [Production.admits_chain rule]
  -- the next token ends the chain, or it is the separator of the next link
  cases canonical with
  | linksEnd => simp [ends next front]
  | link rule' separates =>
    cases rule.symm.trans rule'
    simp only [Token.tipsAll_cons, separates.tips, List.cons_append, List.head?_cons,
      Option.mem_some_iff] at front
    simp [← front, separates.kind]

/-- A canonical list that no statement opens has none at its front, whatever stands behind it. -/
theorem Canonical.not_leadsStatement {list : Token} (canonical : Canonical (.one .listExpr) [list])
    (plain : opensStatement list.tips = false) (behind : List Token) :
    leadsStatement (list.tips ++ behind) = false := by
  -- Brackets may open the list, so the look past them has to end within its own leaves.
  have derived : Derives (.one .listExpr) [list] list.tips := by simpa using canonical.derives
  have opens : (Symbol.one .listExpr).opens Token.startsAtom list.tips = true := by
    simpa using canonical.opens
  have balanced := derived.balanced
  obtain ⟨first, others, leaves⟩ := List.exists_cons_of_ne_nil list.tips_ne_nil
  rw [leaves] at plain opens balanced ⊢
  by_cases bracket : first.kind = .openBracket
  · -- The brackets at the front are closed, so what is behind them is still in the list.
    have solid : others.dropWhile (fun token => token.kind == .openBracket) ≠ [] := by
      intro bare
      have all : ∀ token ∈ others, token.kind = .openBracket := by
        simpa using List.dropWhile_eq_nil_iff.mp bare
      have none : countKind .closeBracket others = 0 := by
        unfold countKind
        rw [List.countP_eq_zero]
        intro token member
        simp [all token member]
      simp [bracket, none] at balanced
    obtain ⟨next, more, front⟩ := List.exists_cons_of_ne_nil solid
    simp only [opensStatement, List.head?_cons, Option.any_some, bracket, BEq.rfl, Bool.true_and,
      List.dropWhile_cons, if_true, front] at plain
    rw [List.cons_append, leadsStatement, List.dropWhile_cons, if_pos (by simp [bracket]),
      List.dropWhile_append, front]
    exact plain
  · -- A list that does not begin with a bracket does not begin with a keyword either.
    have kind : first.kind ≠ .partToken := by
      intro keyword
      simp [Symbol.opens, Production.starts, Token.isSign, Token.startsAtom, Token.is,
        keyword] at opens
    simp [leadsStatement, bracket, Token.isRootKeyword, kind]

end Edges

end SqlLayout
