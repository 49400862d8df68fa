import SqlLayout.Proofs.Parsing.Move

/-! Derivations: which trees the grammar gives to which tokens, and that the descent finds one. -/

namespace SqlLayout

open Engine

/-- What a derivation can be of. -/
inductive Symbol where
  -- One tree of a production, or the first child of an atom.
  | one (production : Production)
  | head
  -- What follows the first operand of a chain, or the first clause of a single statement.
  | links (production : Production)
  | clauses

/-- The chains of the grammar, each with the production of its operands. -/
def Production.chain? : Production → Option (Chain × Production)
  | statement => some (⟨.statement, .unionToken, false⟩, singleStatement)
  | listExpr => some (⟨.listExpr, .listSeparator, false⟩, orExpr)
  | orExpr => some (⟨.orExpr, .orOp, true⟩, andExpr)
  | andExpr => some (⟨.andExpr, .andOp, true⟩, mathExpr)
  | mathExpr => some (⟨.mathExpr, .mathOp, false⟩, simpleExpr)
  -- The other productions have rules of their own.
  | _ => none

/--
The trees that the grammar derives from tokens.

The tokens are those that were read, before a warning was put on any of them.
-/
inductive Derives : Symbol → (trees taken : List Token) → Prop where
  | chain {production operand : Production} {chain : Chain} {first : Token}
      {others taken more : List Token} (rule : production.chain? = some (chain, operand))
      (head : Derives (.one operand) [first] taken)
      (tail : Derives (.links production) others more) :
      Derives (.one production) [.node chain.kind (first :: others)] (taken ++ more)
  | linksEnd {production : Production} : Derives (.links production) [] []
  | link {production operand : Production} {chain : Chain} {separator next : Token}
      {others taken more : List Token} (rule : production.chain? = some (chain, operand))
      (kind : separator.kind = chain.separator)
      (head : Derives (.one operand) [next] taken)
      (tail : Derives (.links production) others more) :
      Derives (.links production) (separator :: next :: others) (separator :: taken ++ more)
  -- A separator without an operand behind it ends the chain, with a warning on it.
  | dangling {production operand : Production} {chain : Chain} {separator : Token}
      (rule : production.chain? = some (chain, operand)) (keeps : chain.keepsDangling = true)
      (kind : separator.kind = chain.separator) :
      Derives (.links production) [separator.addComment syntaxWarning] [separator]
  -- A single statement is a bracket around a statement, or clauses behind a root keyword.
  | bracketed {bracket : Token} {taken : List Token}
      (inner : Derives (.one .bracketExpr) [bracket] taken)
      (wraps : bracket.wrapsStatement = true) :
      Derives (.one .singleStatement) [bracket] taken
  | single {first keyword : Token} {others taken more : List Token}
      (root : keyword.isRootKeyword = true)
      (head : Derives (.one .part) [first] (keyword :: taken))
      (tail : Derives .clauses others more) :
      Derives (.one .singleStatement) [.node .singleStatement (first :: others)]
        (keyword :: taken ++ more)
  | clausesEnd : Derives .clauses [] []
  | clause {first : Token} {others taken more : List Token}
      (head : Derives (.one .part) [first] taken) (tail : Derives .clauses others more) :
      Derives .clauses (first :: others) (taken ++ more)
  | barePart {keyword : Token} (kind : keyword.kind = .partToken) :
      Derives (.one .part) [.node .part [keyword]] [keyword]
  | part {keyword list : Token} {taken : List Token} (kind : keyword.kind = .partToken)
      (inner : Derives (.one .listExpr) [list] taken) :
      Derives (.one .part) [.node .part [keyword, list]] (keyword :: taken)
  | simple {production : Production} {tree : Token} {taken : List Token}
      (choice : production ∈ [.unaryPrefixExpr, .minusExpr, .atom])
      (inner : Derives (.one production) [tree] taken) :
      Derives (.one .simpleExpr) [tree] taken
  | signed {sign atom : Token} {taken : List Token} (kind : sign.kind = .unaryPrefix)
      (inner : Derives (.one .atom) [atom] taken) :
      Derives (.one .unaryPrefixExpr) [.node .unaryPrefixExpr [sign, atom]] (sign :: taken)
  | negated {sign atom : Token} {taken : List Token} (minus : sign.is .mathOp "-".toList = true)
      (inner : Derives (.one .atom) [atom] taken) :
      Derives (.one .minusExpr) [.node .minusExpr [sign, atom]] (sign :: taken)
  -- The first child of an atom is a tree, or else a name, a text or a star.
  | headTree {production : Production} {tree : Token} {taken : List Token}
      (choice : production ∈ [.bracketExpr, .statement, .orExpr, .funExpr])
      (inner : Derives (.one production) [tree] taken) : Derives .head [tree] taken
  | headToken {token : Token}
      (choice : token.kind = .name ∨ token.kind = .text ∨ token.is .mathOp "*".toList = true) :
      Derives .head [token] [token]
  | atom {first : Token} {marker byname : Option Token} {taken : List Token}
      (inner : Derives .head [first] taken)
      (marked : ∀ token ∈ marker, token.kind = .outerJoinMarker)
      (named : ∀ token ∈ byname, token.kind = .name) :
      Derives (.one .atom) [.node .atom (first :: marker.toList ++ byname.toList)]
        (taken ++ (marker.toList ++ byname.toList))
  | emptyBracket {opening closing : Token} (opens : opening.kind = .openBracket)
      (closes : closing.kind = .closeBracket) :
      Derives (.one .bracketExpr) [.node .bracketExpr [opening, closing]] [opening, closing]
  | bracket {production : Production} {opening inner closing : Token} {taken : List Token}
      (choice : production ∈ [.statement, .listExpr]) (opens : opening.kind = .openBracket)
      (contents : Derives (.one production) [inner] taken)
      (closes : closing.kind = .closeBracket) :
      Derives (.one .bracketExpr) [.node .bracketExpr [opening, inner, closing]]
        (opening :: taken ++ [closing])
  | function {name arguments : Token} {taken : List Token} (kind : name.kind = .name)
      (inner : Derives (.one .bracketExpr) [arguments] taken) :
      Derives (.one .funExpr) [.node .funExpr [name, arguments]] (name :: taken)

/-- A tree is derived from at least one token. -/
theorem Derives.taken_ne_nil {symbol : Symbol} {trees taken : List Token}
    (derived : Derives symbol trees taken) (solid : trees ≠ []) : taken ≠ [] := by
  -- Every rule that gives a tree takes a token itself or asks for a tree.
  induction derived <;> simp_all

/-- The separator of a chain is no bracket. -/
theorem Production.separator_ne {production operand : Production} {chain : Chain}
    (rule : production.chain? = some (chain, operand)) :
    chain.separator ≠ .openBracket ∧ chain.separator ≠ .closeBracket := by
  -- The separators are listed, and none of them is a bracket.
  cases production <;> simp [Production.chain?] at rule <;> simp [← rule.1]

/-- The nodes and the separators of chains are of the sorts that they have to be. -/
theorem Production.chain_sorts {production operand : Production} {chain : Chain}
    (rule : production.chain? = some (chain, operand)) :
    chain.kind.isLexical = false ∧ chain.separator.isLexical = true := by
  -- The chains are listed with the kinds of their trees and of their separators.
  cases production <;> cases rule <;> exact ⟨rfl, rfl⟩

/-- The number of tokens of a kind. -/
def countKind (kind : Kind) (tokens : List Token) : Nat :=
  tokens.countP fun token => token.kind == kind

@[simp] theorem countKind_nil (kind : Kind) : countKind kind [] = 0 := rfl

@[simp] theorem countKind_cons (kind : Kind) (token : Token) (tokens : List Token) :
    countKind kind (token :: tokens) = (if token.kind = kind then 1 else 0) + countKind kind tokens := by
  simp [countKind, List.countP_cons, Nat.add_comm]

@[simp] theorem countKind_append (kind : Kind) (front back : List Token) :
    countKind kind (front ++ back) = countKind kind front + countKind kind back := by
  simp [countKind]

/-- In the tokens of a derivation every opening bracket has its closing one. -/
theorem Derives.balanced {symbol : Symbol} {trees taken : List Token}
    (derived : Derives symbol trees taken) :
    countKind .openBracket taken = countKind .closeBracket taken := by
  -- Only the rules of a bracket add brackets, one of each kind.
  induction derived with
  | chain _ _ _ head tail => simp [head, tail]
  | linksEnd => rfl
  | link rule kind _ _ head tail =>
    have apart := Production.separator_ne rule
    simp [kind, apart.1, apart.2, head, tail]
  | dangling rule _ kind =>
    have apart := Production.separator_ne rule
    simp [kind, apart.1, apart.2]
  | bracketed _ _ inner => exact inner
  | single _ _ _ head tail =>
    rw [countKind_append, countKind_append, head, tail]
  | clausesEnd => rfl
  | clause _ _ head tail => simp [head, tail]
  | barePart kind => simp [kind]
  | part kind _ inner => simp [kind, inner]
  | simple _ _ inner => exact inner
  | signed kind _ inner => simp [kind, inner]
  | negated minus _ inner =>
    simp only [Token.is, Bool.and_eq_true, beq_iff_eq] at minus
    simp [minus.1, inner]
  | headTree _ _ inner => exact inner
  | headToken choice =>
    simp only [Token.is, Bool.and_eq_true, beq_iff_eq] at choice
    rcases choice with kind | kind | ⟨kind, _⟩ <;> simp [kind]
  | @atom _ marker byname _ _ marked named inner =>
    -- Neither the marker nor the alias is a bracket.
    cases marker with
    | none => cases byname <;> simp_all
    | some marker => cases byname <;> simp_all
  | emptyBracket opens closes => simp [opens, closes]
  | bracket _ opens _ closes inner => simp [opens, closes, inner]; omega
  | function kind _ inner => simp [kind, inner]

/-- The kinds of tree that a production can come to. -/
def Production.kinds : Production → List Kind
  | statement => [.statement]
  | singleStatement => [.singleStatement, .bracketExpr]
  | part => [.part]
  | listExpr => [.listExpr]
  | orExpr => [.orExpr]
  | andExpr => [.andExpr]
  | mathExpr => [.mathExpr]
  | simpleExpr => [.unaryPrefixExpr, .minusExpr, .atom]
  | unaryPrefixExpr => [.unaryPrefixExpr]
  | minusExpr => [.minusExpr]
  | atom => [.atom]
  | bracketExpr => [.bracketExpr]
  | funExpr => [.funExpr]

/-- A chain comes to one kind of tree. -/
theorem Production.kinds_chain {production operand : Production} {chain : Chain}
    (rule : production.chain? = some (chain, operand)) : production.kinds = [chain.kind] := by
  -- A chain always gives a tree of its own kind.
  cases production <;> simp [Production.chain?] at rule <;> simp [Production.kinds, ← rule.1]

/-- The tree of a production is of a kind that the production comes to. -/
theorem Derives.kind_mem {production : Production} {tree : Token} {taken : List Token}
    (derived : Derives (.one production) [tree] taken) : tree.kind ∈ production.kinds := by
  generalize symbol_eq : Symbol.one production = symbol at derived
  generalize trees_eq : [tree] = trees at derived
  -- a production that passes its operand on has the kinds of its operand
  induction derived generalizing production tree with
  | chain rule =>
    cases symbol_eq
    cases trees_eq
    rw [Production.kinds_chain rule]
    exact List.mem_singleton_self _
  | bracketed _ _ inner =>
    cases symbol_eq
    have kind := inner rfl trees_eq
    simp_all [Production.kinds]
  | simple choice _ inner =>
    cases symbol_eq
    have kind := inner rfl trees_eq
    simp only [List.mem_cons, List.not_mem_nil, or_false] at choice
    rcases choice with rfl | rfl | rfl <;> simp_all [Production.kinds]
  | linksEnd | link | dangling | clausesEnd | clause | headTree | headToken => cases symbol_eq
  | _ =>
    cases symbol_eq
    cases trees_eq
    simp [Production.kinds, Token.node]

/-- Separators and operands in turn, as they stand behind the first operand of a chain. -/
inductive Alternates (chain : Chain) (operands : List Kind) : List Token → Prop where
  | nil : Alternates chain operands []
  | last {token : Token} : chain.keepsDangling = true → token.kind = chain.separator →
    Alternates chain operands [token]
  | link {token next : Token} {others : List Token} : token.kind = chain.separator →
    next.kind ∈ operands → Alternates chain operands others →
    Alternates chain operands (token :: next :: others)

/-- Behind the first operand of a chain stand separators and operands in turn. -/
theorem Derives.alternates {production operand : Production} {chain : Chain}
    {trees taken : List Token} (derived : Derives (.links production) trees taken)
    (rule : production.chain? = some (chain, operand)) : Alternates chain operand.kinds trees := by
  generalize symbol_eq : Symbol.links production = symbol at derived
  -- links follow links of the same production, so of the same chain
  induction derived with
  | linksEnd => exact .nil
  | link rule' kind head _ _ tail =>
    cases symbol_eq
    cases rule.symm.trans rule'
    exact .link kind head.kind_mem (tail rfl)
  | dangling rule' keeps kind =>
    cases symbol_eq
    cases rule.symm.trans rule'
    exact .last keeps kind
  | _ => cases symbol_eq

/-- A bracket holds a statement at once or not at all. -/
theorem Derives.wrapsStatement {bracket : Token} {taken : List Token}
    (derived : Derives (.one .bracketExpr) [bracket] taken) :
    bracket.wrapsStatement = (bracket.child? .statement).isSome := by
  cases derived with
  | chain rule => simp [Production.chain?] at rule
  | emptyBracket opens closes =>
    simp [Token.wrapsStatement, Token.child?, Token.node, opens, closes]
  | bracket choice opens contents closes =>
    -- what a bracket holds is a statement or a list, and its kind says which
    have kind := contents.kind_mem
    simp only [List.mem_cons, List.not_mem_nil, or_false] at choice
    rcases choice with rfl | rfl
    all_goals
      simp only [Production.kinds, List.mem_singleton] at kind
      simp [Token.wrapsStatement, Token.child?, Token.node, opens, closes, kind]

/-- A production that reads only what the grammar derives, and gives back what it cannot read. -/
structure Engine.Parses (call : Production → Engine Token) : Prop where
  /-- The tree it yields is derived from the tokens it takes. -/
  reads : ∀ production cursor, ReadsFrom cursor (call production) fun tree taken =>
    Derives (.one production) [tree] taken
  /-- When it fails, the cursor stands where it stood. -/
  restores : ∀ production, Restores (call production)

/-- The tree of a run is derived from the tokens the run took. -/
theorem Engine.Parses.derives {call : Production → Engine Token} (parses : Parses call)
    {production : Production} {cursor after : Cursor} {tree : Token}
    (run : call production cursor = (some tree, after)) :
    ∃ taken, cursor.Moved taken after ∧ Derives (.one production) [tree] taken := by
  -- What is read is said of every outcome, and here there is one.
  have reads := (parses.reads production cursor).2
  rw [run] at reads
  exact reads tree rfl

/-- A run that fails leaves the cursor where it stood. -/
theorem Engine.Parses.stays {call : Production → Engine Token} (parses : Parses call)
    {production : Production} {cursor after : Cursor}
    (run : call production cursor = (none, after)) : cursor.Moved [] after := by
  -- A production that fails puts the cursor back.
  have back := parses.restores production cursor
  rw [run] at back
  exact back rfl

/-- A run that yields a tree leaves fewer tokens. -/
theorem Engine.Parses.shorter {call : Production → Engine Token} (parses : Parses call)
    {production : Production} {cursor after : Cursor} {tree : Token}
    (run : call production cursor = (some tree, after)) :
    after.rest.length < cursor.rest.length := by
  obtain ⟨taken, moved, derived⟩ := parses.derives run
  -- no tree is derived from no tokens
  have solid := List.length_pos_iff.mpr (derived.taken_ne_nil (by simp))
  have length := congrArg List.length moved.rest
  rw [List.length_append] at length
  omega

/-- One turn of the links of a chain, run from a cursor. -/
theorem Chain.links_run (chain : Chain) (operand : Engine Token) (turns : Nat) (cursor : Cursor) :
    chain.links operand (turns + 1) cursor = match take chain.separator cursor with
      | (none, after) => (some [], after)
      | (some separator, behind) => match operand behind with
        | (some next, after) => ((chain.links operand turns after).1.map (separator :: next :: ·),
            (chain.links operand turns after).2)
        | (none, after) =>
          if chain.keepsDangling then (some [separator.addComment syntaxWarning], after)
          else (some [], after.rewind cursor) := by
  -- Each attempt turns the outcome of a move into a value, and the rule branches on it.
  rw [Chain.links, here_bind_run, bind_run, attempt_run]
  rcases take chain.separator cursor with ⟨_ | separator, behind⟩
  · rfl
  · simp only
    rw [bind_run, attempt_run]
    rcases operand behind with ⟨_ | next, after⟩
    · by_cases keeps : chain.keepsDangling = true
      · simp only [keeps, if_true]
        rfl
      · simp only [keeps]
        rfl
    · simp only
      rw [bind_run]
      rcases chain.links operand turns after with ⟨_ | others, final⟩
      · rfl
      · rfl

section Link

variable {chain : Chain} {operand : Engine Token} {cursor behind after : Cursor} {separator : Token}
  (separate : take chain.separator cursor = (some separator, behind)) (turns : Nat)
include separate

/-- An operand behind a separator makes a link, and the chain goes on behind it. -/
theorem Chain.links_next {next : Token} (operate : operand behind = (some next, after)) :
    chain.links operand (turns + 1) cursor =
      ((chain.links operand turns after).1.map ([separator, next] ++ ·),
        (chain.links operand turns after).2) := by
  -- A separator and an operand are one link, and the chain goes on behind them.
  rw [Chain.links_run, separate]
  simp only [operate]
  rfl

/-- A separator that no operand follows is kept with a warning, where a chain keeps it. -/
theorem Chain.links_kept (keeps : chain.keepsDangling = true)
    (operate : operand behind = (none, after)) :
    chain.links operand (turns + 1) cursor =
      (some [separator.addComment syntaxWarning], after) := by
  -- With no operand behind it the separator is the last of the chain.
  rw [Chain.links_run, separate]
  simp only [operate, keeps, if_true]

/-- A separator that no operand follows is given back, where a chain does not keep it. -/
theorem Chain.links_given (keeps : ¬chain.keepsDangling = true)
    (operate : operand behind = (none, after)) :
    chain.links operand (turns + 1) cursor = (some [], after.rewind cursor) := by
  -- With no operand behind it the separator is not one of the chain's.
  rw [Chain.links_run, separate]
  simp only [operate, keeps, Bool.false_eq_true, if_false]

end Link

/-- One turn of a repeated move, run from a cursor. -/
theorem Engine.repeated_run (item : Engine Token) (turns : Nat) (cursor : Cursor) :
    repeated item (turns + 1) cursor = match item cursor with
      | (none, after) => (some [], after)
      | (some first, after) => ((repeated item turns after).1.map (first :: ·),
          (repeated item turns after).2) := by
  -- The first turn decides whether there are more.
  rw [repeated, bind_run, attempt_run]
  rcases item cursor with ⟨_ | first, after⟩
  · rfl
  · simp only
    rw [bind_run]
    rcases repeated item turns after with ⟨_ | others, final⟩
    · rfl
    · rfl

/-- Without a separator at the cursor a chain ends there, whatever turns are left. -/
theorem Chain.links_stop {chain : Chain} (operand : Engine Token) {cursor : Cursor} (turns : Nat)
    (absent : (take chain.separator cursor).1 = none) :
    (chain.links operand turns cursor).1 = some [] ∧
      cursor.Moved [] (chain.links operand turns cursor).2 := by
  cases turns with
  | zero => exact ⟨rfl, .refl cursor⟩
  | succ turns =>
    -- a separator that is not taken leaves the cursor where it stood
    have back := restores_takeIf (fun token => token.kind == chain.separator) cursor absent
    rw [Chain.links_run]
    rw [← take] at back
    rcases separate : take chain.separator cursor with ⟨_ | separator, behind⟩
    · rw [separate] at back
      exact ⟨rfl, back⟩
    · rw [separate] at absent
      cases absent

/-- A move that fails at the cursor is repeated no times, whatever turns are left. -/
theorem Engine.repeated_stop {item : Engine Token} {cursor : Cursor} (turns : Nat)
    (restores : Restores item) (fails : (item cursor).1 = none) :
    (repeated item turns cursor).1 = some [] ∧ cursor.Moved [] (repeated item turns cursor).2 := by
  -- The first turn fails already, and leaves the cursor where it was.
  cases turns with
  | zero => exact ⟨rfl, .refl cursor⟩
  | succ turns =>
    have back := restores cursor fails
    rw [repeated_run]
    rcases run : item cursor with ⟨_ | first, after⟩
    · rw [run] at back
      exact ⟨rfl, back⟩
    · rw [run] at fails
      cases fails

section Rules

variable {call : Production → Engine Token} (parses : Parses call) (cursor : Cursor)
include parses

/-- Where an operand is missing behind a separator, the chain ends as the grammar derives it. -/
theorem readsFrom_links_missing {production operand : Production} {chain : Chain}
    (rule : production.chain? = some (chain, operand)) (turns : Nat)
    {behind after : Cursor} {separator : Token}
    (separate : take chain.separator cursor = (some separator, behind))
    (kind : separator.kind = chain.separator) (operate : call operand behind = (none, after)) :
    ReadsFrom cursor (chain.links (call operand) (turns + 1)) fun others taken =>
      Derives (.links production) others taken := by
  have back := (moved_of_takeIf separate).trans (parses.stays operate)
  unfold ReadsFrom
  by_cases keeps : chain.keepsDangling = true
  · -- The separator is kept, with a warning on it.
    rw [Chain.links_kept separate turns keeps operate]
    refine ⟨back.active, ?_⟩
    rintro others ⟨⟩
    exact ⟨[separator], back, .dangling rule keeps kind⟩
  · -- The separator is given back, and with it the cursor.
    rw [Chain.links_given separate turns keeps operate]
    refine ⟨back.active, ?_⟩
    rintro others ⟨⟩
    exact ⟨[], ⟨rfl, rfl, back.active⟩, .linksEnd⟩

/-- The links of a chain are read as the grammar derives them. -/
theorem readsFrom_links {production operand : Production} {chain : Chain}
    (rule : production.chain? = some (chain, operand)) (turns : Nat) :
    ReadsFrom cursor (chain.links (call operand) turns) fun others taken =>
      Derives (.links production) others taken := by
  -- The induction is on the turns, each of which reads one link.
  induction turns generalizing cursor with
  | zero => exact readsFrom_pure .linksEnd
  | succ turns ih =>
    rcases separate : take chain.separator cursor with ⟨_ | separator, behind⟩
    · -- There is no separator, and the chain ends here.
      obtain ⟨ended, back⟩ :=
        Chain.links_stop (call operand) (turns + 1) (congrArg Prod.fst separate)
      refine ⟨back.active, fun others yields => ⟨[], back, ?_⟩⟩
      cases ended.symm.trans yields
      exact .linksEnd
    · have past := moved_of_takeIf separate
      have kind := (readsFrom_take cursor chain.separator).2
      rw [separate] at kind
      obtain ⟨_, _, _, kind⟩ := kind separator rfl
      rcases operate : call operand behind with ⟨_ | next, after⟩
      · exact readsFrom_links_missing parses cursor rule turns separate kind operate
      · obtain ⟨taken, moved, derived⟩ := parses.derives operate
        obtain ⟨steady, said⟩ := ih after
        unfold ReadsFrom
        rw [Chain.links_next separate turns operate]
        refine ⟨steady.trans (past.trans moved).active, ?_⟩
        intro others yields
        obtain ⟨tail, inner, rfl⟩ := Option.map_eq_some_iff.mp yields
        obtain ⟨more, further, links⟩ := said tail inner
        exact ⟨[separator] ++ taken ++ more, (past.trans moved).trans further,
          .link rule kind derived links⟩

/-- A first operand, and a loop behind it that reads links, are read as a chain. -/
theorem readsFrom_chained {production operand : Production} {chain : Chain}
    (rule : production.chain? = some (chain, operand)) (loop : Engine (List Token))
    (reads : ∀ after, ReadsFrom after loop fun others taken =>
      Derives (.links production) others taken) :
    ReadsFrom cursor
      (do let first ← call operand; return .node chain.kind (first :: (← loop)) : Engine Token)
      fun tree taken => Derives (.one production) [tree] taken := by
  -- The first operand is read, and then what the loop reads behind it.
  refine readsFrom_bind (parses.reads operand cursor) ?_
  intro first taken after _ head
  refine readsFrom_bind (reads after) ?_
  intro others more _ _ tail
  refine readsFrom_pure ?_
  rw [List.append_nil]
  exact .chain rule head tail

/-- A chain is read as the grammar derives it. -/
theorem readsFrom_chain {production operand : Production} {chain : Chain}
    (rule : production.chain? = some (chain, operand)) :
    ReadsFrom cursor (chain.parse (call operand)) fun tree taken =>
      Derives (.one production) [tree] taken :=
  -- The loop of a chain reads its links.
  readsFrom_chained parses cursor rule (do chain.links (call operand) (← here).rest.length)
    fun after => readsFrom_here (readsFrom_links parses after rule _)

/-- Clauses are read as the grammar derives them. -/
theorem readsFrom_clauses (turns : Nat) :
    ReadsFrom cursor (repeated (call .part) turns) fun others taken =>
      Derives .clauses others taken := by
  -- each turn reads one clause, until none can be read
  induction turns generalizing cursor with
  | zero => exact readsFrom_pure .clausesEnd
  | succ turns ih =>
    unfold ReadsFrom
    rw [repeated_run]
    rcases run : call .part cursor with ⟨_ | first, after⟩
    · have back := parses.stays run
      exact ⟨back.active, fun _ yields => ⟨[], back, by cases yields; exact .clausesEnd⟩⟩
    · obtain ⟨taken, moved, derived⟩ := parses.derives run
      obtain ⟨steady, said⟩ := ih after
      refine ⟨steady.trans moved.active, ?_⟩
      intro others yields
      obtain ⟨tail, inner, rfl⟩ := Option.map_eq_some_iff.mp yields
      obtain ⟨more, further, rest⟩ := said tail inner
      exact ⟨taken ++ more, moved.trans further, .clause derived rest⟩

/-- A bracket around a statement, or clauses that a loop reads, are read as a single statement. -/
theorem readsFrom_stated (loop : Engine (List Token))
    (reads : ∀ after, ReadsFrom after loop fun others taken => Derives .clauses others taken) :
    ReadsFrom cursor (do
      let tokens := (← here).rest
      if opensStatement tokens then
        let bracket ← call .bracketExpr
        if bracket.wrapsStatement then return bracket else fail
      else if tokens.head?.any Token.isRootKeyword then
        let first ← call .part
        return .node .singleStatement (first :: (← loop))
      else fail) fun tree taken => Derives (.one .singleStatement) [tree] taken := by
  -- The look ahead decides between the two forms.
  refine readsFrom_here ?_
  simp only
  split
  · refine readsFrom_bind (parses.reads .bracketExpr cursor) ?_
    intro bracket taken after _ derived
    split
    · rename_i wraps
      refine readsFrom_pure ?_
      rw [List.append_nil]
      exact .bracketed derived wraps
    · exact readsFrom_fail
  · split
    · rename_i root
      refine readsFrom_bind (parses.reads .part cursor) ?_
      intro first taken after moved head
      refine readsFrom_bind (reads after) ?_
      intro others more _ _ tail
      refine readsFrom_pure ?_
      rw [List.append_nil]
      -- The root keyword was seen at the cursor, so it is the first token of the first clause.
      obtain ⟨keyword, others', rfl⟩ := List.exists_cons_of_ne_nil (head.taken_ne_nil (by simp))
      rw [moved.rest] at root
      exact .single (by simpa using root) head tail
    · exact readsFrom_fail

/-- A single statement is read as the grammar derives it. -/
theorem readsFrom_singleStatement :
    ReadsFrom cursor (sqlGrammar call .singleStatement) fun tree taken =>
      Derives (.one .singleStatement) [tree] taken :=
  -- The loop of a single statement reads its clauses.
  readsFrom_stated parses cursor (do repeated (call .part) (← here).rest.length)
    fun after => readsFrom_here (readsFrom_clauses parses after _)

/-- An atom is read as the grammar derives it. -/
theorem readsFrom_atom :
    ReadsFrom cursor (sqlGrammar call .atom) fun tree taken =>
      Derives (.one .atom) [tree] taken := by
  -- The head of an atom is one of four trees or one of three tokens.
  have tree : ∀ production ∈ [Production.bracketExpr, .statement, .orExpr, .funExpr],
      ∀ cursor, ReadsFrom cursor (call production) fun tree taken => Derives .head [tree] taken := by
    intro production choice cursor
    exact (parses.reads production cursor).weaken fun _ _ derived => .headTree choice derived
  have leaf : ∀ (test : Token → Bool), (∀ token, test token = true →
      token.kind = .name ∨ token.kind = .text ∨ token.is .mathOp "*".toList = true) →
      ∀ cursor, ReadsFrom cursor (takeIf test) fun tree taken => Derives .head [tree] taken := by
    intro test choice cursor
    refine (readsFrom_takeIf cursor test).weaken ?_
    rintro token taken ⟨rfl, passes⟩
    exact .headToken (choice token passes)
  refine readsFrom_bind (?_ : ReadsFrom cursor _ fun tree taken => Derives .head [tree] taken) ?_
  -- The choices are tried in this order, the trees before the tokens.
  · refine readsFrom_orElse (parses.restores _) (tree _ (by simp) cursor) ?_
    intro cursor _
    refine readsFrom_orElse (parses.restores _) (tree _ (by simp) cursor) ?_
    intro cursor _
    refine readsFrom_orElse (parses.restores _) (tree _ (by simp) cursor) ?_
    intro cursor _
    refine readsFrom_orElse (parses.restores _) (tree _ (by simp) cursor) ?_
    intro cursor _
    refine readsFrom_orElse (restores_takeIf _) (leaf _ (by simp +contextual) cursor) ?_
    intro cursor _
    refine readsFrom_orElse (restores_takeIf _) (leaf _ (by simp +contextual) cursor) ?_
    intro cursor _
    exact leaf _ (by simp +contextual) cursor
  -- Behind the head either of two tokens may follow.
  · intro first taken after _ derived
    refine readsFrom_bind (readsFrom_attempt (restores_takeIf _) (readsFrom_take after _)) ?_
    intro marker marks after' _ marked
    refine readsFrom_bind (readsFrom_attempt (restores_takeIf _) (readsFrom_take after' _)) ?_
    intro byname names after'' _ named
    refine readsFrom_pure ?_
    have marks_eq : marks = marker.toList := by cases marker <;> simp_all
    have names_eq : names = byname.toList := by cases byname <;> simp_all
    rw [marks_eq, names_eq, List.append_nil]
    refine .atom derived ?_ ?_
    · rintro token (rfl : marker = some token)
      exact marked.2
    · rintro token (rfl : byname = some token)
      exact named.2

/-- Between brackets a statement or a list is read, or nothing. -/
theorem readsFrom_contents :
    ReadsFrom cursor (attempt (call .statement <|> call .listExpr)) fun inner taken =>
      match inner with
      | some tree => ∃ production ∈ [Production.statement, .listExpr],
          Derives (.one production) [tree] taken
      | none => taken = [] := by
  -- A statement is tried before a list, and there need be neither.
  have reads : ReadsFrom cursor (call .statement <|> call .listExpr) fun tree taken =>
      ∃ production ∈ [Production.statement, .listExpr], Derives (.one production) [tree] taken := by
    refine readsFrom_orElse (parses.restores _) ?_ ?_
    · exact (parses.reads _ cursor).weaken fun _ _ derived => ⟨_, by simp, derived⟩
    · intro after _
      exact (parses.reads _ after).weaken fun _ _ derived => ⟨_, by simp, derived⟩
  have restored := restores_orElse (parses.restores .statement) (parses.restores .listExpr)
  refine (readsFrom_attempt restored reads).weaken ?_
  intro inner taken said
  cases inner with
  | none => exact said
  | some tree => exact said

/-- A bracket is read as the grammar derives it. -/
theorem readsFrom_bracketExpr :
    ReadsFrom cursor (sqlGrammar call .bracketExpr) fun tree taken =>
      Derives (.one .bracketExpr) [tree] taken := by
  -- What stands between the brackets tells which of two rules was followed.
  refine readsFrom_bind (readsFrom_take cursor _) ?_
  rintro opening _ after - ⟨rfl, opens⟩
  refine readsFrom_bind (readsFrom_contents parses after) ?_
  intro inner taken after' _ contents
  refine readsFrom_bind (readsFrom_take after' _) ?_
  rintro closing _ after'' - ⟨rfl, closes⟩
  refine readsFrom_pure ?_
  rw [List.append_nil]
  cases inner with
  | none =>
    cases contents
    exact .emptyBracket opens closes
  | some inner =>
    obtain ⟨production, choice, derived⟩ := contents
    exact .bracket choice opens derived closes

/-- A clause is read as the grammar derives it. -/
theorem readsFrom_part :
    ReadsFrom cursor (sqlGrammar call .part) fun tree taken =>
      Derives (.one .part) [tree] taken := by
  -- Whether a list follows the keyword tells which of two rules was followed.
  refine readsFrom_bind (readsFrom_take cursor _) ?_
  rintro keyword _ after - ⟨rfl, kind⟩
  refine readsFrom_bind (readsFrom_attempt (parses.restores _) (parses.reads .listExpr after)) ?_
  intro list taken _ _ derived
  refine readsFrom_pure ?_
  rw [List.append_nil]
  cases list with
  | none =>
    cases derived
    exact .barePart kind
  | some list => exact .part kind derived

/-- A simple expression is read as the grammar derives it. -/
theorem readsFrom_simpleExpr :
    ReadsFrom cursor (sqlGrammar call .simpleExpr) fun tree taken =>
      Derives (.one .simpleExpr) [tree] taken := by
  -- Each of the three choices gives the tree as it is.
  have choose : ∀ production ∈ [Production.unaryPrefixExpr, .minusExpr, .atom], ∀ cursor,
      ReadsFrom cursor (call production) fun tree taken =>
        Derives (.one .simpleExpr) [tree] taken := by
    intro production choice cursor
    exact (parses.reads production cursor).weaken fun _ _ derived => .simple choice derived
  refine readsFrom_orElse (parses.restores _) (choose _ (by simp) cursor) ?_
  intro cursor _
  refine readsFrom_orElse (parses.restores _) (choose _ (by simp) cursor) ?_
  intro cursor _
  exact choose _ (by simp) cursor

/-- A token and the tree of a production behind it are read as the grammar derives them. -/
theorem readsFrom_pair {production operand : Production} {kind : Kind} {first : Engine Token}
    {passes : Token → Prop}
    (leads : ReadsFrom cursor first fun token taken => taken = [token] ∧ passes token)
    (derives : ∀ {sign tree : Token} {taken : List Token}, passes sign →
      Derives (.one operand) [tree] taken →
        Derives (.one production) [.node kind [sign, tree]] (sign :: taken)) :
    ReadsFrom cursor
      (do let sign ← first; let tree ← call operand; return .node kind [sign, tree])
      fun tree taken => Derives (.one production) [tree] taken := by
  -- the first move takes one token, and the tree takes what follows it
  refine readsFrom_bind leads ?_
  rintro sign _ after - ⟨rfl, passed⟩
  refine readsFrom_bind (parses.reads operand after) ?_
  intro tree taken _ _ derived
  refine readsFrom_pure ?_
  rw [List.append_nil]
  exact derives passed derived

/-- Every rule of the grammar reads what the grammar derives. -/
theorem readsFrom_sqlGrammar (production : Production) :
    ReadsFrom cursor (sqlGrammar call production) fun tree taken =>
      Derives (.one production) [tree] taken := by
  -- Each production has its own rule, and the chains have one in common.
  cases production with
  | statement => exact readsFrom_chain parses cursor rfl
  | singleStatement => exact readsFrom_singleStatement parses cursor
  | part => exact readsFrom_part parses cursor
  | listExpr => exact readsFrom_chain parses cursor rfl
  | orExpr => exact readsFrom_chain parses cursor rfl
  | andExpr => exact readsFrom_chain parses cursor rfl
  | mathExpr => exact readsFrom_chain parses cursor rfl
  | simpleExpr => exact readsFrom_simpleExpr parses cursor
  | unaryPrefixExpr => exact readsFrom_pair parses cursor (readsFrom_take cursor _) .signed
  | minusExpr => exact readsFrom_pair parses cursor (readsFrom_takeText cursor _ _) .negated
  | atom => exact readsFrom_atom parses cursor
  | bracketExpr => exact readsFrom_bracketExpr parses cursor
  | funExpr => exact readsFrom_pair parses cursor (readsFrom_take cursor _) .function

end Rules

/-- A descent reads only what the grammar derives when its rules do, one level above the other. -/
theorem parses_of_rules {grammar : Grammar}
    (rules : ∀ limit, Parses (descend grammar limit) → ∀ cursor production,
      ReadsFrom cursor (grammar (descend grammar limit) production) fun tree taken =>
        Derives (.one production) [tree] taken)
    (limit : Nat) : Parses (descend grammar limit) := by
  induction limit with
  | zero =>
    -- Without a level to descend to, every production fails.
    refine ⟨fun production cursor => ?_, fun production => ?_⟩
    · exact readsFrom_guarded readsFrom_fail
    · exact restores_guarded fun _ => rfl
  | succ limit ih =>
    refine ⟨fun production cursor => ?_, fun production => ?_⟩
    · exact readsFrom_guarded (rules limit ih _ production)
    · exact restores_guarded fun cursor => (rules limit ih cursor production).1

/-- The descent, however deep it may go, reads only what the grammar derives. -/
theorem parses_descend (limit : Nat) : Parses (descend sqlGrammar limit) :=
  -- A level of the descent reads by the rules when the level below it does.
  parses_of_rules (fun _ parses cursor production => readsFrom_sqlGrammar parses cursor production)
    limit

end SqlLayout
