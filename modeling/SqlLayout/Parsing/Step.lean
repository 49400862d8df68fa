/-! Steps of the recursive descent, and the set of those that are under way. -/

namespace SqlLayout

/-- The productions of the grammar. -/
inductive Production where
  /-- Single statements joined by set operators. -/
  | statement
  /-- Parts that begin with a root keyword, or a bracket around a statement. -/
  | singleStatement
  /-- A clause keyword and the list that may follow it. -/
  | part
  /-- Expressions separated by commas. -/
  | listExpr
  /-- Expressions joined by OR. -/
  | orExpr
  /-- Expressions joined by AND. -/
  | andExpr
  /-- Operands joined by operators. -/
  | mathExpr
  /-- An operand with a prefix, with a minus or alone. -/
  | simpleExpr
  /-- A unary prefix and an atom. -/
  | unaryPrefixExpr
  /-- A minus and an atom. -/
  | minusExpr
  /-- One operand with what may follow it. -/
  | atom
  /-- A statement, a list or nothing between brackets. -/
  | bracketExpr
  /-- A function name and its bracket. -/
  | funExpr
  deriving DecidableEq

namespace Production

/-- Every production. -/
def all : List Production :=
  -- The order is the one in which the constructors are declared.
  [statement, singleStatement, part, listExpr, orExpr, andExpr, mathExpr, simpleExpr,
    unaryPrefixExpr, minusExpr, atom, bracketExpr, funExpr]

/-- The label a production is reported under. -/
def label : Production → String
  | statement => "Statement"
  | singleStatement => "SingleStatement"
  | part => "Part"
  | listExpr => "ListExpr"
  | orExpr => "OrExpr"
  | andExpr => "AndExpr"
  | mathExpr => "MathExpr"
  | simpleExpr => "SimpleExpr"
  | unaryPrefixExpr => "UnaryPrefixExpr"
  | minusExpr => "MinusExpr"
  | atom => "Atom"
  | bracketExpr => "BracketExpr"
  | funExpr => "FunExpr"

/-- The production a label stands for. -/
def ofLabel? (label : String) : Option Production :=
  -- Labels are distinct, so at most one production answers to each.
  all.find? fun production => production.label == label

end Production

/-- A production entered at a token, or at the end of the input. -/
structure Step where
  /-- The production that was entered. -/
  production : Production
  /-- The number of the token it was entered at, none at the end of the input. -/
  token : Option Nat
  deriving DecidableEq

/--
The steps that are under way.

No step is listed twice, so the list serves as a set.
-/
structure ActiveSteps where
  /-- The steps, the one entered last in front. -/
  steps : List Step := []
  deriving DecidableEq

namespace ActiveSteps

/-- Whether a step is under way. -/
def contains (active : ActiveSteps) (step : Step) : Bool :=
  -- Production and token both have to agree.
  active.steps.contains step

/-- The steps under way once a step has been entered. -/
def enter (active : ActiveSteps) (step : Step) : ActiveSteps :=
  -- Entering a step that is under way changes nothing.
  if active.contains step then active else ⟨step :: active.steps⟩

/-- The steps under way once a step has been left. -/
def leave (active : ActiveSteps) (step : Step) : ActiveSteps :=
  -- Leaving a step that is not under way changes nothing.
  ⟨active.steps.erase step⟩

/-- Whether no step is under way. -/
def isEmpty (active : ActiveSteps) : Bool :=
  -- The list holds exactly the steps under way.
  active.steps.isEmpty

end ActiveSteps

end SqlLayout
