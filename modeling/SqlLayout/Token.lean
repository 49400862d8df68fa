import SqlLayout.Kind
import SqlLayout.Text.Basic

/-! The token tree that lexing, parsing and layout share. -/

namespace SqlLayout

/--
A node of the token tree.

Lexical tokens carry text and structural tokens carry children.
Any token may carry the comments that stand in front of it, their delimiters included.
-/
structure Token where
  /-- What sort of token this is. -/
  kind : Kind
  /-- The token's own text, empty for most structural tokens. -/
  text : Text := []
  /-- The tokens below this one, in the order they were read. -/
  children : List Token := []
  /-- The comments in front of the token, in the order they were read. -/
  comments : List Text := []

namespace Token

mutual

/-- Two trees are equal when kind, text, comments and all children are. -/
def decEq : (left right : Token) → Decidable (left = right)
  | ⟨kind, text, children, comments⟩, ⟨kind', text', children', comments'⟩ =>
    -- Kind, text and comments are compared only when the children agree.
    match decEqAll children children' with
    | isTrue same =>
      decidable_of_iff (kind = kind' ∧ text = text' ∧ comments = comments') (by simp [same])
    | isFalse differ => isFalse (by simp [differ])

/-- Two lists of trees are equal when they agree tree by tree. -/
def decEqAll : (left right : List Token) → Decidable (left = right)
  | [], [] => isTrue rfl
  | [], _ :: _ => isFalse (by simp)
  | _ :: _, [] => isFalse (by simp)
  | first :: rest, first' :: rest' =>
    -- One difference anywhere settles the question.
    match decEq first first', decEqAll rest rest' with
    | isTrue same, isTrue sameRest => isTrue (by simp [same, sameRest])
    | isFalse differ, _ => isFalse (by simp [differ])
    | _, isFalse differ => isFalse (by simp [differ])

end

/-- Equality of trees can be decided. -/
instance : DecidableEq Token := decEq

/-- A token with text and nothing below it. -/
def lexical (kind : Kind) (text : Text) : Token :=
  -- Comments are attached later.
  { kind, text }

/-- A token with children and no text of its own. -/
def node (kind : Kind) (children : List Token) : Token :=
  -- A structural token says nothing that its children do not say.
  { kind, children }

/-- The token that keeps what did not fit the grammar. -/
def residue (text : Text) : Token :=
  -- It is the one structural token that carries text.
  lexical .unparsed text

/-- A token with one more comment, behind those it has. -/
def addComment (token : Token) (comment : Text) : Token :=
  -- Comments keep the order in which they are attached.
  { token with comments := token.comments ++ [comment] }

/-- A token with one more child, behind those it has. -/
def push (token child : Token) : Token :=
  -- Children keep the order in which they are read.
  { token with children := token.children ++ [child] }

/-- Whether a token has the given kind and text. -/
def is (token : Token) (kind : Kind) (text : Text) : Bool :=
  -- Comments and children play no part.
  token.kind == kind && token.text == text

/-- The first direct child of a kind. -/
def child? (token : Token) (kind : Kind) : Option Token :=
  -- Children are searched from left to right.
  token.children.find? fun child => child.kind == kind

/-- The residue text of a token whose last child is one. -/
def unparsed? (token : Token) : Option Text :=
  -- A residue anywhere else is not reported.
  token.children.getLast?.bind fun last =>
    if last.kind = .unparsed then some last.text else none

mutual

/-- The number of tokens in a tree. -/
def size : Token → Nat
  | ⟨_, _, children, _⟩ => 1 + sizeAll children

/-- The number of tokens in a list of trees. -/
def sizeAll : List Token → Nat
  | [] => 0
  | first :: rest => first.size + sizeAll rest

end

/-- The trees of two lists together hold the tokens of both. -/
theorem sizeAll_append (front back : List Token) :
    sizeAll (front ++ back) = sizeAll front + sizeAll back := by
  -- Each tree of the first list counts once on either side.
  induction front with
  | nil => simp [sizeAll]
  | cons first rest ih => simp [sizeAll, ih]; omega

/--
All tokens met from a stack of trees, in the order in which a reader meets them.

The tree on top of the stack is met first, then its children take its place.
-/
def walk : (stack : List Token) → List Token
  | [] => []
  | top :: stack => top :: walk (top.children ++ stack)
termination_by stack => sizeAll stack
decreasing_by
  -- The children of a tree hold every token of it but one.
  cases top
  simp [sizeAll, sizeAll_append, size]

/-- All tokens below a token, in the order in which a reader meets them. -/
def descendants (token : Token) : List Token :=
  -- The token itself is not among them.
  walk token.children

/-- Whether some token below a token has the given kind. -/
def contains (token : Token) (kind : Kind) : Bool :=
  -- The token's own kind plays no part.
  token.descendants.any fun below => below.kind == kind

mutual

/--
A tree on one line: comments, text and children, with one blank between neighbours.

A child that shows nothing still takes its blank.
-/
def display : Token → Text
  | ⟨_, text, children, comments⟩ =>
    -- An empty text is no item of the line.
    [' '].intercalate (comments ++ (if text.isEmpty then [] else [text]) ++ displayAll children)

/-- The lines of a list of trees. -/
def displayAll : List Token → List Text
  | [] => []
  | first :: rest => first.display :: displayAll rest

end

end Token

end SqlLayout
