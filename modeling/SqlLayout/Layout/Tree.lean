import SqlLayout.Layout.Width
import SqlLayout.Layout.Writer
import SqlLayout.Token

/-! Layout of a token tree: the instructions each token gives to the writer. -/

namespace SqlLayout

/-- The line in front of a residue. -/
def unparsedMarker : Text :=
  -- It has the form of a diagnostic comment.
  "/*XXX unparsed*/".toList

/-- A token together with the instructions that lay it out. -/
abbrev LaidOut := Token × List LayoutOp

/-- A token by its comments and its text, with a blank behind each comment. -/
def Token.verbatim (token : Token) : List LayoutOp :=
  -- Children are not laid out.
  token.comments.flatMap (fun comment => [.write comment, .write [' ']]) ++ [.write token.text]

/-- A new line where the layout has room for several, and a blank where it has not. -/
def breakOrBlank (multiline : Bool) : LayoutOp :=
  -- Only brackets without a statement are kept on one line.
  if multiline then .newline else .write [' ']

/-- Tokens one behind the other. -/
def inSequence (laid : List LaidOut) : List LayoutOp :=
  -- Nothing is put between them.
  laid.flatMap Prod.snd

/-- Tokens with a blank in front of each but the first and those that are glued on. -/
def spacedOut (glued : Token → Bool) : List LaidOut → List LayoutOp
  | [] => []
  | (_, first) :: others =>
    first ++ others.flatMap fun (token, ops) =>
      if glued token then ops else .write [' '] :: ops

/-- Operands and operators, with an instruction in front of operators and of later operands. -/
def joinedBy (operator : Kind) (before between : LayoutOp) : (seen : Bool) → List LaidOut →
    List LayoutOp
  | _, [] => []
  | seen, (token, ops) :: others =>
    if token.kind = operator then
      before :: token.verbatim ++ joinedBy operator before between true others
    else
      -- Operands are set off once an operator has been seen.
      (if seen then [between] else []) ++ ops ++ joinedBy operator before between seen others

/-- The children of a statement, each on lines of its own. -/
def statementOps (laid : List LaidOut) : List LayoutOp :=
  laid.flatMap fun (token, ops) =>
    match token.kind with
    | .unionToken => .startLine :: token.verbatim ++ [.newline]
    -- A residue is announced on the line above it.
    | .unparsed => [.startLine, .write unparsedMarker, .newline, .write token.text]
    | _ => .startLine :: ops

/-- A clause: its keyword, and its list aligned to the next margin. -/
def partOps (laid : List LaidOut) : List LayoutOp :=
  -- A clause without a list ends in a blank.
  let keyword := match laid with
    | (token, _) :: _ => token.verbatim
    | [] => []
  let list := match laid with
    | _ :: (_, ops) :: _ => ops
    | _ => [.write [' ']]
  .startLine :: keyword ++ .indent :: list ++ [.dedent]

/-- A list, with a line or a blank behind every separator. -/
def listOps (multiline : Bool) (laid : List LaidOut) : List LayoutOp :=
  laid.flatMap fun (token, ops) =>
    -- The separator stays on the line of the item in front of it.
    if token.kind = .listSeparator then token.verbatim ++ [breakOrBlank multiline] else ops

/-- A bracket around its inner children, which are indented if they get lines of their own. -/
def bracketOps (multiline : Bool) : List LaidOut → List LayoutOp
  | [] => []
  | (opening, _) :: others =>
    let inner := inSequence others.dropLast
    let closing := match others.getLast? with
      | some (token, _) => token.verbatim
      | none => []
    -- A bracket on several lines has its contents one margin further in.
    opening.verbatim ++
      (if multiline then .indent :: .newline :: inner ++ [.dedent, .newline] else inner) ++ closing

/-- Whether the children of a token are laid out on several lines. -/
def Token.spreads (token : Token) (multiline : Bool) : Bool :=
  match token.kind with
  | .statement | .part => true
  -- A bracket is kept on one line unless it holds a statement.
  | .bracketExpr => token.contains .statement
  | _ => multiline

/-- A token laid out around its children. -/
def Token.arrange (token : Token) (multiline : Bool) (laid : List LaidOut) : List LayoutOp :=
  match token.kind with
  | .statement => statementOps laid
  | .singleStatement | .minusExpr | .funExpr => inSequence laid
  | .part => partOps laid
  | .listExpr => listOps multiline laid
  -- An operator OR stands on a line of its own, and AND begins a line.
  | .orExpr => joinedBy .orOp (breakOrBlank multiline) (breakOrBlank multiline) false laid
  | .andExpr => joinedBy .andOp (breakOrBlank multiline) (.write [' ']) false laid
  | .mathExpr | .unaryPrefixExpr => spacedOut (fun _ => false) laid
  | .atom => spacedOut (fun child => child.kind == .outerJoinMarker) laid
  | .bracketExpr => bracketOps (token.contains .statement) laid
  | .unparsed => [.write token.text]
  | _ => token.verbatim

mutual

/-- The instructions that lay out a token. -/
def Token.layout (multiline : Bool) : Token → List LayoutOp
  | ⟨kind, text, children, comments⟩ =>
    -- The children are laid out first, and then put together.
    let token : Token := ⟨kind, text, children, comments⟩
    token.arrange multiline (layoutAll (token.spreads multiline) children)

/-- Each token of a list with the instructions that lay it out. -/
def layoutAll (multiline : Bool) : List Token → List LaidOut
  | [] => []
  | first :: rest => (first, first.layout multiline) :: layoutAll multiline rest

end

/-- The text of a token tree, laid out with an indent width. -/
def format (width : IndentWidth) (root : Token) : Text :=
  -- The whole tree may spread over several lines.
  (({ width := width.columns } : Writer).runAll (root.layout true)).finish

end SqlLayout
