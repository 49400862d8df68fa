import SqlLayout.Text.Blank
import SqlLayout.Token

/-! The outline of a token tree, one token to a line. -/

namespace SqlLayout

namespace Token

/-- The line of a token in an outline, its line break included. -/
def outlineLine (token : Token) (depth : Nat) : Text :=
  -- Text and comments are left out when there are none.
  List.replicate (2 * depth) ' ' ++ token.kind.label.toList ++
    (if token.text.isEmpty then [] else ' ' :: token.text) ++
    (if token.comments.isEmpty then []
      else " [".toList ++ ", ".toList.intercalate token.comments ++ "]".toList) ++ ['\n']

mutual

/-- The lines of a tree, indented by the depth of each token. -/
def outlineFrom (depth : Nat) : Token → Text
  | ⟨kind, text, children, comments⟩ =>
    -- A token stands above its children.
    outlineLine ⟨kind, text, children, comments⟩ depth ++ outlineAll (depth + 1) children

/-- The lines of a list of trees. -/
def outlineAll (depth : Nat) : List Token → Text
  | [] => []
  | first :: rest => first.outlineFrom depth ++ outlineAll depth rest

end

/-- The outline of a tree, without blanks at its end. -/
def outline (token : Token) : Text :=
  -- The last line has no line break.
  Text.trimEnd (token.outlineFrom 0)

end Token

end SqlLayout
