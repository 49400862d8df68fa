import SqlLayout.Text.Blank

/-! The writer: text that is laid out line by line along a margin. -/

namespace SqlLayout

/-- An instruction to the writer. -/
inductive LayoutOp where
  /-- Put text on the current line. -/
  | write (text : Text)
  /-- Move the margin to the right by one width, and the text up to it. -/
  | indent
  /-- Move the margin to the left by one width. -/
  | dedent
  /-- Begin a new line at the margin. -/
  | newline
  /-- Begin a new line at the margin unless nothing stands on this one yet. -/
  | startLine
  deriving DecidableEq

/-- The text written so far, and where the next character goes. -/
structure Writer where
  /-- The characters written so far, the last one in front. -/
  out : Text := []
  /-- The number of columns the margin moves by. -/
  width : Nat
  /-- The number of widths the margin is to the right. -/
  level : Nat := 0
  /-- The number of characters on the current line. -/
  column : Nat := 0
  deriving DecidableEq

namespace Writer

/-- The column at which lines begin. -/
def margin (writer : Writer) : Nat :=
  -- Each level is one width.
  writer.level * writer.width

/-- A writer that has put text on its current line. -/
def write (writer : Writer) (text : Text) : Writer :=
  -- The column counts characters, whatever they are.
  { writer with out := text.reverse ++ writer.out, column := writer.column + text.length }

/-- A writer that has filled its current line up to a column with blanks. -/
def padTo (writer : Writer) (column : Nat) : Writer :=
  -- A line that is longer already stays as it is.
  writer.write (List.replicate (column - writer.column) ' ')

/-- A writer with its margin moved to the right, and at least one blank written. -/
def indent (writer : Writer) : Writer :=
  let deeper := { writer with level := writer.level + 1 }
  -- Text past the new margin is set off by a single blank.
  if deeper.column < deeper.margin then deeper.padTo deeper.margin else deeper.write [' ']

/-- A writer with its margin moved to the left. -/
def dedent (writer : Writer) : Writer :=
  -- The margin cannot move past the first column.
  { writer with level := writer.level - 1 }

/-- A text, last character in front, closed by a line break. -/
def breakLine : Text → Text
  -- There is no empty first line, and no empty line at all.
  | [] => []
  | '\n' :: out => '\n' :: out
  | out => '\n' :: out

/-- A writer at the margin of a new line. -/
def newline (writer : Writer) : Writer :=
  -- The old line loses the blanks at its end.
  let broken := { writer with out := breakLine (writer.out.dropWhile (· == ' ')), column := 0 }
  broken.padTo broken.margin

/-- A writer at the margin of a line with nothing on it. -/
def startLine (writer : Writer) : Writer :=
  -- A line that does not reach past the margin is used as it is.
  if writer.margin < writer.column then writer.newline else writer

/-- A writer that has carried out one instruction. -/
def run (writer : Writer) : LayoutOp → Writer
  | .write text => writer.write text
  | .indent => writer.indent
  | .dedent => writer.dedent
  | .newline => writer.newline
  | .startLine => writer.startLine

/-- A writer that has carried out instructions in order. -/
def runAll (writer : Writer) (ops : List LayoutOp) : Writer :=
  -- Each instruction begins where the one before it ended.
  ops.foldl run writer

/-- All that has been written, without the blanks around it. -/
def finish (writer : Writer) : Text :=
  -- Blanks of every sort go, line breaks too.
  Text.trim writer.out.reverse

end Writer

end SqlLayout
