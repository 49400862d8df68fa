import SqlLayout.Parse

/-! The check that a statement was read to its end and without complaint. -/

namespace SqlLayout

/-- How diagnostic comments begin. -/
def diagnosticStarts : List Text :=
  -- Leftover fragments, then operators without a right operand.
  ["/*XXX".toList, "/*syntax warning*/".toList]

/-- Whether a comment is a diagnostic. -/
def isDiagnostic (comment : Text) : Bool :=
  -- Only the beginning of the comment counts.
  diagnosticStarts.any fun start => start.isPrefixOf comment

/-- The diagnostic comments in a tree, in the order in which a reader meets them. -/
def Token.diagnostics (root : Token) : List Text :=
  -- The comments of the root itself are not searched, it has none.
  (root.descendants.flatMap Token.comments).filter isDiagnostic

/-- What a check found to be wrong. -/
inductive Flaw where
  /-- The text was not read to its end. -/
  | residue (text : Text)
  /-- There are diagnostic comments. -/
  | diagnostics (comments : List Text)
  deriving DecidableEq

namespace Flaw

/-- The text that shows what is wrong. -/
def shown : Flaw → Text
  | residue text => text
  | diagnostics comments => [' '].intercalate comments

/-- The event that reports what is wrong. -/
def event : Flaw → Event
  | residue text => .residueReported text
  | diagnostics comments => .diagnosticsReported comments.length

end Flaw

/-- The flaw of a parsed statement, if it has one. -/
def Token.flaw? (root : Token) : Option Flaw :=
  -- A residue is reported before diagnostics are looked for.
  match root.unparsed? with
  | some text => some (.residue text)
  | none => if root.diagnostics = [] then none else some (.diagnostics root.diagnostics)

end SqlLayout
