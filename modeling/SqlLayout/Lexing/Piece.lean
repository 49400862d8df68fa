import SqlLayout.Kind
import SqlLayout.Text.Basic

/-! Pieces: the stretches of text that lexing cuts its input into. -/

namespace SqlLayout

/-- A stretch of text with the kind it was found to be. -/
structure Piece where
  /-- What the stretch was found to be, raw as long as nothing is known. -/
  kind : Kind
  /-- The characters of the stretch. -/
  text : Text
  deriving DecidableEq

end SqlLayout
