import SqlLayout.Layout.Tree
import SqlLayout.Parse

/-! Formatting a statement in one call. -/

namespace SqlLayout

/-- A statement parsed and laid out with the default settings. -/
def formatSql (sql : String) : String :=
  -- Text that does not fit the grammar is kept below a marker line.
  String.ofList (format .default (parse sql.toList))

end SqlLayout
