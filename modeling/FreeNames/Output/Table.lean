import FreeNames.Resolution.Report
import FreeNames.Terminal.Icons
import FreeNames.Files.Path

/-!
# Tables

The table of one file: a row per name with the number of its uses, their lines, and if
asked for the access paths.

* Lines and paths are listed once each: lines in increasing order, paths in the order of
  first use.
* Cells are markup, so everything that comes from the source is escaped.
-/

namespace FreeNames

/-- A table to be printed. -/
structure Table where
  title : Text
  columns : List Text
  rows : List (List Text)
  deriving DecidableEq, Repr

namespace Reference

/-- The access paths of all occurrences, in order. -/
def qualifiedNames (r : Reference) : List Text := r.occurrences.map (·.qualified)

/-- The lines of the occurrences in increasing order. -/
def lines (r : Reference) : List Nat :=
  (r.occurrences.map fun o => o.node.span.line).eraseDups.mergeSort (· ≤ ·)

end Reference

namespace Table

/-- The headers of the columns. -/
def headers (qualified : Bool) : List Text :=
  if qualified then ["Name", "Uses", "Lines", "Qualified"] else ["Name", "Uses", "Lines"]

/-- The row of one name. -/
def row (qualified : Bool) (r : Reference) : List Text :=
  [r.name.escapeMarkup, Text.ofNat r.occurrences.length, Text.join ", " (r.lines.map Text.ofNat)]
    ++ if qualified then
        [(Text.join ", " r.qualifiedNames.eraseDups).escapeMarkup]
      else []

/-- The icon of files and a space. -/
def fileMark : Text := ⟨[0x1F4C4, 0x20]⟩

/-- The table of a file. -/
def ofReferences (terminal : Terminal) (path : Path) (rs : List Reference) (qualified : Bool) :
    Table where
  title := terminal.sanitizeMarkup false (fileMark ++ (Text.ofString path.toString).escapeMarkup)
  columns := headers qualified
  rows := rs.map (row qualified)

/-- The lines of a table without its layout: cells are parted by tabs. -/
def lines (t : Table) : List Text := t.title :: (t.columns :: t.rows).map (Text.join "\t")

end Table

end FreeNames
