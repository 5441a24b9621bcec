import FreeNames.Resolution.Report

/-!
# JSON documents

The values that the JSON report is made of, and their indented text: ASCII characters only,
one member to a line, two spaces to a level, and empty lists in brackets alone.
-/

namespace FreeNames

/-- A value of a JSON report. -/
inductive Document where
  | number (n : Nat)
  | text (t : Text)
  | list (items : List Document)
  | object (members : List (Text × Document))

namespace Document

/-- A line feed and the spaces of a level. -/
def newLine (level : Nat) : Text := ⟨0x0A :: List.replicate (2 * level) 0x20⟩

/-- Put items between brackets, one to a line. -/
def bracketed (opening closing : Text) (level : Nat) (items : List Text) : Text :=
  if items.isEmpty then opening ++ closing
  else
    opening ++ newLine (level + 1) ++ Text.join ("," ++ newLine (level + 1)) items
      ++ newLine level ++ closing

mutual

/-- The text of a value at a level. -/
def render (level : Nat) : Document → Text
  | .number n => Text.ofNat n
  | .text t => t.jsonQuoted
  | .list items => bracketed "[" "]" level (renderItems (level + 1) items)
  | .object members => bracketed "\x7b" "\x7d" level (renderMembers (level + 1) members)

def renderItems (level : Nat) : List Document → List Text
  | [] => []
  | d :: rest => render level d :: renderItems level rest

def renderMembers (level : Nat) : List (Text × Document) → List Text
  | [] => []
  | (name, d) :: rest =>
    (name.jsonQuoted ++ ": " ++ render level d) :: renderMembers level rest

end

/-! ## Reports -/

/-- One occurrence of a name. -/
def ofOccurrence (o : Occurrence) : Document :=
  .object [("line", .number o.node.span.line), ("column", .number o.node.span.column),
    ("qualified_name", .text o.qualified)]

/-- One name with its occurrences. -/
def ofReference (r : Reference) : Document :=
  .object [("name", .text r.name), ("nodes", .list (r.occurrences.map ofOccurrence))]

/-- The references of files. -/
def ofResults (results : List (Text × List Reference)) : Document :=
  .list (results.map fun (file, rs) =>
    .object [("file", .text file), ("globals", .list (rs.map ofReference))])

end Document

end FreeNames
