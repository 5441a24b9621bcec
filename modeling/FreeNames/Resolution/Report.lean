import FreeNames.Resolution.Events
import FreeNames.Resolution.Path
import FreeNames.Scope.Builder

/-!
# Reports

A report groups the free references of a run by name, in the order in which the names are
first seen, and keeps the scopes that the run opened and the nodes that enclose the point
it has reached.

* `Report.ofEvents` replays the events of a run; a part that is missing, or a key that
  cannot be written, ends the replay with its fault.
* `Report.sorted` orders the groups by code points and leaves each group alone.
-/

namespace FreeNames

/-- One free reference: the node, the enclosing nodes that extend its access path, and that
path. -/
structure Occurrence where
  node : Node
  path : List Node
  qualified : Text

/-- All free references of one name, in the order of the traversal. -/
structure Reference where
  name : Text
  occurrences : List Occurrence

/-- The references of a run by name, its scopes, and the nodes entered and not yet left, the
innermost first. -/
structure Report where
  references : List Reference
  scopes : Builder
  enclosing : List Node

/-- Record an occurrence with its name: a new name goes to the end. -/
def recordOccurrence (name : Text) (o : Occurrence) : List Reference → List Reference
  | [] => [⟨name, [o]⟩]
  | r :: rest =>
    if r.name = name then { r with occurrences := r.occurrences ++ [o] } :: rest
    else r :: recordOccurrence name o rest

/-- Read the access path of a free reference. -/
def Occurrence.read (n : Node) (enclosing : List Node) : Except Fault Occurrence := do
  let path ← extension enclosing
  let qualified ← qualifiedName n path
  return ⟨n, path, qualified⟩

namespace Report

def empty (reportArrowArguments : Bool) : Report := ⟨[], .new reportArrowArguments, []⟩

/-- Add what one event says. -/
def add (r : Report) : Event → Except Fault Report
  | .enter n outer => .ok { r with scopes := r.scopes.enter n (outer.bind r.scopes.scopeOf?) }
  | .push n => .ok { r with enclosing := n :: r.enclosing }
  | .pop => .ok { r with enclosing := r.enclosing.tail }
  | .free name n =>
    (Occurrence.read n r.enclosing).map fun o =>
      { r with references := recordOccurrence name o r.references }
  | .stuck f => .error f

/-- Replay the events of a run. -/
def ofEvents (reportArrowArguments : Bool) (events : List Event) : Except Fault Report :=
  events.foldlM add (empty reportArrowArguments)

/-- The report of a tree. -/
def ofTree (reportArrowArguments : Bool) (root : Node) : Except Fault Report :=
  ofEvents reportArrowArguments (root.events reportArrowArguments)

/-- The node of the global scope. -/
def globalNode? (r : Report) : Option Node :=
  r.scopes.globalScope.bind fun s => (r.scopes.forest.get? s).bind (·.node)

end Report

/-- Order references by name; the occurrences of a name stay as they are. -/
def sortReferences (rs : List Reference) : List Reference :=
  rs.mergeSort fun a b => Text.le a.name b.name

end FreeNames
