import FreeNames.Scope.Binding

/-!
# Forests of scopes

Scopes are numbered in the order in which they are opened.  Each knows the scope around
it, if there is one, and the scopes opened directly inside it, in order.

* `Forest.lookup` finds the nearest scope on the way outwards that binds a name.  A scope
  is opened inside an earlier one, so numbers fall on the way and the search ends.
-/

namespace FreeNames

/-- One scope of a forest. -/
structure Scope where
  kind : ScopeKind
  node : Option Node
  parent : Option Nat
  children : List Nat
  bindings : Bindings
  deriving Inhabited

namespace Scope

/-- A description for messages: the kind and the names in order. -/
def describe (s : Scope) : Text :=
  let names := s.bindings.names.mergeSort Text.le
  "<Scope " ++ Text.ofString s.kind.name ++ " [" ++ Text.join ", " (names.map Text.quoted) ++ "]>"

end Scope

/-- Scopes by number. -/
structure Forest where
  scopes : Array Scope
  deriving Inhabited

namespace Forest

def empty : Forest := ⟨#[]⟩

def size (f : Forest) : Nat := f.scopes.size

def get? (f : Forest) (s : Nat) : Option Scope := f.scopes[s]?

/-- Enter a scope into the children of the scope around it. -/
def adopt (f : Forest) (parent : Option Nat) (child : Nat) : Forest :=
  match parent with
  | some p => ⟨f.scopes.modify p fun s => { s with children := s.children ++ [child] }⟩
  | none => f

/-- Open a scope; its number is the number of scopes before. -/
def openScope (f : Forest) (kind : ScopeKind) (node : Option Node) (parent : Option Nat)
    (bindings : Bindings) : Forest :=
  let g := f.adopt parent f.size
  ⟨g.scopes.push ⟨kind, node, parent, [], bindings⟩⟩

/-- Bind a name in a scope; its first declaration wins.  The binding that the name has in the scope
then comes first, unless there is no such scope. -/
def declare (f : Forest) (s : Nat) (x : Binding) : Option Binding × Forest :=
  ((f.get? s).map fun scope => (scope.bindings.declare x).1,
    ⟨f.scopes.modify s fun scope => { scope with bindings := (scope.bindings.declare x).2 }⟩)

/-- The binding of a name in a scope itself. -/
def find? (f : Forest) (s : Nat) (name : Text) : Option Binding :=
  (f.get? s).bind fun scope => scope.bindings.find? name

/-- Does the scope itself bind the name? -/
def declares (f : Forest) (s : Nat) (name : Text) : Bool := (f.find? s name).isSome

/-- The scope around a scope; only an earlier one can be. -/
def parent? (f : Forest) (s : Nat) : Option Nat :=
  ((f.get? s).bind (·.parent)).filter (· < s)

theorem lt_of_parent? {f : Forest} {s p : Nat} (h : f.parent? s = some p) : p < s := by
  unfold parent? at h
  simpa using (Option.filter_eq_some_iff.mp h).2

/-- The nearest scope, from `s` outwards, that binds the name. -/
def lookup (f : Forest) (s : Nat) (name : Text) : Option Nat :=
  if f.declares s name then some s
  else match h : f.parent? s with
    | some p =>
      have := lt_of_parent? h
      f.lookup p name
    | none => none
termination_by s

end Forest

end FreeNames
