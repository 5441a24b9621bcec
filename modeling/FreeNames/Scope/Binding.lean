import FreeNames.Tree.Node

/-!
# Scopes and what they bind

The kinds of scopes, the bindings of one scope, and their order: a name is bound once, by
its first declaration, and keeps the place of that declaration.

* `Bindings.declare` adds a binding unless its name is bound already, and gives back the
  binding that the name has then.
* `declares_declare` and `find?_declare` say what a declaration changes: only the name
  declared, and that only if it was free.
-/

namespace FreeNames

/-- The constructs that open a scope. -/
inductive ScopeKind where
  | global
  | function
  | block
  | catchClause
  | classBody
  deriving DecidableEq, Inhabited, Repr

namespace ScopeKind

def name : ScopeKind → String
  | .global => "global"
  | .function => "function"
  | .block => "block"
  | .catchClause => "catch"
  | .classBody => "class"

def all : List ScopeKind := [.global, .function, .block, .catchClause, .classBody]

/-- The kind of this name. -/
def ofName? (name : Text) : Option ScopeKind := all.find? fun k => Text.ofString k.name = name

/-- The wording when no kind has the name. -/
def unknownMessage (name : Text) : Text := name.quoted ++ " is not a valid ScopeKind"

/-- Do `var` and function declarations belong to scopes of this kind? -/
def isVarScope : ScopeKind → Bool
  | .global | .function => true
  | _ => false

end ScopeKind

/-- How a name came to be bound. -/
inductive BindingKind where
  /-- By a declaration with this keyword: `var`, `let`, `const` and the like. -/
  | keyword (word : Text)
  | function
  | className
  | parameter
  | caught
  | imported
  /-- By the language itself: `arguments`. -/
  | implicit
  deriving DecidableEq, Inhabited, Repr

def BindingKind.name : BindingKind → Text
  | .keyword word => word
  | .function => "function"
  | .className => "class"
  | .parameter => "param"
  | .caught => "catch"
  | .imported => "import"
  | .implicit => "implicit"

/-- A name bound in a scope, and the identifier that binds it. -/
structure Binding where
  name : Text
  kind : BindingKind
  node : Option Node
  deriving Inhabited

/-- The bindings of one scope in the order of declaration. -/
structure Bindings where
  entries : List Binding
  deriving Inhabited

namespace Bindings

def empty : Bindings := ⟨[]⟩

/-- The binding of a name. -/
def find? (b : Bindings) (name : Text) : Option Binding := b.entries.find? (·.name = name)

/-- Is the name bound? -/
def declares (b : Bindings) (name : Text) : Bool := (b.find? name).isSome

/-- Bind a name; its first declaration wins.  The binding that the name has then comes first. -/
def declare (b : Bindings) (x : Binding) : Binding × Bindings :=
  match b.find? x.name with
  | some y => (y, b)
  | none => (x, ⟨b.entries ++ [x]⟩)

/-- Declare one binding after the other. -/
def declareAll (b : Bindings) (xs : List Binding) : Bindings :=
  xs.foldl (fun b x => (b.declare x).2) b

def ofList (xs : List Binding) : Bindings := empty.declareAll xs

/-- The names in the order of declaration. -/
def names (b : Bindings) : List Text := b.entries.map (·.name)

@[simp] theorem find?_empty (name : Text) : empty.find? name = none := rfl

@[simp] theorem declares_empty (name : Text) : empty.declares name = false := rfl

theorem declare_fst (b : Bindings) (x : Binding) :
    (b.declare x).1 = (b.find? x.name).getD x := by
  unfold declare
  split <;> next found => rw [found]; rfl

theorem declare_snd (b : Bindings) (x : Binding) :
    (b.declare x).2 = if b.declares x.name then b else ⟨b.entries ++ [x]⟩ := by
  unfold declare declares
  split <;> next found => rw [found]; rfl

theorem find?_declare (b : Bindings) (x : Binding) (name : Text) :
    (b.declare x).2.find? name =
      (b.find? name).or (if x.name = name then some x else none) := by
  rw [declare_snd]
  split
  · next h =>
    unfold declares at h
    by_cases hn : x.name = name
    · subst hn
      obtain ⟨y, hy⟩ := Option.isSome_iff_exists.mp h
      simp [hy]
    · simp [hn]
  · simp only [find?, List.find?_append, List.find?_singleton, decide_eq_true_eq]

theorem declares_declare (b : Bindings) (x : Binding) (name : Text) :
    (b.declare x).2.declares name = (b.declares name || decide (x.name = name)) := by
  unfold declares
  rw [find?_declare]
  by_cases hn : x.name = name <;> simp [hn]

theorem declares_declareAll (b : Bindings) (xs : List Binding) (name : Text) :
    (b.declareAll xs).declares name =
      (b.declares name || xs.any fun x => decide (x.name = name)) := by
  induction xs generalizing b with
  | nil => simp [declareAll]
  | cons x xs ih =>
    have := ih (b.declare x).2
    simp only [declareAll, List.foldl_cons, List.any_cons] at this ⊢
    rw [this, declares_declare, Bool.or_assoc]

end Bindings

end FreeNames
