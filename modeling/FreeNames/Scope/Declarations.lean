import FreeNames.Scope.Binding
import FreeNames.Tree.Pattern

/-!
# What a construct declares

The names that the scope of a node binds are found from the node alone, before anything
below it is visited, so a declaration counts also for the references in front of it.

* `Node.hoisted`: `var` and function declarations anywhere below a statement, but not
  inside nested functions, classes and static blocks.  The scan keeps a stack and takes
  the last child first, which fixes the order of the names.
* `Node.lexical`: `let`, `const`, class and import declarations directly in a list of
  statements or directly below an export there.
* `Node.declared` puts these together for every construct that opens a scope.
-/

namespace FreeNames

/-- Bindings read from a tree, with a fault in the place of each part that is missing. -/
abbrev Declared := List (Except Fault Binding)

/-- Bind each identifier that was read. -/
def Readings.bindAs (kind : BindingKind) (rs : Readings) : Declared :=
  rs.map fun
    | .ok n => (n.text "name").map fun name => ⟨name, kind, some n⟩
    | .error f => .error f

/-- Continue with each node that was read. -/
def Readings.declaring (rs : Readings) (k : Node → Declared) : Declared :=
  rs.flatMap fun
    | .ok n => k n
    | .error f => [.error f]

namespace Declared

/-- The bindings that were read. -/
def bindings (ds : Declared) : Bindings :=
  .ofList (ds.filterMap fun
    | .ok x => some x
    | .error _ => none)

/-- The faults met. -/
def faults (ds : Declared) : List Fault :=
  ds.filterMap fun
    | .ok _ => none
    | .error f => some f

end Declared

namespace Node

/-- The names of a pattern in a field that may be null. -/
def namesIn (n : Node) (field : String) : Readings :=
  (Readings.ofOption (n.child? field)).flatMap fun
    | .ok p => p.patternNames
    | .error f => [.error f]

/-- The own name of a function or class, if it has one. -/
def ownName (n : Node) (kind : BindingKind) : Declared :=
  (Readings.ofOption (n.child? "id")).bindAs kind

/-- The names of all declarators of a variable declaration. -/
def declarators (n : Node) (word : Text) : Declared :=
  (Readings.ofList (n.items "declarations")).declaring fun d =>
    (d.namesIn "id").bindAs (.keyword word)

/-- The keyword of hoisted variables. -/
def varWord : Text := "var"

/-! ## Hoisted names -/

/-- Nested functions, classes and static blocks keep their declarations to themselves. -/
def isVarBoundary (n : Node) : Bool :=
  n.kind.isFunction || n.kind.isClass || n.kind = .staticBlock

/-- The hoisted names that a node itself declares. -/
def hoistedHere (n : Node) : Declared :=
  match n.kind with
  | .functionDeclaration => n.ownName .function
  | .variableDeclaration =>
    match n.text "kind" with
    | .ok word => if word = varWord then n.declarators word else []
    | .error f => [.error f]
  | _ => []

/-- The nodes that the scan enters from a node, the last child first. -/
def scanned (n : Node) : List Node :=
  if n.isVarBoundary then [] else (n.children.map Prod.snd).reverse

theorem totalSize_scanned_lt (n : Node) : totalSize n.scanned < sizeOf n := by
  have := totalSize_children_lt n
  unfold scanned
  split
  · simp only [totalSize_nil]
    omega
  · simpa using this

/-- Scan the pending nodes for hoisted names. -/
def hoistedFrom : List Node → Declared
  | [] => []
  | n :: pending => n.hoistedHere ++ hoistedFrom (n.scanned ++ pending)
termination_by stack => totalSize stack
decreasing_by
  have := totalSize_scanned_lt n
  simp only [totalSize_append, totalSize_cons]
  omega

/-- The hoisted names of a statement. -/
def hoisted (n : Node) : Declared := hoistedFrom [n]

/-! ## Lexical names -/

/-- The statement whose declaration counts: below an export, the one that it exports. -/
def exported (n : Node) : Except Fault Node :=
  if n.kind.isExport then (n.child? "declaration").map fun d => d.getD n else .ok n

/-- The lexical names that a declaration makes. -/
def lexicalHere (n : Node) : Declared :=
  match n.kind with
  | .variableDeclaration =>
    match n.text "kind" with
    | .ok word => if word = varWord then [] else n.declarators word
    | .error f => [.error f]
  | .classDeclaration => n.ownName .className
  | .importDeclaration =>
    (Readings.ofList (n.items "specifiers")).declaring fun s =>
      if s.kind.isImportSpecifier then Readings.bindAs .imported [s.child "local"] else []
  | _ => []

/-- The lexical names of one statement of a list. -/
def lexical (n : Node) : Declared :=
  match n.exported with
  | .ok d => d.lexicalHere
  | .error f => [.error f]

/-! ## Constructs -/

/-- The hoisted and then the lexical names of a list of statements. -/
def bodyNames (statements : Readings) : Declared :=
  statements.declaring hoisted ++ statements.declaring lexical

/-- The statements in the `body` field. -/
def statements (n : Node) : Readings := .ofList (n.items "body")

/-- What every function but an arrow binds by itself. -/
def argumentsBinding : Binding := ⟨"arguments", .implicit, none⟩

/-- The names of a function: its own if it is an expression, `arguments`, the parameters,
and those of its body.  An arrow binds `arguments` only if such uses are not reported. -/
def functionNames (reportArrowArguments : Bool) (n : Node) : Declared :=
  (if n.kind = .functionExpression then n.ownName .function else [])
    ++ (if n.kind = .arrowFunctionExpression && reportArrowArguments then []
        else [.ok argumentsBinding])
    ++ (Readings.ofList (n.items "params")).declaring (fun p => p.patternNames.bindAs .parameter)
    ++ match n.child "body" with
      | .ok body => if body.kind = .blockStatement then bodyNames body.statements else []
      | .error f => [.error f]

/-- Everything that the scope of a node binds, in the order of declaration. -/
def declared (reportArrowArguments : Bool) (n : Node) : Declared :=
  match n.kind with
  | .program | .staticBlock => bodyNames n.statements
  | .functionDeclaration | .functionExpression | .arrowFunctionExpression =>
    functionNames reportArrowArguments n
  | .classDeclaration | .classExpression => n.ownName .className
  | .catchClause => (n.namesIn "param").bindAs .caught
  | .blockStatement => n.statements.declaring lexical
  | .switchStatement =>
    (Readings.ofList (n.items "cases")).declaring fun c =>
      (Readings.ofList (c.items "consequent")).declaring lexical
  | .forStatement => (Readings.ofOption (n.child? "init")).declaring lexical
  | .forInStatement | .forOfStatement => lexicalHead n
  | _ => []
where
  /-- The lexical names of the left side of a loop over a collection. -/
  lexicalHead (n : Node) : Declared :=
    match n.child "left" with
    | .ok left => left.lexical
    | .error f => [.error f]

/-- The kind of scope that a node opens. -/
def scopeKind (n : Node) : ScopeKind :=
  match n.kind with
  | .program => .global
  | .functionDeclaration | .functionExpression | .arrowFunctionExpression | .staticBlock => .function
  | .classDeclaration | .classExpression => .classBody
  | .catchClause => .catchClause
  | _ => .block

/-- Does a node open a scope in this field of this parent?  The body of a function shares
the scope of the function. -/
def opensScope (n : Node) (field : Option String) (parent : Option Node) : Bool :=
  match n.kind with
  | .blockStatement =>
    match parent with
    | some p => !(p.kind.isFunction && field = some "body")
    | none => true
  | .program | .catchClause | .switchStatement | .staticBlock => true
  | k => k.isFunction || k.isClass || k.isLoop

end Node

end FreeNames
