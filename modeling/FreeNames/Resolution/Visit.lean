import FreeNames.Resolution.Position
import FreeNames.Scope.Declarations

/-!
# The visit of a tree

A `Visit` says which node is looked at, how, in which field of which parent, and which
scopes are in force.  `Visit.steps` is one step of the traversal: what happens at the
node, and which visits follow, in order.  `Visit.events` runs all of them; what happens is
a list of `Event`s.

* Scopes in force are carried as a chain, innermost first; they are complete when they are
  entered, because their names are found from their node alone.
* The enclosing nodes are a stack that the run keeps: events put a node on it before what is
  inside is visited, and take it off afterwards.
* A left-nested chain such as `a.b.c()` is visited without going down its spine link by
  link: all links are put on the stack of enclosing nodes at once, the innermost operand is
  visited, and then the remaining fields of each link from the inside out.
* Every visit that follows a step is of a node inside (`inside_of_mem_steps`).
-/

namespace FreeNames

/-- A scope in force. -/
structure Frame where
  node : Node
  bindings : Bindings

/-- What happens in a traversal. -/
inductive Event where
  /-- The scope of a node is entered inside the scope of another. -/
  | enter (node : Node) (outer : Option Node)
  /-- A node is put on the stack of enclosing nodes. -/
  | push (node : Node)
  /-- The innermost enclosing node is left. -/
  | pop
  /-- A name is read that no scope in force binds. -/
  | free (name : Text) (node : Node)
  /-- A part that is needed is missing; nothing that follows counts. -/
  | stuck (fault : Fault)

/-- The two ways to look at a node: as code that runs, or as a pattern that declares. -/
inductive Mode where
  | read
  | bind
  deriving DecidableEq, Repr

/-- One node to visit, the field of the parent that holds it, and the scopes in force, the
innermost first. -/
structure Visit where
  mode : Mode
  node : Node
  field : Option String
  parent : Option Node
  scopes : List Frame

/-- A part of a step: something happens, or another node is visited. -/
inductive Step where
  | emit (event : Event)
  | go (visit : Visit)

/-! ## Parts of steps -/

/-- Continue with a part, or get stuck. -/
def need {α : Type} (x : Except Fault α) (k : α → List Step) : List Step :=
  match x with
  | .ok a => k a
  | .error f => [.emit (.stuck f)]

/-- Does a scope in force bind the name? -/
def isBound (scopes : List Frame) (name : Text) : Bool :=
  scopes.any fun frame => frame.bindings.declares name

/-- The scope of a node. -/
def Frame.of (reportArrowArguments : Bool) (n : Node) : Frame :=
  ⟨n, (n.declared reportArrowArguments).bindings⟩

/-- Enter the scope of a node. -/
def entering (reportArrowArguments : Bool) (n : Node) (scopes : List Frame) : List Step :=
  (n.declared reportArrowArguments).faults.map (fun f => .emit (.stuck f))
    ++ [.emit (.enter n (scopes.head?.map Frame.node))]

/-- Do something inside a node. -/
def within (n : Node) (steps : List Step) : List Step :=
  .emit (.push n) :: steps ++ [.emit .pop]

/-- Visit a node in a field of the parent given. -/
def reading (n : Node) (field : String) (parent : Node) (scopes : List Frame) : Step :=
  .go ⟨.read, n, some field, some parent, scopes⟩

/-- Visit a declaration pattern in a field of the parent given. -/
def binding (n : Node) (field : String) (parent : Node) (scopes : List Frame) : Step :=
  .go ⟨.bind, n, some field, some parent, scopes⟩

/-- Visit all children whose field passes the test. -/
def readingChildren (n : Node) (keep : String → Bool) (scopes : List Frame) : List Step :=
  (n.children.filter fun c => keep c.1).map fun c => reading c.2 c.1 n scopes

namespace Visit

variable (reportArrowArguments : Bool)

/-! ## Chains -/

/-- The links of a chain, outermost first, and the operand of the innermost. -/
def spine (n : Node) : Except Fault (List Node × Node) :=
  match n.kind.operandField? with
  | none => .ok ([], n)
  | some field =>
    match h : n.child field with
    | .error f => .error f
    | .ok operand =>
      have := Node.sizeOf_lt_of_child h
      (spine operand).map fun (links, innermost) => (n :: links, innermost)
termination_by sizeOf n

/-- Visit the remaining fields of the links, which are given innermost first, and leave each
link after its own. -/
def unwind (scopes : List Frame) : (links : List Node) → List Step
  | [] => []
  | link :: links =>
    readingChildren link (fun f => some f ≠ link.kind.operandField?) scopes
      ++ .emit .pop :: unwind scopes links

/-- Visit the operand of the innermost link. -/
def readingOperand (links : List Node) (operand : Node) (scopes : List Frame) : Step :=
  let innermost := links.getLast?
  .go ⟨.read, operand, innermost.bind fun link => link.kind.operandField?, innermost, scopes⟩

/-- The innermost operand inside all links, then the links from the inside out. -/
def spineSteps (links : List Node) (operand : Node) (scopes : List Frame) : List Step :=
  links.map (fun link => .emit (.push link))
    ++ readingOperand links operand scopes :: unwind scopes links.reverse

/-- A chain: its operand and links, found without visiting the links. -/
def chainSteps (v : Visit) : List Step :=
  need (spine v.node) fun (links, operand) => spineSteps links operand v.scopes

/-! ## Functions and classes -/

/-- The body of a function.  The statements of a body in braces are visited in the scope of
the function. -/
def bodySteps (n body : Node) (scopes : List Frame) : List Step :=
  if body.kind = .blockStatement then
    within body (need (body.items "body") fun statements =>
      statements.map fun s => reading s "body" body scopes)
  else [reading body "body" n scopes]

/-- A function: its scope, the parameters as patterns, and its body. -/
def functionSteps (v : Visit) : List Step :=
  let scopes := Frame.of reportArrowArguments v.node :: v.scopes
  entering reportArrowArguments v.node v.scopes
    ++ within v.node
      ((need (v.node.items "params") fun params =>
          params.map fun p => binding p "params" v.node scopes)
        ++ need (v.node.child "body") fun body => bodySteps v.node body scopes)

/-- A class: decorators and heritage outside its scope, the body inside. -/
def classSteps (v : Visit) : List Step :=
  within v.node
    ((need (v.node.items "decorators") fun decorators =>
        decorators.map fun d => reading d "decorators" v.node v.scopes)
      ++ (need (v.node.child? "superClass") fun heritage =>
          heritage.toList.map fun h => reading h "superClass" v.node v.scopes)
      ++ entering reportArrowArguments v.node v.scopes
      ++ need (v.node.child "body") fun body =>
          [reading body "body" v.node (Frame.of reportArrowArguments v.node :: v.scopes)])

/-! ## Declarations and plain nodes -/

/-- One declarator: its pattern, then its initial value. -/
def declaratorSteps (d : Node) (scopes : List Frame) : List Step :=
  within d
    ((need (d.child "id") fun pattern => [binding pattern "id" d scopes])
      ++ need (d.child? "init") fun init =>
          init.toList.map fun i => reading i "init" d scopes)

/-- What is visited below a node without a rule of its own, in the scopes given. -/
def insideSteps (n : Node) (scopes : List Frame) : List Step :=
  match n.kind with
  | .variableDeclaration =>
    need (n.items "declarations") fun declarators =>
      declarators.flatMap fun d => declaratorSteps d scopes
  | .catchClause =>
    (need (n.child? "param") fun param =>
        param.toList.map fun p => binding p "param" n scopes)
      ++ need (n.child "body") fun body => [reading body "body" n scopes]
  | .switchStatement => readingChildren n (· ≠ "discriminant") scopes
  | _ => readingChildren n (fun _ => true) scopes

/-- The part of a node without a rule of its own that is visited before its scope is entered:
the discriminant of a switch. -/
def outsideSteps (n : Node) (scopes : List Frame) : List Step :=
  if n.kind = .switchStatement then
    need (n.child "discriminant") fun d => [reading d "discriminant" n scopes]
  else []

/-- A node without a rule of its own. -/
def plainSteps (v : Visit) : List Step :=
  within v.node
    (outsideSteps v.node v.scopes
      ++ if v.node.opensScope v.field v.parent then
          entering reportArrowArguments v.node v.scopes
            ++ insideSteps v.node (Frame.of reportArrowArguments v.node :: v.scopes)
        else insideSteps v.node v.scopes)

/-- An identifier is free if it is read and no scope in force binds its name. -/
def identifierSteps (v : Visit) : List Step :=
  if isReadPosition v.field v.parent then
    need (v.node.text "name") fun name =>
      if isBound v.scopes name then [] else [.emit (.free name v.node)]
  else []

/-- Nothing ever binds `this`. -/
def thisName : Text := "this"

/-- Look at a node as code. -/
def readSteps (v : Visit) : List Step :=
  match v.node.kind with
  | .identifier => v.identifierSteps
  | .thisExpression => [.emit (.free thisName v.node)]
  | .exportNamedDeclaration =>
    -- what is exported again from another module is not read here
    need (v.node.given "source") fun fromModule =>
      if fromModule then [] else v.plainSteps reportArrowArguments
  | kind =>
    if kind.isInert then []
    else if kind.isFunction then v.functionSteps reportArrowArguments
    else if kind.isClass then v.classSteps reportArrowArguments
    else if kind.isChainLink then v.chainSteps
    else v.plainSteps reportArrowArguments

/-! ## Patterns -/

/-- One entry of an object pattern: a computed key is read, the value declares. -/
def propertySteps (p pattern : Node) (scopes : List Frame) : List Step :=
  if p.kind = .property then
    within p
      ((need (p.flag "computed") fun computed =>
          if computed then need (p.child "key") fun key => [reading key "key" p scopes]
          else [])
        ++ need (p.child "value") fun value => [binding value "value" p scopes])
  else [binding p "properties" pattern scopes]

/-- What is visited below a pattern that has parts. -/
def patternSteps (n : Node) (scopes : List Frame) : List Step :=
  match n.kind with
  | .objectPattern =>
    need (n.items "properties") fun properties =>
      properties.flatMap fun p => propertySteps p n scopes
  | .arrayPattern =>
    need (n.slots "elements") fun elements =>
      elements.flatMap fun e => e.toList.map fun c => binding c "elements" n scopes
  | .restElement => need (n.child "argument") fun a => [binding a "argument" n scopes]
  | _ =>
    (need (n.child "left") fun l => [binding l "left" n scopes])
      ++ need (n.child "right") fun r => [reading r "right" n scopes]

/-- Look at a node as a pattern that declares: names are bindings, while defaults, computed
keys and everything that is no pattern are code. -/
def bindSteps (v : Visit) : List Step :=
  if v.node.kind = .identifier then []
  else if v.node.kind.isPattern then within v.node (patternSteps v.node v.scopes)
  else v.readSteps reportArrowArguments

/-- One step of the traversal. -/
def steps (v : Visit) : List Step :=
  match v.mode with
  | .read => v.readSteps reportArrowArguments
  | .bind => v.bindSteps reportArrowArguments

end Visit

end FreeNames
