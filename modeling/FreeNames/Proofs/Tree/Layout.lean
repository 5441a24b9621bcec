import FreeNames.Proofs.Tree.Place
import FreeNames.Tree.Pattern
import FreeNames.Resolution.Position

/-!
# The layout of trees

Every kind of node has its fields, in their order, and each field holds something of a fixed
shape: `Kind.layouts` is the table of what conversion builds.  A `Laid` tree has the layout
throughout.

* The lemmas below read the table for the kinds that have a rule of their own: the fields that
  the rule needs can be read, and the children are exactly those in these fields, in order.
* Nothing is said of the values of names, operators and literals.
-/

namespace FreeNames

/-- What a field holds.  The test says which kinds of nodes may stand there. -/
inductive Shape where
  /-- Nothing that contains nodes. -/
  | scalar
  | text
  | node (test : Kind → Bool)
  | option (test : Kind → Bool)
  | list (test : Kind → Bool)
  /-- A list that may have holes. -/
  | slots (test : Kind → Bool)

namespace Value

/-- A node or a hole. -/
def ofOption : Option Node → Value
  | some n => .node n
  | none => .null

def isScalar : Value → Bool
  | .list _ | .node _ => false
  | _ => true

/-- Is the value a node of such a kind? -/
def isNodeOf (test : Kind → Bool) : Value → Bool
  | .node n => test n.kind
  | _ => false

end Value

namespace Shape

/-- Does a value have the shape? -/
def admits : Shape → Value → Bool
  | .scalar, v => v.isScalar
  | .text, .text _ => true
  | .node test, v => v.isNodeOf test
  | .option test, v => v.isNull || v.isNodeOf test
  | .list test, .list vs => vs.all fun v => v.isNodeOf test
  | .slots test, .list vs => vs.all fun v => v.isNull || v.isNodeOf test
  | _, _ => false

/-- Do the fields have the names and shapes, in order? -/
def fits : List (String × Shape) → List (String × Value) → Bool
  | [], [] => true
  | (name, shape) :: shapes, (field, v) :: fields =>
    decide (field = name) && shape.admits v && fits shapes fields
  | _, _ => false

end Shape

namespace Kind

/-! ## The table -/

def isAny : Kind → Bool := fun _ => true

def isNone : Kind → Bool := fun _ => false

def isIdentifier (k : Kind) : Bool := k = .identifier

def isLiteral (k : Kind) : Bool := k = .literal

/-- What names an import or export. -/
def isModuleName (k : Kind) : Bool := k.isIdentifier || k.isLiteral

/-- The fields of a function. -/
def functionLayout : List (String × Shape) :=
  [("id", .option isIdentifier), ("params", .list isAny), ("body", .node isAny),
    ("generator", .scalar), ("async_", .scalar)]

/-- The fields of a class. -/
def classLayout : List (String × Shape) :=
  [("decorators", .list isAny), ("id", .option isIdentifier), ("superClass", .option isAny),
    ("body", .node isAny)]

/-- The fields of an operation on two operands. -/
def operationLayout : List (String × Shape) :=
  [("operator", .scalar), ("left", .node isAny), ("right", .node isAny)]

/-- What conversion builds for each kind: the alternatives for its fields. -/
def layouts : Kind → List (List (String × Shape))
  | .program => [[("body", .list isAny), ("sourceType", .scalar)]]
  | .expressionStatement | .decorator => [[("expression", .node isAny)]]
  | .emptyStatement | .debuggerStatement | .thisExpression | .super => [[]]
  | .blockStatement | .classBody | .staticBlock => [[("body", .list isAny)]]
  | .variableDeclaration =>
    [[("kind", .text), ("declarations", .list (· = .variableDeclarator))]]
  | .variableDeclarator => [[("id", .node isAny), ("init", .option isAny)]]
  | .ifStatement =>
    [[("test", .node isAny), ("consequent", .node isAny), ("alternate", .option isAny)]]
  | .switchStatement => [[("discriminant", .node isAny), ("cases", .list (· = .switchCase))]]
  | .switchCase => [[("test", .option isAny), ("consequent", .list isAny)]]
  | .forStatement =>
    [[("init", .option isAny), ("test", .option isAny), ("update", .option isAny),
      ("body", .node isAny)]]
  | .forInStatement => [[("left", .node isAny), ("right", .node isAny), ("body", .node isAny)]]
  | .forOfStatement =>
    [[("await_", .scalar), ("left", .node isAny), ("right", .node isAny), ("body", .node isAny)]]
  | .whileStatement => [[("test", .node isAny), ("body", .node isAny)]]
  | .doWhileStatement => [[("body", .node isAny), ("test", .node isAny)]]
  | .tryStatement =>
    [[("block", .node isAny), ("handler", .option isAny), ("finalizer", .option isAny)]]
  | .catchClause => [[("param", .option isAny), ("body", .node isAny)]]
  | .returnStatement => [[("argument", .option isAny)]]
  | .throwStatement | .restElement | .spreadElement | .awaitExpression =>
    [[("argument", .node isAny)]]
  | .breakStatement | .continueStatement => [[("label", .option isIdentifier)]]
  | .labeledStatement => [[("label", .node isIdentifier), ("body", .node isAny)]]
  | .withStatement => [[("object", .node isAny), ("body", .node isAny)]]
  | .importDeclaration => [[("specifiers", .list isImportSpecifier), ("source", .node isLiteral)]]
  | .importDefaultSpecifier | .importNamespaceSpecifier => [[("local", .node isIdentifier)]]
  | .importSpecifier => [[("imported", .node isModuleName), ("local", .node isIdentifier)]]
  | .exportNamedDeclaration =>
    [[("declaration", .node isAny), ("specifiers", .list isNone), ("source", .option isNone)],
      [("declaration", .option isNone), ("specifiers", .list (· = .exportSpecifier)),
        ("source", .option isLiteral)]]
  | .exportDefaultDeclaration => [[("declaration", .node isAny)]]
  | .exportAllDeclaration => [[("exported", .option isModuleName), ("source", .option isLiteral)]]
  | .exportSpecifier => [[("local", .node isModuleName), ("exported", .node isModuleName)]]
  | .functionDeclaration | .functionExpression => [functionLayout]
  | .arrowFunctionExpression =>
    [[("id", .option isNone), ("params", .list isAny), ("body", .node isAny),
      ("expression", .scalar), ("generator", .scalar), ("async_", .scalar)]]
  | .classDeclaration | .classExpression => [classLayout]
  | .methodDefinition =>
    [[("decorators", .list isAny), ("key", .node isAny), ("computed", .scalar),
      ("value", .node isAny), ("kind", .scalar), ("static", .scalar)]]
  | .propertyDefinition =>
    [[("decorators", .list isAny), ("key", .node isAny), ("computed", .scalar),
      ("value", .option isAny), ("static", .scalar)]]
  | .objectPattern | .objectExpression => [[("properties", .list isAny)]]
  | .arrayPattern | .arrayExpression => [[("elements", .slots isAny)]]
  | .assignmentPattern => [[("left", .node isAny), ("right", .node isAny)]]
  | .property =>
    [[("key", .node isAny), ("computed", .scalar), ("value", .node isAny), ("kind", .scalar),
        ("method", .scalar), ("shorthand", .scalar)],
      [("key", .node isAny), ("value", .node isAny), ("computed", .scalar), ("kind", .scalar),
        ("method", .scalar), ("shorthand", .scalar)]]
  | .identifier | .privateIdentifier => [[("name", .text)]]
  | .literal =>
    [[("value", .scalar), ("raw", .text)], [("value", .scalar), ("raw", .text), ("regex", .scalar)]]
  | .templateLiteral => [[("quasis", .list (· = .templateElement)), ("expressions", .list isAny)]]
  | .templateElement => [[("raw", .scalar)]]
  | .taggedTemplateExpression => [[("tag", .node isAny), ("quasi", .node isAny)]]
  | .sequenceExpression => [[("expressions", .list isAny)]]
  | .newExpression => [[("callee", .node isAny), ("arguments", .list isAny)]]
  | .assignmentExpression | .binaryExpression | .logicalExpression => [operationLayout]
  | .unaryExpression | .updateExpression =>
    [[("operator", .scalar), ("prefix", .scalar), ("argument", .node isAny)]]
  | .conditionalExpression =>
    [[("test", .node isAny), ("consequent", .node isAny), ("alternate", .node isAny)]]
  | .yieldExpression => [[("argument", .option isAny), ("delegate", .scalar)]]
  | .metaProperty => [[("meta", .node isIdentifier), ("property", .node isIdentifier)]]
  | .memberExpression =>
    [[("object", .node isAny), ("property", .node isAny), ("computed", .scalar),
      ("optional", .scalar)]]
  | .callExpression => [[("callee", .node isAny), ("arguments", .list isAny), ("optional", .scalar)]]
  | .importExpression => [[("source", .option isAny)]]
  | .other _ => [[("children", .list isAny)]]

end Kind

/-- The node has the layout of its kind. -/
def Node.hasLayout (n : Node) : Bool := n.kind.layouts.any fun shapes => Shape.fits shapes n.fields

/-! ## Reading shapes -/

namespace Shape

variable {v : Value} {test : Kind → Bool}

theorem admits_text : text.admits v = true ↔ ∃ t, v = .text t := by
  cases v <;> simp [admits]

theorem isNodeOf_iff : v.isNodeOf test = true ↔ ∃ c, v = .node c ∧ test c.kind = true := by
  cases v <;> simp [Value.isNodeOf]

theorem admits_node : (node test).admits v = true ↔ ∃ c, v = .node c ∧ test c.kind = true :=
  isNodeOf_iff

theorem isHoleOrNodeOf_iff : (v.isNull || v.isNodeOf test) = true ↔
    ∃ o, v = .ofOption o ∧ ∀ c ∈ o, test c.kind = true := by
  constructor
  · intro h
    cases v with
    | null => exact ⟨none, rfl, by simp⟩
    | node c => exact ⟨some c, rfl, by simpa [Value.isNull, Value.isNodeOf] using h⟩
    | _ => simp [Value.isNull, Value.isNodeOf] at h
  · rintro ⟨_ | c, rfl, h⟩
    · rfl
    · simpa [Value.ofOption, Value.isNull, Value.isNodeOf] using h

theorem admits_option : (option test).admits v = true ↔
    ∃ o, v = .ofOption o ∧ ∀ c ∈ o, test c.kind = true := isHoleOrNodeOf_iff

/-- Values that are images are the images of a list. -/
theorem exists_map_iff {α : Type} {f : α → Value} {P : α → Prop} {vs : List Value} :
    (∀ v ∈ vs, ∃ a, v = f a ∧ P a) ↔ ∃ as : List α, vs = as.map f ∧ ∀ a ∈ as, P a := by
  constructor
  · intro h
    induction vs with
    | nil => exact ⟨[], rfl, List.forall_mem_nil _⟩
    | cons v vs ih =>
      obtain ⟨⟨a, rfl, ha⟩, rest⟩ := List.forall_mem_cons.mp h
      obtain ⟨as, rfl, all⟩ := ih rest
      exact ⟨a :: as, rfl, List.forall_mem_cons.mpr ⟨ha, all⟩⟩
  · rintro ⟨as, rfl, all⟩ v hv
    obtain ⟨a, ha, rfl⟩ := List.mem_map.mp hv
    exact ⟨a, rfl, all a ha⟩

theorem admits_slots : (slots test).admits v = true ↔
    ∃ os : List (Option Node), v = .list (os.map .ofOption) ∧
      ∀ o ∈ os, ∀ c ∈ o, test c.kind = true := by
  cases v with
  | list vs =>
    simp only [admits, List.all_eq_true, isHoleOrNodeOf_iff, exists_map_iff, Value.list.injEq]
  | _ => simp [admits]

theorem admits_list : (list test).admits v = true ↔
    ∃ cs : List Node, v = .list (cs.map .node) ∧ ∀ c ∈ cs, test c.kind = true := by
  cases v with
  | list vs => simp only [admits, List.all_eq_true, isNodeOf_iff, exists_map_iff, Value.list.injEq]
  | _ => simp [admits]

theorem fits_cons {name : String} {shape : Shape} {shapes : List (String × Shape)}
    {fields : List (String × Value)} : fits ((name, shape) :: shapes) fields = true ↔
      ∃ v rest, fields = (name, v) :: rest ∧ shape.admits v = true ∧ fits shapes rest = true := by
  rcases fields with _ | ⟨⟨field, v⟩, rest⟩
  · simp [fits]
  · simp only [fits, Bool.and_eq_true, decide_eq_true_eq, List.cons.injEq, Prod.mk.injEq]
    constructor
    · rintro ⟨⟨rfl, hv⟩, hrest⟩
      exact ⟨v, rest, ⟨⟨rfl, rfl⟩, rfl⟩, hv, hrest⟩
    · rintro ⟨w, rest', ⟨⟨rfl, rfl⟩, rfl⟩, hv, hrest⟩
      exact ⟨⟨rfl, hv⟩, hrest⟩

theorem map_fst_of_fits {shapes : List (String × Shape)} {fields : List (String × Value)}
    (h : fits shapes fields = true) : fields.map Prod.fst = shapes.map Prod.fst := by
  induction shapes generalizing fields with
  | nil => cases fields <;> simp_all [fits]
  | cons s shapes ih =>
    obtain ⟨v, rest, rfl, -, hrest⟩ := fits_cons.mp h
    rw [List.map_cons, List.map_cons, ih hrest]

/-- Every field of a fitting list is found under its name. -/
theorem lookup_of_fits {shapes : List (String × Shape)} {fields : List (String × Value)}
    (h : fits shapes fields = true) (nodup : (shapes.map Prod.fst).Nodup) {s : String × Shape}
    (hs : s ∈ shapes) : ∃ v, fields.lookup s.1 = some v ∧ s.2.admits v = true := by
  induction shapes generalizing fields with
  | nil => cases hs
  | cons t shapes ih =>
    obtain ⟨v, rest, rfl, hv, hrest⟩ := fits_cons.mp h
    rw [List.map_cons, List.nodup_cons] at nodup
    rcases List.mem_cons.mp hs with rfl | hs
    · exact ⟨v, by simp, hv⟩
    · have other : s.1 ≠ t.1 := fun heq => nodup.1 (heq ▸ List.mem_map_of_mem hs)
      obtain ⟨w, hw, hadmits⟩ := ih hrest nodup.2 hs
      exact ⟨w, by rw [List.lookup_cons, beq_eq_false_iff_ne.mpr other]; exact hw, hadmits⟩

end Shape

theorem Kind.nodup_of_mem_layouts {k : Kind} {shapes : List (String × Shape)}
    (h : shapes ∈ k.layouts) : (shapes.map Prod.fst).Nodup := by
  cases k <;> simp only [layouts, functionLayout, classLayout, operationLayout, List.mem_cons,
    List.not_mem_nil, or_false] at h <;> (try rcases h with rfl | rfl) <;> simp

/-! ## Reading fields -/

namespace Value

@[simp] theorem nodes_node (n : Node) : (Value.node n).nodes = [n] := rfl

@[simp] theorem nodes_ofOption (o : Option Node) : (ofOption o).nodes = o.toList := by
  cases o <;> rfl

@[simp] theorem nodes_list_node (cs : List Node) : (list (cs.map node)).nodes = cs := by
  simp [nodes, List.filterMap_map, Function.comp_def, node?]

@[simp] theorem nodes_list_ofOption (os : List (Option Node)) :
    (list (os.map ofOption)).nodes = os.flatMap Option.toList := by
  unfold nodes
  induction os with
  | nil => rfl
  | cons o os ih =>
    rw [List.map_cons, List.flatMap_cons, ← ih]
    cases o <;> rfl

theorem nodes_of_isScalar {v : Value} (h : v.isScalar = true) : v.nodes = [] := by
  cases v with
  | list vs => cases h
  | node n => cases h
  | _ => rfl

end Value

namespace Node

@[simp] theorem allNodes?_map_ofOption (os : List (Option Node)) :
    allNodes? (os.map Value.ofOption) = some os := by
  induction os with
  | nil => rfl
  | cons o os ih =>
    rw [List.map_cons]
    cases o with
    | none => rw [Value.ofOption, allNodes?, ih, Option.map_some]
    | some c => rw [Value.ofOption, allNodes?, ih, Option.map_some]

/-- The children in a field. -/
def under (n : Node) (field : String) : List Node := ((n.field? field).map Value.nodes).getD []

/-- The node has a field of this shape. -/
def HasField (n : Node) (field : String) (shape : Shape) : Prop :=
  ∃ v, n.field? field = some v ∧ shape.admits v = true

namespace HasField

variable {n : Node} {field : String} {test : Kind → Bool}

theorem child (h : n.HasField field (.node test)) :
    ∃ c, n.child field = .ok c ∧ test c.kind = true ∧ n.under field = [c] := by
  obtain ⟨v, hv, hadmits⟩ := h
  obtain ⟨c, rfl, hc⟩ := Shape.admits_node.mp hadmits
  exact ⟨c, by rw [Node.child, hv], hc, by rw [under, hv]; rfl⟩

theorem child? (h : n.HasField field (.option test)) :
    ∃ o, n.child? field = .ok o ∧ (∀ c ∈ o, test c.kind = true) ∧ n.under field = o.toList := by
  obtain ⟨v, hv, hadmits⟩ := h
  obtain ⟨o, rfl, ho⟩ := Shape.admits_option.mp hadmits
  refine ⟨o, ?_, ho, by rw [under, hv]; simp⟩
  cases o <;> rw [Node.child?, hv] <;> rfl

theorem slots (h : n.HasField field (.slots test)) :
    ∃ os, n.slots field = .ok os ∧ (∀ o ∈ os, ∀ c ∈ o, test c.kind = true) ∧
      n.under field = os.flatMap Option.toList := by
  obtain ⟨v, hv, hadmits⟩ := h
  obtain ⟨os, rfl, ho⟩ := Shape.admits_slots.mp hadmits
  exact ⟨os, by rw [Node.slots, hv]; simp, ho, by rw [under, hv]; simp⟩

theorem items (h : n.HasField field (.list test)) :
    ∃ cs, n.items field = .ok cs ∧ (∀ c ∈ cs, test c.kind = true) ∧ n.under field = cs := by
  obtain ⟨v, hv, hadmits⟩ := h
  obtain ⟨cs, rfl, hcs⟩ := Shape.admits_list.mp hadmits
  have same : cs.map Value.node = (cs.map some).map Value.ofOption := by
    rw [List.map_map]
    rfl
  refine ⟨cs, ?_, hcs, by rw [under, hv]; simp⟩
  rw [Node.items, Node.slots, hv, same]
  simp only [allNodes?_map_ofOption]
  simp

theorem text (h : n.HasField field .text) :
    ∃ t, n.text field = .ok t ∧ n.under field = [] := by
  obtain ⟨v, hv, hadmits⟩ := h
  obtain ⟨t, rfl⟩ := Shape.admits_text.mp hadmits
  exact ⟨t, by rw [Node.text, hv], by rw [under, hv]; rfl⟩

theorem scalar (h : n.HasField field .scalar) :
    ∃ v, n.field? field = some v ∧ v.isScalar = true ∧ n.under field = [] := by
  obtain ⟨v, hv, hadmits⟩ := h
  refine ⟨v, hv, hadmits, ?_⟩
  rw [under, hv, Option.map_some, Option.getD_some, Value.nodes_of_isScalar hadmits]

end HasField

/-- The fields of a node that have their shapes, and its children by fields. -/
theorem fields_of_fits {n : Node} {shapes : List (String × Shape)}
    (nodup : (shapes.map Prod.fst).Nodup) (fits : Shape.fits shapes n.fields = true) :
    (∀ s ∈ shapes, n.HasField s.1 s.2) ∧ n.fields.map Prod.fst = shapes.map Prod.fst ∧
      n.children = shapes.flatMap fun s => (n.under s.1).map fun c => (s.1, c) := by
  have names := Shape.map_fst_of_fits fits
  refine ⟨fun s hs => Shape.lookup_of_fits fits nodup hs, names, ?_⟩
  have under_eq : ∀ f ∈ n.fields, n.under f.1 = f.2.nodes := by
    intro f hf
    rw [under, field?, lookup_eq_of_mem (names ▸ nodup) hf]
    rfl
  have same : (shapes.flatMap fun s => (n.under s.1).map fun c => (s.1, c)) =
      n.fields.flatMap fun f => (n.under f.1).map fun c => (f.1, c) := by
    rw [← List.flatMap_map Prod.fst fun g => (n.under g).map fun c => (g, c), ← names,
      List.flatMap_map]
  rw [same]
  exact List.flatMap_congr fun f hf => by rw [under_eq f hf]

/-- The fields of a node that has a layout, and its children by fields. -/
theorem exists_shapes {n : Node} (h : n.hasLayout = true) :
    ∃ shapes ∈ n.kind.layouts, (∀ s ∈ shapes, n.HasField s.1 s.2) ∧
      n.fields.map Prod.fst = shapes.map Prod.fst ∧
      n.children = shapes.flatMap fun s => (n.under s.1).map fun c => (s.1, c) := by
  obtain ⟨shapes, mem, fits⟩ := List.any_eq_true.mp h
  exact ⟨shapes, mem, fields_of_fits (Kind.nodup_of_mem_layouts mem) fits⟩

end Node

end FreeNames
