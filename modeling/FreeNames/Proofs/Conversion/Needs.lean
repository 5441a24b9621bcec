import FreeNames.Literal.Number
import FreeNames.Proofs.Conversion.Reads

/-!
# What a parse must have

`Parsed.IsShaped` says what the children of a node may be.  Here is the other half of what the
grammar says, again as far as conversion relies on it: which parts a node must have.  A parser
that finds such a part absent puts in a missing node or reports an error, so every parse without
errors is complete in this sense.

* `Symbol.neededFields` and its relatives are the rules by symbol, `Parsed.hasNeeds` is the rule
  for one node, and `Parsed.IsComplete` asks it of all nodes other than tokens.
* `Parsed.IsReadable` is what conversion relies on in the source: that nodes do not split a
  character, and that numerals have a value.
-/

namespace FreeNames

namespace Symbol

/-- The fields in which there must be a part. -/
def neededFields : Symbol → List String
  | .variableDeclarator => ["name"]
  | .ifStatement => ["condition", "consequence"]
  | .switchStatement => ["value", "body"]
  | .switchCase => ["value"]
  | .forStatement => ["body"]
  | .forInStatement => ["left", "right", "body"]
  | .whileStatement | .doStatement => ["condition", "body"]
  | .tryStatement | .catchClause => ["body"]
  | .labeledStatement => ["label", "body"]
  | .withStatement => ["object", "body"]
  | .importStatement => ["source"]
  | .functionDeclaration | .generatorFunctionDeclaration | .functionExpression | .olderFunction
  | .generatorFunction | .arrowFunction | .classDeclaration | .classExpression => ["body"]
  | .methodDefinition => ["name", "body"]
  | .fieldDefinition => ["property"]
  | .classStaticBlock => ["body"]
  | .pair | .pairPattern => ["key", "value"]
  | .assignmentPattern | .objectAssignmentPattern | .assignmentExpression
  | .augmentedAssignmentExpression | .binaryExpression => ["left", "right"]
  | .newExpression => ["constructor"]
  | .unaryExpression | .updateExpression => ["argument"]
  | .ternaryExpression => ["condition", "consequence", "alternative"]
  | .memberExpression => ["object", "property"]
  | .subscriptExpression => ["object", "index"]
  | .callExpression => ["function", "arguments"]
  | .other name => if name = "finally_clause" then ["body"] else []
  | _ => []

/-- The fields that may be empty, and in which no token stands first. -/
def optionalFields : Symbol → List String
  | .ifStatement => ["alternative"]
  | .tryStatement => ["finalizer"]
  | .catchClause => ["parameter"]
  | .exportStatement => ["declaration", "value"]
  | _ => []

/-- The fields in which there must be something, which may be a token. -/
def neededWords : Symbol → List String
  | .lexicalDeclaration => ["kind"]
  | .importSpecifier | .exportSpecifier => ["name"]
  | .forInStatement | .augmentedAssignmentExpression | .unaryExpression | .updateExpression
  | .binaryExpression => ["operator"]
  | _ => []

/-- The nodes that must have a part. -/
def needsPart : Symbol → Bool
  | .expressionStatement | .throwStatement | .decorator | .classHeritage | .restPattern
  | .computedPropertyName | .templateSubstitution | .spreadElement | .parenthesizedExpression
  | .awaitExpression | .namespaceImport => true
  | .other name => name = "else_clause"
  | _ => false

end Symbol

/-- The range of a node has a text, and that has a value if the node is a numeral. -/
def Source.canRead (src : Source) (symbol : Symbol) (span : Span) : Bool :=
  (src.text? span).any fun t =>
    symbol ≠ .number || (Literal.readNumber t).toOption.isSome

namespace Parsed

/-- The node has what it must have. -/
def hasNeeds (p : Parsed) : Bool :=
  (p.symbol.neededFields.all fun name => (p.field? name).any isNamed) &&
    (p.symbol.optionalFields.all fun name => (p.field? name).all isNamed) &&
    (p.symbol.neededWords.all fun name => (p.field? name).isSome) &&
    (!p.symbol.needsPart || !p.named.isEmpty) &&
    match p.symbol with
    | .exportStatement =>
      !p.hasToken [.defaultWord] || ((p.field? "declaration").or (p.field? "value")).isSome
    | .array | .arrayPattern => p.children.all fun c =>
      c.isNamed || [.comma, .openBracket, .closeBracket].contains c.symbol
    | _ => true

/-- Nothing is missing in a parse. -/
def IsComplete (root : Parsed) : Prop :=
  ∀ p ∈ root.preorder, p.isNamed = true → p.hasNeeds = true

/-- All nodes of a parse can be read in the source. -/
def IsReadable (src : Source) (root : Parsed) : Prop :=
  ∀ p ∈ root.preorder, src.canRead p.symbol p.span = true

variable {src : Source} {root p c : Parsed} {name : String}

theorem isComplete_iff :
    root.IsComplete ↔ (root.preorder.all fun p => !p.isNamed || p.hasNeeds) = true := by
  simp only [IsComplete, List.all_eq_true]
  refine forall₂_congr fun p _ => ?_
  cases p.isNamed <;> simp

theorem isReadable_iff : root.IsReadable src ↔
    ((root.preorder.map fun p => (p.symbol, p.span)).all fun q => src.canRead q.1 q.2) = true := by
  simp [IsReadable]

/-! ## Nodes that are ready to be converted -/

/-- The node has what it must have, and everything below it has as well. -/
structure Ready (src : Source) (p : Parsed) : Prop where
  shaped : p.IsShaped
  complete : p.IsComplete
  readable : p.IsReadable src
  needs : p.hasNeeds = true

namespace Ready

theorem exists_text_of_mem (h : p.Ready src) (hc : c ∈ p.preorder) :
    ∃ t, src.text? c.span = some t := by
  have text := h.readable c hc
  rw [Source.canRead] at text
  cases ht : src.text? c.span with
  | none => rw [ht] at text; cases text
  | some t => exact ⟨t, rfl⟩

theorem exists_number (h : p.Ready src) (number : p.symbol = .number) {t : Text}
    (ht : src.text? p.span = some t) : ∃ v, Literal.readNumber t = .ok v := by
  have value := h.readable p (self_mem_preorder p)
  simp only [Source.canRead, ht, number, Option.any_some, ne_eq, not_true_eq_false, decide_false,
    Bool.false_or] at value
  cases hv : Literal.readNumber t with
  | error f => rw [hv] at value; cases value
  | ok v => exact ⟨v, rfl⟩

theorem child_of_needs (h : p.Ready src) (hc : c ∈ p.children) (needs : c.hasNeeds = true) :
    c.Ready src where
  shaped := h.shaped.child hc
  complete q hq := h.complete q (mem_preorder_of_child hc hq)
  readable q hq := h.readable q (mem_preorder_of_child hc hq)
  needs := needs

/-- A named child of a node that is ready is ready itself. -/
theorem child (h : p.Ready src) (hc : c ∈ p.children) (named : c.isNamed = true) :
    c.Ready src :=
  h.child_of_needs hc (h.complete c (mem_preorder_of_child hc (self_mem_preorder c)) named)

/-- So is a named child of any child. -/
theorem grandchild (h : p.Ready src) (hc : c ∈ p.children) {g : Parsed} (hg : g ∈ c.children)
    (named : g.isNamed = true) : g.Ready src where
  shaped := (h.shaped.child hc).child hg
  complete q hq := h.complete q (mem_preorder_of_child hc (mem_preorder_of_child hg hq))
  readable q hq := h.readable q (mem_preorder_of_child hc (mem_preorder_of_child hg hq))
  needs := h.complete g
    (mem_preorder_of_child hc (mem_preorder_of_child hg (self_mem_preorder g))) named

section

variable {s : Symbol} (hs : p.symbol = s)

include hs

theorem exists_needed (h : p.Ready src) (hn : name ∈ s.neededFields) :
    ∃ c, p.field? name = some c ∧ c.Ready src := by
  subst hs
  have needs := h.needs
  simp only [hasNeeds, Bool.and_eq_true] at needs
  have any := List.all_eq_true.mp needs.1.1.1.1 name hn
  cases hf : p.field? name with
  | none => rw [hf] at any; cases any
  | some c =>
    rw [hf] at any
    exact ⟨c, rfl, h.child (mem_children_of_field? hf) any⟩

theorem of_optional (h : p.Ready src) (hn : name ∈ s.optionalFields)
    (hf : p.field? name = some c) : c.Ready src := by
  subst hs
  have needs := h.needs
  simp only [hasNeeds, Bool.and_eq_true] at needs
  have all := List.all_eq_true.mp needs.1.1.1.2 name hn
  rw [hf] at all
  exact h.child (mem_children_of_field? hf) all

theorem exists_word (h : p.Ready src) (hn : name ∈ s.neededWords) :
    ∃ c, p.field? name = some c := by
  subst hs
  have needs := h.needs
  simp only [hasNeeds, Bool.and_eq_true] at needs
  exact Option.isSome_iff_exists.mp (List.all_eq_true.mp needs.1.1.2 name hn)

theorem exists_part (h : p.Ready src) (part : s.needsPart = true) :
    ∃ c, p.named.head? = some c := by
  subst hs
  have needs := h.needs
  simp only [hasNeeds, part, Bool.and_eq_true, Bool.not_true, Bool.false_or] at needs
  cases hn : p.named with
  | nil => simp [hn] at needs
  | cons c rest => exact ⟨c, rfl⟩

/-- A node that must have a part in a field is no token. -/
theorem isToken_eq_false (h : p.Ready src) (hn : name ∈ s.neededFields)
    (hv : s.isVariable = false) : p.isToken = false := by
  obtain ⟨c, hf, -⟩ := h.exists_needed hs hn
  have mem := mem_children_of_field? hf
  have fits := h.shaped.fits
  apply Bool.eq_false_iff.mpr
  intro token
  simp only [Parsed.fits, hs, hv, token, Bool.false_eq_true, if_false, if_true,
    List.isEmpty_iff] at fits
  rw [fits] at mem
  cases mem

end

end Ready

end Parsed

end FreeNames
