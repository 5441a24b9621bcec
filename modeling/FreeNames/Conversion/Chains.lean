import FreeNames.Conversion.Names

/-!
# Chains

Member accesses, calls and binary operators nest to the left, once per link.  The template
of a chain is built along its spine: the innermost operand is the only operand that stays
a hole, and the links are put around it from the inside out.  Its faults come first.

* `spine` lists the links; a call of the word `import` has no operand and ends the spine.
* `linkTemplate` puts one link around its operand.
-/

namespace FreeNames.Conversion

variable {w : Parsed}

/-- The left-nested operand of a chain link, if it has one. -/
def chainOperand (x : Inside w) : Except Fault (Option (Part w)) :=
  match x.symbol with
  | .callExpression =>
    match x.field? "function" with
    | some q => .ok (if q.symbol = .importWord then none else some q)
    | none => .error (x.lacking "function")
  | s => .ok (s.operandField?.bind x.field?)

theorem mem_parts_of_chainOperand {x : Inside w} {q : Part w}
    (h : chainOperand x = .ok (some q)) : q ∈ x.parts := by
  unfold chainOperand at h
  split at h
  · split at h
    · next p hp =>
      split at h
      · cases h
      · cases h
        exact Inside.mem_parts_of_field? hp
    · cases h
  · next s _ =>
    cases hf : x.symbol.operandField? with
    | none => rw [hf] at h; cases h
    | some f =>
      rw [hf] at h
      simp only [Option.bind_some, Except.ok.injEq] at h
      exact Inside.mem_parts_of_field? h

/-- The links of a chain, outermost first, and the operand of the innermost. -/
def spine (x : Inside w) : Except Fault (List (Inside w) × Option (Part w)) :=
  match h : chainOperand x with
  | .error f => .error f
  | .ok none => .ok ([x], none)
  | .ok (some q) =>
    have := Inside.sizeOf_lt_of_mem_parts (mem_parts_of_chainOperand h)
    if q.symbol.operandField?.isSome then
      (spine q.inside).map fun (links, operand) => (x :: links, operand)
    else .ok ([x], some q)
termination_by sizeOf x.parsed
decreasing_by exact this

/-- The operators that decide by the value of their left side. -/
def logicalOperators : List Text := ["&&", "||", "??"]

/-- The operand of a link; a link without one has null there. -/
def operandSlot : Option (Template w) → Slot w
  | some t => .one t
  | none => .null

/-- A call, a tagged template, or the import of a module, around its operand. -/
def callTemplate (x : Inside w) (operand : Option (Template w)) : Template w :=
  let arguments := x.field? "arguments"
  let given (f : Part w → Slot w) : Slot w :=
    match arguments with
    | some q => f q
    | none => .fault (x.lacking "arguments")
  match operand with
  | none => .node .importExpression x.span [("source", given fun q => q.inside.firstOrNull)]
  | some callee =>
    if arguments.any fun q => q.symbol = .templateString then
      .node .taggedTemplateExpression x.span [("tag", .one callee), ("quasi", given .hole)]
    else
      .node .callExpression x.span
        [("callee", .one callee), ("arguments", given fun q => .holes q.inside.named),
          ("optional", .bool (x.field? "optional_chain").isSome)]

/-- Is the operator one of those that decide by the value of their left side? -/
def isLogical (src : Source) (x : Inside w) : Bool :=
  ((x.field? "operator").bind fun q => src.text? q.span).any logicalOperators.contains

/-- A binary operator around its left side. -/
def binaryTemplate (src : Source) (x : Inside w) (operand : Option (Template w)) : Template w :=
  .node (if isLogical src x then .logicalExpression else .binaryExpression) x.span
    [("operator", .late (x.textOf src "operator")), ("left", operandSlot operand),
      ("right", .late (x.convert "right"))]

/-- One link of a chain around its operand. -/
def linkTemplate (src : Source) (x : Inside w) (operand : Option (Template w)) : Template w :=
  let isOptional : Slot w := .bool (x.field? "optional_chain").isSome
  match x.symbol with
  | .memberExpression =>
    .node .memberExpression x.span
      [("object", operandSlot operand),
        ("property", match x.field? "property" with
          | some q => propertyKey src q
          | none => .fault (x.lacking "property")),
        ("computed", .bool false), ("optional", isOptional)]
  | .subscriptExpression =>
    .node .memberExpression x.span
      [("object", operandSlot operand), ("property", x.convert "index"),
        ("computed", .bool true), ("optional", isOptional)]
  | .binaryExpression => binaryTemplate src x operand
  | _ => callTemplate x operand

/-- A whole chain around its innermost operand. -/
def chain (src : Source) (x : Inside w) : Template w :=
  match spine x with
  | .error f => .fault f
  | .ok (links, operand) =>
    match links.foldr (fun link inner => some (linkTemplate src link inner))
        (operand.map Template.hole) with
    | some t => t
    | none => .fault (x.lacking "link")

end FreeNames.Conversion
