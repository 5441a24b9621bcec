import FreeNames.Proofs.Conversion.Expressions
import FreeNames.Proofs.Conversion.Regular
import FreeNames.Proofs.Conversion.Uniform

/-!
# Conversion builds what the table says

Every node that conversion builds has the fields of its kind, whatever the parse; if the parse is
regular, each field holds what the run reads from it.

* `Conversion.template_builds` goes through the table of templates.
* `Parsed.builtThroughout_of_toTree` says so of whole trees.
-/

namespace FreeNames.Conversion

open Template (FieldsBuild)

variable {w : Parsed} {src : Source} {regular : Bool} {x : Inside w}
  (h : x.Sound regular src)

include h

/-! ## Statements -/

section Statements

theorem program_builds : (program x).Builds regular src Kind.isAny :=
  .build (.head _) (.field h.named (.field (.word _) .nil)) rfl

theorem expressionStatement_builds : (expressionStatement x).Builds regular src Kind.isAny :=
  .build (.head _) (.field (.one h.first) .nil) rfl

theorem blockStatement_builds : (blockStatement x).Builds regular src Kind.isAny :=
  .build (.head _) (.field h.named .nil) rfl

/-- Declarations that are declarators throughout, or that need not be. -/
theorem declarators_build {qs : List (Part w)} (parts : ∀ q ∈ qs, q ∈ x.parts)
    (declarators : regular = true → ∀ q ∈ qs, q.symbol = .variableDeclarator) :
    (Slot.holes qs).Builds regular src (.list (· = .variableDeclarator)) := by
  cases regular with
  | true =>
    refine h.holesOf parts fun q hq n hn => ?_
    rw [kind_of_declarator (declarators rfl q hq) hn]
    exact decide_eq_true rfl
  | false => exact h.holes parts

theorem variableDeclaration_builds (hs : x.symbol = .variableDeclaration) :
    (variableDeclaration x).Builds regular src Kind.isAny := by
  refine .build (.head _) (.field (.textValue _) (.field (declarators_build h
    (fun _ => Inside.mem_parts_of_named) fun yes q hq => ?_) .nil)) rfl
  exact (h.isRegular yes).here.declarators hs q.parsed (Inside.parsed_mem_named hq)

theorem lexicalDeclaration_builds : (lexicalDeclaration src x).Builds regular src Kind.isAny := by
  refine .build (.head _) (.field (Inside.Sound.textOf _) (.field (declarators_build h
    (fun q hq => ?_) fun _ q hq => ?_) .nil)) rfl
  · exact Inside.mem_parts_of_named (List.mem_filter.mp hq).1
  · exact of_decide_eq_true (List.mem_filter.mp hq).2

theorem variableDeclarator_builds : (variableDeclarator x).Builds regular src Kind.isAny :=
  .build (.head _) (.field (h.convert _) (.field (h.optional _) .nil)) rfl

theorem ifStatement_builds : (ifStatement x).Builds regular src Kind.isAny := by
  refine .build (.head _) (.field (h.convert _).late (.field (h.convert _).late
    (.field ?_ .nil))) rfl
  split
  · next q hq => exact (Slot.Builds.one (h.inside (Inside.mem_parts_of_field? hq)).first).option
  · exact .null

theorem switchStatement_builds (hs : x.symbol = .switchStatement) :
    (switchStatement x).Builds regular src Kind.isAny := by
  refine .build (.head _) (.field (h.convert _) (.field ?_ .nil)) rfl
  split
  · next body hb =>
    have sound := h.inside (Inside.mem_parts_of_field? hb)
    cases regular with
    | false => exact sound.holes fun _ => Inside.mem_parts_of_named
    | true =>
      refine sound.holesOf (fun _ => Inside.mem_parts_of_named) fun q hq n hn => ?_
      have isCase := (h.isRegular rfl).here.cases hs body.parsed (Inside.parsed_field? hb) q.parsed
        (Inside.parsed_mem_named (x := body.inside) hq)
      rw [kind_of_switchCase isCase hn]
      exact decide_eq_true rfl
  · exact .fault _

theorem fieldAll_builds (name : String) :
    (Slot.holes (x.fieldAll name)).Builds regular src (.list Kind.isAny) :=
  h.holes fun _ hq => (List.mem_filter.mp hq).1

theorem switchCase_builds : (switchCase x).Builds regular src Kind.isAny :=
  .build (.head _) (.field (h.convert _).option (.field (fieldAll_builds h _) .nil)) rfl

theorem switchDefault_builds : (switchDefault x).Builds regular src Kind.isAny :=
  .build (.head _) (.field .null (.field (fieldAll_builds h _) .nil)) rfl

theorem loopClause_builds (name : String) :
    (loopClause x name).Builds regular src (.option Kind.isAny) := by
  unfold loopClause
  split
  · next q hq =>
    have parts := Inside.mem_parts_of_field? hq
    split
    · exact .null
    split
    · exact (Slot.Builds.one (h.inside parts).first).option
    · exact (h.hole parts).option
  · exact .null

theorem forStatement_builds : (forStatement x).Builds regular src Kind.isAny :=
  .build (.head _) (.field (loopClause_builds h _) (.field (loopClause_builds h _)
    (.field (loopClause_builds h _) (.field (h.convert _) .nil)))) rfl

theorem loopTarget_builds : (loopTarget src x).Builds regular src (.node Kind.isAny) := by
  unfold loopTarget
  split
  · exact .fault _
  · next left hl =>
    have parts := Inside.mem_parts_of_field? hl
    split
    · exact h.hole parts
    · refine .one (.build (.head _) (.field (.late (.text _)) (.field (.list ?_) .nil)) rfl)
      refine List.forall_mem_cons.mpr ⟨?_, List.forall_mem_nil _⟩
      exact .one (.build (.head _) (.field (h.hole parts) (.field (h.optional _) .nil))
        (decide_eq_true rfl))

theorem forInStatement_builds : (forInStatement src x).Builds regular src Kind.isAny := by
  have head : FieldsBuild regular src
      [("left", .node Kind.isAny), ("right", .node Kind.isAny), ("body", .node Kind.isAny)]
      [("left", loopTarget src x), ("right", x.convert "right"), ("body", x.convert "body")] :=
    .field (loopTarget_builds h) (.field (h.convert _) (.field (h.convert _) .nil))
  unfold forInStatement
  simp only
  split
  · exact .fault _
  split
  · exact .fault _
  split
  · exact .build (.head _) (.field (.bool _) head) rfl
  · exact .build (.head _) head rfl

theorem whileStatement_builds : (whileStatement x).Builds regular src Kind.isAny :=
  .build (.head _) (.field (h.convert _) (.field (h.convert _) .nil)) rfl

theorem doWhileStatement_builds : (doWhileStatement x).Builds regular src Kind.isAny :=
  .build (.head _) (.field (h.convert _) (.field (h.convert _) .nil)) rfl

theorem tryStatement_builds : (tryStatement x).Builds regular src Kind.isAny := by
  refine .build (.head _) (.field (h.convert _).late (.field (h.optional _).late
    (.field ?_ .nil))) rfl
  split
  · next q hq => exact ((h.inside (Inside.mem_parts_of_field? hq)).convert _).option
  · exact .null

theorem catchClause_builds : (catchClause x).Builds regular src Kind.isAny := by
  refine .build (.head _) (.field ?_ (.field (h.convert _) .nil)) rfl
  split
  · next q hq => exact (h.hole (Inside.mem_parts_of_field? hq)).option
  · exact .null

theorem returnStatement_builds : (returnStatement x).Builds regular src Kind.isAny :=
  .build (.head _) (.field h.firstOrNull .nil) rfl

theorem throwStatement_builds : (throwStatement x).Builds regular src Kind.isAny :=
  .build (.head _) (.field (.one h.first) .nil) rfl

omit h in
theorem jumpStatement_builds {kind : Kind}
    (jump : [("label", Shape.option Kind.isIdentifier)] ∈ kind.readLayouts) :
    (jumpStatement src kind x).Builds regular src Kind.isAny :=
  .build jump (.field (identifierOrNull_builds _) .nil) rfl

theorem labeledStatement_builds : (labeledStatement src x).Builds regular src Kind.isAny :=
  .build (.head _) (.field (identifierIn_builds _) (.field (h.convert _) .nil)) rfl

theorem withStatement_builds : (withStatement x).Builds regular src Kind.isAny :=
  .build (.head _) (.field (h.convert _) (.field (h.convert _) .nil)) rfl

end Statements

/-! ## Imports and exports -/

section Modules

theorem importSpecifiers_build {q : Part w} (hq : q ∈ x.parts) :
    ∀ slot ∈ importSpecifiers src q, slot.Builds regular src (.node Kind.isImportSpecifier) := by
  have sound := h.inside hq
  unfold importSpecifiers
  split
  · refine List.forall_mem_cons.mpr ⟨?_, List.forall_mem_nil _⟩
    exact .one (.build (.head _) (.field (.one (identifier_builds _)) .nil) rfl)
  · refine List.forall_mem_cons.mpr ⟨?_, List.forall_mem_nil _⟩
    split
    · exact .one (.build (.head _) (.field (.one (identifier_builds _)) .nil) rfl)
    · exact .fault _
  · intro slot hslot
    obtain ⟨s, hs, rfl⟩ := List.mem_map.mp hslot
    obtain ⟨mem, symbol⟩ := List.mem_filter.mp hs
    refine sound.holeOf (Inside.mem_parts_of_named mem) fun n hn => ?_
    rw [kind_of_importSpecifier (of_decide_eq_true symbol) hn]
    rfl
  · exact List.forall_mem_nil _

theorem importDeclaration_builds : (importDeclaration src x).Builds regular src Kind.isAny := by
  refine .build (.head _) (.field (.list fun slot hslot => ?_) (.field (h.convert _) .nil)) rfl
  obtain ⟨clause, hc, inner⟩ := List.mem_flatMap.mp hslot
  obtain ⟨q, hq, mem⟩ := List.mem_flatMap.mp inner
  have sound := h.inside (Inside.mem_parts_of_named (List.mem_filter.mp hc).1)
  exact importSpecifiers_build sound (Inside.mem_parts_of_named hq) slot mem

theorem importSpecifier_builds : (importSpecifier src x).Builds regular src Kind.isAny := by
  unfold importSpecifier
  split
  · next imported localName hi _ =>
    exact .build (.head _) (.field (exportName_builds h (Inside.mem_parts_of_field? hi))
      (.field (.one (identifier_builds _)) .nil)) rfl
  · exact .fault _

theorem exportSpecifier_builds : (exportSpecifier src x).Builds regular src Kind.isAny := by
  unfold exportSpecifier
  split
  · next localName exported hl he =>
    exact .build (.head _) (.field (exportName_builds h (Inside.mem_parts_of_field? hl))
      (.field (exportName_builds h (mem_parts_of_fieldOr he)) .nil)) rfl
  · exact .fault _

theorem exportAll_builds {exported : Slot w}
    (builds : exported.Builds regular src (.option Kind.isModuleName)) :
    (exportAll exported x).Builds regular src Kind.isAny :=
  .build (.head _) (.field builds.late (.field (h.optional _) .nil)) rfl

theorem exportNames_builds : (exportNames src x).Builds regular src Kind.isAny := by
  unfold exportNames
  simp only
  split
  · exact exportAll_builds h .null
  · next clause hc =>
    have sound := h.inside (Inside.mem_parts_of_named (List.mem_of_find?_eq_some hc))
    split
    · refine .build (.tail _ (.head _)) (.field .null (.field (.late ?_)
        (.field (h.optional _) .nil))) rfl
      refine sound.holesOf (fun q hq => Inside.mem_parts_of_named (List.mem_filter.mp hq).1)
        fun q hq n hn => ?_
      rw [kind_of_exportSpecifier (of_decide_eq_true (List.mem_filter.mp hq).2) hn]
      exact decide_eq_true rfl
    · refine exportAll_builds h ?_
      split
      · next name hn =>
        exact (exportName_builds sound
          (Inside.mem_parts_of_named (List.mem_of_mem_head? hn))).option
      · exact .null

theorem exportStatement_builds : (exportStatement src x).Builds regular src Kind.isAny := by
  unfold exportStatement
  split
  · refine .build (.head _) (.field (.late ?_) .nil) rfl
    split
    · next q hq => exact h.hole (mem_parts_of_fieldOr hq)
    · exact .fault _
  split
  · next q hq =>
    exact .build (.head _) (.field (.late (h.hole (Inside.mem_parts_of_field? hq)))
      (.field .empty (.field .null .nil))) rfl
  · exact exportNames_builds h

end Modules

/-! ## Functions and classes -/

section Functions

theorem parameters_build : (parameters x).Builds regular src (.list Kind.isAny) := by
  unfold parameters
  split
  · next q hq => exact (h.inside (Inside.mem_parts_of_field? hq)).named
  · exact .empty

theorem functionFields_build : FieldsBuild regular src
    [("params", .list Kind.isAny), ("body", .node Kind.isAny), ("generator", .scalar),
      ("async_", .scalar)] (functionFields x) :=
  .field (parameters_build h) (.field (h.convert _) (.field (.bool _) (.field (.bool _) .nil)))

theorem function_builds {kind : Kind} (layout : Kind.functionLayout ∈ kind.readLayouts) :
    (function src kind x).Builds regular src Kind.isAny :=
  .build layout (.field (identifierOrNull_builds _) (functionFields_build h)) rfl

theorem arrowFunction_builds : (arrowFunction src x).Builds regular src Kind.isAny := by
  refine .build (.head _) (.field .null (.field ?_ (.field (h.convert _) (.field (.bool _)
    (.field (.bool _) (.field (.bool _) .nil)))))) rfl
  split
  · refine .list (List.forall_mem_cons.mpr ⟨?_, List.forall_mem_nil _⟩)
    exact .one ((identifier_builds _).imp fun _ _ => rfl)
  · exact parameters_build h

theorem decorators_build : (decorators x).Builds regular src (.list Kind.isAny) :=
  h.holes fun _ hq => Inside.mem_parts_of_named (List.mem_filter.mp hq).1

omit h in
/-- Parts that are read in turns are parts. -/
theorem mem_parts_of_inTurn {q : Part w} {n : Nat} {test : Part w × Nat → Bool}
    (hq : (q, n) ∈ x.named.zipIdx.filter test) : q ∈ x.parts :=
  Inside.mem_parts_of_named (List.fst_mem_of_mem_zipIdx (List.mem_filter.mp hq).1)

theorem classLike_builds {kind : Kind} (layout : Kind.classLayout ∈ kind.readLayouts) :
    (classLike src kind x).Builds regular src Kind.isAny := by
  refine .build layout (.field (.list fun slot hslot => ?_)
    (.field ((identifierOrNull_builds _).turn _) (.field ?_
      (.field ((h.convert _).turn _) .nil)))) rfl
  · obtain ⟨⟨q, n⟩, hq, rfl⟩ := List.mem_map.mp hslot
    exact (h.hole (mem_parts_of_inTurn hq)).turn n
  · cases last : (List.getLast? _ : Option (Slot w)) with
    | none => exact .null
    | some slot =>
      obtain ⟨⟨q, n⟩, hq, rfl⟩ := List.mem_map.mp (List.mem_of_getLast? last)
      exact ((Slot.Builds.one (h.inside (mem_parts_of_inTurn hq)).first).turn n).option

theorem classBody_builds : (classBody x).Builds regular src Kind.isAny :=
  .build (.head _) (.field h.named .nil) rfl

theorem methodFunction_builds : (methodFunction x).Builds regular src Kind.isAny :=
  .build (.head _) (.field .null (functionFields_build h)) rfl

theorem methodDefinition_builds (inObject : Bool) :
    (methodDefinition src inObject x).Builds regular src Kind.isAny := by
  unfold methodDefinition
  split
  · exact .fault _
  · next name hn =>
    have key := propertyKey_builds h (Inside.mem_parts_of_field? hn)
    have function := methodFunction_builds h
    simp only
    split
    · exact .build (.tail _ (.head _)) (.field key (.field (.one function) (.field (.bool _)
        (.field (.word _) (.field (.bool _) (.field (.bool _) .nil)))))) rfl
    · exact .build (.head _) (.field (decorators_build h).late (.field key (.field (.bool _)
        (.field (.one function) (.field (.word _) (.field (.bool _) .nil)))))) rfl

theorem fieldDefinition_builds : (fieldDefinition src x).Builds regular src Kind.isAny := by
  unfold fieldDefinition
  refine .build (.head _) (.field (decorators_build h) (.field ?_ (.field (.bool _)
    (.field (h.optional _) (.field (.bool _) .nil))))) rfl
  split
  · next q hq => exact propertyKey_builds h (Inside.mem_parts_of_field? hq)
  · exact .fault _

theorem staticBlock_builds : (staticBlock x).Builds regular src Kind.isAny := by
  refine .build (.head _) (.field ?_ .nil) rfl
  split
  · next q hq => exact (h.inside (Inside.mem_parts_of_field? hq)).named
  · exact .fault _

theorem decorator_builds : (decorator x).Builds regular src Kind.isAny :=
  .build (.head _) (.field (.one h.first) .nil) rfl

end Functions

/-! ## Patterns, objects and arrays -/

section Patterns

omit h in
theorem shorthand_builds (q : Part w) {value : Slot w}
    (builds : value.Builds regular src (.node Kind.isAny)) :
    (shorthand src q value).Builds regular src Kind.isAny :=
  .build (.tail _ (.head _)) (.field (.one ((identifier_builds _).imp fun _ _ => rfl))
    (.field builds (.field (.bool _) (.field (.word _) (.field (.bool _)
      (.field (.bool _) .nil)))))) rfl

omit h in
theorem shorthandName_builds (q : Part w) :
    (shorthand src q (.one (identifier src q.span))).Builds regular src Kind.isAny :=
  shorthand_builds q (.one ((identifier_builds _).imp fun _ _ => rfl))

theorem pair_builds {q : Part w} (hq : q ∈ x.parts) :
    (pair src q).Builds regular src Kind.isAny := by
  have sound := h.inside hq
  unfold pair
  split
  · exact .fault _
  · next key hk =>
    exact .build (.head _) (.field (propertyKey_builds sound (Inside.mem_parts_of_field? hk))
      (.field (.bool _) (.field (sound.convert _) (.field (.word _) (.field (.bool _)
        (.field (.bool _) .nil)))))) rfl

theorem assignmentPattern_builds : (assignmentPattern x).Builds regular src Kind.isAny :=
  .build (.head _) (.field (h.convert _) (.field (h.convert _) .nil)) rfl

theorem objectAssignment_builds {q : Part w} (hq : q ∈ x.parts) :
    (objectAssignment src q).Builds regular src Kind.isAny := by
  have pattern := assignmentPattern_builds (h.inside hq)
  unfold objectAssignment
  split
  · exact .fault _
  · split
    · exact shorthand_builds _ (.one pattern)
    · exact pattern

theorem patternEntry_builds {q : Part w} (hq : q ∈ x.parts) :
    (patternEntry src q).Builds regular src (.node Kind.isAny) := by
  unfold patternEntry
  split
  · exact .one (shorthandName_builds q)
  · exact .one (pair_builds h hq)
  · exact .one (objectAssignment_builds h hq)
  · exact h.hole hq

theorem objectEntry_builds {q : Part w} (hq : q ∈ x.parts) :
    (objectEntry src q).Builds regular src (.node Kind.isAny) := by
  unfold objectEntry
  split
  · exact .one (pair_builds h hq)
  · exact .one (shorthandName_builds q)
  · exact h.hole hq

theorem objectPattern_builds : (objectPattern src x).Builds regular src Kind.isAny := by
  refine .build (.head _) (.field (.list fun slot hslot => ?_) .nil) rfl
  obtain ⟨q, hq, rfl⟩ := List.mem_map.mp hslot
  exact patternEntry_builds h (Inside.mem_parts_of_named hq)

theorem objectExpression_builds : (objectExpression src x).Builds regular src Kind.isAny := by
  refine .build (.head _) (.field (.list fun slot hslot => ?_) .nil) rfl
  obtain ⟨q, hq, rfl⟩ := List.mem_map.mp hslot
  exact objectEntry_builds h (Inside.mem_parts_of_named hq)

theorem elements_build : (elements x).Builds regular src (.slots Kind.isAny) :=
  .slots (forall_mem_elementsFrom .null (fun _ hq _ _ => (h.hole hq).option) true)

theorem arrayPattern_builds : (arrayPattern x).Builds regular src Kind.isAny :=
  .build (.head _) (.field (elements_build h) .nil) rfl

theorem arrayExpression_builds : (arrayExpression x).Builds regular src Kind.isAny :=
  .build (.head _) (.field (elements_build h) .nil) rfl

theorem restElement_builds : (restElement x).Builds regular src Kind.isAny :=
  .build (.head _) (.field (.one h.first) .nil) rfl

theorem spreadElement_builds : (spreadElement x).Builds regular src Kind.isAny :=
  .build (.head _) (.field (.one h.first) .nil) rfl

end Patterns

/-! ## Expressions -/

section Expressions

omit h in
theorem wordLiteral_builds {v : Value} (scalar : v.isScalar = true) (raw : String) :
    (wordLiteral v raw x).Builds regular src Kind.isAny :=
  .build (.head _) (.field (.scalar scalar) (.field (.textValue _) .nil)) rfl

omit h in
theorem isScalar_numberValue (n : Option Number) : (numberValue n).isScalar = true := by
  rcases n with _ | _ | _ <;> rfl

omit h in
theorem numberLiteral_builds : (numberLiteral src x).Builds regular src Kind.isAny := by
  unfold numberLiteral
  split
  · exact .fault _
  split
  · exact .build (.head _) (.field (.scalar (isScalar_numberValue _))
      (.field (.textValue _) .nil)) rfl
  · exact .fault _

omit h in
theorem stringLiteral_builds : (stringLiteral src x).Builds regular src Kind.isAny := by
  unfold stringLiteral
  split
  · exact .fault _
  · exact .build (.head _) (.field (.scalar rfl) (.field (.textValue _) .nil)) rfl

omit h in
theorem regexLiteral_builds : (regexLiteral src x).Builds regular src Kind.isAny := by
  unfold regexLiteral
  split
  · exact .build (.tail _ (.head _)) (.field (.scalar rfl) (.field (.text _)
      (.field (.scalar rfl) .nil))) rfl
  · exact .fault _

theorem templateLiteral_builds : (templateLiteral src x).Builds regular src Kind.isAny := by
  refine .build (.head _) (.field (.list fun slot hslot => ?_)
    (.field (.list fun slot hslot => ?_) .nil)) rfl
  · obtain ⟨⟨q, n⟩, -, rfl⟩ := List.mem_map.mp hslot
    exact (Slot.Builds.one (.build (.head _) (.field (.scalar_of_text (.text _)) .nil)
      (decide_eq_true rfl))).turn n
  · obtain ⟨⟨q, n⟩, hq, rfl⟩ := List.mem_map.mp hslot
    exact (Slot.Builds.one (h.inside (mem_parts_of_inTurn hq)).first).turn n

omit h in
theorem metaProperty_builds : (metaProperty src x).Builds regular src Kind.isAny := by
  unfold metaProperty
  split
  · exact .fault _
  · have name (t : Text) : (Slot.one (.node .identifier x.span [("name", .value (.text t))])
        : Slot w).Builds regular src (.node Kind.isIdentifier) :=
      .one (.build (.head _) (.field (.textValue _) .nil) rfl)
    exact .build (.head _) (.field (name _) (.field (name _) .nil)) rfl

omit h in
/-- The expressions of pending sequences are parts of the parse, below which all is built. -/
theorem sequenceParts_builds {pending : List (Inside w)}
    (inside : ∀ y ∈ pending, y.Sound regular src) :
    ∀ q ∈ sequenceParts pending, (Slot.hole q).Builds regular src (.node Kind.isAny) :=
  forall_mem_sequenceParts (fun _ sound _ hq => sound.hole (Inside.mem_parts_of_named hq))
    (fun _ sound _ hq _ => sound.inside (Inside.mem_parts_of_named hq)) inside

theorem sequenceExpression_builds : (sequenceExpression x).Builds regular src Kind.isAny := by
  refine .build (.head _) (.field (.list fun slot hslot => ?_) .nil) rfl
  obtain ⟨q, hq, rfl⟩ := List.mem_map.mp hslot
  exact sequenceParts_builds (fun y hy => by rwa [List.mem_singleton.mp hy]) q hq

theorem newExpression_builds : (newExpression x).Builds regular src Kind.isAny := by
  refine .build (.head _) (.field (h.convert _) (.field ?_ .nil)) rfl
  split
  · next q hq => exact (h.inside (Inside.mem_parts_of_field? hq)).named
  · exact .empty

theorem assignment_builds {operator : Slot w} (builds : operator.Builds regular src .scalar) :
    (assignment operator x).Builds regular src Kind.isAny :=
  .build (.head _) (.field builds (.field (h.convert _) (.field (h.convert _) .nil))) rfl

theorem unaryExpression_builds : (unaryExpression src x).Builds regular src Kind.isAny :=
  .build (.head _) (.field (.scalar_of_text (Inside.Sound.textOf _)) (.field (.bool _)
    (.field (h.convert _) .nil))) rfl

theorem updateExpression_builds : (updateExpression src x).Builds regular src Kind.isAny :=
  .build (.head _) (.field (.scalar_of_text (Inside.Sound.textOf _)) (.field (.bool _)
    (.field (h.convert _) .nil))) rfl

theorem conditionalExpression_builds :
    (conditionalExpression x).Builds regular src Kind.isAny :=
  .build (.head _) (.field (h.convert _) (.field (h.convert _) (.field (h.convert _) .nil))) rfl

theorem awaitExpression_builds : (awaitExpression x).Builds regular src Kind.isAny :=
  .build (.head _) (.field (.one h.first) .nil) rfl

theorem yieldExpression_builds : (yieldExpression x).Builds regular src Kind.isAny :=
  .build (.head _) (.field h.firstOrNull (.field (.bool _) .nil)) rfl

end Expressions

/-! ## Chains -/

section Chains

/-- The operand of a link that is no call of the word `import`. -/
theorem operandSlot_builds (link : x.symbol.operandField?.isSome = true)
    (call : x.symbol ≠ .callExpression) {operand : Option (Part w)}
    (ho : chainOperand x = .ok operand) {inner : Option (Template w)}
    (same : inner.isSome = operand.isSome)
    (builds : ∀ t, inner = some t → t.Builds regular src Kind.isAny) :
    (operandSlot inner).Builds regular src (.node Kind.isAny) := by
  cases inner with
  | some t => exact .one (builds t rfl)
  | none =>
    cases regular with
    | false =>
      intro v hv
      cases hv
      exact ⟨rfl, List.forall_mem_nil _⟩
    | true =>
      obtain ⟨field, hf⟩ := Option.isSome_iff_exists.mp link
      have there := (h.isRegular rfl).here.operand field hf
      rw [← x.field?_map_parsed, Option.isSome_map,
        field?_of_chainOperand (x := x) rfl call hf ho, ← same] at there
      cases there

theorem callTemplate_builds {inner : Option (Template w)}
    (builds : ∀ t, inner = some t → t.Builds regular src Kind.isAny) :
    (callTemplate x inner).Builds regular src Kind.isAny := by
  unfold callTemplate
  simp only
  cases inner with
  | none =>
    refine .build (.head _) (.field ?_ .nil) rfl
    split
    · next q hq => exact (h.inside (Inside.mem_parts_of_field? hq)).firstOrNull
    · exact .fault _
  | some callee =>
    have calleeBuilds := Slot.Builds.one (builds callee rfl)
    simp only
    split
    · refine .build (.head _) (.field calleeBuilds (.field ?_ .nil)) rfl
      split
      · next q hq => exact h.hole (Inside.mem_parts_of_field? hq)
      · exact .fault _
    · refine .build (.head _) (.field calleeBuilds (.field ?_ (.field (.bool _) .nil))) rfl
      split
      · next q hq => exact (h.inside (Inside.mem_parts_of_field? hq)).named
      · exact .fault _

theorem binaryTemplate_builds {inner : Option (Template w)}
    (operand : (operandSlot inner).Builds regular src (.node Kind.isAny)) :
    (binaryTemplate src x inner).Builds regular src Kind.isAny := by
  unfold binaryTemplate
  have fields : FieldsBuild regular src Kind.operationLayout
      [("operator", .late (x.textOf src "operator")), ("left", operandSlot inner),
        ("right", .late (x.convert "right"))] :=
    .field (.late (.scalar_of_text (Inside.Sound.textOf _))) (.field operand
      (.field (h.convert _).late .nil))
  split
  · exact .build (.head _) fields rfl
  · exact .build (.head _) fields rfl

/-- One link around its operand. -/
theorem linkTemplate_builds (link : x.symbol.operandField?.isSome = true)
    {operand : Option (Part w)} (ho : chainOperand x = .ok operand) {inner : Option (Template w)}
    (same : inner.isSome = operand.isSome)
    (builds : ∀ t, inner = some t → t.Builds regular src Kind.isAny) :
    (linkTemplate src x inner).Builds regular src Kind.isAny := by
  have slot (call : x.symbol ≠ .callExpression) := operandSlot_builds h link call ho same builds
  unfold linkTemplate
  simp only
  split
  · next hs =>
    refine .build (.head _) (.field (slot (by rw [hs]; decide)) (.field ?_ (.field (.bool _)
      (.field (.bool _) .nil)))) rfl
    split
    · next q hq => exact propertyKey_builds h (Inside.mem_parts_of_field? hq)
    · exact .fault _
  · next hs =>
    exact .build (.head _) (.field (slot (by rw [hs]; decide)) (.field (h.convert _)
      (.field (.bool _) (.field (.bool _) .nil)))) rfl
  · next hs => exact binaryTemplate_builds h (slot (by rw [hs]; decide))
  · exact callTemplate_builds h builds

/-- A chain, by induction along it. -/
theorem chain_builds (link : x.symbol.operandField?.isSome = true) :
    (chain src x).Builds regular src Kind.isAny := by
  induction x using chain_induction with
  | step x ih =>
    intro n hn
    obtain ⟨operand, ho, hn⟩ := exists_of_fill_chain hn
    refine linkTemplate_builds h link ho Option.isSome_map (fun t ht => ?_) n hn
    obtain ⟨q, rfl, rfl⟩ := Option.map_eq_some_iff.mp ht
    have parts := mem_parts_of_chainOperand ho
    unfold operandTemplate
    split
    · next inner => exact ih q ho (h.inside parts) inner
    · exact h.template parts

end Chains

/-! ## The table -/

omit h in
/-- A name that no kind has is the name of a kind without a rule. -/
theorem ofName_of_forall_ne {s : String} (new : ∀ k ∈ Kind.known, k.name ≠ s) :
    Kind.ofName s = .other s := by
  have none : (Kind.known.find? fun k => k.name = s) = none :=
    List.find?_eq_none.mpr fun k hk => by rw [decide_eq_true_eq]; exact new k hk
  rw [Kind.ofName, none, Option.getD_none]

theorem opaqueNode_builds : (opaqueNode x).Builds regular src Kind.isAny := by
  have children : FieldsBuild regular src [("children", .list Kind.isAny)]
      [("children", .holes ((if x.symbol.isTagged then
          x.parts.eraseP fun q => q.parsed.field = some "name" else x.parts).filter fun q =>
            q.parsed.isNamed && !q.symbol.isExtra))] := by
    refine .field (h.holes fun q hq => ?_) .nil
    have mem := (List.mem_filter.mp hq).1
    split at mem
    · exact List.mem_of_mem_eraseP mem
    · exact mem
  cases regular with
  | true =>
    have other : Kind.ofName x.symbol.name = .other x.symbol.name :=
      ofName_of_forall_ne (h.isRegular rfl).here.name
    exact .build (by rw [other]; exact .head _) children rfl
  | false => exact .of_alternative (.head _) children rfl

/-- The template of any node. -/
theorem template_builds (inObject : Bool) :
    (template src inObject x).Builds regular src Kind.isAny := by
  unfold template
  cases hs : x.symbol with
  | program => exact program_builds h
  | expressionStatement => exact expressionStatement_builds h
  | emptyStatement | debuggerStatement | thisWord | superWord => exact .build (.head _) .nil rfl
  | statementBlock => exact blockStatement_builds h
  | variableDeclaration => exact variableDeclaration_builds h hs
  | lexicalDeclaration => exact lexicalDeclaration_builds h
  | variableDeclarator => exact variableDeclarator_builds h
  | ifStatement => exact ifStatement_builds h
  | switchStatement => exact switchStatement_builds h hs
  | switchCase => exact switchCase_builds h
  | switchDefault => exact switchDefault_builds h
  | forStatement => exact forStatement_builds h
  | forInStatement => exact forInStatement_builds h
  | whileStatement => exact whileStatement_builds h
  | doStatement => exact doWhileStatement_builds h
  | tryStatement => exact tryStatement_builds h
  | catchClause => exact catchClause_builds h
  | returnStatement => exact returnStatement_builds h
  | throwStatement => exact throwStatement_builds h
  | breakStatement | continueStatement => exact jumpStatement_builds (.head _)
  | labeledStatement => exact labeledStatement_builds h
  | withStatement => exact withStatement_builds h
  | importStatement => exact importDeclaration_builds h
  | importSpecifier => exact importSpecifier_builds h
  | exportStatement => exact exportStatement_builds h
  | exportSpecifier => exact exportSpecifier_builds h
  | functionDeclaration | generatorFunctionDeclaration | functionExpression | olderFunction
  | generatorFunction => exact function_builds h (.head _)
  | arrowFunction => exact arrowFunction_builds h
  | classDeclaration | classExpression => exact classLike_builds h (.head _)
  | classBody => exact classBody_builds h
  | methodDefinition => exact methodDefinition_builds h inObject
  | fieldDefinition => exact fieldDefinition_builds h
  | classStaticBlock => exact staticBlock_builds h
  | decorator => exact decorator_builds h
  | objectPattern => exact objectPattern_builds h
  | arrayPattern => exact arrayPattern_builds h
  | assignmentPattern => exact assignmentPattern_builds h
  | restPattern => exact restElement_builds h
  | identifier | shorthandPropertyIdentifierPattern =>
    exact (identifier_builds _).imp fun _ _ => rfl
  | undefinedWord => exact .build (.head _) (.field (.textValue _) .nil) rfl
  | privatePropertyIdentifier => exact privateName_builds _
  | trueWord | falseWord | nullWord => exact wordLiteral_builds rfl _
  | number => exact numberLiteral_builds
  | string => exact stringLiteral_builds
  | regex => exact regexLiteral_builds
  | templateString => exact templateLiteral_builds h
  | object => exact objectExpression_builds h
  | array => exact arrayExpression_builds h
  | spreadElement => exact spreadElement_builds h
  | parenthesizedExpression => exact h.first
  | sequenceExpression => exact sequenceExpression_builds h
  | newExpression => exact newExpression_builds h
  | assignmentExpression => exact assignment_builds h (.word _)
  | augmentedAssignmentExpression =>
    exact assignment_builds h (.scalar_of_text (Inside.Sound.textOf _))
  | unaryExpression => exact unaryExpression_builds h
  | updateExpression => exact updateExpression_builds h
  | ternaryExpression => exact conditionalExpression_builds h
  | awaitExpression => exact awaitExpression_builds h
  | yieldExpression => exact yieldExpression_builds h
  | metaProperty => exact metaProperty_builds
  | memberExpression | subscriptExpression | callExpression | binaryExpression =>
    exact chain_builds h (congrArg (fun s : Symbol => s.operandField?.isSome) hs)
  | _ => exact opaqueNode_builds h

end FreeNames.Conversion

namespace FreeNames

variable {src : Source} {regular : Bool}

/-- What a parse is converted to is built throughout, by induction on the parse. -/
theorem Conversion.builtThroughout_of_convert {p : Parsed} {inObject : Bool} {n : Node}
    (isRegular : regular = true → p.IsRegular) (hn : convert src p inObject = .ok n) :
    n.BuiltThroughout regular := by
  induction hsize : sizeOf p using Nat.strongRecOn generalizing p inObject n with
  | ind size ih =>
    rw [convert_eq] at hn
    have sound : p.inside.Sound regular src :=
      { isRegular
        below := fun smaller isRegular _ _ hn => ih _ (hsize ▸ smaller) isRegular hn rfl }
    exact (template_builds sound inObject n hn).1

/-- The tree of a parse is built throughout. -/
theorem Parsed.builtThroughout_of_toTree {root : Parsed} {tree : Node}
    (isRegular : regular = true → root.IsRegular) (h : root.toTree src = .ok tree) :
    tree.BuiltThroughout regular := by
  rw [Parsed.toTree] at h
  cases hn : Conversion.convert src root false with
  | error f => rw [hn] at h; cases h
  | ok n =>
    rw [hn] at h
    cases h
    exact Node.everywhere_isBuilt_numbered (Conversion.builtThroughout_of_convert isRegular hn)

end FreeNames
