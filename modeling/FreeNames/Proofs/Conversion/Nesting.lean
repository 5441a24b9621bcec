import Mathlib
import FreeNames.Proofs.Conversion.Built
import FreeNames.Proofs.Conversion.Ranges

/-!
# Conversion keeps ranges nested

In the tree of a nested parse every node contains its children, apart from the two kinds of nodes
that conversion makes up with too small a range.

* There is one lemma for each template: its node has the range of the node that it is for, and so
  covers whatever is put into its fields.  `withDefault_nests` and `loopTarget_nests` are those of
  the two exceptions.
* `Conversion.template_encloses` goes through the table, `Conversion.encloses_of_convert` is the
  induction on the parse, and `Parsed.everywhere_nestsAt_of_toTree` says so of whole trees.
-/

namespace FreeNames.Conversion

open Template (FieldsNest FieldsGive)

variable {w root : Parsed} {src : Source} {x : Inside w} {q : Part w}
  (h : x.InRange root src)

include h

/-! ## Statements -/

section Statements

theorem program_encloses : (program x).Encloses root src x.span :=
  .build (.field h.named (.field (.word _) .nil))

theorem expressionStatement_encloses : (expressionStatement x).Encloses root src x.span :=
  .build (.field (.one h.first) .nil)

theorem blockStatement_encloses : (blockStatement x).Encloses root src x.span :=
  .build (.field h.named .nil)

theorem variableDeclaration_encloses : (variableDeclaration x).Encloses root src x.span :=
  .build (.field (.word _) (.field h.named .nil))

theorem namedOnly_nests (test : Part w → Bool) :
    (Slot.holes (x.named.filter test)).NestsIn root src x.span :=
  h.holes fun _ hq => Inside.mem_parts_of_named (List.mem_filter.mp hq).1

theorem lexicalDeclaration_encloses : (lexicalDeclaration src x).Encloses root src x.span :=
  .build (.field (.textOf _ _) (.field (namedOnly_nests h _) .nil))

theorem variableDeclarator_encloses : (variableDeclarator x).Encloses root src x.span :=
  .build (.field (h.convert _) (.field (h.optional _) .nil))

theorem ifStatement_encloses : (ifStatement x).Encloses root src x.span := by
  refine .build (.field (h.convert _).late (.field (h.convert _).late (.field ?_ .nil)))
  split
  · next q hq => exact h.firstOf (Inside.mem_parts_of_field? hq)
  · exact .null

theorem switchStatement_encloses : (switchStatement x).Encloses root src x.span := by
  refine .build (.field (h.convert _) (.field ?_ .nil))
  split
  · next q hq => exact h.namedOf (Inside.mem_parts_of_field? hq)
  · exact .fault _

theorem fieldAll_nests (name : String) :
    (Slot.holes (x.fieldAll name)).NestsIn root src x.span :=
  h.holes fun _ hq => (List.mem_filter.mp hq).1

theorem switchCase_encloses : (switchCase x).Encloses root src x.span :=
  .build (.field (h.convert _) (.field (fieldAll_nests h _) .nil))

theorem switchDefault_encloses : (switchDefault x).Encloses root src x.span :=
  .build (.field .null (.field (fieldAll_nests h _) .nil))

theorem loopClause_nests (name : String) :
    (loopClause x name).NestsIn root src x.span := by
  unfold loopClause
  split
  · next q hq =>
    have parts := Inside.mem_parts_of_field? hq
    split
    · exact .null
    split
    · exact h.firstOf parts
    · exact h.hole parts
  · exact .null

theorem forStatement_encloses : (forStatement x).Encloses root src x.span :=
  .build (.field (loopClause_nests h _) (.field (loopClause_nests h _)
    (.field (loopClause_nests h _) (.field (h.convert _) .nil))))

theorem whileStatement_encloses : (whileStatement x).Encloses root src x.span :=
  .build (.field (h.convert _) (.field (h.convert _) .nil))

theorem doWhileStatement_encloses : (doWhileStatement x).Encloses root src x.span :=
  .build (.field (h.convert _) (.field (h.convert _) .nil))

theorem tryStatement_encloses : (tryStatement x).Encloses root src x.span := by
  refine .build (.field (h.convert _).late (.field (h.optional _).late (.field ?_ .nil)))
  split
  · next q hq =>
    have parts := Inside.mem_parts_of_field? hq
    exact h.within parts ((h.inside parts).convert _)
  · exact .null

theorem catchClause_encloses : (catchClause x).Encloses root src x.span := by
  refine .build (.field ?_ (.field (h.convert _) .nil))
  split
  · next q hq => exact h.hole (Inside.mem_parts_of_field? hq)
  · exact .null

theorem returnStatement_encloses : (returnStatement x).Encloses root src x.span :=
  .build (.field h.firstOrNull .nil)

theorem throwStatement_encloses : (throwStatement x).Encloses root src x.span :=
  .build (.field (.one h.first) .nil)

theorem jumpStatement_encloses (kind : Kind) :
    (jumpStatement src kind x).Encloses root src x.span :=
  .build (.field (identifierOrNull_nests h _) .nil)

theorem labeledStatement_encloses : (labeledStatement src x).Encloses root src x.span :=
  .build (.field (identifierIn_nests h _) (.field (h.convert _) .nil))

theorem withStatement_encloses : (withStatement x).Encloses root src x.span :=
  .build (.field (h.convert _) (.field (h.convert _) .nil))

end Statements

/-! ## Loops over collections -/

section Loops

/-- The declarator that a loop makes up has the range of the declared name; the value that the name
starts with is the only child that may stand outside. -/
theorem loopDeclarator_gives (hs : x.symbol = .forInStatement)
    (declared : (x.parsed.field? "kind").isSome = true) (hl : x.field? "left" = some q) :
    (Template.node .variableDeclarator q.span
      [("id", .hole q), ("init", x.optional "value")]).Gives src fun d =>
        root.NestsIn x.span d ∧ d.span = q.span ∧ (root.Keeps d → d.Within q.span) := by
  have parts := Inside.mem_parts_of_field? hl
  intro d hd
  obtain ⟨kind, span, children⟩ := Template.children_of_fill
    (P := fun name c => root.Encloses q.span c ∨ name = "init" ∧ ∃ p,
      x.parsed.field? "value" = some p ∧ x.span.Contains p.span ∧ root.Encloses p.span c)
    (.field (.imp (.one (h.template parts)) fun _ => Or.inl)
      (.field ((h.optionalPart "value").imp fun _ hc => Or.inr ⟨rfl, hc⟩) .nil)) hd
  have outer : x.span.Contains d.span := span ▸ h.contains parts
  obtain ⟨nests, covers⟩ := Parsed.NestsIn.of_strays outer fun c hc => by
    rw [span]
    rcases children c hc with encloses | ⟨field, value, found, contains, encloses⟩
    · exact ⟨encloses.toNestsIn.mono (h.contains parts), Or.inl encloses.within⟩
    · refine ⟨encloses.toNestsIn.mono contains, ?_⟩
      -- the value covers what is below it, so it strays only as a whole
      by_cases inside : q.span.Contains c.2.span
      · exact Or.inl (encloses.covers.mono inside)
      · rw [field]
        exact Or.inr (.startValue h.mem hs declared (Inside.parsed_field? hl) found kind span
          encloses.within.here inside)
  exact ⟨nests, span, span ▸ covers⟩

theorem loopTarget_nests (hs : x.symbol = .forInStatement) :
    (loopTarget src x).NestsIn root src x.span := by
  unfold loopTarget
  split
  · exact .fault _
  · next left hl =>
    have parts := Inside.mem_parts_of_field? hl
    split
    · exact h.hole parts
    · next keyword hk =>
      have declared : (x.parsed.field? "kind").isSome = true :=
        Option.isSome_of_eq_some (Inside.parsed_field? hk)
      refine Slot.Gives.one fun n hn => ?_
      obtain ⟨-, span, children⟩ := Template.children_of_fill
        (P := fun _ d => root.NestsIn x.span d ∧ d.span = left.span ∧
          (root.Keeps d → d.Within left.span))
        (.field (.late (.text _)) (.field (.many (List.forall_mem_singleton.mpr
          (.one (loopDeclarator_gives h hs declared hl)))) .nil)) hn
      exact .of_same (span ▸ h.contains parts) (span ▸ children)

theorem forInStatement_encloses (hs : x.symbol = .forInStatement) :
    (forInStatement src x).Encloses root src x.span := by
  have head : FieldsNest root src x.span
      [("left", loopTarget src x), ("right", x.convert "right"), ("body", x.convert "body")] :=
    .field (loopTarget_nests h hs) (.field (h.convert _) (.field (h.convert _) .nil))
  unfold forInStatement
  simp only
  split
  · exact .fault _
  split
  · exact .fault _
  split
  · exact .build (.field (.bool _) head)
  · exact .build head

end Loops

/-! ## Imports and exports -/

section Modules

theorem importSpecifiers_nest (hq : q ∈ x.parts) :
    ∀ slot ∈ importSpecifiers src q, slot.NestsIn root src x.span := by
  have inner := h.inside hq
  unfold importSpecifiers
  split
  · refine List.forall_mem_singleton.mpr (h.within hq (.one ?_))
    exact .build (.field (.one (identifier_encloses _)) .nil)
  · refine List.forall_mem_singleton.mpr ?_
    split
    · next name hn =>
      refine h.within hq (.one (.build (.field ?_ .nil)))
      exact identifierOf_nests inner (Inside.mem_parts_of_named (List.mem_of_mem_head? hn))
    · exact .fault _
  · intro slot hslot
    obtain ⟨s, hs, rfl⟩ := List.mem_map.mp hslot
    exact h.within hq (inner.hole (Inside.mem_parts_of_named (List.mem_filter.mp hs).1))
  · exact List.forall_mem_nil _

theorem importDeclaration_encloses : (importDeclaration src x).Encloses root src x.span := by
  refine .build (.field (.many fun slot hslot => ?_) (.field (h.convert _) .nil))
  obtain ⟨clause, hc, mem⟩ := List.mem_flatMap.mp hslot
  obtain ⟨q, hq, mem⟩ := List.mem_flatMap.mp mem
  have parts := Inside.mem_parts_of_named (List.mem_filter.mp hc).1
  have inner := h.inside parts
  exact h.within parts (importSpecifiers_nest inner (Inside.mem_parts_of_named hq) slot mem)

theorem importSpecifier_encloses : (importSpecifier src x).Encloses root src x.span := by
  unfold importSpecifier
  split
  · next imported localName hi hl =>
    exact .build (.field (exportName_nests h (Inside.mem_parts_of_field? hi))
      (.field (identifierOf_nests h (mem_parts_of_fieldOr hl)) .nil))
  · exact .fault _

theorem exportSpecifier_encloses : (exportSpecifier src x).Encloses root src x.span := by
  unfold exportSpecifier
  split
  · next localName exported hl he =>
    exact .build (.field (exportName_nests h (Inside.mem_parts_of_field? hl))
      (.field (exportName_nests h (mem_parts_of_fieldOr he)) .nil))
  · exact .fault _

theorem exportAll_encloses {exported : Slot w} (nests : exported.NestsIn root src x.span) :
    (exportAll exported x).Encloses root src x.span :=
  .build (.field nests.late (.field (h.optional _) .nil))

theorem exportNames_encloses : (exportNames src x).Encloses root src x.span := by
  unfold exportNames
  simp only
  split
  · exact exportAll_encloses h .null
  · next clause hc =>
    have parts := Inside.mem_parts_of_named (List.mem_of_find?_eq_some hc)
    have inner := h.inside parts
    split
    · have specifiers := h.within parts (namedOnly_nests inner fun s => s.symbol = .exportSpecifier)
      exact .build (.field .null (.field specifiers.late (.field (h.optional _) .nil)))
    · refine exportAll_encloses h ?_
      split
      · next name hn =>
        have named := Inside.mem_parts_of_named (List.mem_of_mem_head? hn)
        exact h.within parts (exportName_nests inner named)
      · exact .null

theorem exportStatement_encloses : (exportStatement src x).Encloses root src x.span := by
  unfold exportStatement
  split
  · refine .build (.field (.late ?_) .nil)
    split
    · next q hq => exact h.hole (mem_parts_of_fieldOr hq)
    · exact .fault _
  split
  · next q hq =>
    have declaration := h.hole (Inside.mem_parts_of_field? hq)
    exact .build (.field declaration.late (.field .empty (.field .null .nil)))
  · exact exportNames_encloses h

end Modules

/-! ## Functions and classes -/

section Functions

theorem parameters_nest : (parameters x).NestsIn root src x.span := by
  unfold parameters
  split
  · next q hq => exact h.namedOf (Inside.mem_parts_of_field? hq)
  · exact .empty

theorem functionFields_nest : FieldsNest root src x.span (functionFields x) :=
  .field (parameters_nest h) (.field (h.convert _) (.field (.bool _) (.field (.bool _) .nil)))

theorem function_encloses (kind : Kind) : (function src kind x).Encloses root src x.span :=
  .build (.field (identifierOrNull_nests h _) (functionFields_nest h))

theorem arrowFunction_encloses : (arrowFunction src x).Encloses root src x.span := by
  refine .build (.field .null (.field ?_ (.field (h.convert _) (.field (.bool _)
    (.field (.bool _) (.field (.bool _) .nil))))))
  split
  · next q hq =>
    have name := identifierOf_nests h (Inside.mem_parts_of_field? hq)
    exact .many (List.forall_mem_singleton.mpr name)
  · exact parameters_nest h

omit h in
/-- Parts of one symbol, each with a slot and a turn. -/
theorem inTurn_nests {f : Part w → Slot w} (symbol : Symbol)
    (each : ∀ q ∈ x.parts, (f q).NestsIn root src x.span) :
    ∀ slot ∈ (x.named.zipIdx.filter fun q => q.1.symbol = symbol).map fun (q, n) =>
        Slot.turn n (f q),
      slot.NestsIn root src x.span := by
  intro slot hslot
  obtain ⟨⟨q, n⟩, hq, rfl⟩ := List.mem_map.mp hslot
  exact (each q (mem_parts_of_inTurn hq)).turn n

theorem classLike_encloses (kind : Kind) : (classLike src kind x).Encloses root src x.span := by
  refine .build (.field (.many (inTurn_nests .decorator fun _ => h.hole))
    (.field ((identifierOrNull_nests h _).turn _) (.field ?_ (.field ((h.convert _).turn _) .nil))))
  cases last : (List.getLast? _ : Option (Slot w)) with
  | none => exact .null
  | some slot =>
    exact inTurn_nests .classHeritage (fun _ => h.firstOf) slot (List.mem_of_getLast? last)

theorem classBody_encloses : (classBody x).Encloses root src x.span := .build (.field h.named .nil)

theorem methodFunction_encloses : (methodFunction x).Encloses root src x.span :=
  .build (.field .null (functionFields_nest h))

theorem methodDefinition_encloses (inObject : Bool) :
    (methodDefinition src inObject x).Encloses root src x.span := by
  have function := Slot.NestsIn.one (methodFunction_encloses h)
  unfold methodDefinition
  split
  · exact .fault _
  · next name hn =>
    have key := propertyKey_nests h (Inside.mem_parts_of_field? hn)
    simp only
    split
    · exact .build (.field key (.field function (.field (.bool _) (.field (.word _)
        (.field (.bool _) (.field (.bool _) .nil))))))
    · exact .build (.field (namedOnly_nests h _).late (.field key (.field (.bool _)
        (.field function (.field (.word _) (.field (.bool _) .nil))))))

theorem fieldDefinition_encloses : (fieldDefinition src x).Encloses root src x.span := by
  unfold fieldDefinition
  refine .build (.field (namedOnly_nests h _) (.field ?_ (.field (.bool _)
    (.field (h.optional _) (.field (.bool _) .nil)))))
  split
  · next q hq => exact propertyKey_nests h (Inside.mem_parts_of_field? hq)
  · exact .fault _

theorem staticBlock_encloses : (staticBlock x).Encloses root src x.span := by
  refine .build (.field ?_ .nil)
  split
  · next q hq => exact h.namedOf (Inside.mem_parts_of_field? hq)
  · exact .fault _

theorem decorator_encloses : (decorator x).Encloses root src x.span :=
  .build (.field (.one h.first) .nil)

end Functions

/-! ## Patterns, objects and arrays -/

section Patterns

/-- A name alone is the key and the value of its property. -/
theorem shorthandName_nests (hq : q ∈ x.parts) :
    (Slot.one (shorthand src q (.one (identifier src q.span))) : Slot w).NestsIn root src x.span :=
  h.within hq (.one (.build (.field (.one (identifier_encloses _))
    (.field (.one (identifier_encloses _)) (.field (.bool _) (.field (.word _) (.field (.bool _)
      (.field (.bool _) .nil))))))))

theorem pair_nests (hq : q ∈ x.parts) : (Slot.one (pair src q)).NestsIn root src x.span := by
  have inner := h.inside hq
  refine h.within hq (.one ?_)
  unfold pair
  split
  · exact .fault _
  · next key hk =>
    exact .build (.field (propertyKey_nests inner (Inside.mem_parts_of_field? hk))
      (.field (.bool _) (.field (inner.convert _) (.field (.word _) (.field (.bool _)
        (.field (.bool _) .nil))))))

theorem assignmentPattern_encloses : (assignmentPattern x).Encloses root src x.span :=
  .build (.field (h.convert _) (.field (h.convert _) .nil))

/-- The property that an entry makes up for a name with a default has the range of the name; its
value, which is the whole entry, may stand outside. -/
theorem withDefault_nests (hs : x.symbol = .objectAssignmentPattern) {name : Part w}
    (hl : x.field? "left" = some name) (short : name.symbol = .shorthandPropertyIdentifierPattern) :
    (Slot.one (shorthand src name (.one (assignmentPattern x)))).NestsIn root src x.span := by
  have parts := Inside.mem_parts_of_field? hl
  have value : (assignmentPattern x).Gives src fun c =>
      root.NestsIn x.span c ∧ c.kind = .assignmentPattern ∧ c.span = x.span := fun c hc => by
    obtain ⟨vs, -, rfl⟩ := Template.exists_fields_of_fill hc
    exact ⟨(assignmentPattern_encloses h _ hc).toNestsIn, rfl, rfl⟩
  refine Slot.Gives.one fun n hn => ?_
  obtain ⟨kind, span, children⟩ := Template.children_of_fill
    (P := fun field c => root.Encloses name.span c ∨
      field = "value" ∧ root.NestsIn x.span c ∧ c.kind = .assignmentPattern ∧ c.span = x.span)
    (.field (.one ((identifier_encloses _).imp fun _ => Or.inl))
      (.field (.one (value.imp fun _ hc => Or.inr ⟨rfl, hc⟩)) (.field (.bool _) (.field (.word _)
        (.field (.bool _) (.field (.bool _) .nil)))))) hn
  refine (Parsed.NestsIn.of_strays (span ▸ h.contains parts) fun c hc => ?_).1
  rw [span]
  rcases children c hc with encloses | ⟨field, nests, valueKind, valueSpan⟩
  · exact ⟨encloses.toNestsIn.mono (h.contains parts), Or.inl encloses.within⟩
  · refine ⟨nests, ?_⟩
    -- a name that takes up its entry contains the default as well
    by_cases inside : name.span.Contains x.span
    · exact Or.inl (nests.within.mono inside)
    · rw [field]
      exact Or.inr (.withDefault h.mem hs (Inside.parsed_field? hl) short kind span valueKind
        valueSpan inside)

theorem objectAssignment_nests (hq : q ∈ x.parts) (hs : q.symbol = .objectAssignmentPattern) :
    (Slot.one (objectAssignment src q)).NestsIn root src x.span := by
  have inner := h.inside hq
  refine h.within hq ?_
  unfold objectAssignment
  split
  · exact .fault _
  · next name hl =>
    split
    · next short => exact withDefault_nests inner hs hl short
    · exact .one (assignmentPattern_encloses inner)

theorem patternEntry_nests (hq : q ∈ x.parts) :
    (patternEntry src q).NestsIn root src x.span := by
  unfold patternEntry
  split
  · exact shorthandName_nests h hq
  · exact pair_nests h hq
  · next hs => exact objectAssignment_nests h hq hs
  · exact h.hole hq

theorem objectEntry_nests (hq : q ∈ x.parts) : (objectEntry src q).NestsIn root src x.span := by
  unfold objectEntry
  split
  · exact pair_nests h hq
  · exact shorthandName_nests h hq
  · exact h.hole hq

omit h in
/-- One slot for each of the named parts. -/
theorem entries_nest {f : Part w → Slot w}
    (each : ∀ q ∈ x.parts, (f q).NestsIn root src x.span) :
    (Slot.many (x.named.map f)).NestsIn root src x.span := by
  refine .many fun slot hslot => ?_
  obtain ⟨q, hq, rfl⟩ := List.mem_map.mp hslot
  exact each q (Inside.mem_parts_of_named hq)

theorem objectPattern_encloses : (objectPattern src x).Encloses root src x.span :=
  .build (.field (entries_nest fun _ => patternEntry_nests h) .nil)

theorem objectExpression_encloses : (objectExpression src x).Encloses root src x.span :=
  .build (.field (entries_nest fun _ => objectEntry_nests h) .nil)

theorem elements_nest : (elements x).NestsIn root src x.span :=
  .many (forall_mem_elementsFrom .null (fun _ hq _ _ => h.hole hq) true)

theorem arrayPattern_encloses : (arrayPattern x).Encloses root src x.span :=
  .build (.field (elements_nest h) .nil)

theorem arrayExpression_encloses : (arrayExpression x).Encloses root src x.span :=
  .build (.field (elements_nest h) .nil)

theorem restElement_encloses : (restElement x).Encloses root src x.span :=
  .build (.field (.one h.first) .nil)

theorem spreadElement_encloses : (spreadElement x).Encloses root src x.span :=
  .build (.field (.one h.first) .nil)

end Patterns

/-! ## Expressions -/

section Expressions

omit h in
theorem wordLiteral_encloses {v : Value} (noNodes : v.nodes = []) (raw : String) :
    (wordLiteral v raw x).Encloses root src x.span :=
  .build (.field (.value noNodes) (.field (.word _) .nil))

omit h in
theorem numberLiteral_encloses : (numberLiteral src x).Encloses root src x.span := by
  unfold numberLiteral
  split
  · exact .fault _
  split
  · have noNodes (n : Option Number) : (numberValue n).nodes = [] :=
      Value.nodes_of_isScalar (isScalar_numberValue n)
    exact .build (.field (.value (noNodes _)) (.field (.value rfl) .nil))
  · exact .fault _

omit h in
theorem stringLiteral_encloses : (stringLiteral src x).Encloses root src x.span := by
  unfold stringLiteral
  split
  · exact .fault _
  · exact .build (.field (.value rfl) (.field (.value rfl) .nil))

omit h in
theorem regexLiteral_encloses : (regexLiteral src x).Encloses root src x.span := by
  unfold regexLiteral
  split
  · exact .build (.field .null (.field (.text _) (.field (.value rfl) .nil)))
  · exact .fault _

theorem templateLiteral_encloses : (templateLiteral src x).Encloses root src x.span := by
  refine .build (.field (.many fun slot hslot => ?_) (.field (.many fun slot hslot => ?_) .nil))
  · obtain ⟨⟨q, n⟩, hq, rfl⟩ := List.mem_map.mp hslot
    exact (h.within (mem_parts_of_inTurn hq) (.one (.build (.field (.text _) .nil)))).turn n
  · obtain ⟨⟨q, n⟩, hq, rfl⟩ := List.mem_map.mp hslot
    exact (h.firstOf (mem_parts_of_inTurn hq)).turn n

omit h in
/-- Both names have the range of the whole. -/
theorem metaProperty_encloses : (metaProperty src x).Encloses root src x.span := by
  unfold metaProperty
  split
  · exact .fault _
  · have name (t : Text) : (Slot.one (.node .identifier x.span [("name", .value (.text t))])
        : Slot w).NestsIn root src x.span := .one (.build (.field (.value rfl) .nil))
    exact .build (.field (name _) (.field (name _) .nil))

/-- The expressions of nested sequences lie where the sequences do. -/
theorem sequenceExpression_encloses : (sequenceExpression x).Encloses root src x.span := by
  refine .build (.field (.many fun slot hslot => ?_) .nil)
  obtain ⟨q, hq, rfl⟩ := List.mem_map.mp hslot
  refine forall_mem_sequenceParts (P := fun r => (Slot.hole r).NestsIn root src x.span)
    (Q := fun y => y.InRange root src ∧ x.span.Contains y.span)
    (fun y hy r hr => ?_) (fun y hy r hr _ => ?_) (List.forall_mem_singleton.mpr ⟨h, .refl _⟩) q hq
  · exact (hy.1.hole (Inside.mem_parts_of_named hr)).mono hy.2
  · have parts := Inside.mem_parts_of_named hr
    exact ⟨hy.1.inside parts, hy.2.trans (hy.1.contains parts)⟩

theorem newExpression_encloses : (newExpression x).Encloses root src x.span := by
  refine .build (.field (h.convert _) (.field ?_ .nil))
  split
  · next q hq => exact h.namedOf (Inside.mem_parts_of_field? hq)
  · exact .empty

theorem assignment_encloses {operator : Slot w} (nests : operator.NestsIn root src x.span) :
    (assignment operator x).Encloses root src x.span :=
  .build (.field nests (.field (h.convert _) (.field (h.convert _) .nil)))

theorem unaryExpression_encloses : (unaryExpression src x).Encloses root src x.span :=
  .build (.field (.textOf _ _) (.field (.bool _) (.field (h.convert _) .nil)))

theorem updateExpression_encloses : (updateExpression src x).Encloses root src x.span :=
  .build (.field (.textOf _ _) (.field (.bool _) (.field (h.convert _) .nil)))

theorem conditionalExpression_encloses : (conditionalExpression x).Encloses root src x.span :=
  .build (.field (h.convert _) (.field (h.convert _) (.field (h.convert _) .nil)))

theorem awaitExpression_encloses : (awaitExpression x).Encloses root src x.span :=
  .build (.field (.one h.first) .nil)

theorem yieldExpression_encloses : (yieldExpression x).Encloses root src x.span :=
  .build (.field h.firstOrNull (.field (.bool _) .nil))

end Expressions

/-! ## Chains -/

section Chains

variable {inner : Option (Template w)} (operand : ∀ t, inner = some t → t.Encloses root src x.span)

include operand

omit h in
theorem operandSlot_nests : (operandSlot inner).NestsIn root src x.span := by
  cases inner with
  | some t => exact .one (operand t rfl)
  | none => exact .null

theorem callTemplate_encloses : (callTemplate x inner).Encloses root src x.span := by
  unfold callTemplate
  simp only
  cases inner with
  | none =>
    refine .build (.field ?_ .nil)
    split
    · next q hq =>
      have parts := Inside.mem_parts_of_field? hq
      exact h.within parts (h.inside parts).firstOrNull
    · exact .fault _
  | some callee =>
    have calleeSlot := Slot.NestsIn.one (operand callee rfl)
    simp only
    split
    · refine .build (.field calleeSlot (.field ?_ .nil))
      split
      · next q hq => exact h.hole (Inside.mem_parts_of_field? hq)
      · exact .fault _
    · refine .build (.field calleeSlot (.field ?_ (.field (.bool _) .nil)))
      split
      · next q hq => exact h.namedOf (Inside.mem_parts_of_field? hq)
      · exact .fault _

theorem binaryTemplate_encloses : (binaryTemplate src x inner).Encloses root src x.span :=
  .build (.field (Slot.Gives.textOf _ _).late (.field (operandSlot_nests operand)
    (.field (h.convert _).late .nil)))

/-- One link around its operand. -/
theorem linkTemplate_encloses : (linkTemplate src x inner).Encloses root src x.span := by
  have slot := operandSlot_nests operand
  unfold linkTemplate
  simp only
  split
  · refine .build (.field slot (.field ?_ (.field (.bool _) (.field (.bool _) .nil))))
    split
    · next q hq => exact propertyKey_nests h (Inside.mem_parts_of_field? hq)
    · exact .fault _
  · exact .build (.field slot (.field (h.convert _) (.field (.bool _) (.field (.bool _) .nil))))
  · exact binaryTemplate_encloses h operand
  · exact callTemplate_encloses h operand

end Chains

/-- A chain, by induction along it. -/
theorem chain_encloses : (chain src x).Encloses root src x.span := by
  induction x using chain_induction with
  | step x ih =>
    intro n hn
    obtain ⟨operand, ho, hn⟩ := exists_of_fill_chain hn
    refine linkTemplate_encloses h (fun t ht => ?_) n hn
    obtain ⟨q, rfl, rfl⟩ := Option.map_eq_some_iff.mp ht
    have parts := mem_parts_of_chainOperand ho
    refine Template.Encloses.mono ?_ (h.contains parts)
    unfold operandTemplate
    split
    · exact ih q ho (h.inside parts)
    · exact h.template parts

/-! ## The table -/

theorem opaqueNode_encloses : (opaqueNode x).Encloses root src x.span := by
  refine .build (.field (h.holes fun q hq => ?_) .nil)
  have mem := (List.mem_filter.mp hq).1
  split at mem
  · exact List.mem_of_mem_eraseP mem
  · exact mem

/-- The template of any node. -/
theorem template_encloses (inObject : Bool) :
    (template src inObject x).Encloses root src x.span := by
  unfold template
  cases hs : x.symbol with
  | program => exact program_encloses h
  | expressionStatement => exact expressionStatement_encloses h
  | emptyStatement | debuggerStatement | thisWord | superWord => exact .build .nil
  | statementBlock => exact blockStatement_encloses h
  | variableDeclaration => exact variableDeclaration_encloses h
  | lexicalDeclaration => exact lexicalDeclaration_encloses h
  | variableDeclarator => exact variableDeclarator_encloses h
  | ifStatement => exact ifStatement_encloses h
  | switchStatement => exact switchStatement_encloses h
  | switchCase => exact switchCase_encloses h
  | switchDefault => exact switchDefault_encloses h
  | forStatement => exact forStatement_encloses h
  | forInStatement => exact forInStatement_encloses h hs
  | whileStatement => exact whileStatement_encloses h
  | doStatement => exact doWhileStatement_encloses h
  | tryStatement => exact tryStatement_encloses h
  | catchClause => exact catchClause_encloses h
  | returnStatement => exact returnStatement_encloses h
  | throwStatement => exact throwStatement_encloses h
  | breakStatement | continueStatement => exact jumpStatement_encloses h _
  | labeledStatement => exact labeledStatement_encloses h
  | withStatement => exact withStatement_encloses h
  | importStatement => exact importDeclaration_encloses h
  | importSpecifier => exact importSpecifier_encloses h
  | exportStatement => exact exportStatement_encloses h
  | exportSpecifier => exact exportSpecifier_encloses h
  | functionDeclaration | generatorFunctionDeclaration | functionExpression | olderFunction
  | generatorFunction => exact function_encloses h _
  | arrowFunction => exact arrowFunction_encloses h
  | classDeclaration | classExpression => exact classLike_encloses h _
  | classBody => exact classBody_encloses h
  | methodDefinition => exact methodDefinition_encloses h inObject
  | fieldDefinition => exact fieldDefinition_encloses h
  | classStaticBlock => exact staticBlock_encloses h
  | decorator => exact decorator_encloses h
  | objectPattern => exact objectPattern_encloses h
  | arrayPattern => exact arrayPattern_encloses h
  | assignmentPattern => exact assignmentPattern_encloses h
  | restPattern => exact restElement_encloses h
  | identifier | shorthandPropertyIdentifierPattern => exact identifier_encloses _
  | undefinedWord => exact .build (.field (.word _) .nil)
  | privatePropertyIdentifier => exact privateName_encloses _
  | trueWord | falseWord | nullWord => exact wordLiteral_encloses rfl _
  | number => exact numberLiteral_encloses
  | string => exact stringLiteral_encloses
  | regex => exact regexLiteral_encloses
  | templateString => exact templateLiteral_encloses h
  | object => exact objectExpression_encloses h
  | array => exact arrayExpression_encloses h
  | spreadElement => exact spreadElement_encloses h
  | parenthesizedExpression => exact h.first
  | sequenceExpression => exact sequenceExpression_encloses h
  | newExpression => exact newExpression_encloses h
  | assignmentExpression => exact assignment_encloses h (.word _)
  | augmentedAssignmentExpression => exact assignment_encloses h (.textOf _ _)
  | unaryExpression => exact unaryExpression_encloses h
  | updateExpression => exact updateExpression_encloses h
  | ternaryExpression => exact conditionalExpression_encloses h
  | awaitExpression => exact awaitExpression_encloses h
  | yieldExpression => exact yieldExpression_encloses h
  | metaProperty => exact metaProperty_encloses
  | memberExpression | subscriptExpression | callExpression | binaryExpression =>
    exact chain_encloses h
  | _ => exact opaqueNode_encloses h

end FreeNames.Conversion

namespace FreeNames

variable {root : Parsed} {src : Source}

/-- A node of a nested parse is converted to a node in its range, by induction on the parse. -/
theorem Conversion.encloses_of_convert (nested : root.IsNested) {p : Parsed}
    (hp : p ∈ root.preorder) {inObject : Bool} {n : Node} (hn : convert src p inObject = .ok n) :
    root.Encloses p.span n := by
  induction hsize : sizeOf p using Nat.strongRecOn generalizing p inObject n with
  | ind size ih =>
    rw [convert_eq] at hn
    have inRange : p.inside.InRange root src :=
      { nested, mem := hp, below := fun mem smaller _ _ hn => ih _ (hsize ▸ smaller) mem hn rfl }
    exact template_encloses inRange inObject n hn

/-- In the tree of a nested parse a node contains exactly the children that do not stray, and covers
everything below it if none of its children strays, and none of those of a child with its range. -/
theorem Parsed.everywhere_nestsAt_of_toTree (nested : root.IsNested) {tree : Node}
    (h : root.toTree src = .ok tree) : tree.Everywhere root.NestsAt := by
  rw [Parsed.toTree] at h
  cases hn : Conversion.convert src root false with
  | error f => rw [hn] at h; cases h
  | ok n =>
    rw [hn] at h
    cases h
    have encloses := Conversion.encloses_of_convert nested root.self_mem_preorder hn
    exact (Node.everywhere_numberFrom (fun _ => Parsed.nestsAt_numberFrom) n 0).mpr encloses.nests

/-- The kinds of the nodes that have children outside, with the fields of these children. -/
def Node.outside (tree : Node) : List (Kind × String) :=
  tree.preorder.flatMap fun n =>
    (n.children.filter fun c => !decide (n.span.Contains c.2.span)).map fun c => (n.kind, c.1)

/-- The parse of `for (var {a = b} = c in d);`, without the tokens that conversion does not read. -/
def Parsed.loopWithDefaults : Parsed :=
  .mk .program true false false ⟨0, 27, 1, 0⟩ none
    [.mk .forInStatement true false false ⟨0, 27, 1, 0⟩ none
      [.mk (.other "var") false false false ⟨5, 8, 1, 5⟩ (some "kind") [],
        .mk .objectPattern true false false ⟨9, 16, 1, 9⟩ (some "left")
          [.mk .objectAssignmentPattern true false false ⟨10, 15, 1, 10⟩ none
            [.mk .shorthandPropertyIdentifierPattern true false false ⟨10, 11, 1, 10⟩
              (some "left") [],
              .mk .identifier true false false ⟨14, 15, 1, 14⟩ (some "right") []]],
        .mk .identifier true false false ⟨19, 20, 1, 19⟩ (some "value") [],
        .mk (.other "in") false false false ⟨21, 23, 1, 21⟩ (some "operator") [],
        .mk .identifier true false false ⟨24, 25, 1, 24⟩ (some "right") [],
        .mk .emptyStatement true false false ⟨26, 27, 1, 26⟩ (some "body") []]]

/-- Both the declarator and the property have a child outside. -/
theorem Parsed.loopWithDefaults_nests : loopWithDefaults.IsNested ∧ ∃ tree,
    loopWithDefaults.toTree (.ofString "for (var \x7ba = b\x7d = c in d);") = .ok tree ∧
      tree.outside = [(.variableDeclarator, "init"), (.property, "value")] ∧
      tree.Everywhere loopWithDefaults.NestsAt := by
  have nested : loopWithDefaults.IsNested := isNested_of_all (by cbv)
  have outside : (loopWithDefaults.toTree (.ofString "for (var \x7ba = b\x7d = c in d);")).map
      Node.outside = .ok [(.variableDeclarator, "init"), (.property, "value")] := by cbv
  cases read : loopWithDefaults.toTree (.ofString "for (var \x7ba = b\x7d = c in d);") with
  | error f => rw [read] at outside; cases outside
  | ok tree =>
    rw [read] at outside
    exact ⟨nested, tree, rfl, Except.ok.inj outside, everywhere_nestsAt_of_toTree nested read⟩

end FreeNames
