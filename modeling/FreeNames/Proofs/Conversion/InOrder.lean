import FreeNames.Proofs.Conversion.Ordered
import FreeNames.Proofs.Conversion.Built
import FreeNames.Proofs.Conversion.Spine

/-!
# Conversion keeps the order of names

The names in the tree of an ordered parse stand in the order of the source, and no two of them in
one place.

* There is one lemma for each template: its fields hold the children in the order in which the
  grammar has them.  A name that stands in the place of another is one that only says what
  something is called.
* `Conversion.template_stands` goes through the table, `Conversion.risingIn_of_convert` is the
  induction on the parse, and `Parsed.risingIn_points_of_toTree` says so of whole trees.
-/

namespace FreeNames

variable {w : Parsed} {src : Source} {x : Inside w} {q : Part w} {name : String}

namespace Conversion

open Template (FieldsStand)

/-! ## Names and keys -/

theorem identifier_stands (h : q.inside.InOrder src) :
    (identifier src q.span : Template w).Stands src [[q.parsed]] :=
  h.itself (x := q.inside) rfl

theorem fieldIdentifier_stands (h : x.InOrder src) (hq : x.field? name = some q) :
    (identifier src q.span : Template w).Stands src [x.parsed.fieldAll name] :=
  (identifier_stands (h.of_field hq)).of_mem (Inside.parsed_mem_fieldAll hq)

theorem privateName_stands (span : Span) {groups : List (List Parsed)} :
    (privateName src span : Template w).Stands src groups := by
  unfold privateName
  split
  · exact .inert rfl
  · exact .fault _

theorem identifierIn_stands (h : x.InOrder src) (name : String) :
    (identifierIn src x name).Stands src [x.parsed.fieldAll name] := by
  unfold identifierIn
  split
  · next q hq => exact .one (fieldIdentifier_stands h hq)
  · exact .fault _

theorem identifierOrNull_stands (h : x.InOrder src) (name : String) :
    (identifierOrNull src x name).Stands src [x.parsed.fieldAll name] := by
  unfold identifierOrNull
  split
  · next q hq => exact .one (fieldIdentifier_stands h hq)
  · exact .null

theorem exportName_stands (h : x.InOrder src) (hq : q ∈ x.parts) :
    (exportName src q).Stands src [[q.parsed]] := by
  unfold exportName
  split
  · exact h.hole hq
  · exact .one (identifier_stands (h.inside hq))

theorem propertyKey_stands (h : x.InOrder src) (hq : q ∈ x.parts) :
    (propertyKey src q).Stands src [[q.parsed]] := by
  have inner := h.inside hq
  unfold propertyKey
  split
  · exact .one (inner.among inner.first)
  · exact .one (privateName_stands _)
  · exact h.hole hq
  · exact h.hole hq
  · exact .one (identifier_stands inner)

theorem fieldKey_stands (h : x.InOrder src) (hq : x.field? name = some q) :
    (propertyKey src q).Stands src [x.parsed.fieldAll name] :=
  (propertyKey_stands h (Inside.mem_parts_of_field? hq)).of_mem (Inside.parsed_mem_fieldAll hq)

/-! ## Names that are called -/

/-- What a module calls something is not looked at. -/
theorem pointsOf_of_exportName {n c : Node} {field : String} {v : Value}
    (filled : Template.fillSlot (Part.converted src) (exportName src q) = .ok v) (hc : c ∈ v.nodes)
    (called : c.kind = .identifier → c.span = q.span → n.isCalled (field, c) = true) :
    n.pointsOf (field, c) = [] := by
  unfold exportName at filled
  split at filled
  · next string =>
    obtain ⟨m, hm, rfl⟩ := Template.exists_of_fillSlot_one filled
    rw [Value.nodes_node, List.mem_singleton] at hc
    subst hc
    have kind := kind_of_string string hm
    rw [Node.pointsOf_of_ne (by rw [kind]; decide), Node.points_of_isInert (kind ▸ rfl)]
  · obtain ⟨m, hm, rfl⟩ := Template.exists_of_fillSlot_one filled
    rw [Value.nodes_node, List.mem_singleton] at hc
    subst hc
    obtain ⟨vs, -, rfl⟩ := Template.exists_fields_of_fill hm
    rw [Node.pointsOf, if_pos (called rfl rfl)]

/-- A specifier of an import without an alias: what the other module calls the variable stands in
the place of its own name. -/
theorem doubleSpecifier_stands (h : x.InOrder src) (hq : q ∈ x.parts) :
    (Template.node .importSpecifier x.span [("imported", exportName src q),
      ("local", .one (identifier src q.span))] : Template w).Stands src [[x.parsed]] := by
  have named : (identifier src q.span : Template w).Stands src [x.parsed.children] :=
    (identifier_stands (h.inside hq)).of_mem (Inside.mem_children_of_mem_parts hq)
  refine h.among (.called "imported" rfl (fun vs filled slot v c mem filledSlot hc => ?_)
    (.field (.one named) .nil))
  obtain rfl : slot = exportName src q := by simpa using mem
  refine pointsOf_of_exportName filledSlot hc fun kind span => ?_
  obtain ⟨u, _, -, behind, rfl⟩ := Template.exists_of_fillFields_cons filled
  obtain ⟨_, _, own, done, rfl⟩ := Template.exists_of_fillFields_cons behind
  cases done
  obtain ⟨m, hm, rfl⟩ := Template.exists_of_fillSlot_one own
  obtain ⟨ws, -, rfl⟩ := Template.exists_fields_of_fill hm
  have double := Node.doubles_of_mem (c := c) (l := .mk 0 .identifier q.span ws)
    (n := .mk 0 .importSpecifier x.span
      [("imported", u), ("local", .node (.mk 0 .identifier q.span ws))]) rfl
    (Node.mem_children.mpr ⟨.node (.mk 0 .identifier q.span ws),
      List.mem_cons_of_mem _ List.mem_cons_self, List.mem_singleton_self _⟩)
    (congrArg Span.start span.symm)
  exact Bool.and_eq_true_iff.mpr ⟨decide_eq_true kind, Bool.or_eq_true_iff.mpr (Or.inr double)⟩

theorem importSpecifier_stands (h : x.InOrder src) (hs : x.symbol = .importSpecifier) :
    (importSpecifier src x).Stands src [[x.parsed]] := by
  unfold importSpecifier
  split
  · next imported localName hi hl =>
    have parts := Inside.mem_parts_of_field? hi
    rw [fieldOr, Option.or_eq_some_iff] at hl
    rcases hl with ha | ⟨-, hn⟩
    · have imports := (exportName_stands h parts).of_mem (Inside.parsed_mem_fieldAll hi)
      have named := fieldIdentifier_stands h ha
      exact h.build rfl hs (.field imports (.field (.one named) .nil))
    · cases hi.symm.trans hn
      exact doubleSpecifier_stands h parts
  · exact .fault _

theorem exportSpecifier_stands (h : x.InOrder src) :
    (exportSpecifier src x).Stands src [[x.parsed]] := by
  unfold exportSpecifier
  split
  · next localName exported hl _ =>
    have parts := Inside.mem_parts_of_field? hl
    have named : (exportName src localName).Stands src [x.parsed.children] :=
      (exportName_stands h parts).of_mem (Inside.mem_children_of_mem_parts parts)
    refine h.among (.called "exported" rfl (fun vs _ slot v c mem filled hc => ?_)
      (.field named .nil))
    obtain rfl : slot = exportName src exported := by simpa using mem
    exact pointsOf_of_exportName filled hc fun kind _ => by
      simp [Node.isCalled, kind, isReadPosition, namingPositions]
  · exact .fault _

/-- The key of a property that is written as a name alone. -/
theorem shorthand_stands {cs : List Parsed} {value : Slot w} (stands : value.Stands src [cs]) :
    (shorthand src q value).Stands src [cs] := by
  refine .called "key" rfl (fun vs filled slot v c mem filledSlot hc => ?_)
    (.field stands (.skip (.bool _) (.skip (.word _) (.skip (.bool _) (.skip (.bool _) .nil)))))
  obtain ⟨key, _, -, behindKey, rfl⟩ := Template.exists_of_fillFields_cons filled
  obtain ⟨u, _, -, behindValue, rfl⟩ := Template.exists_of_fillFields_cons behindKey
  obtain ⟨_, vs, plain, -, rfl⟩ := Template.exists_of_fillFields_cons behindValue
  cases plain
  obtain rfl : slot = .one (identifier src q.span) := by simpa using mem
  obtain ⟨m, hm, rfl⟩ := Template.exists_of_fillSlot_one filledSlot
  rw [Value.nodes_node, List.mem_singleton] at hc
  subst hc
  obtain ⟨us, -, rfl⟩ := Template.exists_fields_of_fill hm
  have notComputed : (Node.mk 0 .property q.span
      (("key", key) :: ("value", u) :: ("computed", .bool false) :: vs)).isComputed = false := rfl
  rw [Node.pointsOf, if_pos]
  simp [Node.isCalled, isReadPosition, namingPositions, keyPositions, notComputed]

/-! ## Parts in fields -/

/-- What stands in the children of a part in a field. -/
theorem within_field (h : x.InOrder src) (hq : x.field? name = some q) {slot : Slot w}
    (stands : slot.Stands src [q.parsed.children]) :
    slot.Stands src [x.parsed.fieldAll name] :=
  .of_mem ((h.of_field hq).within stands) (Inside.parsed_mem_fieldAll hq)

theorem fieldParts_stand (h : x.InOrder src) (hq : x.field? name = some q) :
    (Slot.holes q.inside.named).Stands src [x.parsed.fieldAll name] :=
  within_field h hq (h.of_field hq).holes_named

theorem fieldFirst_stands (h : x.InOrder src) (hq : x.field? name = some q) :
    (Slot.one q.inside.first).Stands src [x.parsed.fieldAll name] :=
  within_field h hq (.one (h.of_field hq).first)

/-! ## Statements -/

section Statements

theorem program_stands (h : x.InOrder src) : (program x).Stands src [[x.parsed]] :=
  h.list rfl (.field h.holes_named (.skip (.word _) .nil))

theorem blockStatement_stands (h : x.InOrder src) : (blockStatement x).Stands src [[x.parsed]] :=
  h.list rfl (.field h.holes_named .nil)

theorem variableDeclaration_stands (h : x.InOrder src) :
    (variableDeclaration x).Stands src [[x.parsed]] :=
  h.list rfl (.skip (.word _) (.field h.holes_named .nil))

theorem lexicalDeclaration_stands (h : x.InOrder src) :
    (lexicalDeclaration src x).Stands src [[x.parsed]] := by
  have sub := x.filter_named_sublist fun q => q.symbol = .variableDeclarator
  exact h.list rfl (.skip (.textOf _ _)
    (.field ((h.holes sub).mono (Inside.sublist_children sub).subset) .nil))

theorem variableDeclarator_stands (h : x.InOrder src) (hs : x.symbol = .variableDeclarator) :
    (variableDeclarator x).Stands src [[x.parsed]] :=
  h.build rfl hs (.field (h.convert _) (.field (h.optional _) .nil))

theorem ifStatement_stands (h : x.InOrder src) (hs : x.symbol = .ifStatement) :
    (ifStatement x).Stands src [[x.parsed]] := by
  refine h.build rfl hs (.field (h.convert _).late (.field (h.convert _).late (.field ?_ .nil)))
  split
  · next q hq => exact fieldFirst_stands h hq
  · exact .null

theorem switchStatement_stands (h : x.InOrder src) (hs : x.symbol = .switchStatement) :
    (switchStatement x).Stands src [[x.parsed]] := by
  refine h.build rfl hs (.field (h.convert _) (.field ?_ .nil))
  split
  · next q hq => exact fieldParts_stand h hq
  · exact .fault _

theorem fieldAll_stand (h : x.InOrder src) (name : String) :
    (Slot.holes (x.fieldAll name)).Stands src [x.parsed.fieldAll name] := by
  refine (h.holes List.filter_sublist).mono fun c hc => ?_
  obtain ⟨q, hq, rfl⟩ := List.mem_map.mp hc
  obtain ⟨mem, kept⟩ := List.mem_filter.mp hq
  simp only [Bool.and_eq_true] at kept
  exact List.mem_filter.mpr ⟨Inside.mem_children_of_mem_parts mem, kept.1.1⟩

theorem switchCase_stands (h : x.InOrder src) (hs : x.symbol = .switchCase) :
    (switchCase x).Stands src [[x.parsed]] :=
  h.build rfl hs (.field (h.convert _) (.field (fieldAll_stand h _) .nil))

theorem switchDefault_stands (h : x.InOrder src) : (switchDefault x).Stands src [[x.parsed]] :=
  h.list rfl (.skip .null (.field ((fieldAll_stand h _).mono (x.parsed.fieldAll_subset _)) .nil))

theorem loopClause_stands (h : x.InOrder src) (name : String) :
    (loopClause x name).Stands src [x.parsed.fieldAll name] := by
  unfold loopClause
  split
  · next q hq =>
    split
    · exact .null
    split
    · exact fieldFirst_stands h hq
    · exact h.fieldHole hq
  · exact .null

theorem forStatement_stands (h : x.InOrder src) (hs : x.symbol = .forStatement) :
    (forStatement x).Stands src [[x.parsed]] :=
  h.build rfl hs (.field (loopClause_stands h _) (.field (loopClause_stands h _)
    (.field (loopClause_stands h _) (.field (h.convert _) .nil))))

/-- The left side of a loop over a collection holds the value that it starts with. -/
theorem loopTarget_stands (h : x.InOrder src) : (loopTarget src x).Stands src
    [x.parsed.fieldAll "left", x.parsed.fieldAll "value"] := by
  unfold loopTarget
  split
  · exact .fault _
  · next left hl =>
    have target := h.fieldHole hl
    split
    · exact target.first
    · refine .one (.build rfl (.skip (Slot.Stands.text _).late (.last (.single ?_) .nil)))
      exact .one (.build rfl (.field target (.field (h.optional _) .nil)))

theorem forInStatement_stands (h : x.InOrder src) (hs : x.symbol = .forInStatement) :
    (forInStatement src x).Stands src [[x.parsed]] := by
  have head : FieldsStand src (Symbol.forInStatement.groups x.parsed)
      [("left", loopTarget src x), ("right", x.convert "right"), ("body", x.convert "body")] :=
    .fields (loopTarget_stands h) (.field (h.convert _) (.field (h.convert _) .nil))
  unfold forInStatement
  simp only
  split
  · exact .fault _
  split
  · exact .fault _
  split
  · exact h.build rfl hs (.skip (.bool _) head)
  · exact h.build rfl hs head

theorem whileStatement_stands (h : x.InOrder src) (hs : x.symbol = .whileStatement) :
    (whileStatement x).Stands src [[x.parsed]] :=
  h.build rfl hs (.field (h.convert _) (.field (h.convert _) .nil))

theorem doWhileStatement_stands (h : x.InOrder src) (hs : x.symbol = .doStatement) :
    (doWhileStatement x).Stands src [[x.parsed]] :=
  h.build rfl hs (.field (h.convert _) (.field (h.convert _) .nil))

theorem tryStatement_stands (h : x.InOrder src) (hs : x.symbol = .tryStatement) :
    (tryStatement x).Stands src [[x.parsed]] := by
  refine h.build rfl hs (.field (h.convert _).late (.field (h.optional _).late (.field ?_ .nil)))
  split
  · next q hq =>
    have body := (h.of_field hq).convert "body"
    exact within_field h hq (body.mono (q.parsed.fieldAll_subset _))
  · exact .null

theorem catchClause_stands (h : x.InOrder src) (hs : x.symbol = .catchClause) :
    (catchClause x).Stands src [[x.parsed]] := by
  refine h.build rfl hs (.field ?_ (.field (h.convert _) .nil))
  split
  · next q hq => exact h.fieldHole hq
  · exact .null

theorem returnStatement_stands (h : x.InOrder src) :
    (returnStatement x).Stands src [[x.parsed]] :=
  h.list rfl (.field h.firstOrNull .nil)

theorem throwStatement_stands (h : x.InOrder src) : (throwStatement x).Stands src [[x.parsed]] :=
  h.list rfl (.field (.one h.first) .nil)

theorem jumpStatement_stands (h : x.InOrder src) {kind : Kind} (notName : kind.isName = false) :
    (jumpStatement src kind x).Stands src [[x.parsed]] :=
  h.list notName (.field ((identifierOrNull_stands h _).mono (x.parsed.fieldAll_subset _)) .nil)

theorem labeledStatement_stands (h : x.InOrder src) (hs : x.symbol = .labeledStatement) :
    (labeledStatement src x).Stands src [[x.parsed]] :=
  h.build rfl hs (.field (identifierIn_stands h _) (.field (h.convert _) .nil))

theorem withStatement_stands (h : x.InOrder src) (hs : x.symbol = .withStatement) :
    (withStatement x).Stands src [[x.parsed]] :=
  h.build rfl hs (.field (h.convert _) (.field (h.convert _) .nil))

end Statements

/-! ## Exports -/

section Modules

theorem exportNames_stands (h : x.InOrder src) (hs : x.symbol = .exportStatement) :
    (exportNames src x).Stands src [[x.parsed]] := by
  unfold exportNames
  simp only
  split
  · exact .inert rfl
  · next clause hc =>
    have parts := Inside.mem_parts_of_named (List.mem_of_find?_eq_some hc)
    have inner := h.inside parts
    split
    · next isClause =>
      have sub := clause.inside.filter_named_sublist fun s => s.symbol = .exportSpecifier
      have names := (inner.holes sub).mono (Inside.sublist_children sub).subset
      have clauses := (inner.within names).of_mem (Inside.parsed_mem_allOf parts isClause)
      exact h.build rfl hs (.skip .null (.field clauses.late (.field (h.optional _) .nil)))
    · exact .inert rfl

theorem exportStatement_stands (h : x.InOrder src) (hs : x.symbol = .exportStatement) :
    (exportStatement src x).Stands src [[x.parsed]] := by
  unfold exportStatement
  split
  · refine h.list rfl (.field (.late ?_) .nil)
    split
    · next q hq =>
      have parts := mem_parts_of_fieldOr hq
      exact (h.hole parts).of_mem (Inside.mem_children_of_mem_parts parts)
    · exact .fault _
  split
  · next q hq =>
    have parts := Inside.mem_parts_of_field? hq
    have declaration := (h.hole parts).of_mem (Inside.mem_children_of_mem_parts parts)
    exact h.list rfl (.field declaration.late (.skip .empty (.skip .null .nil)))
  · exact exportNames_stands h hs

end Modules

/-! ## Functions and classes -/

section Functions

theorem parameters_stand (h : x.InOrder src) :
    (parameters x).Stands src [x.parsed.fieldAll "parameters"] := by
  unfold parameters
  split
  · next q hq => exact fieldParts_stand h hq
  · exact .empty

theorem functionFields_stand (h : x.InOrder src) :
    FieldsStand src [x.parsed.fieldAll "parameters", x.parsed.fieldAll "body"]
      (functionFields x) :=
  .field (parameters_stand h) (.field (h.convert _) (.skip (.bool _) (.skip (.bool _) .nil)))

theorem function_stands (h : x.InOrder src) {s : Symbol} (hs : x.symbol = s)
    (groups : s.groups x.parsed = ["name", "parameters", "body"].map x.parsed.fieldAll)
    {kind : Kind} (notName : kind.isName = false) :
    (function src kind x).Stands src [[x.parsed]] := by
  refine h.build notName hs ?_
  rw [groups]
  exact .field (identifierOrNull_stands h _) (functionFields_stand h)

theorem arrowFunction_stands (h : x.InOrder src) (hs : x.symbol = .arrowFunction) :
    (arrowFunction src x).Stands src [[x.parsed]] := by
  refine h.build rfl hs (.skip .null (.field ?_ (.field (h.convert _) (.skip (.bool _)
    (.skip (.bool _) (.skip (.bool _) .nil))))))
  split
  · next q hq =>
    have parameter := fieldIdentifier_stands h hq
    exact .mono (.single (.one parameter)) (List.subset_append_left _ _)
  · exact (parameters_stand h).mono (List.subset_append_right _ _)

/-- Parts of one symbol, taken in their order, each with a slot. -/
theorem inTurn_stand (h : x.InOrder src) {f : Part w → Slot w} (s : Symbol)
    (each : ∀ q ∈ x.named, (f q).Stands src [[q.parsed]]) :
    (Slot.many ((x.named.zipIdx.filter fun q => q.1.symbol = s).map fun q =>
      .turn q.2 (f q.1))).Stands src [x.parsed.allOf s] := by
  have sub := x.zipIdx_named_sublist fun q => q.1.symbol = s
  have slots := h.slots Prod.fst (f := fun q => .turn q.2 (f q.1))
    (sub.trans x.named_sublist) fun q hq =>
      (each q.1 (sub.subset (List.mem_map_of_mem hq))).turn q.2
  refine .mono (.many slots) fun c hc => ?_
  obtain ⟨q, hq, rfl⟩ := List.mem_map.mp hc
  have named := sub.subset (List.mem_map_of_mem hq)
  exact Inside.parsed_mem_allOf (Inside.mem_parts_of_named named)
    (of_decide_eq_true (List.mem_filter.mp hq).2)

theorem classLike_stands (h : x.InOrder src) {s : Symbol} (hs : x.symbol = s)
    (groups : s.groups x.parsed = [x.parsed.allOf .decorator, x.parsed.fieldAll "name",
      x.parsed.allOf .classHeritage, x.parsed.fieldAll "body"])
    {kind : Kind} (notName : kind.isName = false) :
    (classLike src kind x).Stands src [[x.parsed]] := by
  refine h.build notName hs ?_
  rw [groups]
  refine .field (inTurn_stand h .decorator fun q hq => h.hole (Inside.mem_parts_of_named hq))
    (.field ((identifierOrNull_stands h _).turn _) (.field ?_ (.field ((h.convert _).turn _) .nil)))
  cases last : (List.getLast? _ : Option (Slot w)) with
  | none => exact .null
  | some slot =>
    obtain ⟨⟨q, n⟩, hq, rfl⟩ := List.mem_map.mp (List.mem_of_getLast? last)
    have parts := mem_parts_of_inTurn hq
    have inner := h.inside parts
    have first := (inner.within (.one inner.first)).turn n
    exact first.of_mem (Inside.parsed_mem_allOf parts (of_decide_eq_true (List.mem_filter.mp hq).2))

theorem classBody_stands (h : x.InOrder src) : (classBody x).Stands src [[x.parsed]] :=
  h.list rfl (.field h.holes_named .nil)

theorem decorators_stand (h : x.InOrder src) :
    (decorators x).Stands src [x.parsed.allOf .decorator] := by
  refine (h.holes (x.filter_named_sublist _)).mono fun c hc => ?_
  obtain ⟨q, hq, rfl⟩ := List.mem_map.mp hc
  obtain ⟨named, symbol⟩ := List.mem_filter.mp hq
  exact Inside.parsed_mem_allOf (Inside.mem_parts_of_named named) (of_decide_eq_true symbol)

theorem methodFunction_stands (h : x.InOrder src) : (methodFunction x).Stands src
    [x.parsed.fieldAll "parameters", x.parsed.fieldAll "body"] :=
  .build rfl (.skip .null (functionFields_stand h))

theorem methodDefinition_stands (h : x.InOrder src) (hs : x.symbol = .methodDefinition)
    (inObject : Bool) : (methodDefinition src inObject x).Stands src [[x.parsed]] := by
  have function := Slot.Stands.one (methodFunction_stands h)
  unfold methodDefinition
  split
  · exact .fault _
  · next name hn =>
    have key := fieldKey_stands h hn
    simp only
    split
    · exact h.build rfl hs (.pass (.field key (.last function (.skip (.bool _)
        (.skip (.word _) (.skip (.bool _) (.skip (.bool _) .nil)))))))
    · exact h.build rfl hs (.field (decorators_stand h).late (.field key (.skip (.bool _)
        (.last function (.skip (.word _) (.skip (.bool _) .nil))))))

theorem fieldDefinition_stands (h : x.InOrder src) (hs : x.symbol = .fieldDefinition) :
    (fieldDefinition src x).Stands src [[x.parsed]] := by
  unfold fieldDefinition
  refine h.build rfl hs (.field (decorators_stand h) (.field ?_ (.skip (.bool _)
    (.field (h.optional _) (.skip (.bool _) .nil)))))
  split
  · next q hq => exact fieldKey_stands h hq
  · exact .fault _

theorem staticBlock_stands (h : x.InOrder src) : (staticBlock x).Stands src [[x.parsed]] := by
  refine h.list rfl (.field ?_ .nil)
  split
  · next q hq => exact (fieldParts_stand h hq).mono (x.parsed.fieldAll_subset _)
  · exact .fault _

theorem decorator_stands (h : x.InOrder src) : (decorator x).Stands src [[x.parsed]] :=
  h.list rfl (.field (.one h.first) .nil)

end Functions

/-! ## Patterns, objects and arrays -/

section Patterns

theorem pair_stands (h : x.InOrder src) (hq : q ∈ x.parts) {s : Symbol} (hs : q.symbol = s)
    (groups : s.groups q.parsed = ["key", "value"].map q.parsed.fieldAll) :
    (pair src q).Stands src [[q.parsed]] := by
  have inner := h.inside hq
  unfold pair
  split
  · exact .fault _
  · next key hk =>
    refine inner.build rfl (show q.inside.symbol = s from hs) ?_
    rw [show q.inside.parsed = q.parsed from rfl, groups]
    have keySlot := fieldKey_stands inner hk
    exact .field keySlot (.skip (.bool _) (.field (inner.convert _) (.skip (.word _)
      (.skip (.bool _) (.skip (.bool _) .nil)))))

theorem assignmentPattern_stands (h : x.InOrder src) {s : Symbol} (hs : x.symbol = s)
    (groups : s.groups x.parsed = ["left", "right"].map x.parsed.fieldAll) :
    (assignmentPattern x).Stands src [[x.parsed]] := by
  refine h.build rfl hs ?_
  rw [groups]
  exact .field (h.convert _) (.field (h.convert _) .nil)

theorem objectAssignment_stands (h : x.InOrder src) (hq : q ∈ x.parts)
    (hs : q.symbol = .objectAssignmentPattern) :
    (objectAssignment src q).Stands src [[q.parsed]] := by
  have pattern := assignmentPattern_stands (h.inside hq) hs rfl
  unfold objectAssignment
  split
  · exact .fault _
  · split
    · exact shorthand_stands (.one pattern)
    · exact pattern

theorem shorthandName_stands (h : x.InOrder src) (hq : q ∈ x.parts) :
    (shorthand src q (.one (identifier src q.span))).Stands src [[q.parsed]] :=
  shorthand_stands (.one (identifier_stands (h.inside hq)))

theorem patternEntry_stands (h : x.InOrder src) (hq : q ∈ x.parts) :
    (patternEntry src q).Stands src [[q.parsed]] := by
  unfold patternEntry
  split
  · exact .one (shorthandName_stands h hq)
  · next hs => exact .one (pair_stands h hq hs rfl)
  · next hs => exact .one (objectAssignment_stands h hq hs)
  · exact h.hole hq

theorem objectEntry_stands (h : x.InOrder src) (hq : q ∈ x.parts) :
    (objectEntry src q).Stands src [[q.parsed]] := by
  unfold objectEntry
  split
  · next hs => exact .one (pair_stands h hq hs rfl)
  · exact .one (shorthandName_stands h hq)
  · exact h.hole hq

/-- One entry for each of the named parts. -/
theorem entries_stand (h : x.InOrder src) {f : Part w → Slot w}
    (each : ∀ q ∈ x.parts, (f q).Stands src [[q.parsed]]) :
    (Slot.many (x.named.map f)).Stands src [x.parsed.children] := by
  have sub := x.named_sublist
  have slots := h.slots id (by rwa [List.map_id]) fun q hq => each q (sub.subset hq)
  exact .mono (.many slots) (Inside.sublist_children sub).subset

theorem objectPattern_stands (h : x.InOrder src) : (objectPattern src x).Stands src [[x.parsed]] :=
  h.list rfl (.field (entries_stand h fun _ => patternEntry_stands h) .nil)

theorem objectExpression_stands (h : x.InOrder src) :
    (objectExpression src x).Stands src [[x.parsed]] :=
  h.list rfl (.field (entries_stand h fun _ => objectEntry_stands h) .nil)

/-- The elements of a list stand in the parts from which they are taken. -/
theorem elementsFrom_stand (h : x.InOrder src) {qs : List (Part w)} (hqs : ∀ q ∈ qs, q ∈ x.parts)
    (disjoint : (qs.map Part.parsed).Pairwise fun c d => c.span.stop ≤ d.span.start)
    (expecting : Bool) :
    Template.SlotsStand src (qs.map Part.parsed) (elementsFrom expecting qs) := by
  induction qs generalizing expecting with
  | nil => exact .nil
  | cons q qs ih =>
    obtain ⟨hq, hqs⟩ := List.forall_mem_cons.mp hqs
    obtain ⟨first, disjoint⟩ := List.pairwise_cons.mp disjoint
    have rest (expecting : Bool) := ih hqs disjoint expecting
    have more := List.subset_cons_self q.parsed (qs.map Part.parsed)
    unfold elementsFrom
    split
    · exact (rest _).mono more
    split
    · split
      · exact .skip .null ((rest _).mono more)
      · exact (rest _).mono more
    · exact .cons (h.hole hq) (rest _) first

theorem elements_stand (h : x.InOrder src) : (elements x).Stands src [x.parsed.children] := by
  have disjoint := h.here.disjoint
  rw [← x.map_parsed_parts] at disjoint ⊢
  exact .many (elementsFrom_stand h (fun _ => id) disjoint true)

theorem arrayPattern_stands (h : x.InOrder src) : (arrayPattern x).Stands src [[x.parsed]] :=
  h.list rfl (.field (elements_stand h) .nil)

theorem arrayExpression_stands (h : x.InOrder src) : (arrayExpression x).Stands src [[x.parsed]] :=
  h.list rfl (.field (elements_stand h) .nil)

theorem restElement_stands (h : x.InOrder src) : (restElement x).Stands src [[x.parsed]] :=
  h.list rfl (.field (.one h.first) .nil)

theorem spreadElement_stands (h : x.InOrder src) : (spreadElement x).Stands src [[x.parsed]] :=
  h.list rfl (.field (.one h.first) .nil)

end Patterns

/-! ## Expressions -/

section Expressions

variable {groups : List (List Parsed)}

theorem wordLiteral_stands (v : Value) (raw : String) :
    (wordLiteral v raw x).Stands src groups := .inert rfl

theorem numberLiteral_stands : (numberLiteral src x).Stands src groups := by
  unfold numberLiteral
  split
  · exact .fault _
  split
  · exact .inert rfl
  · exact .fault _

theorem stringLiteral_stands : (stringLiteral src x).Stands src groups := by
  unfold stringLiteral
  split
  · exact .fault _
  · exact .inert rfl

theorem regexLiteral_stands : (regexLiteral src x).Stands src groups := by
  unfold regexLiteral
  split
  · exact .inert rfl
  · exact .fault _

theorem metaProperty_stands : (metaProperty src x).Stands src groups := by
  unfold metaProperty
  split
  · exact .fault _
  · exact .inert rfl

/-- The fixed pieces have no names; the expressions are taken in their order. -/
theorem templateLiteral_stands (h : x.InOrder src) :
    (templateLiteral src x).Stands src [[x.parsed]] := by
  have sub := x.zipIdx_named_sublist fun q =>
    decide (decide (q.1.symbol = .templateSubstitution) = true)
  have expressions := h.slots Prod.fst (f := fun q => .turn q.2 (.one q.1.inside.first))
    (sub.trans x.named_sublist) fun q hq => by
      have inner := h.of_named (sub.subset (List.mem_map_of_mem hq))
      exact (inner.within (.one inner.first)).turn q.2
  refine h.list rfl (.skip (.silent (.silent fun slot hslot => ?_))
    (.field (.mono (.many expressions) ?_) .nil))
  · obtain ⟨q, -, rfl⟩ := List.mem_map.mp hslot
    exact .turn (.one (.inert rfl)) _
  · have children := Inside.sublist_children (sub.trans x.named_sublist)
    rw [List.map_map] at children
    exact children.subset

/-- Without nested sequences the expressions of a sequence are its parts. -/
theorem sequenceExpression_stands (h : x.InOrder src) (hs : x.symbol = .sequenceExpression) :
    (sequenceExpression x).Stands src [[x.parsed]] := by
  have flat : nestedSequences x = [] := by
    rw [nestedSequences, List.filter_eq_nil_iff.mpr fun q hq => ?_]
    · rfl
    · have child := Inside.mem_children_of_mem_parts (Inside.mem_parts_of_named hq)
      exact fun symbol => h.here.flat hs q.parsed child (of_decide_eq_true symbol)
  have parts : sequenceParts [x] = x.named.filter fun q => q.symbol ≠ .sequenceExpression := by
    rw [sequenceParts, flat, List.nil_append, sequenceParts, List.append_nil]
  have sub := x.filter_named_sublist fun q => decide (q.symbol ≠ .sequenceExpression)
  refine h.list rfl (.field ?_ .nil)
  rw [parts]
  exact (h.holes sub).mono (Inside.sublist_children sub).subset

theorem newExpression_stands (h : x.InOrder src) (hs : x.symbol = .newExpression) :
    (newExpression x).Stands src [[x.parsed]] := by
  refine h.build rfl hs (.field (h.convert _) (.field ?_ .nil))
  split
  · next q hq => exact fieldParts_stand h hq
  · exact .empty

theorem assignment_stands (h : x.InOrder src) {s : Symbol} (hs : x.symbol = s)
    (groups : s.groups x.parsed = ["left", "right"].map x.parsed.fieldAll) {operator : Slot w}
    (noNames : operator.Stands src []) : (assignment operator x).Stands src [[x.parsed]] := by
  refine h.build rfl hs ?_
  rw [groups]
  exact .skip noNames (.field (h.convert _) (.field (h.convert _) .nil))

theorem unaryExpression_stands (h : x.InOrder src) :
    (unaryExpression src x).Stands src [[x.parsed]] :=
  h.list rfl (.skip (.textOf _ _) (.skip (.bool _)
    (.field ((h.convert _).mono (x.parsed.fieldAll_subset _)) .nil)))

theorem updateExpression_stands (h : x.InOrder src) :
    (updateExpression src x).Stands src [[x.parsed]] :=
  h.list rfl (.skip (.textOf _ _) (.skip (.bool _)
    (.field ((h.convert _).mono (x.parsed.fieldAll_subset _)) .nil)))

theorem conditionalExpression_stands (h : x.InOrder src) (hs : x.symbol = .ternaryExpression) :
    (conditionalExpression x).Stands src [[x.parsed]] :=
  h.build rfl hs (.field (h.convert _) (.field (h.convert _) (.field (h.convert _) .nil)))

theorem awaitExpression_stands (h : x.InOrder src) : (awaitExpression x).Stands src [[x.parsed]] :=
  h.list rfl (.field (.one h.first) .nil)

theorem yieldExpression_stands (h : x.InOrder src) : (yieldExpression x).Stands src [[x.parsed]] :=
  h.list rfl (.field h.firstOrNull (.skip (.bool _) .nil))

end Expressions

/-! ## Chains -/

section Chains

theorem operandSlot_stands {cs : List Parsed} {inner : Option (Template w)}
    (stands : ∀ t, inner = some t → t.Stands src [cs]) : (operandSlot inner).Stands src [cs] := by
  cases inner with
  | some t => exact .one (stands t rfl)
  | none => exact .null

theorem callTemplate_stands (h : x.InOrder src) (hs : x.symbol = .callExpression)
    {inner : Option (Template w)}
    (stands : ∀ t, inner = some t → t.Stands src [x.parsed.fieldAll "function"]) :
    (callTemplate x inner).Stands src [[x.parsed]] := by
  unfold callTemplate
  simp only
  cases inner with
  | none =>
    refine h.build rfl hs (.pass (.field ?_ .nil))
    split
    · next q hq => exact within_field h hq (h.of_field hq).firstOrNull
    · exact .fault _
  | some callee =>
    have calleeSlot := Slot.Stands.one (stands callee rfl)
    simp only
    split
    · refine h.build rfl hs (.field calleeSlot (.field ?_ .nil))
      split
      · next q hq => exact h.fieldHole hq
      · exact .fault _
    · refine h.build rfl hs (.field calleeSlot (.field ?_ (.skip (.bool _) .nil)))
      split
      · next q hq => exact fieldParts_stand h hq
      · exact .fault _

theorem binaryTemplate_stands (h : x.InOrder src) (hs : x.symbol = .binaryExpression)
    {inner : Option (Template w)}
    (stands : ∀ t, inner = some t → t.Stands src [x.parsed.fieldAll "left"]) :
    (binaryTemplate src x inner).Stands src [[x.parsed]] := by
  have notName : (if isLogical src x then Kind.logicalExpression
      else .binaryExpression).isName = false := by
    split <;> rfl
  exact h.build notName hs (.skip (Slot.Stands.textOf _ _).late
    (.field (operandSlot_stands stands) (.field (h.convert _).late .nil)))

/-- One link around its operand. -/
theorem linkTemplate_stands (h : x.InOrder src) (link : x.symbol.operandField?.isSome = true)
    {inner : Option (Template w)} (stands : ∀ field, x.symbol.operandField? = some field →
      ∀ t, inner = some t → t.Stands src [x.parsed.fieldAll field]) :
    (linkTemplate src x inner).Stands src [[x.parsed]] := by
  unfold linkTemplate
  simp only
  rcases Symbol.eq_of_isLink link with hs | hs | hs | hs <;> rw [hs] at stands ⊢
  · refine h.build rfl hs (.field (operandSlot_stands (stands _ rfl)) (.field ?_ (.skip (.bool _)
      (.skip (.bool _) .nil))))
    split
    · next q hq => exact fieldKey_stands h hq
    · exact .fault _
  · exact h.build rfl hs (.field (operandSlot_stands (stands _ rfl)) (.field (h.convert _)
      (.skip (.bool _) (.skip (.bool _) .nil))))
  · exact callTemplate_stands h hs (stands _ rfl)
  · exact binaryTemplate_stands h hs (stands _ rfl)

/-- The operand of a link stands in its field. -/
theorem parsed_mem_of_chainOperand (ho : chainOperand x = .ok (some q)) {field : String}
    (hf : x.symbol.operandField? = some field) : q.parsed ∈ x.parsed.fieldAll field := by
  refine Inside.parsed_mem_fieldAll ?_
  unfold chainOperand at ho
  split at ho
  · next call =>
    rw [call] at hf
    cases hf
    split at ho
    · next callee hc =>
      split at ho
      · cases ho
      · cases ho
        exact hc
    · cases ho
  · rw [hf] at ho
    exact Except.ok.inj ho

/-- A chain, by induction along it. -/
theorem chain_stands (h : x.InOrder src) (link : x.symbol.operandField?.isSome = true) :
    (chain src x).Stands src [[x.parsed]] := by
  induction x using chain_induction with
  | step x ih =>
    intro apart n hn
    obtain ⟨operand, ho, hn⟩ := exists_of_fill_chain hn
    refine linkTemplate_stands h link (fun field hf t ht => ?_) apart n hn
    obtain ⟨q, rfl, rfl⟩ := Option.map_eq_some_iff.mp ht
    have parts := mem_parts_of_chainOperand ho
    refine Template.Stands.of_mem ?_ (parsed_mem_of_chainOperand ho hf)
    unfold operandTemplate
    split
    · next inner => exact ih q ho (h.inside parts) inner
    · exact h.template parts

end Chains

/-! ## The table -/

theorem opaqueNode_stands (h : x.InOrder src) : (opaqueNode x).Stands src [[x.parsed]] := by
  cases isName : (Kind.ofName x.symbol.name).isName with
  | true => exact h.itself isName
  | false =>
    unfold opaqueNode
    simp only
    refine h.list isName (.field ?_ .nil)
    have sub : ((if x.symbol.isTagged then
          x.parts.eraseP fun q => q.parsed.field = some "name" else x.parts).filter fun q =>
            q.parsed.isNamed && !q.symbol.isExtra).Sublist x.parts := by
      refine List.filter_sublist.trans ?_
      split
      · exact List.eraseP_sublist
      · exact List.Sublist.refl _
    exact (h.holes sub).mono (Inside.sublist_children sub).subset

/-- The template of any node. -/
theorem template_stands (h : x.InOrder src) (inObject : Bool) :
    (template src inObject x).Stands src [[x.parsed]] := by
  unfold template
  cases hs : x.symbol with
  | program => exact program_stands h
  | expressionStatement => exact h.list rfl (.field (.one h.first) .nil)
  | emptyStatement | debuggerStatement | superWord => exact .inert rfl
  | thisWord => exact h.itself rfl
  | statementBlock => exact blockStatement_stands h
  | variableDeclaration => exact variableDeclaration_stands h
  | lexicalDeclaration => exact lexicalDeclaration_stands h
  | variableDeclarator => exact variableDeclarator_stands h hs
  | ifStatement => exact ifStatement_stands h hs
  | switchStatement => exact switchStatement_stands h hs
  | switchCase => exact switchCase_stands h hs
  | switchDefault => exact switchDefault_stands h
  | forStatement => exact forStatement_stands h hs
  | forInStatement => exact forInStatement_stands h hs
  | whileStatement => exact whileStatement_stands h hs
  | doStatement => exact doWhileStatement_stands h hs
  | tryStatement => exact tryStatement_stands h hs
  | catchClause => exact catchClause_stands h hs
  | returnStatement => exact returnStatement_stands h
  | throwStatement => exact throwStatement_stands h
  | breakStatement | continueStatement => exact jumpStatement_stands h rfl
  | labeledStatement => exact labeledStatement_stands h hs
  | withStatement => exact withStatement_stands h hs
  | importStatement => exact .inert rfl
  | importSpecifier => exact importSpecifier_stands h hs
  | exportStatement => exact exportStatement_stands h hs
  | exportSpecifier => exact exportSpecifier_stands h
  | functionDeclaration | generatorFunctionDeclaration | functionExpression | olderFunction
  | generatorFunction => exact function_stands h hs rfl rfl
  | arrowFunction => exact arrowFunction_stands h hs
  | classDeclaration | classExpression => exact classLike_stands h hs rfl rfl
  | classBody => exact classBody_stands h
  | methodDefinition => exact methodDefinition_stands h hs inObject
  | fieldDefinition => exact fieldDefinition_stands h hs
  | classStaticBlock => exact staticBlock_stands h
  | decorator => exact decorator_stands h
  | objectPattern => exact objectPattern_stands h
  | arrayPattern => exact arrayPattern_stands h
  | assignmentPattern => exact assignmentPattern_stands h hs rfl
  | restPattern => exact restElement_stands h
  | identifier | shorthandPropertyIdentifierPattern | undefinedWord => exact h.itself rfl
  | privatePropertyIdentifier => exact privateName_stands _
  | trueWord | falseWord | nullWord => exact wordLiteral_stands _ _
  | number => exact numberLiteral_stands
  | string => exact stringLiteral_stands
  | regex => exact regexLiteral_stands
  | templateString => exact templateLiteral_stands h
  | object => exact objectExpression_stands h
  | array => exact arrayExpression_stands h
  | spreadElement => exact spreadElement_stands h
  | parenthesizedExpression => exact h.among h.first
  | sequenceExpression => exact sequenceExpression_stands h hs
  | newExpression => exact newExpression_stands h hs
  | assignmentExpression => exact assignment_stands h hs rfl (.word _)
  | augmentedAssignmentExpression => exact assignment_stands h hs rfl (.textOf _ _)
  | unaryExpression => exact unaryExpression_stands h
  | updateExpression => exact updateExpression_stands h
  | ternaryExpression => exact conditionalExpression_stands h hs
  | awaitExpression => exact awaitExpression_stands h
  | yieldExpression => exact yieldExpression_stands h
  | metaProperty => exact metaProperty_stands
  | memberExpression | subscriptExpression | callExpression | binaryExpression =>
    exact chain_stands h (congrArg (fun s : Symbol => s.operandField?.isSome) hs)
  | _ => exact opaqueNode_stands h

/-- The names in what a parse is converted to stand in order, by induction on the parse. -/
theorem risingIn_of_convert {p : Parsed} {inObject : Bool} {n : Node} (h : p.IsOrdered)
    (hn : convert src p inObject = .ok n) : RisingIn [p] n.points := by
  induction hsize : sizeOf p using Nat.strongRecOn generalizing p inObject n with
  | ind size ih =>
    rw [convert_eq] at hn
    have inOrder : p.inside.InOrder src :=
      { isOrdered := h, below := fun smaller h _ _ hn => ih _ (hsize ▸ smaller) h hn rfl }
    have rising := template_stands inOrder inObject (List.pairwise_singleton _ _) n hn
    rwa [List.flatten_singleton] at rising

end Conversion

/-- The names in the tree of an ordered parse stand in the order of the source. -/
theorem Parsed.risingIn_points_of_toTree {root : Parsed} {tree : Node} (h : root.IsOrdered)
    (ht : root.toTree src = .ok tree) : RisingIn [root] tree.points := by
  rw [Parsed.toTree] at ht
  cases hn : Conversion.convert src root false with
  | error f => rw [hn] at ht; cases ht
  | ok n =>
    rw [hn] at ht
    cases ht
    rw [Node.points_numbered]
    exact Conversion.risingIn_of_convert h hn

end FreeNames
