import FreeNames.Proofs.Conversion.Built
import FreeNames.Proofs.Conversion.Ordered
import FreeNames.Proofs.Conversion.Ranges

/-!
# Specifiers of imports

In the grammar a specifier of an import stands in an import.  Without an alias it has one name for
two, so it matters that conversion does not put it anywhere else: if the specifiers without an alias
stand in imports in the parse, then they do in the tree.

* `Parsed.SpecifiersImported` is what is asked of a parse.  Conversion looks past some nodes for
  their children; `Parsed.IsOpen` says of a node that no part of an import comes to light there, and
  `Parsed.IsWhole` that the node itself is no such part.
* `Inside.Settled` is a place with whole parts only; its lemmas are those of the common slots.
* `Conversion.template_imports` goes through the table, `Conversion.doublesImported_of_convert` is
  the induction on the parse.
-/

namespace FreeNames

/-! ## Where specifiers stand -/

namespace Symbol

/-- The nodes in which the grammar has statements. -/
def holdsStatements : Symbol → Bool
  | .program | .statementBlock | .ifStatement | .forStatement | .forInStatement | .whileStatement
  | .doStatement | .labeledStatement | .withStatement | .switchCase | .switchDefault => true
  | s => s = elseClause

/-- The nodes that the grammar has in imports only. -/
def isImportPart : Symbol → Bool
  | .importClause | .namedImports | .importSpecifier => true
  | _ => false

/-- The nodes in which the grammar has parts of imports. -/
def holdsImportParts : Symbol → Bool
  | .importStatement | .importClause | .namedImports => true
  | _ => false

end Symbol

namespace Parsed

/-- A specifier of an import without an alias. -/
def isBareSpecifier (p : Parsed) : Bool :=
  p.symbol = .importSpecifier && (p.field? "alias").isNone

/-- Is there such a specifier in the node? -/
def hasBareSpecifier (p : Parsed) : Bool := p.preorder.any isBareSpecifier

/-- Has the grammar a place for this child, if it is an import or a part of one?  A statement as the
alternative of a choice stands in a clause of its own. -/
def admits (p c : Parsed) : Bool :=
  match c.symbol with
  | .importSpecifier => p.symbol = .namedImports
  | .namedImports => p.symbol = .importClause
  | .importClause => p.symbol = .importStatement && c.field.isNone
  | .importStatement => p.symbol.holdsStatements && c.field ≠ some "alternative"
  | _ => true

/-- The node is no part of an import, if there is a specifier without an alias in it. -/
def IsWhole (p : Parsed) : Prop := p.hasBareSpecifier = true → p.symbol.isImportPart = false

/-- The node has no parts of imports, if there is a specifier without an alias in it. -/
def IsOpen (p : Parsed) : Prop := p.hasBareSpecifier = true → p.symbol.holdsImportParts = false

/-- The imports and parts of imports that have specifiers without an alias in them stand where the
grammar has them. -/
structure SpecifiersImported (root : Parsed) : Prop where
  top : root.IsWhole
  below : ∀ p ∈ root.preorder, ∀ c ∈ p.children, c.hasBareSpecifier = true → p.admits c = true

theorem specifiersImported_of_all {root : Parsed} (top : root.symbol.isImportPart = false)
    (below : (root.preorder.all fun p =>
      p.children.all fun c => !c.hasBareSpecifier || p.admits c) = true) :
    root.SpecifiersImported where
  top _ := top
  below p hp c hc bare := by
    have admitted := List.all_eq_true.mp (List.all_eq_true.mp below p hp) c hc
    rwa [bare, Bool.not_true, Bool.false_or] at admitted

variable {root p c : Parsed}

theorem hasBareSpecifier_of_child (hc : c ∈ p.children) (bare : c.hasBareSpecifier = true) :
    p.hasBareSpecifier = true := by
  obtain ⟨s, hs, found⟩ := List.any_eq_true.mp bare
  exact List.any_eq_true.mpr ⟨s, mem_preorder_of_child hc hs, found⟩

theorem isBareSpecifier_iff : p.isBareSpecifier = true ↔
    p.symbol = .importSpecifier ∧ p.field? "alias" = none := by simp [isBareSpecifier]

/-- A part of an import stands in an import or in another part of one. -/
theorem holdsImportParts_of_admits (admitted : p.admits c = true)
    (part : c.symbol.isImportPart = true) : p.symbol.holdsImportParts = true := by
  cases hs : c.symbol with
  | importSpecifier | namedImports =>
    rw [admits, hs] at admitted
    rw [of_decide_eq_true admitted]
    rfl
  | importClause =>
    rw [admits, hs] at admitted
    rw [of_decide_eq_true (Bool.and_eq_true_iff.mp admitted).1]
    rfl
  | _ =>
    rw [hs] at part
    cases part

/-- An import stands where a statement may stand. -/
theorem holdsStatements_of_admits (admitted : p.admits c = true)
    (import' : c.symbol = .importStatement) :
    p.symbol.holdsStatements = true ∧ c.field ≠ some "alternative" := by
  rw [admits, import'] at admitted
  simpa using admitted

theorem IsOpen.of_symbol (h : p.symbol.holdsImportParts = false) : p.IsOpen := fun _ => h

theorem IsWhole.isOpen (whole : p.IsWhole) (ne : p.symbol ≠ .importStatement) : p.IsOpen := by
  intro bare
  have notPart := whole bare
  cases hs : p.symbol with
  | importStatement => exact absurd hs ne
  | importClause | namedImports =>
    rw [hs] at notPart
    cases notPart
  | _ => rfl

/-- In an open node all children are whole. -/
theorem SpecifiersImported.isWhole (h : root.SpecifiersImported) (hp : p ∈ root.preorder)
    (isOpen : p.IsOpen) (hc : c ∈ p.children) : c.IsWhole := by
  intro bare
  by_contra part
  have holds := holdsImportParts_of_admits (h.below p hp c hc bare) (Bool.not_eq_false _ ▸ part)
  rw [isOpen (hasBareSpecifier_of_child hc bare)] at holds
  cases holds

/-- What stands neither in an import nor where a statement may stand is open. -/
theorem SpecifiersImported.isOpen_of_child (h : root.SpecifiersImported) (hp : p ∈ root.preorder)
    (hc : c ∈ p.children) (parts : p.symbol.holdsImportParts = false)
    (statements : p.symbol.holdsStatements = false ∨ c.field = some "alternative") : c.IsOpen := by
  intro bare
  have whole := h.isWhole hp (.of_symbol parts) hc
  refine whole.isOpen (fun statement => ?_) bare
  obtain ⟨holds, other⟩ := holdsStatements_of_admits (h.below p hp c hc bare) statement
  rcases statements with none | alternative
  · rw [none] at holds
    cases holds
  · exact other alternative

end Parsed

/-! ## Templates and slots -/

variable {w root : Parsed} {src : Source}

/-- In whatever the template is filled to, specifiers without an alias stand in imports. -/
abbrev Template.Imports (src : Source) (t : Template w) : Prop := t.Gives src Node.DoublesImported

/-- So they do in the nodes that the slot is filled with. -/
abbrev Slot.Imports (src : Source) (slot : Slot w) : Prop := slot.Gives src Node.DoublesImported

/-- So they do in the nodes in all fields. -/
def Template.FieldsImport (src : Source) (fields : List (String × Slot w)) : Prop :=
  FieldsGive src (fun _ => Node.DoublesImported) fields

theorem Template.FieldsImport.nil : FieldsImport src ([] : List (String × Slot w)) :=
  FieldsGive.nil

theorem Template.FieldsImport.field {name : String} {slot : Slot w}
    {fields : List (String × Slot w)} (h : slot.Imports src) (rest : FieldsImport src fields) :
    FieldsImport src ((name, slot) :: fields) := FieldsGive.field h rest

theorem Slot.Imports.one {t : Template w} (h : t.Imports src) : (Slot.one t).Imports src :=
  Slot.Gives.one h

/-- A node is known by its kind and by its children. -/
theorem Template.Gives.build {kind : Kind} {span : Span} {fields : List (String × Slot w)}
    {dropped : List (Slot w)} {P : String → Node → Prop} {Q : Node → Prop}
    (h : FieldsGive src P fields)
    (whole : ∀ n : Node, n.kind = kind → (∀ c ∈ n.children, P c.1 c.2) → Q n) :
    (Template.build kind span fields dropped).Gives src Q := by
  intro n hn
  obtain ⟨hk, -, children⟩ := children_of_fill h hn
  exact whole n hk children

/-- A node that is no specifier. -/
theorem Template.Imports.build {kind : Kind} {span : Span} {fields : List (String × Slot w)}
    {dropped : List (Slot w)} (ne : kind ≠ .importSpecifier) (h : FieldsImport src fields) :
    (Template.build kind span fields dropped).Imports src :=
  Gives.build h fun _ hk children =>
    ⟨Node.isDouble_of_ne (hk ▸ ne), Node.everywhere_holdsImported children⟩

/-! ## Common slots -/

/-- A place in an ordered parse, below which all whole nodes are known to be converted to trees with
their specifiers in imports. -/
structure Inside.Imported (root : Parsed) (src : Source) (x : Inside w) : Prop where
  imported : root.SpecifiersImported
  ordered : root.IsOrdered
  mem : x.parsed ∈ root.preorder
  below : ∀ {c : Parsed}, c ∈ root.preorder → sizeOf c < sizeOf x.parsed → c.IsWhole →
    ∀ inObject n, Conversion.convert src c inObject = .ok n → n.DoublesImported

/-- Such a place that is open. -/
structure Inside.Settled (root : Parsed) (src : Source) (x : Inside w) : Prop
    extends x.Imported root src where
  isOpen : x.parsed.IsOpen

namespace Inside.Imported

variable {x : Inside w} {q : Part w} (h : x.Imported root src)

include h

theorem mem_preorder (hq : q ∈ x.parts) : q.parsed ∈ root.preorder :=
  Parsed.mem_preorder_trans h.mem
    (Parsed.mem_preorder_of_child (mem_children_of_mem_parts hq) (Parsed.self_mem_preorder _))

theorem inside (hq : q ∈ x.parts) : q.inside.Imported root src where
  imported := h.imported
  ordered := h.ordered
  mem := h.mem_preorder hq
  below mem smaller := h.below mem (Nat.lt_trans smaller (sizeOf_lt_of_mem_parts hq))

theorem template (hq : q ∈ x.parts) (whole : q.parsed.IsWhole) : (Template.hole q).Imports src :=
  fun n hn => h.below (h.mem_preorder hq) (sizeOf_lt_of_mem_parts hq) whole _ n hn

end Inside.Imported

namespace Inside.Settled

variable {x : Inside w} {q : Part w} {name : String} (h : x.Settled root src)

include h

theorem inside (hq : q ∈ x.parts) (isOpen : q.parsed.IsOpen) : q.inside.Settled root src :=
  ⟨h.toImported.inside hq, isOpen⟩

/-- What stands in a node that has neither statements nor parts of imports. -/
theorem insideOf (hq : q ∈ x.parts) {s : Symbol} (hs : x.symbol = s)
    (parts : s.holdsImportParts = false) (statements : s.holdsStatements = false) :
    q.inside.Settled root src := by
  subst hs
  exact h.inside hq
    (h.imported.isOpen_of_child h.mem (mem_children_of_mem_parts hq) parts (.inl statements))

theorem template (hq : q ∈ x.parts) : (Template.hole q).Imports src :=
  h.toImported.template hq (h.imported.isWhole h.mem h.isOpen (mem_children_of_mem_parts hq))

theorem hole (hq : q ∈ x.parts) : (Slot.hole q).Imports src := .one (h.template hq)

theorem holes {qs : List (Part w)} (hqs : ∀ q ∈ qs, q ∈ x.parts) :
    (Slot.holes qs).Imports src := by
  refine .many fun slot hs => ?_
  obtain ⟨q, hq, rfl⟩ := List.mem_map.mp hs
  exact h.hole (hqs q hq)

theorem named : (Slot.holes x.named).Imports src := h.holes fun _ => mem_parts_of_named

theorem namedOnly (test : Part w → Bool) : (Slot.holes (x.named.filter test)).Imports src :=
  h.holes fun _ hq => mem_parts_of_named (List.mem_filter.mp hq).1

theorem fieldAll (name : String) : (Slot.holes (x.fieldAll name)).Imports src :=
  h.holes fun _ hq => (List.mem_filter.mp hq).1

theorem convert (name : String) : (x.convert name).Imports src := by
  unfold Inside.convert
  split
  · next q hq => exact h.hole (mem_parts_of_field? hq)
  · exact .fault _

theorem optional (name : String) : (x.optional name).Imports src := by
  unfold Inside.optional
  split
  · next q hq =>
    split
    · exact h.hole (mem_parts_of_field? hq)
    · exact .null
  · exact .null

theorem first : x.first.Imports src := by
  unfold Inside.first
  split
  · next q hq => exact h.template (mem_parts_of_named (List.mem_of_mem_head? hq))
  · exact .fault _

theorem firstOrNull : x.firstOrNull.Imports src := by
  unfold Inside.firstOrNull
  split
  · next q hq => exact h.hole (mem_parts_of_named (List.mem_of_mem_head? hq))
  · exact .null

end Inside.Settled

namespace Conversion

open Template (FieldsImport)

variable {x : Inside w} {q : Part w}

/-! ## Names and keys -/

section Names

theorem identifier_imports (span : Span) : (identifier src span : Template w).Imports src :=
  .build (by decide) (.field (.text _) .nil)

theorem identifierIn_imports (x : Inside w) (name : String) :
    (identifierIn src x name).Imports src := by
  unfold identifierIn
  split
  · exact .one (identifier_imports _)
  · exact .fault _

theorem identifierOrNull_imports (x : Inside w) (name : String) :
    (identifierOrNull src x name).Imports src := by
  unfold identifierOrNull
  split
  · exact .one (identifier_imports _)
  · exact .null

theorem privateName_imports (span : Span) : (privateName src span : Template w).Imports src := by
  unfold privateName
  split
  · exact .build (by decide) (.field (.value rfl) .nil)
  · exact .fault _

end Names

section

variable (h : x.Settled root src)

include h

theorem exportName_imports (hq : q ∈ x.parts) : (exportName src q).Imports src := by
  unfold exportName
  split
  · exact h.hole hq
  · exact .one (identifier_imports _)

theorem propertyKey_imports (hq : q ∈ x.parts) : (propertyKey src q).Imports src := by
  unfold propertyKey
  split
  · next hs => exact .one (h.inside hq (.of_symbol (congrArg _ hs))).first
  · exact .one (privateName_imports _)
  · exact h.hole hq
  · exact h.hole hq
  · exact .one (identifier_imports _)

/-! ## Statements -/

theorem ifStatement_imports (hs : x.symbol = .ifStatement) : (ifStatement x).Imports src := by
  refine .build (by decide) (.field (h.convert _).late (.field (h.convert _).late
    (.field ?_ .nil)))
  split
  · next q hq =>
    have parts := Inside.mem_parts_of_field? hq
    have alternative := h.imported.isOpen_of_child h.mem (Inside.mem_children_of_mem_parts parts)
      (congrArg _ hs) (.inr (Inside.field_eq_of_field? hq))
    exact .one (h.inside parts alternative).first
  · exact .null

theorem switchStatement_imports (hs : x.symbol = .switchStatement) :
    (switchStatement x).Imports src := by
  refine .build (by decide) (.field (h.convert _) (.field ?_ .nil))
  split
  · next q hq => exact (h.insideOf (Inside.mem_parts_of_field? hq) hs rfl rfl).named
  · exact .fault _

theorem loopClause_imports (name : String) : (loopClause x name).Imports src := by
  unfold loopClause
  split
  · next q hq =>
    have parts := Inside.mem_parts_of_field? hq
    split
    · exact .null
    split
    · next hs => exact .one (h.inside parts (.of_symbol (congrArg _ hs))).first
    · exact h.hole parts
  · exact .null

theorem loopTarget_imports : (loopTarget src x).Imports src := by
  unfold loopTarget
  split
  · exact .fault _
  · next left hl =>
    have target := h.hole (Inside.mem_parts_of_field? hl)
    split
    · exact target
    · have declarator : Template.Imports src (.node .variableDeclarator left.span
          [("id", .hole left), ("init", x.optional "value")]) :=
        .build (by decide) (.field target (.field (h.optional _) .nil))
      exact .one (.build (by decide) (.field (.late (.text _))
        (.field (.many (List.forall_mem_singleton.mpr (.one declarator))) .nil)))

theorem forInStatement_imports : (forInStatement src x).Imports src := by
  have head : FieldsImport src
      [("left", loopTarget src x), ("right", x.convert "right"), ("body", x.convert "body")] :=
    .field (loopTarget_imports h) (.field (h.convert _) (.field (h.convert _) .nil))
  unfold forInStatement
  simp only
  split
  · exact .fault _
  split
  · exact .fault _
  split
  · exact .build (by decide) (.field (.bool _) head)
  · exact .build (by decide) head

theorem tryStatement_imports (hs : x.symbol = .tryStatement) : (tryStatement x).Imports src := by
  refine .build (by decide) (.field (h.convert _).late (.field (h.optional _).late
    (.field ?_ .nil)))
  split
  · next q hq => exact (h.insideOf (Inside.mem_parts_of_field? hq) hs rfl rfl).convert _
  · exact .null

theorem catchClause_imports : (catchClause x).Imports src := by
  refine .build (by decide) (.field ?_ (.field (h.convert _) .nil))
  split
  · next q hq => exact h.hole (Inside.mem_parts_of_field? hq)
  · exact .null

/-! ## Exports -/

theorem exportSpecifier_imports : (exportSpecifier src x).Imports src := by
  unfold exportSpecifier
  split
  · next localName exported hl he =>
    exact .build (by decide) (.field (exportName_imports h (Inside.mem_parts_of_field? hl))
      (.field (exportName_imports h (mem_parts_of_fieldOr he)) .nil))
  · exact .fault _

theorem exportAll_imports {exported : Slot w} (imports : exported.Imports src) :
    (exportAll exported x).Imports src :=
  .build (by decide) (.field imports.late (.field (h.optional _) .nil))

theorem exportNames_imports : (exportNames src x).Imports src := by
  unfold exportNames
  simp only
  split
  · exact exportAll_imports h .null
  · next clause hc =>
    have parts := Inside.mem_parts_of_named (List.mem_of_find?_eq_some hc)
    have isClause := List.find?_some hc
    simp only [Bool.or_eq_true, decide_eq_true_eq] at isClause
    have inner := h.inside parts
      (.of_symbol (isClause.elim (fun hs => congrArg _ hs) fun hs => congrArg _ hs))
    split
    · exact .build (by decide) (.field .null (.field (inner.namedOnly _).late
        (.field (h.optional _) .nil)))
    · refine exportAll_imports h ?_
      split
      · next name hn =>
        exact exportName_imports inner (Inside.mem_parts_of_named (List.mem_of_mem_head? hn))
      · exact .null

theorem exportStatement_imports : (exportStatement src x).Imports src := by
  unfold exportStatement
  split
  · refine .build (by decide) (.field (.late ?_) .nil)
    split
    · next q hq => exact h.hole (mem_parts_of_fieldOr hq)
    · exact .fault _
  split
  · next q hq =>
    exact .build (by decide) (.field (h.hole (Inside.mem_parts_of_field? hq)).late
      (.field .empty (.field .null .nil)))
  · exact exportNames_imports h

/-! ## Functions and classes -/

theorem parameters_imports {s : Symbol} (hs : x.symbol = s) (parts : s.holdsImportParts = false)
    (statements : s.holdsStatements = false) : (parameters x).Imports src := by
  unfold parameters
  split
  · next q hq => exact (h.insideOf (Inside.mem_parts_of_field? hq) hs parts statements).named
  · exact .empty

theorem functionFields_import {s : Symbol} (hs : x.symbol = s)
    (parts : s.holdsImportParts = false) (statements : s.holdsStatements = false) :
    FieldsImport src (functionFields x) :=
  .field (parameters_imports h hs parts statements)
    (.field (h.convert _) (.field (.bool _) (.field (.bool _) .nil)))

theorem arrowFunction_imports (hs : x.symbol = .arrowFunction) :
    (arrowFunction src x).Imports src := by
  refine .build (by decide) (.field .null (.field ?_ (.field (h.convert _) (.field (.bool _)
    (.field (.bool _) (.field (.bool _) .nil))))))
  split
  · exact .many (List.forall_mem_singleton.mpr (.one (identifier_imports _)))
  · exact parameters_imports h hs rfl rfl

omit h in
/-- Parts of one symbol, each with a slot and a turn. -/
theorem inTurn_imports {f : Part w → Slot w} (symbol : Symbol)
    (each : ∀ q ∈ x.parts, q.symbol = symbol → (f q).Imports src) :
    ∀ slot ∈ (x.named.zipIdx.filter fun q => q.1.symbol = symbol).map fun (q, n) =>
        Slot.turn n (f q),
      slot.Imports src := by
  intro slot hslot
  obtain ⟨⟨q, n⟩, hq, rfl⟩ := List.mem_map.mp hslot
  exact (each q (mem_parts_of_inTurn hq) (of_decide_eq_true (List.mem_filter.mp hq).2)).turn n

theorem classLike_imports {kind : Kind} (ne : kind ≠ .importSpecifier) :
    (classLike src kind x).Imports src := by
  refine .build ne (.field (.many (inTurn_imports .decorator fun _ hq _ => h.hole hq))
    (.field ((identifierOrNull_imports _ _).turn _) (.field ?_ (.field ((h.convert _).turn _) .nil))))
  cases last : (List.getLast? _ : Option (Slot w)) with
  | none => exact .null
  | some slot =>
    have heritage (q : Part w) (hq : q ∈ x.parts) (hs : q.symbol = .classHeritage) :
        (Slot.one q.inside.first).Imports src :=
      .one (h.inside hq (.of_symbol (congrArg _ hs))).first
    exact inTurn_imports _ heritage slot (List.mem_of_getLast? last)

theorem methodDefinition_imports (hs : x.symbol = .methodDefinition) (inObject : Bool) :
    (methodDefinition src inObject x).Imports src := by
  have function : (Slot.one (methodFunction x)).Imports src :=
    .one (.build (by decide) (.field .null (functionFields_import h hs rfl rfl)))
  unfold methodDefinition
  split
  · exact .fault _
  · next name hn =>
    have key := propertyKey_imports h (Inside.mem_parts_of_field? hn)
    simp only
    split
    · exact .build (by decide) (.field key (.field function (.field (.bool _) (.field (.word _)
        (.field (.bool _) (.field (.bool _) .nil))))))
    · exact .build (by decide) (.field (h.namedOnly _).late (.field key (.field (.bool _)
        (.field function (.field (.word _) (.field (.bool _) .nil))))))

theorem fieldDefinition_imports : (fieldDefinition src x).Imports src := by
  unfold fieldDefinition
  refine .build (by decide) (.field (h.namedOnly _) (.field ?_ (.field (.bool _)
    (.field (h.optional _) (.field (.bool _) .nil)))))
  split
  · next q hq => exact propertyKey_imports h (Inside.mem_parts_of_field? hq)
  · exact .fault _

theorem staticBlock_imports (hs : x.symbol = .classStaticBlock) :
    (staticBlock x).Imports src := by
  refine .build (by decide) (.field ?_ .nil)
  split
  · next q hq => exact (h.insideOf (Inside.mem_parts_of_field? hq) hs rfl rfl).named
  · exact .fault _

/-! ## Patterns, objects and arrays -/

omit h in
theorem shorthand_imports {value : Slot w} (imports : value.Imports src) :
    (Slot.one (shorthand src q value)).Imports src :=
  .one (.build (by decide) (.field (.one (identifier_imports _)) (.field imports (.field (.bool _)
    (.field (.word _) (.field (.bool _) (.field (.bool _) .nil)))))))

omit h in
theorem pair_imports (inner : q.inside.Settled root src) :
    (Slot.one (pair src q)).Imports src := by
  refine .one ?_
  unfold pair
  split
  · exact .fault _
  · next key hk =>
    exact .build (by decide) (.field (propertyKey_imports inner (Inside.mem_parts_of_field? hk))
      (.field (.bool _) (.field (inner.convert _) (.field (.word _) (.field (.bool _)
        (.field (.bool _) .nil))))))

theorem assignmentPattern_imports : (assignmentPattern x).Imports src :=
  .build (by decide) (.field (h.convert _) (.field (h.convert _) .nil))

omit h in
theorem objectAssignment_imports (inner : q.inside.Settled root src) :
    (Slot.one (objectAssignment src q)).Imports src := by
  have pattern := Slot.Gives.one (assignmentPattern_imports inner)
  unfold objectAssignment
  split
  · exact .fault _
  · split
    · exact shorthand_imports pattern
    · exact pattern

theorem patternEntry_imports (hq : q ∈ x.parts) : (patternEntry src q).Imports src := by
  unfold patternEntry
  split
  · exact shorthand_imports (.one (identifier_imports _))
  · next hs => exact pair_imports (h.inside hq (.of_symbol (congrArg _ hs)))
  · next hs => exact objectAssignment_imports (h.inside hq (.of_symbol (congrArg _ hs)))
  · exact h.hole hq

theorem objectEntry_imports (hq : q ∈ x.parts) : (objectEntry src q).Imports src := by
  unfold objectEntry
  split
  · next hs => exact pair_imports (h.inside hq (.of_symbol (congrArg _ hs)))
  · exact shorthand_imports (.one (identifier_imports _))
  · exact h.hole hq

omit h in
/-- One slot for each of the named parts. -/
theorem entries_import {f : Part w → Slot w} (each : ∀ q ∈ x.parts, (f q).Imports src) :
    (Slot.many (x.named.map f)).Imports src := by
  refine .many fun slot hslot => ?_
  obtain ⟨q, hq, rfl⟩ := List.mem_map.mp hslot
  exact each q (Inside.mem_parts_of_named hq)

theorem elements_import : (elements x).Imports src :=
  .many (forall_mem_elementsFrom .null (fun _ hq _ _ => h.hole hq) true)

/-! ## Expressions -/

omit h in
theorem wordLiteral_imports {v : Value} (noNodes : v.nodes = []) (raw : String) :
    (wordLiteral v raw x).Imports src :=
  .build (by decide) (.field (.value noNodes) (.field (.word _) .nil))

omit h in
theorem numberLiteral_imports : (numberLiteral src x).Imports src := by
  unfold numberLiteral
  split
  · exact .fault _
  split
  · have noNodes (n : Option Number) : (numberValue n).nodes = [] :=
      Value.nodes_of_isScalar (isScalar_numberValue n)
    exact .build (by decide) (.field (.value (noNodes _)) (.field (.value rfl) .nil))
  · exact .fault _

omit h in
theorem stringLiteral_imports : (stringLiteral src x).Imports src := by
  unfold stringLiteral
  split
  · exact .fault _
  · exact .build (by decide) (.field (.value rfl) (.field (.value rfl) .nil))

omit h in
theorem regexLiteral_imports : (regexLiteral src x).Imports src := by
  unfold regexLiteral
  split
  · exact .build (by decide) (.field .null (.field (.text _) (.field (.value rfl) .nil)))
  · exact .fault _

theorem templateLiteral_imports : (templateLiteral src x).Imports src := by
  refine .build (by decide) (.field (.many fun slot hslot => ?_)
    (.field (.many fun slot hslot => ?_) .nil))
  · obtain ⟨⟨q, n⟩, -, rfl⟩ := List.mem_map.mp hslot
    have piece : (Template.node .templateElement q.span [("raw", .text src q.span)]
        : Template w).Imports src := .build (by decide) (.field (.text _) .nil)
    exact .turn (.one piece) n
  · obtain ⟨⟨q, n⟩, hq, rfl⟩ := List.mem_map.mp hslot
    have hs : q.symbol = .templateSubstitution := by simpa using (List.mem_filter.mp hq).2
    exact .turn (.one (h.inside (mem_parts_of_inTurn hq) (.of_symbol (congrArg _ hs))).first) n

omit h in
theorem metaProperty_imports : (metaProperty src x).Imports src := by
  unfold metaProperty
  split
  · exact .fault _
  · have name (t : Text) : (Slot.one (.node .identifier x.span [("name", .value (.text t))])
        : Slot w).Imports src := .one (.build (by decide) (.field (.value rfl) .nil))
    exact .build (by decide) (.field (name _) (.field (name _) .nil))

theorem sequenceExpression_imports : (sequenceExpression x).Imports src := by
  refine .build (by decide) (.field (.many fun slot hslot => ?_) .nil)
  obtain ⟨q, hq, rfl⟩ := List.mem_map.mp hslot
  refine forall_mem_sequenceParts (P := fun r => (Slot.hole r).Imports src)
    (Q := fun y => y.Settled root src) (fun y hy r hr => hy.hole (Inside.mem_parts_of_named hr))
    (fun y hy r hr hs => ?_) (List.forall_mem_singleton.mpr h) q hq
  exact hy.inside (Inside.mem_parts_of_named hr) (.of_symbol (congrArg _ hs))

theorem newExpression_imports (hs : x.symbol = .newExpression) :
    (newExpression x).Imports src := by
  refine .build (by decide) (.field (h.convert _) (.field ?_ .nil))
  split
  · next q hq => exact (h.insideOf (Inside.mem_parts_of_field? hq) hs rfl rfl).named
  · exact .empty

theorem assignment_imports {operator : Slot w} (imports : operator.Imports src) :
    (assignment operator x).Imports src :=
  .build (by decide) (.field imports (.field (h.convert _) (.field (h.convert _) .nil)))

/-! ## Chains -/

section Chains

variable {inner : Option (Template w)} (operand : ∀ t, inner = some t → t.Imports src)

include operand

omit h in
theorem operandSlot_imports : (operandSlot inner).Imports src := by
  cases inner with
  | some t => exact .one (operand t rfl)
  | none => exact .null

/-- A link is neither an import nor part of one, and holds no statements. -/
theorem callTemplate_imports {s : Symbol} (hs : x.symbol = s) (parts : s.holdsImportParts = false)
    (statements : s.holdsStatements = false) : (callTemplate x inner).Imports src := by
  have arguments {q : Part w} (hq : x.field? "arguments" = some q) : q.inside.Settled root src :=
    h.insideOf (Inside.mem_parts_of_field? hq) hs parts statements
  unfold callTemplate
  simp only
  cases inner with
  | none =>
    refine .build (by decide) (.field ?_ .nil)
    split
    · next q hq => exact (arguments hq).firstOrNull
    · exact .fault _
  | some callee =>
    have calleeSlot := Slot.Imports.one (operand callee rfl)
    simp only
    split
    · refine .build (by decide) (.field calleeSlot (.field ?_ .nil))
      split
      · next q hq => exact h.hole (Inside.mem_parts_of_field? hq)
      · exact .fault _
    · refine .build (by decide) (.field calleeSlot (.field ?_ (.field (.bool _) .nil)))
      split
      · next q hq => exact (arguments hq).named
      · exact .fault _

theorem binaryTemplate_imports : (binaryTemplate src x inner).Imports src := by
  refine .build ?_ (.field (Slot.Gives.textOf _ _).late (.field (operandSlot_imports operand)
    (.field (h.convert _).late .nil)))
  split <;> decide

/-- One link around its operand. -/
theorem linkTemplate_imports (link : x.symbol.operandField?.isSome = true) :
    (linkTemplate src x inner).Imports src := by
  have slot := operandSlot_imports operand
  unfold linkTemplate
  simp only
  split
  · refine .build (by decide) (.field slot (.field ?_ (.field (.bool _) (.field (.bool _) .nil))))
    split
    · next q hq => exact propertyKey_imports h (Inside.mem_parts_of_field? hq)
    · exact .fault _
  · exact .build (by decide)
      (.field slot (.field (h.convert _) (.field (.bool _) (.field (.bool _) .nil))))
  · exact binaryTemplate_imports h operand
  · have plain : x.symbol.holdsImportParts = false ∧ x.symbol.holdsStatements = false := by
      cases hs : x.symbol <;> rw [hs] at link <;> first | exact ⟨rfl, rfl⟩ | cases link
    exact callTemplate_imports h operand rfl plain.1 plain.2

end Chains

omit h in
/-- A chain, by induction along it. -/
theorem chain_imports (h : x.Settled root src) (link : x.symbol.operandField?.isSome = true) :
    (chain src x).Imports src := by
  induction x using chain_induction with
  | step x ih =>
    intro n hn
    obtain ⟨operand, ho, hn⟩ := exists_of_fill_chain hn
    refine linkTemplate_imports h (fun t ht => ?_) link n hn
    obtain ⟨q, rfl, rfl⟩ := Option.map_eq_some_iff.mp ht
    have parts := mem_parts_of_chainOperand ho
    unfold operandTemplate
    split
    · next link =>
      have isOpen : q.symbol.holdsImportParts = false := by
        cases hs : q.symbol <;> rw [hs] at link <;> first | rfl | cases link
      exact ih q ho (h.inside parts (.of_symbol isOpen)) link
    · exact h.template parts

end

/-! ## Imports -/

section Imports

/-- A specifier, and what its names are converted to. -/
theorem children_of_importSpecifier (h : x.Settled root src) {n : Node}
    (hn : (importSpecifier src x).fill (Part.converted src) = .ok n) :
    ∀ c ∈ n.children, c.2.DoublesImported := by
  unfold importSpecifier at hn
  split at hn
  · next imported localName hi hl =>
    exact (Template.children_of_fill (P := fun _ => Node.DoublesImported)
      (.field (exportName_imports h (Inside.mem_parts_of_field? hi))
        (.field (.one (identifier_imports _)) .nil)) hn).2.2
  · cases hn

/-- What a module calls something is a literal, or stands in the place of its part. -/
theorem span_of_exportName (q : Part w) : (exportName src q).Gives src fun c =>
    c.kind = .identifier → c.span = q.span := by
  unfold exportName
  split
  · next string =>
    refine Slot.Gives.one fun n hn name => ?_
    rw [kind_of_string string hn] at name
    cases name
  · refine Slot.Gives.one fun n hn _ => ?_
    obtain ⟨vs, -, rfl⟩ := Template.exists_fields_of_fill hn
    rfl

/-- The name of a specifier and its alias start at two places. -/
theorem isDouble_of_aliased (ordered : x.parsed.IsOrdered) (hs : x.symbol = .importSpecifier)
    {newName : Part w} (ha : x.field? "alias" = some newName) {n : Node}
    (hn : (importSpecifier src x).fill (Part.converted src) = .ok n) : n.isDouble = false := by
  unfold importSpecifier at hn
  split at hn
  · next name localName hi hl =>
    rw [fieldOr, ha, Option.some_or] at hl
    cases hl
    have apart : name.span.stop ≤ newName.span.start := by
      have groups := ordered.here.groups
      rw [show x.parsed.symbol = .importSpecifier from hs] at groups
      exact List.rel_of_pairwise_cons groups (List.mem_singleton_self _) _
        (Inside.parsed_mem_fieldAll hi) _ (Inside.parsed_mem_fieldAll ha)
    have nonempty : name.span.start < name.span.stop := (ordered.child
      (Inside.mem_children_of_mem_parts (Inside.mem_parts_of_field? hi))).start_lt_stop
    have own : (identifier src newName.span : Template w).Gives src fun c =>
        c.span = newName.span := fun c hc => by
      obtain ⟨vs, -, rfl⟩ := Template.exists_fields_of_fill hc
      rfl
    obtain ⟨-, -, children⟩ := Template.children_of_fill (P := fun field c =>
        field = "imported" ∧ (c.kind = .identifier → c.span = name.span) ∨
          field = "local" ∧ c.span = newName.span)
      (.field ((span_of_exportName name).imp fun _ span => Or.inl ⟨rfl, span⟩)
        (.field (.one (own.imp fun _ span => Or.inr ⟨rfl, span⟩)) .nil)) hn
    refine List.any_eq_false.mpr fun c hc double => ?_
    simp only [Node.doubles, Bool.and_eq_true, decide_eq_true_eq, List.any_eq_true] at double
    obtain ⟨kind, ⟨-, field⟩, d, hd, field', place⟩ := double
    rcases children c hc with ⟨-, span⟩ | ⟨other, -⟩
    · rcases children d hd with ⟨other, -⟩ | ⟨-, span'⟩
      · exact absurd (other.symm.trans field') (by decide)
      · rw [span kind, span'] at place
        omega
    · exact absurd (field.symm.trans other) (by decide)
  · cases hn

theorem importSpecifier_imports (h : x.Settled root src) (hs : x.symbol = .importSpecifier)
    (whole : x.parsed.IsWhole) : (importSpecifier src x).Imports src := by
  intro n hn
  refine ⟨?_, Node.everywhere_holdsImported (children_of_importSpecifier h hn)⟩
  cases ha : x.field? "alias" with
  | none =>
    have missing : x.parsed.field? "alias" = none := by rw [← x.field?_map_parsed, ha]; rfl
    have bare : x.parsed.hasBareSpecifier = true := List.any_eq_true.mpr
      ⟨_, Parsed.self_mem_preorder _, Parsed.isBareSpecifier_iff.mpr ⟨hs, missing⟩⟩
    have part := whole bare
    rw [show x.parsed.symbol = .importSpecifier from hs] at part
    cases part
  | some newName =>
    exact isDouble_of_aliased (fun p hp => h.ordered p (Parsed.mem_preorder_trans h.mem hp)) hs ha hn

/-- What stands in the specifiers of an import. -/
theorem importSpecifiers_hold (h : x.Imported root src) (hq : q ∈ x.parts) :
    ∀ slot ∈ importSpecifiers src q, slot.Gives src (Node.Everywhere Node.HoldsImported) := by
  have inner := h.inside hq
  have name (span : Span) : FieldsImport src
      [("local", (Slot.one (identifier src span) : Slot w))] :=
    .field (.one (identifier_imports _)) .nil
  unfold importSpecifiers
  split
  · refine List.forall_mem_singleton.mpr ?_
    exact (Slot.Imports.one (.build (by decide) (name _))).imp fun _ => Node.DoublesImported.below
  · refine List.forall_mem_singleton.mpr ?_
    split
    · exact (Slot.Imports.one (.build (by decide) (name _))).imp fun _ => Node.DoublesImported.below
    · exact .fault _
  · intro slot hslot
    obtain ⟨s, hs, rfl⟩ := List.mem_map.mp hslot
    have symbol : s.symbol = .importSpecifier := of_decide_eq_true (List.mem_filter.mp hs).2
    have parts := Inside.mem_parts_of_named (List.mem_filter.mp hs).1
    have there := inner.inside parts
    have settled : s.parsed.inside.Settled root src :=
      ⟨⟨there.imported, there.ordered, there.mem, there.below⟩, .of_symbol (congrArg _ symbol)⟩
    refine Slot.Gives.one fun n hn => Node.everywhere_holdsImported ?_
    have hs' : s.parsed.inside.symbol = .importSpecifier := symbol
    rw [Template.fill, Part.converted, convert_eq, template, hs'] at hn
    exact children_of_importSpecifier settled hn
  · exact List.forall_mem_nil _

theorem importDeclaration_imports (h : x.Imported root src) (hs : x.symbol = .importStatement) :
    (importDeclaration src x).Imports src := by
  refine Template.Gives.build (P := fun _ => Node.Everywhere Node.HoldsImported)
    (.field (.many fun slot hslot => ?_) (.field ?_ .nil)) fun n kind children =>
      ⟨Node.isDouble_of_ne (by rw [kind]; decide),
        Node.everywhere_iff.mpr ⟨fun _ _ _ => kind, children⟩⟩
  · obtain ⟨clause, hc, mem⟩ := List.mem_flatMap.mp hslot
    obtain ⟨q, hq, mem⟩ := List.mem_flatMap.mp mem
    have parts := Inside.mem_parts_of_named (List.mem_filter.mp hc).1
    exact importSpecifiers_hold (h.inside parts) (Inside.mem_parts_of_named hq) slot mem
  · unfold Inside.convert
    split
    · next q hq =>
      have parts := Inside.mem_parts_of_field? hq
      refine Slot.Gives.one fun n hn => (h.template parts (fun bare => ?_) n hn).below
      have admitted := h.imported.below _ h.mem _ (Inside.mem_children_of_mem_parts parts) bare
      -- in an import stands a clause, and that in no field
      have field := Inside.field_eq_of_field? hq
      have hs' : x.parsed.symbol = .importStatement := hs
      cases symbol : q.parsed.symbol with
      | importSpecifier | namedImports | importClause =>
        simp [Parsed.admits, symbol, hs', field] at admitted
      | _ => rfl
    · exact .fault _

end Imports

/-! ## The table -/

/-- The field of an opaque node is none of those of a specifier. -/
theorem opaqueNode_imports (h : x.Settled root src) : (opaqueNode x).Imports src := by
  refine Template.Gives.build (P := fun field c => field = "children" ∧ c.DoublesImported)
    (.field ((h.holes fun q hq => ?_).imp fun _ imports => ⟨rfl, imports⟩) .nil)
    fun n _ children => ?_
  · have mem := (List.mem_filter.mp hq).1
    split at mem
    · exact List.mem_of_mem_eraseP mem
    · exact mem
  · refine ⟨List.any_eq_false.mpr fun c hc double => ?_,
      Node.everywhere_holdsImported fun c hc => (children c hc).2⟩
    simp only [Node.doubles, Bool.and_eq_true, decide_eq_true_eq] at double
    exact absurd ((children c hc).1.symm.trans double.2.1.2) (by decide)

/-- The template of any node that is whole. -/
theorem template_imports (h : x.Imported root src) (whole : x.parsed.IsWhole) (inObject : Bool) :
    (template src inObject x).Imports src := by
  by_cases statement : x.symbol = .importStatement
  · rw [template, statement]
    exact importDeclaration_imports h statement
  have h : x.Settled root src := ⟨h, whole.isOpen statement⟩
  unfold template
  cases hs : x.symbol with
  | importStatement => exact absurd hs statement
  | program => exact .build (by decide) (.field h.named (.field (.word _) .nil))
  | expressionStatement => exact .build (by decide) (.field (.one h.first) .nil)
  | emptyStatement | debuggerStatement | thisWord | superWord => exact .build (by decide) .nil
  | statementBlock => exact .build (by decide) (.field h.named .nil)
  | variableDeclaration => exact .build (by decide) (.field (.word _) (.field h.named .nil))
  | lexicalDeclaration =>
    exact .build (by decide) (.field (.textOf _ _) (.field (h.namedOnly _) .nil))
  | variableDeclarator =>
    exact .build (by decide) (.field (h.convert _) (.field (h.optional _) .nil))
  | ifStatement => exact ifStatement_imports h hs
  | switchStatement => exact switchStatement_imports h hs
  | switchCase => exact .build (by decide) (.field (h.convert _) (.field (h.fieldAll _) .nil))
  | switchDefault => exact .build (by decide) (.field .null (.field (h.fieldAll _) .nil))
  | forStatement =>
    exact .build (by decide) (.field (loopClause_imports h _) (.field (loopClause_imports h _)
      (.field (loopClause_imports h _) (.field (h.convert _) .nil))))
  | forInStatement => exact forInStatement_imports h
  | whileStatement | doStatement | withStatement =>
    exact .build (by decide) (.field (h.convert _) (.field (h.convert _) .nil))
  | tryStatement => exact tryStatement_imports h hs
  | catchClause => exact catchClause_imports h
  | returnStatement => exact .build (by decide) (.field h.firstOrNull .nil)
  | throwStatement => exact .build (by decide) (.field (.one h.first) .nil)
  | breakStatement | continueStatement =>
    exact .build (by decide) (.field (identifierOrNull_imports _ _) .nil)
  | labeledStatement =>
    exact .build (by decide) (.field (identifierIn_imports _ _) (.field (h.convert _) .nil))
  | importSpecifier => exact importSpecifier_imports h hs whole
  | exportStatement => exact exportStatement_imports h
  | exportSpecifier => exact exportSpecifier_imports h
  | functionDeclaration | generatorFunctionDeclaration | functionExpression | olderFunction
  | generatorFunction =>
    exact .build (by decide) (.field (identifierOrNull_imports _ _)
      (functionFields_import h hs rfl rfl))
  | arrowFunction => exact arrowFunction_imports h hs
  | classDeclaration | classExpression => exact classLike_imports h (by decide)
  | classBody => exact .build (by decide) (.field h.named .nil)
  | methodDefinition => exact methodDefinition_imports h hs inObject
  | fieldDefinition => exact fieldDefinition_imports h
  | classStaticBlock => exact staticBlock_imports h hs
  | decorator => exact .build (by decide) (.field (.one h.first) .nil)
  | objectPattern =>
    exact .build (by decide) (.field (entries_import fun _ => patternEntry_imports h) .nil)
  | arrayPattern | array => exact .build (by decide) (.field (elements_import h) .nil)
  | assignmentPattern => exact assignmentPattern_imports h
  | restPattern | spreadElement => exact .build (by decide) (.field (.one h.first) .nil)
  | identifier | shorthandPropertyIdentifierPattern => exact identifier_imports _
  | undefinedWord => exact .build (by decide) (.field (.word _) .nil)
  | privatePropertyIdentifier => exact privateName_imports _
  | trueWord | falseWord | nullWord => exact wordLiteral_imports rfl _
  | number => exact numberLiteral_imports
  | string => exact stringLiteral_imports
  | regex => exact regexLiteral_imports
  | templateString => exact templateLiteral_imports h
  | object =>
    exact .build (by decide) (.field (entries_import fun _ => objectEntry_imports h) .nil)
  | parenthesizedExpression => exact h.first
  | sequenceExpression => exact sequenceExpression_imports h
  | newExpression => exact newExpression_imports h hs
  | assignmentExpression => exact assignment_imports h (.word _)
  | augmentedAssignmentExpression => exact assignment_imports h (.textOf _ _)
  | unaryExpression | updateExpression =>
    exact .build (by decide) (.field (.textOf _ _) (.field (.bool _) (.field (h.convert _) .nil)))
  | ternaryExpression =>
    exact .build (by decide)
      (.field (h.convert _) (.field (h.convert _) (.field (h.convert _) .nil)))
  | awaitExpression => exact .build (by decide) (.field (.one h.first) .nil)
  | yieldExpression => exact .build (by decide) (.field h.firstOrNull (.field (.bool _) .nil))
  | metaProperty => exact metaProperty_imports
  | memberExpression | subscriptExpression | callExpression | binaryExpression =>
    exact chain_imports h (congrArg (fun s => s.operandField?.isSome) hs)
  | _ => exact opaqueNode_imports h

/-- A whole node of a parse with its specifiers in imports is converted to such a tree, by induction
on the parse. -/
theorem doublesImported_of_convert (imported : root.SpecifiersImported) (ordered : root.IsOrdered)
    {p : Parsed} (hp : p ∈ root.preorder) (whole : p.IsWhole) {inObject : Bool} {n : Node}
    (hn : convert src p inObject = .ok n) : n.DoublesImported := by
  induction hsize : sizeOf p using Nat.strongRecOn generalizing p inObject n with
  | ind size ih =>
    rw [convert_eq] at hn
    have here : p.inside.Imported root src :=
      { imported, ordered, mem := hp,
        below := fun mem smaller whole _ _ hn => ih _ (hsize ▸ smaller) mem whole hn rfl }
    exact template_imports here whole inObject n hn

end Conversion

/-- In the tree of such a parse the specifiers without an alias stand in imports as well. -/
theorem Parsed.doublesImported_of_toTree (imported : root.SpecifiersImported)
    (ordered : root.IsOrdered) {tree : Node} (h : root.toTree src = .ok tree) :
    tree.DoublesImported := by
  rw [Parsed.toTree] at h
  cases hn : Conversion.convert src root false with
  | error f => rw [hn] at h; cases h
  | ok n =>
    rw [hn] at h
    cases h
    have converted := Conversion.doublesImported_of_convert imported ordered
      root.self_mem_preorder imported.top hn
    exact (Node.doublesImported_numberFrom n 0).mpr converted

end FreeNames
