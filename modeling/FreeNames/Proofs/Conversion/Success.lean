import FreeNames.Conversion.Table
import FreeNames.Proofs.Conversion.Chains
import FreeNames.Proofs.Conversion.Expressions
import FreeNames.Proofs.Conversion.Fills

/-!
# Conversion succeeds

A parse that has what it must have, and that can be read in the source, has a conversion.  As in
the proof that conversion keeps variables there is one lemma for each template, here that it can
be filled, and the induction is on the size of the parse.

* `template_fills` goes through the table.
* `Parsed.exists_toTree` is the main result.
-/

namespace FreeNames

namespace Conversion

open Template (FieldsFill)

variable {w : Parsed} {src : Source} {x : Inside w} {q : Part w}

/-! ## Lists of parts -/

/-- Parts that are read in turns. -/
theorem inTurn_fill {p : Part w × Nat → Bool} {f : Part w → Slot w}
    (hf : ∀ q ∈ x.named, ∀ n, p (q, n) = true → (f q).Fills src) :
    ∀ slot ∈ (x.named.zipIdx.filter p).map fun q => Slot.turn q.2 (f q.1), slot.Fills src := by
  intro slot hs
  obtain ⟨⟨q, n⟩, mem, rfl⟩ := List.mem_map.mp hs
  obtain ⟨indexed, hp⟩ := List.mem_filter.mp mem
  exact (hf q (List.fst_mem_of_mem_zipIdx indexed) n hp).turn n

/-- The expressions of sequences that are ready. -/
theorem ready_of_mem_sequenceParts {pending : List (Inside w)}
    (h : ∀ y ∈ pending, y.parsed.Ready src) : ∀ q ∈ sequenceParts pending, q.parsed.Ready src :=
  forall_mem_sequenceParts (fun _ hy _ => Inside.ready_of_mem_named hy)
    (fun _ hy _ hr _ => Inside.ready_of_mem_named hy hr) h

section

variable (h : x.parsed.Ready src)

include h

/-! ## Statements -/

theorem lexicalDeclaration_fills (hs : x.parsed.symbol = .lexicalDeclaration) :
    (lexicalDeclaration src x).Fills src := by
  have declarators : (Slot.holes (x.named.filter fun q => q.symbol = .variableDeclarator)).Fills
      src := .holes fun q hq => Inside.ready_of_mem_named h (List.mem_filter.mp hq).1
  exact .node (.cons (Inside.textOf_fills h hs (by decide)) (.cons declarators .nil))

theorem variableDeclarator_fills (hs : x.parsed.symbol = .variableDeclarator) :
    (variableDeclarator x).Fills src :=
  .node (.cons (Inside.convert_fills h hs (by decide)) (.cons (Inside.optional_fills h _) .nil))

theorem ifStatement_fills (hs : x.parsed.symbol = .ifStatement) : (ifStatement x).Fills src := by
  have token : x.parsed.isToken = false :=
    h.isToken_eq_false hs (List.mem_cons_self : "condition" ∈ _) rfl
  have fits := (h.shaped.standsInFields token hs rfl).2
  simp only [Parsed.fieldsFit, hs] at fits
  refine .node (.cons (.late (Inside.convert_fills h hs (by decide)))
    (.cons (.late (Inside.convert_fills h hs (by decide))) (.cons ?_ .nil)))
  split
  · next q hq =>
    have elseClause := of_decide_eq_true (Inside.of_allows fits hq)
    have ready := Inside.ready_of_optional h hs (by decide) hq
    exact .one (Inside.first_fills (x := q.inside) ready elseClause rfl)
  · exact .value _

theorem switchStatement_fills (hs : x.parsed.symbol = .switchStatement) :
    (switchStatement x).Fills src := by
  obtain ⟨q, hq, ready⟩ := Inside.exists_needed h hs (by decide : "body" ∈ _)
  rw [switchStatement, hq]
  exact .node (.cons (Inside.convert_fills h hs (by decide))
    (.cons (Inside.named_fill (x := q.inside) ready) .nil))

theorem switchCase_fills (hs : x.parsed.symbol = .switchCase) : (switchCase x).Fills src :=
  .node (.cons (Inside.convert_fills h hs (by decide)) (.cons (Inside.fieldAll_fill h _) .nil))

theorem switchDefault_fills : (switchDefault x).Fills src :=
  .node (.cons (.value _) (.cons (Inside.fieldAll_fill h _) .nil))

theorem loopClause_fills (name : String) : (loopClause x name).Fills src := by
  unfold loopClause
  split
  · next q hq =>
    split
    · exact .value _
    · next some =>
      simp only [Bool.or_eq_true, not_or, Bool.not_eq_true, Bool.not_eq_false'] at some
      have ready := Inside.ready_of_mem_parts h (Inside.mem_parts_of_field? hq) some.1
      split
      · next wrapped => exact .one (Inside.first_fills (x := q.inside) ready wrapped rfl)
      · exact .hole ready
  · exact .value _

theorem forStatement_fills (hs : x.parsed.symbol = .forStatement) : (forStatement x).Fills src :=
  .node (.cons (loopClause_fills h _) (.cons (loopClause_fills h _) (.cons (loopClause_fills h _)
    (.cons (Inside.convert_fills h hs (by decide)) .nil))))

theorem loopTarget_fills (hs : x.parsed.symbol = .forInStatement) :
    (loopTarget src x).Fills src := by
  obtain ⟨left, hl, ready⟩ := Inside.exists_needed h hs (by decide : "left" ∈ _)
  unfold loopTarget
  simp only [hl]
  split
  · exact .hole ready
  · next kind hk =>
    have text := Inside.exists_text_of_mem_parts h (Inside.mem_parts_of_field? hk)
    have declarator : (Template.node .variableDeclarator left.span
        [("id", .hole left), ("init", x.optional "value")]).Fills src :=
      .node (.cons (.hole ready) (.cons (Inside.optional_fills h _) .nil))
    exact .one (.node (.cons (.late (.text text))
      (.cons (.many (List.forall_mem_singleton.mpr (.one declarator))) .nil)))

theorem forInStatement_fills (hs : x.parsed.symbol = .forInStatement) :
    (forInStatement src x).Fills src := by
  have head : FieldsFill src [("left", loopTarget src x), ("right", x.convert "right"),
      ("body", x.convert "body")] :=
    .cons (loopTarget_fills h hs) (.cons (Inside.convert_fills h hs (by decide))
      (.cons (Inside.convert_fills h hs (by decide)) .nil))
  obtain ⟨operator, ho⟩ := Inside.exists_word h hs (by decide : "operator" ∈ _)
  obtain ⟨t, ht⟩ := Inside.exists_text_of_mem_parts h (Inside.mem_parts_of_field? ho)
  simp only [forInStatement, ho, ht]
  split
  · exact .node (.cons (.value _) head)
  · exact .node head

theorem whileStatement_fills (hs : x.parsed.symbol = .whileStatement) :
    (whileStatement x).Fills src :=
  .node (.cons (Inside.convert_fills h hs (by decide))
    (.cons (Inside.convert_fills h hs (by decide)) .nil))

theorem doWhileStatement_fills (hs : x.parsed.symbol = .doStatement) :
    (doWhileStatement x).Fills src :=
  .node (.cons (Inside.convert_fills h hs (by decide))
    (.cons (Inside.convert_fills h hs (by decide)) .nil))

theorem tryStatement_fills (hs : x.parsed.symbol = .tryStatement) :
    (tryStatement x).Fills src := by
  have token : x.parsed.isToken = false :=
    h.isToken_eq_false hs (List.mem_cons_self : "body" ∈ _) rfl
  have fits := (h.shaped.standsInFields token hs rfl).2
  simp only [Parsed.fieldsFit, hs] at fits
  refine .node (.cons (.late (Inside.convert_fills h hs (by decide)))
    (.cons (.late (Inside.optional_fills h _)) (.cons ?_ .nil)))
  split
  · next q hq =>
    have finallyClause := of_decide_eq_true (Inside.of_allows fits hq)
    have ready := Inside.ready_of_optional h hs (by decide) hq
    exact Inside.convert_fills (x := q.inside) ready finallyClause (by decide)
  · exact .value _

theorem catchClause_fills (hs : x.parsed.symbol = .catchClause) :
    (catchClause x).Fills src := by
  refine .node (.cons ?_ (.cons (Inside.convert_fills h hs (by decide)) .nil))
  split
  · next q hq => exact .hole (Inside.ready_of_optional h hs (by decide) hq)
  · exact .value _

theorem jumpStatement_fills (kind : Kind) : (jumpStatement src kind x).Fills src :=
  .node (.cons (identifierOrNull_fills h _) .nil)

theorem labeledStatement_fills (hs : x.parsed.symbol = .labeledStatement) :
    (labeledStatement src x).Fills src := by
  obtain ⟨q, hq, -⟩ := Inside.exists_needed h hs (by decide : "label" ∈ _)
  exact .node (.cons (identifierIn_fills h hq)
    (.cons (Inside.convert_fills h hs (by decide)) .nil))

theorem withStatement_fills (hs : x.parsed.symbol = .withStatement) :
    (withStatement x).Fills src :=
  .node (.cons (Inside.convert_fills h hs (by decide))
    (.cons (Inside.convert_fills h hs (by decide)) .nil))

/-! ## Imports and exports -/

omit h in
theorem importSpecifiers_fill (hq : q.parsed.Ready src) :
    ∀ slot ∈ importSpecifiers src q, slot.Fills src := by
  unfold importSpecifiers
  split
  · have text := Inside.exists_text (x := q.inside) hq
    exact List.forall_mem_singleton.mpr
      (.one (.node (.cons (.one (identifier_fills text)) .nil)))
  · next namespaces =>
    obtain ⟨name, hn, mem⟩ := Inside.exists_part (x := q.inside) hq namespaces rfl
    have text := Inside.exists_text_of_mem_parts (x := q.inside) hq
      (Inside.mem_parts_of_named mem)
    rw [hn]
    exact List.forall_mem_singleton.mpr
      (.one (.node (.cons (.one (identifier_fills text)) .nil)))
  · intro slot hs
    obtain ⟨r, hr, rfl⟩ := List.mem_map.mp hs
    exact .hole (Inside.ready_of_mem_named (x := q.inside) hq (List.mem_filter.mp hr).1)
  · exact List.forall_mem_nil _

theorem importDeclaration_fills (hs : x.parsed.symbol = .importStatement) :
    (importDeclaration src x).Fills src := by
  refine .node (.cons (.many fun slot hs => ?_)
    (.cons (Inside.convert_fills h hs (by decide)) .nil))
  obtain ⟨c, hc, hs⟩ := List.mem_flatMap.mp hs
  obtain ⟨r, hr, hs⟩ := List.mem_flatMap.mp hs
  have clause := Inside.ready_of_mem_named h (List.mem_filter.mp hc).1
  exact importSpecifiers_fill (Inside.ready_of_mem_named (x := c.inside) clause hr) slot hs

omit h in
/-- A specifier that has a name has both of its names. -/
theorem exists_fieldOr (hq : x.field? "name" = some q) (name : String) :
    ∃ r, fieldOr x name "name" = some r := by
  rw [fieldOr, hq]
  cases x.field? name with
  | none => exact ⟨q, rfl⟩
  | some r => exact ⟨r, rfl⟩

theorem importSpecifier_fills (hs : x.parsed.symbol = .importSpecifier) :
    (importSpecifier src x).Fills src := by
  obtain ⟨imported, hi⟩ := Inside.exists_word h hs (by decide : "name" ∈ _)
  obtain ⟨localName, hl⟩ := exists_fieldOr hi "alias"
  have text := Inside.exists_text_of_mem_parts h (mem_parts_of_fieldOr hl)
  simp only [importSpecifier, hi, hl]
  exact .node (.cons (exportName_fills h (Inside.mem_parts_of_field? hi))
    (.cons (.one (identifier_fills text)) .nil))

theorem exportSpecifier_fills (hs : x.parsed.symbol = .exportSpecifier) :
    (exportSpecifier src x).Fills src := by
  obtain ⟨localName, hl⟩ := Inside.exists_word h hs (by decide : "name" ∈ _)
  obtain ⟨exported, he⟩ := exists_fieldOr hl "alias"
  simp only [exportSpecifier, hl, he]
  exact .node (.cons (exportName_fills h (Inside.mem_parts_of_field? hl))
    (.cons (exportName_fills h (mem_parts_of_fieldOr he)) .nil))

theorem exportAll_fills {exported : Slot w} (he : exported.Fills src) :
    (exportAll exported x).Fills src :=
  .node (.cons (.late he) (.cons (Inside.optional_fills h _) .nil))

theorem exportNames_fills : (exportNames src x).Fills src := by
  unfold exportNames
  simp only
  split
  · exact exportAll_fills h (.value _)
  · next clause hc =>
    have ready := Inside.ready_of_mem_named h (List.mem_of_find?_eq_some hc)
    split
    · refine .node (.cons (.value _) (.cons (.late (.holes fun r hr => ?_))
        (.cons (Inside.optional_fills h _) .nil)))
      exact Inside.ready_of_mem_named (x := clause.inside) ready (List.mem_filter.mp hr).1
    · refine exportAll_fills h ?_
      split
      · next name hn =>
        exact exportName_fills (x := clause.inside) ready
          (Inside.mem_parts_of_named (List.mem_of_mem_head? hn))
      · exact .value _

theorem exportStatement_fills (hs : x.parsed.symbol = .exportStatement) :
    (exportStatement src x).Fills src := by
  have source : ∀ slot ∈ [exportSource x], slot.Fills src :=
    List.forall_mem_singleton.mpr (Inside.optional_fills h _)
  unfold exportStatement
  split
  · next default =>
    obtain ⟨q, hq⟩ : ∃ q, fieldOr x "declaration" "value" = some q := by
      have needs := h.needs
      have token : x.parsed.hasToken [.defaultWord] = true := default
      simp only [Parsed.hasNeeds, hs, token, Bool.and_eq_true, Bool.not_true, Bool.false_or,
        ← Inside.field?_map_parsed] at needs
      rw [← Option.map_or, Option.isSome_map] at needs
      exact Option.isSome_iff_exists.mp needs.2
    have ready : q.parsed.Ready src := by
      rcases Option.or_eq_some_iff.mp hq with declaration | ⟨-, value⟩
      · exact Inside.ready_of_optional h hs (by decide) declaration
      · exact Inside.ready_of_optional h hs (by decide) value
    simp only [hq]
    exact .build (.cons (.late (.hole ready)) .nil) source
  · split
    · next q hq =>
      have ready := Inside.ready_of_optional h hs (by decide) hq
      exact .build (.cons (.late (.hole ready)) (.cons (.empty) (.cons (.value _) .nil)))
        source
    · exact exportNames_fills h

/-! ## Functions and classes -/

theorem parameters_fill : (parameters x).Fills src := by
  unfold parameters
  split
  · next q hq => exact Inside.named_fill_of_mem_parts h (Inside.mem_parts_of_field? hq)
  · exact .empty

theorem functionFields_fill {s : Symbol} (hs : x.parsed.symbol = s)
    (body : "body" ∈ s.neededFields) : FieldsFill src (functionFields x) :=
  .cons (parameters_fill h) (.cons (Inside.convert_fills h hs body)
    (.cons (.value _) (.cons (.value _) .nil)))

theorem function_fills {s : Symbol} (hs : x.parsed.symbol = s) (body : "body" ∈ s.neededFields)
    (kind : Kind) : (function src kind x).Fills src :=
  .node (.cons (identifierOrNull_fills h _) (functionFields_fill h hs body))

theorem arrowFunction_fills (hs : x.parsed.symbol = .arrowFunction) :
    (arrowFunction src x).Fills src := by
  refine .node (.cons (.value _) (.cons ?_ (.cons (Inside.convert_fills h hs (by decide))
    (.cons (.value _) (.cons (.value _) (.cons (.value _) .nil))))))
  split
  · next q hq =>
    have text := Inside.exists_text_of_mem_parts h (Inside.mem_parts_of_field? hq)
    exact .many (List.forall_mem_singleton.mpr (.one (identifier_fills text)))
  · exact parameters_fill h

theorem decorators_fill : (decorators x).Fills src :=
  .holes fun _ hq => Inside.ready_of_mem_named h (List.mem_filter.mp hq).1

theorem classLike_fills {s : Symbol} (hs : x.parsed.symbol = s)
    (body : "body" ∈ s.neededFields) (kind : Kind) : (classLike src kind x).Fills src := by
  have decorators : ∀ slot ∈ (x.named.zipIdx.filter fun q => q.1.symbol = .decorator).map
      fun q => Slot.turn q.2 (.hole q.1), slot.Fills src :=
    inTurn_fill fun q hq _ _ => .hole (Inside.ready_of_mem_named h hq)
  have heritages : ∀ slot ∈ (x.named.zipIdx.filter fun q => q.1.symbol = .classHeritage).map
      fun q => Slot.turn q.2 (.one q.1.inside.first), slot.Fills src :=
    inTurn_fill fun q hq _ heritage => .one (Inside.first_fills (x := q.inside)
      (Inside.ready_of_mem_named h hq) (of_decide_eq_true heritage) rfl)
  refine .build (.cons (.many decorators) (.cons ((identifierOrNull_fills h _).turn _)
    (.cons ?_ (.cons ((Inside.convert_fills h hs body).turn _) .nil))))
    fun slot hs => heritages slot ((List.dropLast_sublist _).subset hs)
  cases hl : ((x.named.zipIdx.filter fun q => q.1.symbol = .classHeritage).map
      fun q => Slot.turn q.2 (.one q.1.inside.first)).getLast? with
  | none => exact .value _
  | some slot => exact heritages slot (List.mem_of_getLast? hl)

theorem methodDefinition_fills (hs : x.parsed.symbol = .methodDefinition) (inObject : Bool) :
    (methodDefinition src inObject x).Fills src := by
  obtain ⟨name, hn, ready⟩ := Inside.exists_needed h hs (by decide : "name" ∈ _)
  have value : (methodFunction x).Fills src :=
    .node (.cons (.value _) (functionFields_fill h hs (by decide)))
  simp only [methodDefinition, hn]
  split
  · exact .build (.cons (propertyKey_fills ready) (.cons (.one value) (.cons (.value _)
      (.cons (.value _) (.cons (.value _) (.cons (.value _) .nil))))))
      (List.forall_mem_singleton.mpr (.late (decorators_fill h)))
  · exact .node (.cons (.late (decorators_fill h)) (.cons (propertyKey_fills ready)
      (.cons (.value _) (.cons (.one value) (.cons (.value _) (.cons (.value _) .nil))))))

theorem fieldDefinition_fills (hs : x.parsed.symbol = .fieldDefinition) :
    (fieldDefinition src x).Fills src := by
  obtain ⟨property, hp, ready⟩ := Inside.exists_needed h hs (by decide : "property" ∈ _)
  simp only [fieldDefinition, hp]
  exact .node (.cons (decorators_fill h) (.cons (propertyKey_fills ready) (.cons (.value _)
    (.cons (Inside.optional_fills h _) (.cons (.value _) .nil)))))

theorem staticBlock_fills (hs : x.parsed.symbol = .classStaticBlock) :
    (staticBlock x).Fills src := by
  obtain ⟨q, hq, -⟩ := Inside.exists_needed h hs (by decide : "body" ∈ _)
  simp only [staticBlock, hq]
  exact .node (.cons (Inside.named_fill_of_mem_parts h (Inside.mem_parts_of_field? hq)) .nil)

/-! ## Patterns, objects and arrays -/

omit h in
theorem shorthand_fills {value : Slot w} (text : ∃ t, src.text? q.span = some t)
    (hv : value.Fills src) : (shorthand src q value).Fills src :=
  .node (.cons (.one (identifier_fills text)) (.cons hv (.cons (.value _) (.cons (.value _)
    (.cons (.value _) (.cons (.value _) .nil))))))

omit h in
theorem pair_fills (hq : q.parsed.Ready src) {s : Symbol} (hs : q.parsed.symbol = s)
    (needed : "key" ∈ s.neededFields ∧ "value" ∈ s.neededFields) : (pair src q).Fills src := by
  obtain ⟨key, hk, ready⟩ := Inside.exists_needed (x := q.inside) hq hs needed.1
  simp only [pair, hk]
  exact .node (.cons (propertyKey_fills ready) (.cons (.value _)
    (.cons (Inside.convert_fills (x := q.inside) hq hs needed.2) (.cons (.value _)
      (.cons (.value _) (.cons (.value _) .nil))))))

theorem assignmentPattern_fills {s : Symbol} (hs : x.parsed.symbol = s)
    (needed : "left" ∈ s.neededFields ∧ "right" ∈ s.neededFields) :
    (assignmentPattern x).Fills src :=
  .node (.cons (Inside.convert_fills h hs needed.1)
    (.cons (Inside.convert_fills h hs needed.2) .nil))

omit h in
theorem objectAssignment_fills (hq : q.parsed.Ready src)
    (hs : q.parsed.symbol = .objectAssignmentPattern) : (objectAssignment src q).Fills src := by
  obtain ⟨left, hl, ready⟩ := Inside.exists_needed (x := q.inside) hq hs (by decide : "left" ∈ _)
  have pattern := assignmentPattern_fills (x := q.inside) hq hs (by decide)
  simp only [objectAssignment, hl]
  split
  · exact shorthand_fills (Inside.exists_text (x := left.inside) ready) (.one pattern)
  · exact pattern

omit h in
theorem patternEntry_fills (hq : q.parsed.Ready src) : (patternEntry src q).Fills src := by
  have text := Inside.exists_text (x := q.inside) hq
  unfold patternEntry
  split
  · exact .one (shorthand_fills text (.one (identifier_fills text)))
  · next hs => exact .one (pair_fills hq hs (by decide))
  · next hs => exact .one (objectAssignment_fills hq hs)
  · exact .hole hq

theorem objectPattern_fills : (objectPattern src x).Fills src := by
  refine .node (.cons (.many fun slot hs => ?_) .nil)
  obtain ⟨q, hq, rfl⟩ := List.mem_map.mp hs
  exact patternEntry_fills (Inside.ready_of_mem_named h hq)

omit h in
theorem objectEntry_fills (hq : q.parsed.Ready src) : (objectEntry src q).Fills src := by
  have text := Inside.exists_text (x := q.inside) hq
  unfold objectEntry
  split
  · next hs => exact .one (pair_fills hq hs (by decide))
  · exact .one (shorthand_fills text (.one (identifier_fills text)))
  · exact .hole hq

theorem objectExpression_fills : (objectExpression src x).Fills src := by
  refine .node (.cons (.many fun slot hs => ?_) .nil)
  obtain ⟨q, hq, rfl⟩ := List.mem_map.mp hs
  exact objectEntry_fills (Inside.ready_of_mem_named h hq)

theorem elements_fill {s : Symbol} (hs : x.parsed.symbol = s)
    (list : s = .array ∨ s = .arrayPattern) : (elements x).Fills src := by
  have tokens : ∀ c ∈ x.parsed.children,
      c.isNamed = true ∨ c.symbol ∈ [.comma, .openBracket, .closeBracket] := by
    have needs := h.needs
    intro c hc
    rcases list with rfl | rfl <;>
      simp only [Parsed.hasNeeds, hs, Bool.and_eq_true, List.all_eq_true, Bool.or_eq_true,
        List.contains_iff_mem] at needs <;> exact needs.2 c hc
  refine .many (forall_mem_elementsFrom (.value _) (fun q hq bracket comma => .hole ?_) true)
  have noToken : q.parsed.symbol ∉ [.comma, .openBracket, .closeBracket] := by
    intro token
    simp only [List.mem_cons, List.not_mem_nil, or_false] at token
    exact token.elim comma (·.elim bracket.1 bracket.2)
  have named := (tokens _ (Inside.mem_children_of_mem_parts hq)).resolve_right noToken
  exact Inside.ready_of_mem_parts h hq named

/-! ## Expressions -/

theorem numberLiteral_fills (hs : x.parsed.symbol = .number) : (numberLiteral src x).Fills src := by
  obtain ⟨t, ht⟩ := Inside.exists_text h
  obtain ⟨v, hv⟩ := h.exists_number hs ht
  simp only [numberLiteral, ht, hv]
  exact .node (.cons (.value _) (.cons (.value _) .nil))

theorem stringLiteral_fills : (stringLiteral src x).Fills src := by
  obtain ⟨t, ht⟩ := Inside.exists_text h
  simp only [stringLiteral, ht]
  exact .node (.cons (.value _) (.cons (.value _) .nil))

theorem exists_textOrEmpty (name : String) : ∃ t, textOrEmpty? src x name = some t := by
  unfold textOrEmpty?
  split
  · next q hq => exact Inside.exists_text_of_mem_parts h (Inside.mem_parts_of_field? hq)
  · exact ⟨_, rfl⟩

theorem regexLiteral_fills : (regexLiteral src x).Fills src := by
  obtain ⟨pattern, hp⟩ := exists_textOrEmpty h "pattern"
  obtain ⟨flags, hf⟩ := exists_textOrEmpty h "flags"
  simp only [regexLiteral, hp, hf]
  exact .node (.cons (.value _) (.cons (.text (Inside.exists_text h)) (.cons (.value _) .nil)))

theorem templateLiteral_fills : (templateLiteral src x).Fills src := by
  refine .node (.cons (.many ?_) (.cons (.many ?_) .nil))
  · refine inTurn_fill
      (f := fun q => .one (.node .templateElement q.span [("raw", .text src q.span)]))
      fun q hq _ _ => ?_
    have text := Inside.exists_text_of_mem_parts h (Inside.mem_parts_of_named hq)
    exact .one (.node (.cons (.text text) .nil))
  · refine inTurn_fill (f := fun q => .one q.inside.first) fun q hq _ substitution => ?_
    have hs : q.symbol = .templateSubstitution := by simpa using substitution
    exact .one (Inside.first_fills (x := q.inside) (Inside.ready_of_mem_named h hq) hs rfl)

theorem metaProperty_fills : (metaProperty src x).Fills src := by
  obtain ⟨t, ht⟩ := Inside.exists_text h
  simp only [metaProperty, ht]
  exact .node (.cons (.one (.node (.cons (.value _) .nil)))
    (.cons (.one (.node (.cons (.value _) .nil))) .nil))

theorem sequenceExpression_fills : (sequenceExpression x).Fills src :=
  .node (.cons (.holes (ready_of_mem_sequenceParts (List.forall_mem_singleton.mpr h))) .nil)

theorem newExpression_fills (hs : x.parsed.symbol = .newExpression) :
    (newExpression x).Fills src := by
  refine .node (.cons (Inside.convert_fills h hs (by decide)) (.cons ?_ .nil))
  split
  · next q hq => exact Inside.named_fill_of_mem_parts h (Inside.mem_parts_of_field? hq)
  · exact .empty

theorem assignment_fills {operator : Slot w} (ho : operator.Fills src) {s : Symbol}
    (hs : x.parsed.symbol = s) (needed : "left" ∈ s.neededFields ∧ "right" ∈ s.neededFields) :
    (assignment operator x).Fills src :=
  .node (.cons ho (.cons (Inside.convert_fills h hs needed.1)
    (.cons (Inside.convert_fills h hs needed.2) .nil)))

theorem unaryExpression_fills (hs : x.parsed.symbol = .unaryExpression) :
    (unaryExpression src x).Fills src :=
  .node (.cons (Inside.textOf_fills h hs (by decide)) (.cons (.value _)
    (.cons (Inside.convert_fills h hs (by decide)) .nil)))

theorem updateExpression_fills (hs : x.parsed.symbol = .updateExpression) :
    (updateExpression src x).Fills src :=
  .node (.cons (Inside.textOf_fills h hs (by decide)) (.cons (.value _)
    (.cons (Inside.convert_fills h hs (by decide)) .nil)))

theorem conditionalExpression_fills (hs : x.parsed.symbol = .ternaryExpression) :
    (conditionalExpression x).Fills src :=
  .node (.cons (Inside.convert_fills h hs (by decide))
    (.cons (Inside.convert_fills h hs (by decide))
      (.cons (Inside.convert_fills h hs (by decide)) .nil)))

/-! ## Chains -/

/-- The operand of a link is ready, and a call has one. -/
theorem exists_chainOperand :
    ∃ operand, chainOperand x = .ok operand ∧ ∀ q, operand = some q → q.parsed.Ready src := by
  unfold chainOperand
  split
  · next call =>
    obtain ⟨q, hq, ready⟩ := Inside.exists_needed h call (by decide : "function" ∈ _)
    rw [hq]
    refine ⟨_, rfl, fun r hr => ?_⟩
    split at hr
    · cases hr
    · cases hr
      exact ready
  · next s notCall =>
    refine ⟨_, rfl, fun r hr => ?_⟩
    obtain ⟨name, hn, hr⟩ := Option.bind_eq_some_iff.mp hr
    have needed : name ∈ x.symbol.neededFields := by
      cases hx : x.symbol <;> rw [hx] at hn <;> cases hn <;> decide
    obtain ⟨q, hq, ready⟩ := Inside.exists_needed h rfl needed
    cases hr.symm.trans hq
    exact ready

omit h in
theorem operandSlot_fills {inner : Option (Template w)} (hi : ∀ t, inner = some t → t.Fills src) :
    (operandSlot inner).Fills src := by
  cases inner with
  | none => exact .value _
  | some t => exact .one (hi t rfl)

theorem callTemplate_fills (hs : x.parsed.symbol = .callExpression)
    {inner : Option (Template w)} (hi : ∀ t, inner = some t → t.Fills src) :
    (callTemplate x inner).Fills src := by
  obtain ⟨q, hq, ready⟩ := Inside.exists_needed h hs (by decide : "arguments" ∈ _)
  unfold callTemplate
  simp only [hq]
  split
  · exact .node (.cons (Inside.firstOrNull_fills (x := q.inside) ready) .nil)
  · next callee =>
    split
    · exact .node (.cons (.one (hi callee rfl)) (.cons (.hole ready) .nil))
    · exact .node (.cons (.one (hi callee rfl))
        (.cons (Inside.named_fill (x := q.inside) ready) (.cons (.value _) .nil)))

/-- A link can be filled, if the template for its operand can. -/
theorem linkTemplate_fills (link : x.parsed.symbol.operandField?.isSome = true)
    {inner : Option (Template w)} (hi : ∀ t, inner = some t → t.Fills src) :
    (linkTemplate src x inner).Fills src := by
  have operand := operandSlot_fills hi
  unfold linkTemplate
  split
  · next hs =>
    obtain ⟨q, hq, ready⟩ := Inside.exists_needed h hs (by decide : "property" ∈ _)
    simp only [hq]
    exact .node (.cons operand (.cons (propertyKey_fills ready)
      (.cons (.value _) (.cons (.value _) .nil))))
  · next hs =>
    exact .node (.cons operand (.cons (Inside.convert_fills h hs (by decide))
      (.cons (.value _) (.cons (.value _) .nil))))
  · next hs =>
    exact .node (.cons (.late (Inside.textOf_fills h hs (by decide)))
      (.cons operand (.cons (.late (Inside.convert_fills h hs (by decide))) .nil)))
  · next member subscript binary =>
    refine callTemplate_fills h ?_ hi
    have name : x.symbol.operandField?.isSome = true := link
    cases hx : x.symbol <;> rw [hx] at name member subscript binary <;>
      first | exact hx | exact absurd rfl member | exact absurd rfl subscript |
        exact absurd rfl binary | cases name

omit h in
/-- The induction goes down the spine, as the one that shows what the links hold does. -/
theorem exists_linked_fills (h : x.parsed.Ready src)
    (link : x.parsed.symbol.operandField?.isSome = true) :
    ∃ links operand, spine x = .ok (links, operand) ∧
      ∃ t, linked src links operand = some t ∧ t.Fills src := by
  fun_induction spine x with
  | case1 x f ho =>
    obtain ⟨operand, ok, -⟩ := exists_chainOperand h
    cases ho.symm.trans ok
  | case2 x ho =>
    refine ⟨_, _, rfl, _, rfl, linkTemplate_fills h link fun t ht => ?_⟩
    cases ht
  | case3 x q ho this chain ih =>
    obtain ⟨operand, ok, ready⟩ := exists_chainOperand h
    cases ho.symm.trans ok
    obtain ⟨links, operand, hq, t, ht, fills⟩ := ih (ready q rfl) chain
    refine ⟨x :: links, operand, by rw [hq]; rfl, linkTemplate src x (some t), ?_, ?_⟩
    · rw [← ht]
      rfl
    · refine linkTemplate_fills h link fun u hu => ?_
      cases hu
      exact fills
  | case4 x q ho this chain =>
    obtain ⟨operand, ok, ready⟩ := exists_chainOperand h
    cases ho.symm.trans ok
    refine ⟨_, _, rfl, _, rfl, linkTemplate_fills h link fun u hu => ?_⟩
    cases hu
    exact .hole (ready q rfl)

theorem chain_fills (link : x.parsed.symbol.operandField?.isSome = true) :
    (chain src x).Fills src := by
  obtain ⟨links, operand, hx, t, ht, fills⟩ := exists_linked_fills h link
  rw [linked] at ht
  simp only [chain, hx, ht]
  exact fills

/-! ## The table -/

theorem opaqueNode_fills : (opaqueNode x).Fills src := by
  refine .node (.cons (.holes fun q hq => ?_) .nil)
  obtain ⟨mem, named⟩ := List.mem_filter.mp hq
  rw [Bool.and_eq_true] at named
  refine Inside.ready_of_mem_parts h ?_ named.1
  split at mem
  · exact List.mem_of_mem_eraseP mem
  · exact mem

/-- The template of a node that is ready can be filled. -/
theorem template_fills (inObject : Bool) : (template src inObject x).Fills src := by
  have text : ∃ t, src.text? x.span = some t := Inside.exists_text h
  unfold template
  cases hs : x.symbol with
  | program => exact .node (.cons (Inside.named_fill h) (.cons (.value _) .nil))
  | expressionStatement => exact .node (.cons (.one (Inside.first_fills h hs rfl)) .nil)
  | emptyStatement | debuggerStatement | thisWord | superWord => exact .node .nil
  | statementBlock => exact .node (.cons (Inside.named_fill h) .nil)
  | variableDeclaration => exact .node (.cons (.value _) (.cons (Inside.named_fill h) .nil))
  | lexicalDeclaration => exact lexicalDeclaration_fills h hs
  | variableDeclarator => exact variableDeclarator_fills h hs
  | ifStatement => exact ifStatement_fills h hs
  | switchStatement => exact switchStatement_fills h hs
  | switchCase => exact switchCase_fills h hs
  | switchDefault => exact switchDefault_fills h
  | forStatement => exact forStatement_fills h hs
  | forInStatement => exact forInStatement_fills h hs
  | whileStatement => exact whileStatement_fills h hs
  | doStatement => exact doWhileStatement_fills h hs
  | tryStatement => exact tryStatement_fills h hs
  | catchClause => exact catchClause_fills h hs
  | returnStatement => exact .node (.cons (Inside.firstOrNull_fills h) .nil)
  | throwStatement => exact .node (.cons (.one (Inside.first_fills h hs rfl)) .nil)
  | breakStatement | continueStatement => exact jumpStatement_fills h _
  | labeledStatement => exact labeledStatement_fills h hs
  | withStatement => exact withStatement_fills h hs
  | importStatement => exact importDeclaration_fills h hs
  | importSpecifier => exact importSpecifier_fills h hs
  | exportStatement => exact exportStatement_fills h hs
  | exportSpecifier => exact exportSpecifier_fills h hs
  | functionDeclaration | generatorFunctionDeclaration | functionExpression | olderFunction
  | generatorFunction => exact function_fills h hs (by decide) _
  | arrowFunction => exact arrowFunction_fills h hs
  | classDeclaration | classExpression => exact classLike_fills h hs (by decide) _
  | classBody => exact .node (.cons (Inside.named_fill h) .nil)
  | methodDefinition => exact methodDefinition_fills h hs inObject
  | fieldDefinition => exact fieldDefinition_fills h hs
  | classStaticBlock => exact staticBlock_fills h hs
  | decorator => exact .node (.cons (.one (Inside.first_fills h hs rfl)) .nil)
  | objectPattern => exact objectPattern_fills h
  | arrayPattern => exact .node (.cons (elements_fill h hs (Or.inr rfl)) .nil)
  | assignmentPattern => exact assignmentPattern_fills h hs (by decide)
  | restPattern => exact .node (.cons (.one (Inside.first_fills h hs rfl)) .nil)
  | identifier | shorthandPropertyIdentifierPattern => exact identifier_fills text
  | undefinedWord => exact .node (.cons (.value _) .nil)
  | privatePropertyIdentifier => exact privateName_fills text
  | trueWord | falseWord | nullWord => exact .node (.cons (.value _) (.cons (.value _) .nil))
  | number => exact numberLiteral_fills h hs
  | string => exact stringLiteral_fills h
  | regex => exact regexLiteral_fills h
  | templateString => exact templateLiteral_fills h
  | object => exact objectExpression_fills h
  | array => exact .node (.cons (elements_fill h hs (Or.inl rfl)) .nil)
  | spreadElement => exact .node (.cons (.one (Inside.first_fills h hs rfl)) .nil)
  | parenthesizedExpression => exact Inside.first_fills h hs rfl
  | sequenceExpression => exact sequenceExpression_fills h
  | newExpression => exact newExpression_fills h hs
  | assignmentExpression => exact assignment_fills h (.value _) hs (by decide)
  | augmentedAssignmentExpression =>
    exact assignment_fills h (Inside.textOf_fills h hs (by decide)) hs (by decide)
  | unaryExpression => exact unaryExpression_fills h hs
  | updateExpression => exact updateExpression_fills h hs
  | ternaryExpression => exact conditionalExpression_fills h hs
  | awaitExpression => exact .node (.cons (.one (Inside.first_fills h hs rfl)) .nil)
  | yieldExpression => exact .node (.cons (Inside.firstOrNull_fills h) (.cons (.value _) .nil))
  | metaProperty => exact metaProperty_fills h
  | memberExpression | subscriptExpression | callExpression | binaryExpression =>
    exact chain_fills h (congrArg (fun s : Symbol => s.operandField?.isSome) hs)
  | _ => exact opaqueNode_fills h

end

/-! ## Conversions -/

theorem exists_convert {p : Parsed} (h : p.Ready src) (inObject : Bool) :
    ∃ n, convert src p inObject = .ok n := by
  induction hp : sizeOf p using Nat.strongRecOn generalizing p inObject with
  | ind size ih =>
    rw [convert_eq]
    refine template_fills (x := p.inside) h inObject _ fun q ready => ?_
    exact ih _ (hp ▸ q.lt) ready q.inObject rfl

end Conversion

/-- A parse that is complete and readable has a tree. -/
theorem Parsed.exists_toTree {root : Parsed} (program : root.symbol = .program)
    (shaped : root.IsShaped) (complete : root.IsComplete) {src : Source}
    (readable : root.IsReadable src) : ∃ tree, root.toTree src = .ok tree := by
  have ready : root.Ready src :=
    ⟨shaped, complete, readable, by
      simp [hasNeeds, program, Symbol.neededFields, Symbol.optionalFields, Symbol.neededWords,
        Symbol.needsPart]⟩
  obtain ⟨n, hn⟩ := Conversion.exists_convert ready false
  exact ⟨n.numbered, by rw [toTree, hn]; rfl⟩

end FreeNames
