import Mathlib
import FreeNames.Conversion.Table
import FreeNames.Proofs.Conversion.Chains
import FreeNames.Proofs.Conversion.Expressions
import FreeNames.Proofs.Conversion.Functions
import FreeNames.Proofs.Conversion.Statements
import FreeNames.Proofs.Conversion.Success

/-!
# Conversion keeps the variables of a parse

A parse that is as the grammar says, with nothing missing, has a tree, and every variable that
conversion looks at has a node in it: an identifier or `this` at its place.  The proof goes
through the table of templates, one symbol at a time: the template of a node that holds a
variable shows it (`template_shows`).  Filling turns that into a statement about conversions by
induction on the size of the parse.

* `Parsed.exists_node_of_mem_reads` is the main result, and `Parsed.IsSeen.exists_node` the same
  for all variables of a parse without the places that are passed over.
-/

namespace FreeNames

namespace Conversion

variable {w ℓ : Parsed} {src : Source} {x : Inside w} {setting : Setting}

/-! ## The table -/

/-- A node without a rule keeps all its parts, except for the name of an element of markup. -/
theorem opaqueNode_shows (h : x.parsed.Holds setting ℓ) (notCall : setting ≠ .importCall)
    {s : Symbol} (hs : x.parsed.symbol = s) (hv : s.isVariable = false) (object : s ≠ .object)
    (call : s ≠ .callExpression) : (opaqueNode x).Shows ℓ := by
  subst hs
  obtain ⟨c, hc, kept, holds, plain⟩ := h.exists_named hv
  have parts : ∃ q ∈ (if x.symbol.isTagged then
      x.parts.eraseP fun q => q.parsed.field = some "name"
      else x.parts), q.parsed = c := by
    rw [Parsed.kept, if_neg notCall] at kept
    have tagged : x.symbol.isTagged = x.parsed.symbol.isTagged := rfl
    rw [tagged]
    split at kept
    · next tag =>
      rw [← x.map_parsed_parts, List.eraseP_map] at kept
      rw [if_pos tag]
      exact List.mem_map.mp kept
    · next plain =>
      rw [← x.map_parsed_parts] at kept
      rw [if_neg plain]
      exact List.mem_map.mp (List.mem_filter.mp kept).1
  obtain ⟨q, hq, rfl⟩ := parts
  have mem : q ∈ x.parts := by
    split at hq
    · exact List.mem_of_mem_eraseP hq
    · exact hq
  have setting : x.parsed.settingOf q.parsed = q.setting :=
    Inside.settingOf_of_mem_parts mem (by simp [Parsed.isImportCall, call])
  rw [setting] at holds
  refine .inField "children" (List.mem_singleton_self _)
    (.holes (List.mem_filter.mpr ⟨hq, ?_⟩) ⟨holds, plain.resolve_left object⟩)
  exact (List.mem_filter.mp hc).2

/-- A variable is its own node. -/
theorem shows_of_isVariable (h : x.parsed.Holds setting ℓ) {s : Symbol}
    (hs : x.parsed.symbol = s) (hv : s.isVariable = true) {kind : Kind}
    (hk : kind = if s = .thisWord then .thisExpression else .identifier)
    (fields : List (String × Slot w)) : (Template.node kind x.span fields).Shows ℓ := by
  subst hs
  have mem := h.mem
  rw [Parsed.reads_of_isVariable hv, List.mem_singleton] at mem
  subst mem
  exact .self hk rfl

theorem shows_of_isConstant (h : x.parsed.Holds setting ℓ) {s : Symbol}
    (hs : x.parsed.symbol = s) (hc : s.isConstant = true) (t : Template w) : t.Shows ℓ := by
  subst hs
  rw [h.isConstant_eq_false] at hc
  cases hc

/-- The template of a node shows every variable that is to be kept of it. -/
theorem template_shows {inObject : Bool}
    (h : x.parsed.Holds (if inObject then .object else .plain) ℓ)
    (hn : x.symbol ≠ .shorthandPropertyIdentifier) : (template src inObject x).Shows ℓ := by
  have notCall : (if inObject then Setting.object else .plain) ≠ .importCall := by
    cases inObject <;> decide
  unfold template
  cases hs : x.symbol with
  | program => exact .inField "body" (by simp) (list_shows hs h rfl rfl)
  | expressionStatement => exact .inField "expression" (by simp) (.one (first_shows hs h rfl))
  | emptyStatement | debuggerStatement | superWord | privatePropertyIdentifier | trueWord
  | falseWord | nullWord | number | string | regex | metaProperty =>
    exact shows_of_isConstant h hs rfl _
  | statementBlock => exact .inField "body" (by simp) (list_shows hs h rfl rfl)
  | variableDeclaration => exact .inField "declarations" (by simp) (list_shows hs h rfl rfl)
  | lexicalDeclaration => exact lexicalDeclaration_shows h hs
  | variableDeclarator => exact variableDeclarator_shows h hs
  | ifStatement => exact ifStatement_shows h hs
  | switchStatement => exact switchStatement_shows h hs
  | switchCase => exact switchCase_shows h hs
  | switchDefault => exact switchDefault_shows h hs
  | forStatement => exact forStatement_shows h hs
  | forInStatement => exact forInStatement_shows h hs
  | whileStatement => exact whileStatement_shows h hs
  | doStatement => exact doWhileStatement_shows h hs
  | tryStatement => exact tryStatement_shows h hs
  | catchClause => exact catchClause_shows h hs
  | returnStatement => exact .inField "argument" (by simp) (firstOrNull_shows hs h rfl)
  | throwStatement => exact .inField "argument" (by simp) (.one (first_shows hs h rfl))
  | breakStatement => exact jumpStatement_shows h hs (Or.inl rfl) _
  | continueStatement => exact jumpStatement_shows h hs (Or.inr rfl) _
  | labeledStatement => exact labeledStatement_shows h hs
  | withStatement => exact withStatement_shows h hs
  | importStatement => exact importDeclaration_shows h hs notCall
  | importSpecifier => exact importSpecifier_shows h hs
  | exportStatement => exact exportStatement_shows h hs notCall
  | exportSpecifier => exact exportSpecifier_shows h hs
  | functionDeclaration | generatorFunctionDeclaration | functionExpression | olderFunction
  | generatorFunction => exact function_shows h hs (by decide) _
  | arrowFunction => exact arrowFunction_shows h hs
  | classDeclaration => exact classLike_shows h hs (Or.inl rfl) _
  | classExpression => exact classLike_shows h hs (Or.inr rfl) _
  | classBody => exact .inField "body" (by simp) (list_shows hs h rfl rfl)
  | methodDefinition => exact methodDefinition_shows h hs
  | fieldDefinition => exact fieldDefinition_shows h hs
  | classStaticBlock => exact staticBlock_shows h hs
  | decorator => exact .inField "expression" (by simp) (.one (first_shows hs h rfl))
  | objectPattern => exact objectPattern_shows h hs
  | arrayPattern => exact .inField "elements" (by simp) (elements_shows h hs rfl rfl)
  | assignmentPattern => exact assignmentPattern_shows h hs rfl rfl rfl
  | restPattern => exact .inField "argument" (by simp) (.one (first_shows hs h rfl))
  | identifier | shorthandPropertyIdentifierPattern | undefinedWord | thisWord =>
    exact shows_of_isVariable h hs rfl rfl _
  | templateString => exact templateLiteral_shows h hs
  | object => exact objectExpression_shows h hs
  | array => exact .inField "elements" (by simp) (elements_shows h hs rfl rfl)
  | spreadElement => exact .inField "argument" (by simp) (.one (first_shows hs h rfl))
  | parenthesizedExpression => exact first_shows hs h rfl
  | sequenceExpression => exact sequenceExpression_shows h hs
  | newExpression => exact newExpression_shows h hs
  | assignmentExpression => exact assignment_shows h hs rfl rfl rfl _
  | augmentedAssignmentExpression => exact assignment_shows h hs rfl rfl rfl _
  | unaryExpression => exact unaryExpression_shows h hs
  | updateExpression => exact updateExpression_shows h hs
  | ternaryExpression => exact conditionalExpression_shows h hs
  | awaitExpression => exact .inField "argument" (by simp) (.one (first_shows hs h rfl))
  | yieldExpression => exact .inField "argument" (by simp) (firstOrNull_shows hs h rfl)
  | memberExpression | subscriptExpression | callExpression | binaryExpression =>
    exact chain_shows h (congrArg (fun s : Symbol => s.operandField?.isSome) hs)
  | shorthandPropertyIdentifier => exact absurd hs hn
  | _ => exact opaqueNode_shows h notCall hs rfl nofun nofun

/-! ## Conversions -/

/-- The conversion of a node has a node for every variable that is to be kept of it. -/
theorem has_of_convert {p : Parsed} {inObject : Bool}
    (h : p.Holds (if inObject then .object else .plain) ℓ)
    (hn : p.symbol ≠ .shorthandPropertyIdentifier) {n : Node}
    (hc : convert src p inObject = .ok n) : n.Has ℓ.readKind ℓ.span := by
  induction hp : sizeOf p using Nat.strongRecOn generalizing p inObject n with
  | ind size ih =>
    rw [convert_eq] at hc
    have shows : (template src inObject p.inside).Shows ℓ := template_shows (x := p.inside) h hn
    -- the holes of the template are parts of the node, and so smaller than it
    refine shows.has_fill ?_ hc
    intro q covers m hm
    exact ih _ (hp ▸ q.lt) covers.toHolds covers.ne_shorthand hm rfl

end Conversion

variable {ℓ : Parsed}

theorem Parsed.Holds.exists_node {root : Parsed} (h : root.Holds .plain ℓ)
    (program : root.symbol = .program) {src : Source} {tree : Node}
    (converts : root.toTree src = .ok tree) :
    ∃ n ∈ tree.preorder, n.kind = ℓ.readKind ∧ n.span = ℓ.span := by
  rw [toTree] at converts
  cases hc : Conversion.convert src root false with
  | error f => rw [hc] at converts; cases converts
  | ok n =>
    rw [hc] at converts
    cases converts
    have holds : root.Holds (if false then .object else .plain) ℓ := h
    have has := Conversion.has_of_convert holds (by rw [program]; decide) hc
    exact has.numbered.exists_mem_preorder

/-- A parse that the grammar allows has a tree, and in it every variable that conversion looks at
has a node, at its place. -/
theorem Parsed.exists_node_of_mem_reads {root : Parsed} {src : Source}
    (program : root.symbol = .program) (shaped : root.IsShaped) (complete : root.IsComplete)
    (readable : root.IsReadable src) :
    ∃ tree, root.toTree src = .ok tree ∧
      ∀ ℓ ∈ root.reads .plain, ∃ n ∈ tree.preorder, n.kind = ℓ.readKind ∧ n.span = ℓ.span := by
  obtain ⟨tree, converts⟩ := exists_toTree program shaped complete readable
  refine ⟨tree, converts, fun ℓ mem => ?_⟩
  have holds : root.Holds .plain ℓ := ⟨shaped, mem⟩
  exact holds.exists_node program converts

/-- The parse of `@d export class A extends b {}`. -/
def decoratedExport : Parsed :=
  .mk .program true false false ⟨0, 30, 0, 0⟩ none
    [.mk .exportStatement true false false ⟨0, 30, 0, 0⟩ none
      [.mk .decorator true false false ⟨0, 2, 0, 0⟩ (some "decorator")
        [.mk (.other "@") false false false ⟨0, 1, 0, 0⟩ none [],
          .mk .identifier true false false ⟨1, 2, 0, 1⟩ none []],
        .mk (.other "export") false false false ⟨3, 9, 0, 3⟩ none [],
        .mk .classDeclaration true false false ⟨10, 30, 0, 10⟩ (some "declaration")
          [.mk (.other "class") false false false ⟨10, 15, 0, 10⟩ none [],
            .mk .identifier true false false ⟨16, 17, 0, 16⟩ (some "name") [],
            .mk .classHeritage true false false ⟨18, 27, 0, 18⟩ none
              [.mk (.other "extends") false false false ⟨18, 25, 0, 18⟩ none [],
                .mk .identifier true false false ⟨26, 27, 0, 26⟩ none []],
            .mk .classBody true false false ⟨28, 30, 0, 28⟩ (some "body")
              [.mk (.other "\x7b") false false false ⟨28, 29, 0, 28⟩ none [],
                .mk (.other "\x7d") false false false ⟨29, 30, 0, 29⟩ none []]]]]

def decoratedExportSource : Source := .ofString "@d export class A extends b \x7b\x7d"

theorem nodes_decoratedExport : decoratedExport.preorder.map (fun p => (p.symbol, p.span)) =
    [(.program, ⟨0, 30, 0, 0⟩), (.exportStatement, ⟨0, 30, 0, 0⟩), (.decorator, ⟨0, 2, 0, 0⟩),
      (.other "@", ⟨0, 1, 0, 0⟩), (.identifier, ⟨1, 2, 0, 1⟩), (.other "export", ⟨3, 9, 0, 3⟩),
      (.classDeclaration, ⟨10, 30, 0, 10⟩), (.other "class", ⟨10, 15, 0, 10⟩),
      (.identifier, ⟨16, 17, 0, 16⟩), (.classHeritage, ⟨18, 27, 0, 18⟩),
      (.other "extends", ⟨18, 25, 0, 18⟩), (.identifier, ⟨26, 27, 0, 26⟩),
      (.classBody, ⟨28, 30, 0, 28⟩), (.other "\x7b", ⟨28, 29, 0, 28⟩),
      (.other "\x7d", ⟨29, 30, 0, 29⟩)] := by
  cbv

theorem starts_decoratedExport :
    (decoratedExport.toTree decoratedExportSource).map
      (fun tree => tree.preorder.map fun n => n.span.start) = .ok [0, 0, 10, 16, 26, 28] := by
  cbv

/-- The name of the class and its superclass are kept. -/
theorem decoratedExport_keeps_reads :
    decoratedExport.symbol = .program ∧ decoratedExport.IsShaped ∧ decoratedExport.IsComplete ∧
      decoratedExport.IsReadable decoratedExportSource ∧
      (decoratedExport.reads .plain).map (fun ℓ => ℓ.span.start) = [16, 26] ∧
      ∃ tree, decoratedExport.toTree decoratedExportSource = .ok tree ∧
        ∀ ℓ ∈ decoratedExport.reads .plain,
          ∃ n ∈ tree.preorder, n.kind = ℓ.readKind ∧ n.span = ℓ.span := by
  have shaped : decoratedExport.IsShaped := Parsed.isShaped_iff.mpr (by cbv)
  have complete : decoratedExport.IsComplete := Parsed.isComplete_iff.mpr (by cbv)
  have readable : decoratedExport.IsReadable decoratedExportSource := by
    rw [Parsed.isReadable_iff, nodes_decoratedExport]
    decide
  exact ⟨rfl, shaped, complete, readable, by cbv,
    Parsed.exists_node_of_mem_reads rfl shaped complete readable⟩

/-! ## Parses without passed-over places -/

namespace Parsed

variable {setting : Setting} {p c ℓ : Parsed}

/-- The children of a node other than the name of an element of markup. -/
def visible (p : Parsed) : List Parsed :=
  if p.symbol.isTagged then p.children.eraseP fun c => c.field = some "name" else p.children

theorem mem_children_of_visible (h : c ∈ p.visible) : c ∈ p.children := by
  unfold visible at h
  split at h
  · exact List.mem_of_mem_eraseP h
  · exact h

/-- All variables in a node, whether conversion looks at them or not. -/
def variableLeaves (p : Parsed) : List Parsed :=
  if p.symbol.isVariable then [p] else p.visible.attach.flatMap fun c => c.1.variableLeaves
termination_by sizeOf p
decreasing_by exact sizeOf_lt_of_mem_children (mem_children_of_visible c.2)

theorem mem_variableLeaves (h : p.symbol.isVariable = false) :
    ℓ ∈ p.variableLeaves ↔ ∃ c ∈ p.visible, ℓ ∈ c.variableLeaves := by
  rw [variableLeaves, if_neg (by simp [h])]
  simp

/-- Conversion looks at all children of the node in this setting. -/
def looksAtAll (setting : Setting) (p : Parsed) : Bool :=
  if setting = .importCall then p.named.length ≤ 1
  else p.children.all fun c => !p.passesOver setting c

/-- Conversion looks at the whole parse. -/
structure IsSeen (root : Parsed) : Prop where
  top : root.looksAtAll .plain = true
  below : ∀ p ∈ root.preorder, ∀ c ∈ p.children, c.looksAtAll (p.settingOf c) = true

theorem mem_kept_of_looksAtAll (all : p.looksAtAll setting = true) (hc : c ∈ p.visible)
    (named : c ∈ p.named) : c ∈ p.kept setting := by
  rw [looksAtAll] at all
  rw [kept]
  split
  · next call =>
    rw [if_pos call, decide_eq_true_eq] at all
    rwa [List.take_of_length_le all]
  · next notCall =>
    rw [if_neg notCall] at all
    rw [visible] at hc
    split
    · next tagged => rwa [if_pos tagged] at hc
    · next plain =>
      rw [if_neg plain] at hc
      exact List.mem_filter.mpr ⟨hc, List.all_eq_true.mp all c hc⟩

/-- Where nothing is passed over, all variables are to be kept. -/
theorem mem_reads_of_mem_variableLeaves (shaped : p.IsShaped)
    (all : p.looksAtAll setting = true)
    (below : ∀ q ∈ p.preorder, ∀ c ∈ q.children, c.looksAtAll (q.settingOf c) = true)
    (h : ℓ ∈ p.variableLeaves) : ℓ ∈ p.reads setting := by
  induction hp : sizeOf p using Nat.strongRecOn generalizing p setting with
  | ind size ih =>
    cases hv : p.symbol.isVariable with
    | true =>
      rw [variableLeaves, if_pos hv] at h
      rwa [reads_of_isVariable hv]
    | false =>
      obtain ⟨c, hc, hℓ⟩ := (mem_variableLeaves hv).mp h
      have mem := mem_children_of_visible hc
      have hr : ℓ ∈ c.reads (p.settingOf c) :=
        ih _ (hp ▸ sizeOf_lt_of_mem_children mem) (shaped.child mem)
          (below p (self_mem_preorder p) c mem)
          (fun q hq => below q (mem_preorder_of_child mem hq)) hℓ rfl
      have token := isToken_of_mem_reads (shaped.child mem).fits hr
      simp only [isToken, Bool.or_eq_false_iff, Bool.not_eq_false'] at token
      have named : c ∈ p.named := List.mem_filter.mpr ⟨mem, by simp [token]⟩
      exact (mem_reads hv).mpr ⟨c, mem_kept_of_looksAtAll all hc named, hr⟩

/-- A parse at which conversion looks as a whole loses none of its variables. -/
theorem IsSeen.exists_node {root : Parsed} (seen : root.IsSeen) {src : Source}
    (program : root.symbol = .program) (shaped : root.IsShaped) (complete : root.IsComplete)
    (readable : root.IsReadable src) :
    ∃ tree, root.toTree src = .ok tree ∧
      ∀ ℓ ∈ root.variableLeaves, ∃ n ∈ tree.preorder, n.kind = ℓ.readKind ∧ n.span = ℓ.span := by
  obtain ⟨tree, converts⟩ := exists_toTree program shaped complete readable
  refine ⟨tree, converts, fun ℓ leaf => ?_⟩
  have holds : root.Holds .plain ℓ :=
    ⟨shaped, mem_reads_of_mem_variableLeaves shaped seen.top seen.below leaf⟩
  exact holds.exists_node program converts

end Parsed

/-- The decorator in front of the export is lost with its variable. -/
theorem decoratedExport_loses_decorator :
    1 ∈ decoratedExport.variableLeaves.map (fun ℓ => ℓ.span.start) ∧
      ∃ tree, decoratedExport.toTree decoratedExportSource = .ok tree ∧
        ∀ n ∈ tree.preorder, n.span.start ≠ 1 := by
  have starts := starts_decoratedExport
  refine ⟨by decide_cbv, ?_⟩
  cases converts : decoratedExport.toTree decoratedExportSource with
  | error f => rw [converts] at starts; cases starts
  | ok tree =>
    rw [converts] at starts
    have starts : (tree.preorder.map fun n => n.span.start) = [0, 0, 10, 16, 26, 28] :=
      Except.ok.inj starts
    refine ⟨tree, rfl, fun n hn same => ?_⟩
    have mem : 1 ∈ tree.preorder.map fun n => n.span.start := List.mem_map.mpr ⟨n, hn, same⟩
    rw [starts] at mem
    exact absurd mem (by decide)

end FreeNames
