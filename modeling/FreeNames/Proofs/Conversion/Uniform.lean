import FreeNames.Proofs.Conversion.Same
import FreeNames.Proofs.Conversion.Spine

/-!
# Every template is blind to variations

Every template of a node is the same as that of the node that a variation puts in its place.
There is one lemma for each form of template; those of chains and of sequences go along the
spine and down the nested sequences.

* `Conversion.template_same` goes through the table of templates.
* `Variation.convert_eq`: related parses have one conversion.
-/

namespace FreeNames.Conversion

variable {w w' : Parsed} {src : Source} {S : Parsed → Parsed → Prop} {x : Inside w}
  {x' : Inside w'} (V : Variation S) (h : x.Alike src S x')

open Template (FieldsSame)

include V h

/-! ## Statements -/

section Statements

theorem program_same : (program x).Same src (program x') :=
  .node (h.span V) (.field (h.holes_named V) (.field (.value _) .nil))

theorem expressionStatement_same : (expressionStatement x).Same src (expressionStatement x') :=
  .node (h.span V) (.field (.one (h.first V)) .nil)

theorem blockStatement_same : (blockStatement x).Same src (blockStatement x') :=
  .node (h.span V) (.field (h.holes_named V) .nil)

theorem variableDeclaration_same : (variableDeclaration x).Same src (variableDeclaration x') :=
  .node (h.span V) (.field (.value _) (.field (h.holes_named V) .nil))

theorem lexicalDeclaration_same (hs : x.symbol = .lexicalDeclaration) :
    (lexicalDeclaration src x).Same src (lexicalDeclaration src x') := by
  have declarators := h.plainNamed_filter V hs rfl fun s => s = .variableDeclarator
  exact .node (h.span V) (.field (h.textOf V hs "kind" rfl)
    (.field (.holes (declarators.imp fun _ _ alike => alike.2.1)) .nil))

theorem variableDeclarator_same : (variableDeclarator x).Same src (variableDeclarator x') :=
  .node (h.span V) (.field (h.convert V _) (.field (h.optional V _) .nil))

theorem ifStatement_same (hs : x.symbol = .ifStatement) :
    (ifStatement x).Same src (ifStatement x') := by
  refine .node (h.span V) (.field (h.convert V _).late (.field (h.convert V _).late
    (.field ?_ .nil)))
  obtain ⟨hq, hq'⟩ | ⟨q, q', hq, hq', -, alike⟩ := h.plainField?_cases V hs "alternative" rfl
  · rw [hq, hq']
    exact .value _
  · rw [hq, hq']
    exact .one (alike.first V)

theorem switchStatement_same (hs : x.symbol = .switchStatement) :
    (switchStatement x).Same src (switchStatement x') := by
  refine .node (h.span V) (.field (h.convert V _) (.field ?_ .nil))
  obtain ⟨hq, hq'⟩ | ⟨q, q', hq, hq', -, alike⟩ := h.plainField?_cases V hs "body" rfl
  · rw [hq, hq', h.lacking V]
    exact .fault _
  · rw [hq, hq']
    exact alike.holes_named V

theorem holes_fieldAll (name : String) :
    (Slot.holes (x.fieldAll name)).Same src (.holes (x'.fieldAll name)) :=
  .holes ((h.fieldAll V name).imp fun _ _ alike => alike.converts)

theorem switchCase_same : (switchCase x).Same src (switchCase x') :=
  .node (h.span V) (.field (h.convert V _) (.field (holes_fieldAll V h _) .nil))

theorem switchDefault_same : (switchDefault x).Same src (switchDefault x') :=
  .node (h.span V) (.field (.value _) (.field (holes_fieldAll V h _) .nil))

theorem loopClause_same (name : String) :
    (loopClause x name).Same src (loopClause x' name) := by
  rw [loopClause, loopClause]
  obtain ⟨hq, hq'⟩ | ⟨q, q', hq, hq', alike⟩ := h.field?_cases V name
  · rw [hq, hq']
    exact .value _
  · rw [hq, hq']
    have empty : q'.symbol = .emptyStatement ↔ q.symbol = .emptyStatement :=
      alike.child.symbol_eq_iff V rfl
    have wrapped : q'.symbol = .expressionStatement ↔ q.symbol = .expressionStatement :=
      alike.child.symbol_eq_iff V rfl
    simp only [alike.child.isNamed V, empty, wrapped]
    split
    · exact .value _
    split
    · next statement =>
      have out : x.parsed.expects q.parsed = false := by
        have : q.parsed.symbol = .expressionStatement := statement
        simp [Parsed.expects, this, Symbol.isNoExpression]
      exact .one ((alike.inside out).first V)
    · exact .hole alike.converts

theorem forStatement_same : (forStatement x).Same src (forStatement x') :=
  .node (h.span V) (.field (loopClause_same V h _) (.field (loopClause_same V h _)
    (.field (loopClause_same V h _) (.field (h.convert V _) .nil))))

/-- A declared left side stands in no parentheses, so its place is kept as well. -/
theorem loopTarget_same (hs : x.symbol = .forInStatement) :
    (loopTarget src x).Same src (loopTarget src x') := by
  rw [loopTarget, loopTarget]
  obtain ⟨hq, hq'⟩ | ⟨q, q', hq, hq', alike⟩ := h.field?_cases V "left"
  · rw [hq, hq', h.lacking V]
    exact .fault _
  rw [hq, hq']
  obtain ⟨hk, hk'⟩ | ⟨k, k', hk, hk', -, keyword⟩ := h.plainField?_cases V hs "kind" rfl
  · rw [hk, hk']
    exact .hole alike.converts
  rw [hk, hk']
  have declared : (x.parsed.field? "kind").isSome = true :=
    Option.isSome_of_eq_some (Inside.parsed_field? hk)
  have out : x.parsed.expects q.parsed = false := by
    have hp : x.parsed.symbol = .forInStatement := hs
    simp [Parsed.expects, Inside.field_eq_of_field? hq, Parsed.hasExpressionIn, hp, declared,
      Symbol.holdsExpressions]
  have span : q'.span = q.span := (alike.inside out).span V
  exact .one (.node span (.field (.late (.text (keyword.span V))) (.field (.many (.cons
    (.one (.node span (.field (.hole alike.converts) (.field (h.optional V _) .nil)))) .nil))
    .nil)))

theorem forInStatement_same (hs : x.symbol = .forInStatement) :
    (forInStatement src x).Same src (forInStatement src x') := by
  have head : FieldsSame src
      [("left", loopTarget src x), ("right", x.convert "right"), ("body", x.convert "body")]
      [("left", loopTarget src x'), ("right", x'.convert "right"), ("body", x'.convert "body")] :=
    .field (loopTarget_same V h hs) (.field (h.convert V _) (.field (h.convert V _) .nil))
  unfold forInStatement
  obtain ⟨hq, hq'⟩ | ⟨q, q', hq, hq', -, operator⟩ := h.plainField?_cases V hs "operator" rfl
  · simp only [hq, hq', h.lacking V]
    exact .fault _
  have span : q'.span = q.span := operator.span V
  simp only [hq, hq', span, h.hasToken V]
  split
  · exact .fault _
  split
  · exact .node (h.span V) (.field (.value _) head)
  · exact .node (h.span V) head

theorem whileStatement_same : (whileStatement x).Same src (whileStatement x') :=
  .node (h.span V) (.field (h.convert V _) (.field (h.convert V _) .nil))

theorem doWhileStatement_same : (doWhileStatement x).Same src (doWhileStatement x') :=
  .node (h.span V) (.field (h.convert V _) (.field (h.convert V _) .nil))

theorem tryStatement_same (hs : x.symbol = .tryStatement) :
    (tryStatement x).Same src (tryStatement x') := by
  refine .node (h.span V) (.field (h.convert V _).late (.field (h.optional V _).late
    (.field ?_ .nil)))
  obtain ⟨hq, hq'⟩ | ⟨q, q', hq, hq', -, alike⟩ := h.plainField?_cases V hs "finalizer" rfl
  · rw [hq, hq']
    exact .value _
  · rw [hq, hq']
    exact alike.convert V _

theorem catchClause_same : (catchClause x).Same src (catchClause x') := by
  refine .node (h.span V) (.field ?_ (.field (h.convert V _) .nil))
  obtain ⟨hq, hq'⟩ | ⟨q, q', hq, hq', alike⟩ := h.field?_cases V "parameter"
  · rw [hq, hq']
    exact .value _
  · rw [hq, hq']
    exact .hole alike.converts

theorem returnStatement_same : (returnStatement x).Same src (returnStatement x') :=
  .node (h.span V) (.field (h.firstOrNull V) .nil)

theorem throwStatement_same : (throwStatement x).Same src (throwStatement x') :=
  .node (h.span V) (.field (.one (h.first V)) .nil)

theorem jumpStatement_same {s : Symbol} (hs : x.symbol = s) (plain : s.isPlainIn "label" = true)
    (kind : Kind) : (jumpStatement src kind x).Same src (jumpStatement src kind x') :=
  .node (h.span V) (.field (identifierOrNull_same V h hs plain) .nil)

theorem labeledStatement_same (hs : x.symbol = .labeledStatement) :
    (labeledStatement src x).Same src (labeledStatement src x') :=
  .node (h.span V) (.field (identifierIn_same V h hs rfl) (.field (h.convert V _) .nil))

theorem withStatement_same : (withStatement x).Same src (withStatement x') :=
  .node (h.span V) (.field (h.convert V _) (.field (h.convert V _) .nil))

end Statements

/-! ## Imports and exports -/

section Modules

omit h in
theorem importSpecifiers_same {q : Part w} {q' : Part w'}
    (alike : q.inside.Alike src S q'.inside) :
    List.Forall₂ (Slot.Same src) (importSpecifiers src q) (importSpecifiers src q') := by
  have symbol : q'.symbol = q.symbol := alike.symbol V
  have span : q'.span = q.span := alike.span V
  rw [importSpecifiers, importSpecifiers, symbol]
  split
  · exact .cons (.one (.node span (.field (.one (identifier_same span)) .nil))) .nil
  · next hs =>
    refine .cons ?_ .nil
    have named := alike.plainNamed V (s := .namespaceImport) hs rfl
    cases hn : q.inside.named with
    | nil =>
      rw [hn] at named
      rw [List.forall₂_nil_left_iff.mp named, alike.lacking V]
      exact .fault _
    | cons r rs =>
      rw [hn] at named
      obtain ⟨r', rs', ⟨-, name⟩, -, hn'⟩ := List.forall₂_cons_left_iff.mp named
      rw [hn']
      exact .one (.node span (.field (.one (identifier_same (name.span V))) .nil))
  · next hs =>
    have specifiers := alike.plainNamed_filter V (s := .namedImports) hs rfl
      fun s => s = .importSpecifier
    rw [List.forall₂_map_left_iff, List.forall₂_map_right_iff]
    exact specifiers.imp fun _ _ specifier => .hole specifier.2.1
  · exact .nil

theorem importDeclaration_same (hs : x.symbol = .importStatement) :
    (importDeclaration src x).Same src (importDeclaration src x') := by
  refine .node (h.span V) (.field (.many ?_) (.field (h.convert V _) .nil))
  have clauses := h.plainNamed_filter V hs rfl fun s => s = .importClause
  refine List.rel_flatMap clauses fun c c' ⟨clause, _, alike⟩ => ?_
  have parts := alike.plainNamed V (of_decide_eq_true clause) rfl
  exact List.rel_flatMap parts fun q q' part => importSpecifiers_same V part.2

/-- Parts in the first of two fields, or else in the second. -/
theorem fieldOr_cases {s : Symbol} (hs : x.symbol = s) (name other : String)
    (plain : s.isPlainIn name = true) (plain' : s.isPlainIn other = true) :
    (fieldOr x name other = none ∧ fieldOr x' name other = none) ∨
      ∃ q q', fieldOr x name other = some q ∧ fieldOr x' name other = some q' ∧
        q.ConvertsLike src q' ∧ q.inside.Alike src S q'.inside := by
  rw [fieldOr, fieldOr]
  obtain ⟨hq, hq'⟩ | ⟨q, q', hq, hq', alike⟩ := h.plainField?_cases V hs name plain
  · rw [hq, hq']
    exact h.plainField?_cases V hs other plain'
  · rw [hq, hq']
    exact Or.inr ⟨q, q', rfl, rfl, alike⟩

theorem importSpecifier_same (hs : x.symbol = .importSpecifier) :
    (importSpecifier src x).Same src (importSpecifier src x') := by
  unfold importSpecifier
  rw [h.lacking V]
  obtain ⟨hq, hq'⟩ | ⟨q, q', hq, hq', converts, alike⟩ := h.plainField?_cases V hs "name" rfl
  · rw [hq, hq']
    exact .fault _
  obtain ⟨hr, hr'⟩ | ⟨r, r', hr, hr', -, localName⟩ :=
    fieldOr_cases V h hs "alias" "name" rfl rfl
  · rw [hq, hq', hr, hr']
    exact .fault _
  · rw [hq, hq', hr, hr']
    exact .node (h.span V) (.field (exportName_same V alike converts)
      (.field (.one (identifier_same (localName.span V))) .nil))

theorem exportSpecifier_same (hs : x.symbol = .exportSpecifier) :
    (exportSpecifier src x).Same src (exportSpecifier src x') := by
  unfold exportSpecifier
  rw [h.lacking V]
  obtain ⟨hq, hq'⟩ | ⟨q, q', hq, hq', converts, alike⟩ := h.plainField?_cases V hs "name" rfl
  · rw [hq, hq']
    exact .fault _
  obtain ⟨hr, hr'⟩ | ⟨r, r', hr, hr', exported⟩ :=
    fieldOr_cases V h hs "alias" "name" rfl rfl
  · rw [hq, hq', hr, hr']
    exact .fault _
  · rw [hq, hq', hr, hr']
    exact .node (h.span V) (.field (exportName_same V alike converts)
      (.field (exportName_same V exported.2 exported.1) .nil))

theorem exportAll_same {exported : Slot w} {exported' : Slot w'}
    (same : exported.Same src exported') : (exportAll exported x).Same src (exportAll exported' x') :=
  .node (h.span V) (.field same.late (.field (h.optional V _) .nil))

/-- The clause of an export is told by its symbol, which no expression has. -/
theorem exportClause_cases :
    let isClause {v : Parsed} (q : Part v) : Bool :=
      q.symbol = .exportClause || q.symbol = .namespaceExport
    (x.named.find? isClause = none ∧ x'.named.find? isClause = none) ∨
      ∃ q q', x.named.find? isClause = some q ∧ x'.named.find? isClause = some q' ∧
        isClause q = true ∧ q.inside.Alike src S q'.inside := by
  intro isClause
  have found := (Woven.of_exact (h.named V)).find? (f := isClause) (g := isClause)
    (fun q q' alike => by
      have names : q'.symbol = .exportClause ↔ q.symbol = .exportClause :=
        alike.child.symbol_eq_iff V rfl
      have all : q'.symbol = .namespaceExport ↔ q.symbol = .namespaceExport :=
        alike.child.symbol_eq_iff V rfl
      simp only [isClause, names, all]) fun _ => False.elim
  cases hq : x.named.find? isClause with
  | none =>
    cases hq' : x'.named.find? isClause with
    | none => exact Or.inl ⟨rfl, rfl⟩
    | some q' => rw [hq, hq'] at found; cases found
  | some q =>
    cases hq' : x'.named.find? isClause with
    | none => rw [hq, hq'] at found; cases found
    | some q' =>
      rw [hq, hq'] at found
      cases found with
      | some alike =>
        have clause := List.find?_some hq
        refine Or.inr ⟨q, q', rfl, rfl, clause, alike.inside ?_⟩
        simp only [isClause, Bool.or_eq_true, decide_eq_true_eq] at clause
        have told : q.parsed.symbol.isNoExpression = true := by
          rcases clause with e | e <;> rw [show q.parsed.symbol = _ from e] <;> rfl
        simp [Parsed.expects, told]

theorem exportNames_same : (exportNames src x).Same src (exportNames src x') := by
  unfold exportNames
  obtain ⟨hq, hq'⟩ | ⟨q, q', hq, hq', clause, alike⟩ := exportClause_cases V h
  · simp only [hq, hq']
    exact exportAll_same V h (.value _)
  have symbol : q'.symbol = q.symbol := alike.symbol V
  simp only [hq, hq', symbol]
  split
  · next hs =>
    have specifiers := alike.plainNamed_filter V (s := .exportClause) hs rfl
      fun s => s = .exportSpecifier
    exact .node (h.span V) (.field (.value _)
      (.field (.late (.holes (specifiers.imp fun _ _ both => both.2.1)))
        (.field (h.optional V _) .nil)))
  · next other =>
    have hs : q.symbol = .namespaceExport := by
      simpa [other] using clause
    refine exportAll_same V h ?_
    have named := alike.plainNamed V hs rfl
    cases hn : q.inside.named with
    | nil =>
      rw [hn] at named
      rw [List.forall₂_nil_left_iff.mp named]
      exact .value _
    | cons r rs =>
      rw [hn] at named
      obtain ⟨r', rs', ⟨converts, name⟩, -, hn'⟩ := List.forall₂_cons_left_iff.mp named
      rw [hn']
      exact exportName_same V name converts

/-- What an export gives as the default may stand in parentheses. -/
theorem exportDefault_same :
    (match fieldOr x "declaration" "value" with
      | some q => Slot.hole q
      | none => .fault (x.lacking "value")).Same src
    (match fieldOr x' "declaration" "value" with
      | some q => Slot.hole q
      | none => .fault (x'.lacking "value")) := by
  rw [fieldOr, fieldOr, h.lacking V]
  obtain ⟨hq, hq'⟩ | ⟨q, q', hq, hq', alike⟩ := h.field?_cases V "declaration"
  · rw [hq, hq']
    obtain ⟨hr, hr'⟩ | ⟨r, r', hr, hr', value⟩ := h.field?_cases V "value"
    · rw [hr, hr']
      exact .fault _
    · rw [hr, hr']
      exact .hole value.converts
  · rw [hq, hq']
    exact .hole alike.converts

theorem exportStatement_same : (exportStatement src x).Same src (exportStatement src x') := by
  unfold exportStatement
  rw [h.hasToken V]
  split
  · exact .build (h.span V) (.field (exportDefault_same V h).late .nil)
      (.cons (h.optional V _) .nil)
  obtain ⟨hq, hq'⟩ | ⟨q, q', hq, hq', alike⟩ := h.field?_cases V "declaration"
  · rw [hq, hq']
    exact exportNames_same V h
  · rw [hq, hq']
    exact .build (h.span V) (.field (.late (.hole alike.converts)) (.field (.many .nil)
      (.field (.value _) .nil))) (.cons (h.optional V _) .nil)

end Modules

/-! ## Functions and classes -/

section Functions

theorem parameters_same {s : Symbol} (hs : x.symbol = s) (plain : s.isPlainIn "parameters" = true) :
    (parameters x).Same src (parameters x') := by
  rw [parameters, parameters]
  obtain ⟨hq, hq'⟩ | ⟨q, q', hq, hq', -, alike⟩ := h.plainField?_cases V hs _ plain
  · rw [hq, hq']
    exact .many .nil
  · rw [hq, hq']
    exact alike.holes_named V

theorem functionFields_same {s : Symbol} (hs : x.symbol = s)
    (plain : s.isPlainIn "parameters" = true) :
    FieldsSame src (functionFields x) (functionFields x') := by
  rw [functionFields, functionFields, h.hasToken V, h.hasToken V]
  exact .field (parameters_same V h hs plain) (.field (h.convert V _)
    (.field (.value _) (.field (.value _) .nil)))

theorem function_same {s : Symbol} (hs : x.symbol = s) (name : s.isPlainIn "name" = true)
    (plain : s.isPlainIn "parameters" = true) (kind : Kind) :
    (function src kind x).Same src (function src kind x') :=
  .node (h.span V) (.field (identifierOrNull_same V h hs name) (functionFields_same V h hs plain))

/-- A body in parentheses is no block, and so is what stands in them. -/
theorem isBlock_eq :
    ((x'.field? "body").all fun q => q.symbol ≠ .statementBlock) =
      (x.field? "body").all fun q => q.symbol ≠ .statementBlock := by
  obtain ⟨hq, hq'⟩ | ⟨q, q', hq, hq', alike⟩ := h.field?_cases V "body"
  · rw [hq, hq']
    rfl
  · have block : q'.symbol = .statementBlock ↔ q.symbol = .statementBlock :=
      alike.child.symbol_eq_iff V rfl
    simp only [hq, hq', Option.all_some, ne_eq, block]

theorem arrowFunction_same (hs : x.symbol = .arrowFunction) :
    (arrowFunction src x).Same src (arrowFunction src x') := by
  rw [arrowFunction, arrowFunction, h.hasToken V, isBlock_eq V h]
  refine .node (h.span V) (.field (.value _) (.field ?_ (.field (h.convert V _)
    (.field (.value _) (.field (.value _) (.field (.value _) .nil))))))
  obtain ⟨hq, hq'⟩ | ⟨q, q', hq, hq', -, alike⟩ := h.plainField?_cases V hs "parameter" rfl
  · rw [hq, hq']
    exact parameters_same V h hs rfl
  · rw [hq, hq']
    exact .many (.cons (.one (identifier_same (alike.span V))) .nil)

/-- Decorators are told by their symbol, which no expression has. -/
theorem decorators_same : (decorators x).Same src (decorators x') := by
  have kept : List.Forall₂ (Part.Alike src S x) (x.named.filter fun q => q.symbol = .decorator)
      (x'.named.filter fun q => q.symbol = .decorator) :=
    List.rel_filter (fun q q' alike => by
      have decorator : q'.symbol = .decorator ↔ q.symbol = .decorator :=
        alike.child.symbol_eq_iff V rfl
      simp only [decorator]) (h.named V)
  exact .holes (kept.imp fun _ _ alike => alike.converts)

omit V h in
theorem forall₂_zipIdx {α β : Type} {R : α → β → Prop} {as : List α} {bs : List β}
    (related : List.Forall₂ R as bs) (n : Nat) :
    List.Forall₂ (fun a b => R a.1 b.1 ∧ b.2 = a.2) (as.zipIdx n) (bs.zipIdx n) := by
  induction related generalizing n with
  | nil => exact .nil
  | cons r _ ih => exact .cons ⟨r, rfl⟩ (ih (n + 1))

/-- The parts of some symbols, each in its turn. -/
theorem inTurn_same {s : Symbol} (hs : x.symbol = s) (plain : s.isPlain = true)
    (kept : Symbol → Bool) {f : Part w → Slot w} {g : Part w' → Slot w'}
    (each : ∀ q q', kept q.symbol = true → q.ConvertsLike src q' →
      q.inside.Alike src S q'.inside → (f q).Same src (g q')) :
    List.Forall₂ (Slot.Same src)
      ((x.named.zipIdx.filter fun q => kept q.1.symbol).map fun (q, n) => .turn n (f q))
      ((x'.named.zipIdx.filter fun q => kept q.1.symbol).map fun (q, n) => .turn n (g q)) := by
  have related := forall₂_zipIdx (h.plainNamed V hs plain) 0
  have filtered := Woven.of_exact related |>.filter (f := fun q => kept q.1.symbol)
    (g := fun q => kept q.1.symbol) fun q q' both =>
      congrArg kept (show q'.1.symbol = q.1.symbol from both.1.2.symbol V)
  have same := filtered.mem.map (f := fun q => Slot.turn q.2 (f q.1))
    (g := fun q => Slot.turn q.2 (g q.1)) (S := Slot.Same src) (M := fun _ => False)
    (fun q q' ⟨hq, _, both, index⟩ => by
      rw [index]
      exact .turn (each _ _ (List.mem_filter.mp hq).2 both.1 both.2) _) fun _ => id
  exact same.forall₂ fun _ _ => id

omit V h in
/-- The last of some slots, or null. -/
theorem getLast?_same {ss : List (Slot w)} {ss' : List (Slot w')}
    (same : List.Forall₂ (Slot.Same src) ss ss') :
    (ss.getLast?.getD .null).Same src (ss'.getLast?.getD .null) := by
  rw [← List.head?_reverse, ← List.head?_reverse]
  have reversed := List.rel_reverse same
  generalize ss.reverse = ls at reversed
  generalize ss'.reverse = ls' at reversed
  cases reversed with
  | nil => exact .value _
  | cons same _ => exact same

theorem classLike_same {s : Symbol} (hs : x.symbol = s) (plain : s.isPlain = true)
    (name : s.isPlainIn "name" = true) (kind : Kind) :
    (classLike src kind x).Same src (classLike src kind x') := by
  have decorators := inTurn_same V h hs plain (fun s => s = .decorator) (f := Slot.hole)
    (g := Slot.hole) fun q q' _ converts _ => .hole converts
  have heritages := inTurn_same V h hs plain (fun s => s = .classHeritage)
    (f := fun q => .one q.inside.first) (g := fun q => .one q.inside.first)
    fun q q' _ _ alike => .one (alike.first V)
  have length : x'.named.length = x.named.length := (h.named V).length_eq.symm
  unfold classLike
  rw [length]
  refine .build (h.span V) (.field (.many decorators) (.field
    (.turn (identifierOrNull_same V h hs name) _) (.field ?_ (.field
      (.turn (h.convert V _) _) .nil)))) ?_
  · exact getLast?_same heritages
  · rw [List.dropLast_eq_take, List.dropLast_eq_take, heritages.length_eq]
    exact List.forall₂_take _ heritages

theorem classBody_same : (classBody x).Same src (classBody x') :=
  .node (h.span V) (.field (h.holes_named V) .nil)

theorem methodRole_eq {q : Part w} {q' : Part w'} (alike : q.inside.Alike src S q'.inside) :
    methodRole src x' q' = methodRole src x q := by
  have symbol : q'.symbol = q.symbol := alike.symbol V
  have span : q'.span = q.span := alike.span V
  simp only [methodRole, h.hasToken V, symbol, span]

theorem methodFunction_same {s : Symbol} (hs : x.symbol = s)
    (plain : s.isPlainIn "parameters" = true) :
    (methodFunction x).Same src (methodFunction x') :=
  .node (h.span V) (.field (.value _) (functionFields_same V h hs plain))

theorem methodDefinition_same (hs : x.symbol = .methodDefinition) (inObject : Bool) :
    (methodDefinition src inObject x).Same src (methodDefinition src inObject x') := by
  unfold methodDefinition
  obtain ⟨hq, hq'⟩ | ⟨q, q', hq, hq', converts, alike⟩ := h.plainField?_cases V hs "name" rfl
  · rw [hq, hq', h.lacking V]
    exact .fault _
  have key := propertyKey_same V alike converts
  have function := methodFunction_same V h hs rfl
  rw [hq, hq']
  simp only [methodRole_eq V h alike, isComputedKey_eq V alike, h.hasToken V]
  split
  · exact .build (h.span V) (.field key (.field (.one function) (.field (.value _)
      (.field (.value _) (.field (.value _) (.field (.value _) .nil))))))
      (.cons (decorators_same V h).late .nil)
  · exact .node (h.span V) (.field (decorators_same V h).late (.field key (.field (.value _)
      (.field (.one function) (.field (.value _) (.field (.value _) .nil))))))

theorem fieldDefinition_same (hs : x.symbol = .fieldDefinition) :
    (fieldDefinition src x).Same src (fieldDefinition src x') := by
  unfold fieldDefinition
  rw [h.hasToken V, h.lacking V]
  obtain ⟨hq, hq'⟩ | ⟨q, q', hq, hq', converts, alike⟩ := h.plainField?_cases V hs "property" rfl
  · rw [hq, hq']
    exact .node (h.span V) (.field (decorators_same V h) (.field (.fault _) (.field (.value _)
      (.field (h.optional V _) (.field (.value _) .nil)))))
  · simp only [hq, hq', Option.any_some, isComputedKey_eq V alike]
    exact .node (h.span V) (.field (decorators_same V h)
      (.field (propertyKey_same V alike converts) (.field (.value _)
        (.field (h.optional V _) (.field (.value _) .nil)))))

theorem staticBlock_same (hs : x.symbol = .classStaticBlock) :
    (staticBlock x).Same src (staticBlock x') := by
  refine .node (h.span V) (.field ?_ .nil)
  obtain ⟨hq, hq'⟩ | ⟨q, q', hq, hq', -, alike⟩ := h.plainField?_cases V hs "body" rfl
  · rw [hq, hq', h.lacking V]
    exact .fault _
  · rw [hq, hq']
    exact alike.holes_named V

theorem decorator_same : (decorator x).Same src (decorator x') :=
  .node (h.span V) (.field (.one (h.first V)) .nil)

end Functions

/-! ## Patterns, objects and arrays -/

section Patterns

omit h in
theorem shorthand_same {q : Part w} {q' : Part w'} (alike : q.inside.Alike src S q'.inside)
    {value : Slot w} {value' : Slot w'} (same : value.Same src value') :
    (shorthand src q value).Same src (shorthand src q' value') :=
  .node (alike.span V) (.field (.one (identifier_same (alike.span V))) (.field same
    (.field (.value _) (.field (.value _) (.field (.value _) (.field (.value _) .nil))))))

omit h in
theorem pair_same {q : Part w} {q' : Part w'} (alike : q.inside.Alike src S q'.inside)
    {s : Symbol} (hs : q.symbol = s) (plain : s.isPlainIn "key" = true) :
    (pair src q).Same src (pair src q') := by
  unfold pair
  rw [alike.lacking V]
  obtain ⟨hk, hk'⟩ | ⟨k, k', hk, hk', converts, key⟩ := alike.plainField?_cases V hs "key" plain
  · rw [hk, hk']
    exact .fault _
  · simp only [hk, hk', isComputedKey_eq V key]
    exact .node (alike.span V) (.field (propertyKey_same V key converts) (.field (.value _)
      (.field (alike.convert V _) (.field (.value _) (.field (.value _)
        (.field (.value _) .nil))))))

theorem assignmentPattern_same : (assignmentPattern x).Same src (assignmentPattern x') :=
  .node (h.span V) (.field (h.convert V _) (.field (h.convert V _) .nil))

omit h in
/-- A name with a default stands in no parentheses; a pattern with one may. -/
theorem objectAssignment_same {q : Part w} {q' : Part w'}
    (alike : q.inside.Alike src S q'.inside) :
    (objectAssignment src q).Same src (objectAssignment src q') := by
  unfold objectAssignment
  rw [alike.lacking V]
  obtain ⟨hl, hl'⟩ | ⟨l, l', hl, hl', left⟩ := alike.field?_cases V "left"
  · rw [hl, hl']
    exact .fault _
  have short : l'.symbol = .shorthandPropertyIdentifierPattern ↔
      l.symbol = .shorthandPropertyIdentifierPattern := left.child.symbol_eq_iff V rfl
  simp only [hl, hl', short]
  split
  · next hs =>
    have out : q.inside.parsed.expects l.parsed = false := by
      have : l.parsed.symbol = .shorthandPropertyIdentifierPattern := hs
      simp [Parsed.expects, this, Symbol.isNoExpression]
    exact shorthand_same V (left.inside out) (.one (assignmentPattern_same V alike))
  · exact assignmentPattern_same V alike

omit h in
theorem patternEntry_same {q : Part w} {q' : Part w'} (converts : q.ConvertsLike src q')
    (alike : q.inside.Alike src S q'.inside) :
    (patternEntry src q).Same src (patternEntry src q') := by
  have symbol : q'.symbol = q.symbol := alike.symbol V
  rw [patternEntry, patternEntry, symbol]
  split
  · exact .one (shorthand_same V alike (.one (identifier_same (alike.span V))))
  · next hs => exact .one (pair_same V alike hs rfl)
  · exact .one (objectAssignment_same V alike)
  · exact .hole converts

omit h in
theorem objectEntry_same {q : Part w} {q' : Part w'} (converts : q.ConvertsLike src q')
    (alike : q.inside.Alike src S q'.inside) :
    (objectEntry src q).Same src (objectEntry src q') := by
  have symbol : q'.symbol = q.symbol := alike.symbol V
  rw [objectEntry, objectEntry, symbol]
  split
  · next hs => exact .one (pair_same V alike hs rfl)
  · exact .one (shorthand_same V alike (.one (identifier_same (alike.span V))))
  · exact .hole converts

theorem objectPattern_same (hs : x.symbol = .objectPattern) :
    (objectPattern src x).Same src (objectPattern src x') := by
  refine .node (h.span V) (.field (.many ?_) .nil)
  rw [List.forall₂_map_left_iff, List.forall₂_map_right_iff]
  exact (h.plainNamed V hs rfl).imp fun _ _ entry => patternEntry_same V entry.1 entry.2

theorem objectExpression_same (hs : x.symbol = .object) :
    (objectExpression src x).Same src (objectExpression src x') := by
  refine .node (h.span V) (.field (.many ?_) .nil)
  rw [List.forall₂_map_left_iff, List.forall₂_map_right_iff]
  exact (h.plainNamed V hs rfl).imp fun _ _ entry => objectEntry_same V entry.1 entry.2

omit V h in
/-- The elements of a list in brackets, with no regard to comments. -/
theorem elementsFrom_filter (expecting : Bool) (qs : List (Part w)) :
    elementsFrom expecting (qs.filter fun q => !q.symbol.isExtra) = elementsFrom expecting qs := by
  induction qs generalizing expecting with
  | nil => rfl
  | cons q qs ih =>
    cases hq : q.symbol.isExtra with
    | true => simp [elementsFrom, hq, ih]
    | false => simp [elementsFrom, hq, ih]

omit h in
/-- Brackets and commas are told by their symbols, which no expression has. -/
theorem elementsFrom_same {qs : List (Part w)} {qs' : List (Part w')}
    (related : List.Forall₂ (Part.Alike src S x) qs qs') (expecting : Bool) :
    List.Forall₂ (Slot.Same src) (elementsFrom expecting qs) (elementsFrom expecting qs') := by
  induction related generalizing expecting with
  | nil => exact .nil
  | @cons q q' _ _ alike _ ih =>
    have extra : q'.symbol.isExtra = q.symbol.isExtra := alike.child.isExtra V
    have opening : q'.symbol = .openBracket ↔ q.symbol = .openBracket :=
      alike.child.symbol_eq_iff V rfl
    have closing : q'.symbol = .closeBracket ↔ q.symbol = .closeBracket :=
      alike.child.symbol_eq_iff V rfl
    have comma : q'.symbol = .comma ↔ q.symbol = .comma := alike.child.symbol_eq_iff V rfl
    simp only [elementsFrom, extra, opening, closing, comma]
    split
    · exact ih expecting
    split
    · split
      · exact .cons (.value _) (ih true)
      · exact ih true
    · exact .cons (.hole alike.converts) (ih false)

theorem elements_same : (elements x).Same src (elements x') := by
  rw [elements, elements, ← elementsFrom_filter, ← elementsFrom_filter true x'.parts]
  exact .many (elementsFrom_same V (h.uncommented V) true)

theorem arrayPattern_same : (arrayPattern x).Same src (arrayPattern x') :=
  .node (h.span V) (.field (elements_same V h) .nil)

theorem arrayExpression_same : (arrayExpression x).Same src (arrayExpression x') :=
  .node (h.span V) (.field (elements_same V h) .nil)

theorem restElement_same : (restElement x).Same src (restElement x') :=
  .node (h.span V) (.field (.one (h.first V)) .nil)

theorem spreadElement_same : (spreadElement x).Same src (spreadElement x') :=
  .node (h.span V) (.field (.one (h.first V)) .nil)

end Patterns

/-! ## Expressions -/

section Expressions

theorem wordLiteral_same (v : Value) (raw : String) :
    (wordLiteral v raw x).Same src (wordLiteral v raw x') :=
  .node (h.span V) (.field (.value _) (.field (.value _) .nil))

theorem numberLiteral_same : (numberLiteral src x).Same src (numberLiteral src x') := by
  unfold numberLiteral
  rw [h.span V]
  split
  · exact .fault _
  split
  · exact .node rfl (.field (.value _) (.field (.value _) .nil))
  · exact .fault _

theorem stringLiteral_same : (stringLiteral src x).Same src (stringLiteral src x') := by
  unfold stringLiteral
  rw [h.span V]
  split
  · exact .fault _
  · exact .node rfl (.field (.value _) (.field (.value _) .nil))

theorem textOrEmpty?_eq {s : Symbol} (hs : x.symbol = s) {name : String}
    (plain : s.isPlainIn name = true) : textOrEmpty? src x' name = textOrEmpty? src x name := by
  rw [textOrEmpty?, textOrEmpty?]
  obtain ⟨hq, hq'⟩ | ⟨q, q', hq, hq', -, alike⟩ := h.plainField?_cases V hs name plain
  · rw [hq, hq']
  · have span : q'.span = q.span := alike.span V
    rw [hq, hq']
    simp only [span]

theorem regexLiteral_same (hs : x.symbol = .regex) :
    (regexLiteral src x).Same src (regexLiteral src x') := by
  unfold regexLiteral
  rw [textOrEmpty?_eq V h hs rfl, textOrEmpty?_eq V h hs rfl]
  split
  · exact .node (h.span V) (.field (.value _) (.field (.text (h.span V)) (.field (.value _) .nil)))
  · exact .fault _

theorem templateLiteral_same (hs : x.symbol = .templateString) :
    (templateLiteral src x).Same src (templateLiteral src x') := by
  have pieces := inTurn_same V h hs rfl
    (fun s => decide (s = .templateSubstitution) = false)
    (f := fun q => .one (.node .templateElement q.span [("raw", .text src q.span)]))
    (g := fun q => .one (.node .templateElement q.span [("raw", .text src q.span)]))
    fun q q' _ _ alike => .one (.node (alike.span V) (.field (.text (alike.span V)) .nil))
  have expressions := inTurn_same V h hs rfl
    (fun s => decide (s = .templateSubstitution) = true)
    (f := fun q => .one q.inside.first) (g := fun q => .one q.inside.first)
    fun q q' _ _ alike => .one (alike.first V)
  exact .node (h.span V) (.field (.many pieces) (.field (.many expressions) .nil))

theorem metaProperty_same : (metaProperty src x).Same src (metaProperty src x') := by
  unfold metaProperty
  rw [h.span V]
  split
  · exact .fault _
  · exact .node rfl (.field (.one (.node rfl (.field (.value _) .nil)))
      (.field (.one (.node rfl (.field (.value _) .nil))) .nil))

theorem newExpression_same (hs : x.symbol = .newExpression) :
    (newExpression x).Same src (newExpression x') := by
  refine .node (h.span V) (.field (h.convert V _) (.field ?_ .nil))
  obtain ⟨hq, hq'⟩ | ⟨q, q', hq, hq', -, alike⟩ := h.plainField?_cases V hs "arguments" rfl
  · rw [hq, hq']
    exact .many .nil
  · rw [hq, hq']
    exact alike.holes_named V

theorem assignment_same {operator : Slot w} {operator' : Slot w'}
    (same : operator.Same src operator') :
    (assignment operator x).Same src (assignment operator' x') :=
  .node (h.span V) (.field same (.field (h.convert V _) (.field (h.convert V _) .nil)))

theorem unaryExpression_same (hs : x.symbol = .unaryExpression) :
    (unaryExpression src x).Same src (unaryExpression src x') :=
  .node (h.span V) (.field (h.textOf V hs "operator" rfl) (.field (.value _)
    (.field (h.convert V _) .nil)))

/-- The operand stays on its side of the operator.  Without an operator there is no node. -/
theorem updateExpression_same (hs : x.symbol = .updateExpression) :
    (updateExpression src x).Same src (updateExpression src x') := by
  unfold updateExpression
  obtain ⟨ho, ho'⟩ | ⟨o, o', ho, ho', -, operator⟩ := h.plainField?_cases V hs "operator" rfl
  · have faulty : ∀ {v : Parsed} {y : Inside v} {fields : List (String × Slot v)},
        y.field? "operator" = none → Template.FailsWith (Part.converted src)
          (y.lacking "operator") (("operator", y.textOf src "operator") :: fields) := by
      intro v y fields hy
      rw [Inside.textOf, hy]
      exact .here rfl
    rw [Template.Same, (faulty ho).fill, (faulty ho').fill, h.lacking V]
  have start : o'.span.start = o.span.start := congrArg Span.start (operator.span V)
  refine .node (h.span V) (.field (h.textOf V hs "operator" rfl) (.field ?_
    (.field (h.convert V _) .nil)))
  obtain ⟨ha, ha'⟩ | ⟨a, a', ha, ha', argument⟩ := h.field?_cases V "argument"
  · simp only [ho, ho', ha, ha', Option.map_some, Option.getD_some, start]
    exact .value _
  have side : o.span.start < a'.span.start ↔ o.span.start < a.span.start := by
    cases argument.child with
    | same related => rw [show a'.span = a.span from V.span related]
    | wrapped _ _ _ _ _ _ kept => exact kept hs o.parsed (Inside.parsed_field? ho)
  simp only [ho, ho', ha, ha', Option.map_some, Option.getD_some, start, side]
  exact .value _

theorem conditionalExpression_same :
    (conditionalExpression x).Same src (conditionalExpression x') :=
  .node (h.span V) (.field (h.convert V _) (.field (h.convert V _) (.field (h.convert V _) .nil)))

theorem awaitExpression_same : (awaitExpression x).Same src (awaitExpression x') :=
  .node (h.span V) (.field (.one (h.first V)) .nil)

theorem yieldExpression_same : (yieldExpression x).Same src (yieldExpression x') := by
  rw [yieldExpression, yieldExpression, h.hasToken V]
  exact .node (h.span V) (.field (h.firstOrNull V) (.field (.value _) .nil))

omit h in
/-- A sequence directly in a sequence stands in no parentheses, and no other part of it becomes
one in parentheses. -/
theorem nested_iff (hs : x.symbol = .sequenceExpression) {q : Part w} {q' : Part w'}
    (alike : Part.Alike src S x q q') :
    q'.symbol = .sequenceExpression ↔ q.symbol = .sequenceExpression := by
  have hp : x.parsed.symbol = .sequenceExpression := hs
  cases alike.child with
  | same related => rw [show q'.symbol = q.symbol from V.symbol related]
  | wrapped expects symbol =>
    rw [show q'.symbol = .parenthesizedExpression from symbol]
    refine ⟨fun e => (by cases e), fun e => ?_⟩
    have hq : q.parsed.symbol = .sequenceExpression := e
    cases hf : q.parsed.field <;> simp [Parsed.expects, Parsed.hasExpressionIn, hp, hq, hf,
      Symbol.expressionFields] at expects

omit V h in
/-- Alike sequences that wait to be taken apart. -/
abbrev PendingAlike (src : Source) (S : Parsed → Parsed → Prop) (pending : List (Inside w))
    (pending' : List (Inside w')) : Prop :=
  List.Forall₂ (fun y y' => y.symbol = .sequenceExpression ∧ y.Alike src S y') pending pending'

theorem nestedSequences_alike (hs : x.symbol = .sequenceExpression) :
    PendingAlike src S (nestedSequences x) (nestedSequences x') := by
  have kept := (Woven.of_exact (h.named V)).filter (f := fun q => q.symbol = .sequenceExpression)
    (g := fun q => q.symbol = .sequenceExpression) fun q q' alike => by
      simp only [nested_iff V hs alike]
  have inside := kept.mem.map (f := Part.inside) (g := Part.inside)
    (S := fun y y' => y.symbol = .sequenceExpression ∧ y.Alike src S y')
    (M := fun _ => False) (fun q q' ⟨hq, _, alike⟩ => by
      have nested : q.parsed.symbol = .sequenceExpression :=
        of_decide_eq_true (List.mem_filter.mp hq).2
      have hp : x.parsed.symbol = .sequenceExpression := hs
      refine ⟨nested, alike.inside ?_⟩
      cases hf : q.parsed.field <;> simp [Parsed.expects, Parsed.hasExpressionIn, hp, nested, hf,
        Symbol.expressionFields]) fun _ => id
  rw [PendingAlike, nestedSequences, nestedSequences]
  exact List.rel_reverse (inside.forall₂ fun _ _ => id)

omit h in
theorem sequenceParts_alike {pending : List (Inside w)} {pending' : List (Inside w')}
    (related : PendingAlike src S pending pending') :
    List.Forall₂ (Part.ConvertsLike src) (sequenceParts pending) (sequenceParts pending') := by
  induction pending using sequenceParts.induct generalizing pending' with
  | case1 =>
    rw [List.forall₂_nil_left_iff.mp related, sequenceParts, sequenceParts]
    exact .nil
  | case2 y pending ih =>
    obtain ⟨y', rest', ⟨hs, alike⟩, rest, rfl⟩ := List.forall₂_cons_left_iff.mp related
    rw [sequenceParts, sequenceParts]
    have others := List.rel_filter (p := fun q => q.symbol ≠ .sequenceExpression)
      (q := fun q => q.symbol ≠ .sequenceExpression)
      (fun q q' part => by simp [nested_iff V hs part]) (alike.named V)
    exact List.rel_append (others.imp fun _ _ part => part.converts)
      (ih (List.rel_append (nestedSequences_alike V alike hs) rest))

theorem sequenceExpression_same (hs : x.symbol = .sequenceExpression) :
    (sequenceExpression x).Same src (sequenceExpression x') :=
  .node (h.span V) (.field (.holes (sequenceParts_alike V (.cons ⟨hs, h⟩ .nil))) .nil)

end Expressions

/-! ## Chains -/

section Chains

/-- The operands of alike links: none, or parts in one place. -/
theorem chainOperand_cases :
    (∃ f, chainOperand x = .error f ∧ chainOperand x' = .error f) ∨
    (chainOperand x = .ok none ∧ chainOperand x' = .ok none) ∨
      ∃ q q', chainOperand x = .ok (some q) ∧ chainOperand x' = .ok (some q') ∧
        q ∈ x.parts ∧ Part.Alike src S x q q' := by
  have bound : ∀ {q}, chainOperand x = .ok (some q) → q ∈ x.parts := mem_parts_of_chainOperand
  unfold chainOperand at bound ⊢
  rw [h.symbol V]
  split
  · obtain ⟨hq, hq'⟩ | ⟨q, q', hq, hq', alike⟩ := h.field?_cases V "function"
    · rw [hq, hq', h.lacking V]
      exact Or.inl ⟨_, rfl, rfl⟩
    · have word : q'.symbol = .importWord ↔ q.symbol = .importWord :=
        alike.child.symbol_eq_iff V rfl
      simp only [hq, hq', word]
      split
      · exact Or.inr (Or.inl ⟨rfl, rfl⟩)
      · exact Or.inr (Or.inr ⟨q, q', rfl, rfl, Inside.mem_parts_of_field? hq, alike⟩)
  · cases hf : x.symbol.operandField? with
    | none => exact Or.inr (Or.inl ⟨rfl, rfl⟩)
    | some name =>
      obtain ⟨hq, hq'⟩ | ⟨q, q', hq, hq', alike⟩ := h.field?_cases V name
      · exact Or.inr (Or.inl ⟨congrArg Except.ok hq, congrArg Except.ok hq'⟩)
      · exact Or.inr (Or.inr ⟨q, q', congrArg Except.ok hq, congrArg Except.ok hq',
          Inside.mem_parts_of_field? hq, alike⟩)

theorem isLogical_eq (hs : x.symbol = .binaryExpression) : isLogical src x' = isLogical src x := by
  rw [isLogical, isLogical]
  obtain ⟨hq, hq'⟩ | ⟨q, q', hq, hq', -, alike⟩ := h.plainField?_cases V hs "operator" rfl
  · rw [hq, hq']
    rfl
  · have span : q'.span = q.span := alike.span V
    rw [hq, hq', Option.bind_some, Option.bind_some, span]

omit V h in
/-- Templates for the operands of two links: none, or two that are the same. -/
inductive OperandSame (src : Source) : Option (Template w) → Option (Template w') → Prop
  | none : OperandSame src none none
  | some {t : Template w} {t' : Template w'} : t.Same src t' → OperandSame src (some t) (some t')

omit V h in
theorem OperandSame.slot {o : Option (Template w)} {o' : Option (Template w')}
    (operand : OperandSame src o o') : (operandSlot o).Same src (operandSlot o') := by
  cases operand with
  | none => exact .value _
  | some same => exact .one same

theorem isSome_field?_eq (name : String) :
    (x'.field? name).isSome = (x.field? name).isSome := by
  obtain ⟨hq, hq'⟩ | ⟨q, q', hq, hq', -⟩ := h.field?_cases V name <;> rw [hq, hq'] <;> rfl

theorem callTemplate_same (hs : x.symbol = .callExpression) {o : Option (Template w)}
    {o' : Option (Template w')} (operand : OperandSame src o o') :
    (callTemplate x o).Same src (callTemplate x' o') := by
  unfold callTemplate
  obtain ⟨hq, hq'⟩ | ⟨q, q', hq, hq', converts, alike⟩ :=
    h.plainField?_cases V hs "arguments" rfl
  · simp only [hq, hq', h.lacking V, isSome_field?_eq V h]
    cases operand with
    | none => exact .node (h.span V) (.field (.fault _) .nil)
    | some same =>
      exact .node (h.span V) (.field (.one same) (.field (.fault _) (.field (.value _) .nil)))
  · have symbol : q'.symbol = q.symbol := alike.symbol V
    simp only [hq, hq', Option.any_some, symbol, isSome_field?_eq V h]
    cases operand with
    | none => exact .node (h.span V) (.field (alike.firstOrNull V) .nil)
    | some same =>
      simp only
      split
      · exact .node (h.span V) (.field (.one same) (.field (.hole converts) .nil))
      · exact .node (h.span V) (.field (.one same) (.field (alike.holes_named V)
          (.field (.value _) .nil)))

theorem binaryTemplate_same (hs : x.symbol = .binaryExpression) {o : Option (Template w)}
    {o' : Option (Template w')} (operand : OperandSame src o o') :
    (binaryTemplate src x o).Same src (binaryTemplate src x' o') := by
  rw [binaryTemplate, binaryTemplate, isLogical_eq V h hs]
  exact .node (h.span V) (.field (h.textOf V hs "operator" rfl).late (.field operand.slot
    (.field (h.convert V _).late .nil)))

theorem linkTemplate_same (link : x.symbol.operandField?.isSome = true)
    {o : Option (Template w)} {o' : Option (Template w')} (operand : OperandSame src o o') :
    (linkTemplate src x o).Same src (linkTemplate src x' o') := by
  unfold linkTemplate
  rw [h.symbol V, isSome_field?_eq V h]
  rcases Symbol.eq_of_isLink link with hs | hs | hs | hs <;> simp only [hs]
  · refine .node (h.span V) (.field operand.slot (.field ?_ (.field (.value _)
      (.field (.value _) .nil))))
    obtain ⟨hq, hq'⟩ | ⟨q, q', hq, hq', converts, alike⟩ :=
      h.plainField?_cases V hs "property" rfl
    · rw [hq, hq', h.lacking V]
      exact .fault _
    · rw [hq, hq']
      exact propertyKey_same V alike converts
  · exact .node (h.span V) (.field operand.slot (.field (h.convert V _) (.field (.value _)
      (.field (.value _) .nil))))
  · exact callTemplate_same V h hs operand
  · exact binaryTemplate_same V h hs operand

omit V h in
theorem template_of_isLink (link : x.symbol.operandField?.isSome = true) {inObject : Bool} :
    template src inObject x = chain src x := by
  unfold template
  rcases Symbol.eq_of_isLink link with hs | hs | hs | hs <;> rw [hs]

/-- A node is alike to itself, wherever it is seen from. -/
theorem alike_self {q : Part w} (hq : q ∈ x.parts) :
    q.inside.Alike src S q.parsed.inside :=
  ⟨V.refl q.parsed, fun smaller =>
    h.below (Nat.lt_trans smaller (Inside.sizeOf_lt_of_mem_parts hq))⟩

/-- The chains of alike links, by induction along the first one.  Where parentheses cut the
second chain, the rest of the first one is what stands in them. -/
theorem chain_same (link : x.symbol.operandField?.isSome = true) :
    (chain src x).Same src (chain src x') := by
  induction hsize : sizeOf x.parsed using Nat.strongRecOn generalizing w w' with
  | ind size ih =>
    obtain ⟨f, ho, ho'⟩ | ⟨ho, ho'⟩ | ⟨q, q', ho, ho', hq, alike⟩ := chainOperand_cases V h
    · rw [chain_of_error ho, chain_of_error ho']
      exact .fault f
    · rw [chain_of_none ho, chain_of_none ho']
      exact linkTemplate_same V h link .none
    have smaller : sizeOf q.parsed < size := hsize ▸ Inside.sizeOf_lt_of_mem_parts hq
    rw [Template.Same, fill_chain ho, fill_chain ho']
    refine linkTemplate_same V h link (.some ?_)
    cases alike.child with
    | same related =>
      rw [operandTemplate, operandTemplate, show q'.symbol = q.symbol from V.symbol related]
      split
      · next inner => exact ih _ smaller ⟨related, alike.below⟩ inner rfl
      · exact .hole alike.converts
    | wrapped _ symbol =>
      have cut : operandTemplate src q' = .hole q' := by
        rw [operandTemplate, show q'.symbol = .parenthesizedExpression from symbol]
        rfl
      rw [cut, operandTemplate]
      split
      · next inner =>
        have self := ih _ smaller (alike_self V h hq) inner rfl
        rw [Template.Same, Template.fill, Part.converted, alike.converts, convert_eq,
          template_of_isLink (x := q.parsed.inside) inner]
        exact self
      · exact .hole alike.converts

end Chains

/-! ## The table -/

section Table

theorem opaqueNode_same : (opaqueNode x).Same src (opaqueNode x') := by
  unfold opaqueNode
  rw [h.symbol V]
  refine .node (h.span V) (.field (.holes ?_) .nil)
  split
  · have woven := (h.parts V).eraseP (f := fun q => q.parsed.field = some "name")
      (g := fun q => q.parsed.field = some "name") (fun q q' alike => by rw [alike.child.field])
      fun q' remark => by simp [remark.2.2]
    exact (Inside.Alike.filter_named V woven).imp fun _ _ alike => alike.converts
  · exact (h.named V).imp fun _ _ alike => alike.converts

/-- Alike places have the same template. -/
theorem template_same (inObject : Bool) :
    (template src inObject x).Same src (template src inObject x') := by
  unfold template
  rw [h.symbol V]
  cases hs : x.symbol with
  | program => exact program_same V h
  | expressionStatement => exact expressionStatement_same V h
  | emptyStatement | debuggerStatement | thisWord | superWord => exact .node (h.span V) .nil
  | statementBlock => exact blockStatement_same V h
  | variableDeclaration => exact variableDeclaration_same V h
  | lexicalDeclaration => exact lexicalDeclaration_same V h hs
  | variableDeclarator => exact variableDeclarator_same V h
  | ifStatement => exact ifStatement_same V h hs
  | switchStatement => exact switchStatement_same V h hs
  | switchCase => exact switchCase_same V h
  | switchDefault => exact switchDefault_same V h
  | forStatement => exact forStatement_same V h
  | forInStatement => exact forInStatement_same V h hs
  | whileStatement => exact whileStatement_same V h
  | doStatement => exact doWhileStatement_same V h
  | tryStatement => exact tryStatement_same V h hs
  | catchClause => exact catchClause_same V h
  | returnStatement => exact returnStatement_same V h
  | throwStatement => exact throwStatement_same V h
  | breakStatement | continueStatement => exact jumpStatement_same V h hs rfl _
  | labeledStatement => exact labeledStatement_same V h hs
  | withStatement => exact withStatement_same V h
  | importStatement => exact importDeclaration_same V h hs
  | importSpecifier => exact importSpecifier_same V h hs
  | exportStatement => exact exportStatement_same V h
  | exportSpecifier => exact exportSpecifier_same V h hs
  | functionDeclaration | generatorFunctionDeclaration | functionExpression | olderFunction
  | generatorFunction => exact function_same V h hs rfl rfl _
  | arrowFunction => exact arrowFunction_same V h hs
  | classDeclaration | classExpression => exact classLike_same V h hs rfl rfl _
  | classBody => exact classBody_same V h
  | methodDefinition => exact methodDefinition_same V h hs inObject
  | fieldDefinition => exact fieldDefinition_same V h hs
  | classStaticBlock => exact staticBlock_same V h hs
  | decorator => exact decorator_same V h
  | objectPattern => exact objectPattern_same V h hs
  | arrayPattern => exact arrayPattern_same V h
  | assignmentPattern => exact assignmentPattern_same V h
  | restPattern => exact restElement_same V h
  | identifier | shorthandPropertyIdentifierPattern => exact identifier_same (h.span V)
  | undefinedWord => exact .node (h.span V) (.field (.value _) .nil)
  | privatePropertyIdentifier => exact privateName_same (h.span V)
  | trueWord | falseWord | nullWord => exact wordLiteral_same V h _ _
  | number => exact numberLiteral_same V h
  | string => exact stringLiteral_same V h
  | regex => exact regexLiteral_same V h hs
  | templateString => exact templateLiteral_same V h hs
  | object => exact objectExpression_same V h hs
  | array => exact arrayExpression_same V h
  | spreadElement => exact spreadElement_same V h
  | parenthesizedExpression => exact h.first V
  | sequenceExpression => exact sequenceExpression_same V h hs
  | newExpression => exact newExpression_same V h hs
  | assignmentExpression => exact assignment_same V h (.value _)
  | augmentedAssignmentExpression => exact assignment_same V h (h.textOf V hs "operator" rfl)
  | unaryExpression => exact unaryExpression_same V h hs
  | updateExpression => exact updateExpression_same V h hs
  | ternaryExpression => exact conditionalExpression_same V h
  | awaitExpression => exact awaitExpression_same V h
  | yieldExpression => exact yieldExpression_same V h
  | metaProperty => exact metaProperty_same V h
  | memberExpression | subscriptExpression | callExpression | binaryExpression =>
    exact chain_same V h (congrArg (fun s : Symbol => s.operandField?.isSome) hs)
  | _ => exact opaqueNode_same V h

end Table

end FreeNames.Conversion

namespace FreeNames

/-- Related parses have one conversion: the induction is on the size of the first one. -/
theorem Variation.convert_eq {src : Source} {S : Parsed → Parsed → Prop} (V : Variation S)
    {p p' : Parsed} (h : S p p') (inObject : Bool) :
    Conversion.convert src p' inObject = Conversion.convert src p inObject := by
  induction hp : sizeOf p using Nat.strongRecOn generalizing p p' inObject with
  | ind size ih =>
    have alike : p.inside.Alike src S p'.inside :=
      ⟨h, fun smaller related b => ih _ (hp ▸ smaller) related b rfl⟩
    rw [Conversion.convert_eq, Conversion.convert_eq]
    exact Conversion.template_same V alike inObject

end FreeNames
