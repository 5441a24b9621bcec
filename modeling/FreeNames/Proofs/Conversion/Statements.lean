import FreeNames.Conversion.Modules
import FreeNames.Conversion.Statements
import FreeNames.Proofs.Conversion.Parts

/-!
# Statements keep their variables

For every template of a statement, an import or an export: if the node holds a variable that
is to be kept, then the template shows it.  Where the parts stand in fields, there is one case
for each field.
-/

namespace FreeNames.Conversion

variable {w ℓ : Parsed} {src : Source} {x : Inside w} {q : Part w} {setting : Setting}

variable (h : x.parsed.Holds setting ℓ)

include h

/-! ## Declarations -/

theorem lexicalDeclaration_shows (hs : x.parsed.symbol = .lexicalDeclaration) :
    (lexicalDeclaration src x).Shows ℓ := by
  obtain ⟨q, hq, covers⟩ := Inside.exists_covers hs h rfl rfl
  have declarator := List.mem_singleton.mp (h.symbol_mem hs rfl (Inside.parsed_mem_named hq))
  have kept : q ∈ x.named.filter fun q => q.symbol = .variableDeclarator :=
    List.mem_filter.mpr ⟨hq, decide_eq_true declarator⟩
  exact .inField "declarations" (by simp) (.holes kept covers)

theorem variableDeclarator_shows (hs : x.parsed.symbol = .variableDeclarator) :
    (variableDeclarator x).Shows ℓ := by
  obtain ⟨q, hq, covers, name, hn, hf⟩ := Inside.exists_field_covers hs h rfl rfl rfl
  simp only [List.mem_cons, List.not_mem_nil, or_false] at hn
  rcases hn with rfl | rfl
  · exact .inField "id" (by simp) (Inside.convert_shows hf covers)
  · exact .inField "init" (by simp) (Inside.optional_shows hf hq covers)

/-! ## Choices -/

theorem ifStatement_shows (hs : x.parsed.symbol = .ifStatement) : (ifStatement x).Shows ℓ := by
  obtain ⟨q, hq, covers, name, hn, hf⟩ := Inside.exists_field_covers hs h rfl rfl rfl
  have fits := (h.standsInFields hs rfl).2
  simp only [Parsed.fieldsFit, hs] at fits
  simp only [List.mem_cons, List.not_mem_nil, or_false] at hn
  rcases hn with rfl | rfl | rfl
  · exact .inField "test" (by simp) (.late (Inside.convert_shows hf covers))
  · exact .inField "consequent" (by simp) (.late (Inside.convert_shows hf covers))
  · have elseClause := of_decide_eq_true (Inside.of_allows fits hf)
    rw [ifStatement, hf]
    exact .inField "alternate" (by simp) (.one (Part.first_shows elseClause covers.toHolds rfl))

theorem switchStatement_shows (hs : x.parsed.symbol = .switchStatement) :
    (switchStatement x).Shows ℓ := by
  obtain ⟨q, hq, covers, name, hn, hf⟩ := Inside.exists_field_covers hs h rfl rfl rfl
  have fits := (h.standsInFields hs rfl).2
  simp only [Parsed.fieldsFit, hs] at fits
  simp only [List.mem_cons, List.not_mem_nil, or_false] at hn
  rcases hn with rfl | rfl
  · exact .inField "discriminant" (by simp) (Inside.convert_shows hf covers)
  · have body := of_decide_eq_true (Inside.of_allows fits hf)
    obtain ⟨r, hr, below⟩ := Part.exists_below body covers.toHolds rfl rfl
    rw [switchStatement, hf]
    exact .inField "cases" (by simp) (.holes hr below)

theorem switchCase_shows (hs : x.parsed.symbol = .switchCase) : (switchCase x).Shows ℓ := by
  obtain ⟨q, hq, covers⟩ := Inside.exists_covers hs h rfl rfl
  have fits := h.listFits hs rfl rfl rfl
  simp only [Parsed.listFits, hs, Bool.and_eq_true, List.all_eq_true, Bool.or_eq_true,
    decide_eq_true_eq] at fits
  rcases fits.1 q.parsed (Inside.parsed_mem_named hq) with value | body
  · have hf := Inside.field?_eq_of_mem_named hq value fits.2
    exact .inField "test" (by simp) (Inside.convert_shows hf covers)
  · exact .inField "consequent" (by simp) (.holes (Inside.mem_fieldAll hq body) covers)

theorem switchDefault_shows (hs : x.parsed.symbol = .switchDefault) :
    (switchDefault x).Shows ℓ := by
  obtain ⟨q, hq, covers⟩ := Inside.exists_covers hs h rfl rfl
  have fits := h.listFits hs rfl rfl rfl
  simp only [Parsed.listFits, hs, List.all_eq_true, decide_eq_true_eq] at fits
  have body := fits q.parsed (Inside.parsed_mem_named hq)
  exact .inField "consequent" (by simp) (.holes (Inside.mem_fieldAll hq body) covers)

/-! ## Loops -/

omit h in
theorem loopClause_shows {name : String} (hf : x.field? name = some q) (hq : q ∈ x.named)
    (covers : q.Covers ℓ) : (loopClause x name).Shows ℓ := by
  have named := (List.mem_filter.mp hq).2
  rw [Bool.and_eq_true] at named
  have notEmpty : q.symbol ≠ .emptyStatement := by
    intro e
    have constant := covers.isConstant_eq_false
    rw [show q.parsed.symbol = .emptyStatement from e] at constant
    cases constant
  simp only [loopClause, hf, named.1, notEmpty, Bool.not_true, decide_false, Bool.or_self,
    Bool.false_eq_true, if_false]
  split
  · next wrapped => exact .one (Part.first_shows wrapped covers.toHolds rfl)
  · exact .hole covers

theorem forStatement_shows (hs : x.parsed.symbol = .forStatement) : (forStatement x).Shows ℓ := by
  obtain ⟨q, hq, covers, name, hn, hf⟩ := Inside.exists_field_covers hs h rfl rfl rfl
  simp only [List.mem_cons, List.not_mem_nil, or_false] at hn
  rcases hn with rfl | rfl | rfl | rfl
  · exact .inField "init" (by simp) (loopClause_shows hf hq covers)
  · exact .inField "test" (by simp) (loopClause_shows hf hq covers)
  · exact .inField "update" (by simp) (loopClause_shows hf hq covers)
  · exact .inField "body" (by simp) (Inside.convert_shows hf covers)

omit h in
/-- The left side of the head of a loop, also where a declaration is put around it. -/
theorem loopTarget_shows_left (hf : x.field? "left" = some q) (covers : q.Covers ℓ) :
    (loopTarget src x).Shows ℓ := by
  rw [loopTarget, hf]
  cases x.field? "kind" with
  | none => exact .hole covers
  | some kind =>
    have declarator : (Template.node .variableDeclarator q.span
        [("id", .hole q), ("init", x.optional "value")]).Shows ℓ :=
      .inField "id" (by simp) (.hole covers)
    exact .one (.inField "declarations" (by simp) (.single declarator))

omit h in
/-- The value of the variable that the head of a loop declares. -/
theorem loopTarget_shows_value (hf : x.field? "value" = some q) (hq : q ∈ x.named)
    (covers : q.Covers ℓ) {kind : Part w} (hk : x.field? "kind" = some kind) :
    (loopTarget src x).Shows ℓ := by
  rw [loopTarget, hk]
  cases x.field? "left" with
  | none => exact .fault _
  | some left =>
    have declarator : (Template.node .variableDeclarator left.span
        [("id", .hole left), ("init", x.optional "value")]).Shows ℓ :=
      .inField "init" (by simp) (Inside.optional_shows hf hq covers)
    exact .one (.inField "declarations" (by simp) (.single declarator))

theorem forInStatement_shows (hs : x.parsed.symbol = .forInStatement) :
    (forInStatement src x).Shows ℓ := by
  obtain ⟨q, hq, covers, name, hn, hf⟩ := Inside.exists_field_covers hs h rfl rfl rfl
  have fits := (h.standsInFields hs rfl).2
  simp only [Parsed.fieldsFit, hs, ← Inside.field?_map_parsed] at fits
  have head : ∃ f ∈ [("left", loopTarget src x), ("right", x.convert "right"),
      ("body", x.convert "body")], f.2.Shows ℓ := by
    simp only [List.mem_cons, List.not_mem_nil, or_false] at hn
    rcases hn with rfl | rfl | rfl | rfl
    · exact ⟨("left", loopTarget src x), by simp, loopTarget_shows_left hf covers⟩
    · cases hk : x.field? "kind" with
      | none => simp [hf, hk] at fits
      | some kind =>
        exact ⟨("left", loopTarget src x), by simp, loopTarget_shows_value hf hq covers hk⟩
    · exact ⟨("right", x.convert "right"), by simp, Inside.convert_shows hf covers⟩
    · exact ⟨("body", x.convert "body"), by simp, Inside.convert_shows hf covers⟩
  obtain ⟨f, mem, shows⟩ := head
  unfold forInStatement
  split
  · exact .fault _
  · split
    · exact .fault _
    · split
      · exact .inField f.1 (List.mem_cons_of_mem _ mem) shows
      · exact .inField f.1 mem shows

theorem whileStatement_shows (hs : x.parsed.symbol = .whileStatement) :
    (whileStatement x).Shows ℓ := converted_shows hs h rfl rfl rfl (by simp)

theorem doWhileStatement_shows (hs : x.parsed.symbol = .doStatement) :
    (doWhileStatement x).Shows ℓ := converted_shows hs h rfl rfl rfl (by simp)

/-! ## Guarded blocks -/

theorem tryStatement_shows (hs : x.parsed.symbol = .tryStatement) : (tryStatement x).Shows ℓ := by
  obtain ⟨q, hq, covers, name, hn, hf⟩ := Inside.exists_field_covers hs h rfl rfl rfl
  have fits := (h.standsInFields hs rfl).2
  simp only [Parsed.fieldsFit, hs] at fits
  simp only [List.mem_cons, List.not_mem_nil, or_false] at hn
  rcases hn with rfl | rfl | rfl
  · exact .inField "block" (by simp) (.late (Inside.convert_shows hf covers))
  · exact .inField "handler" (by simp) (.late (Inside.optional_shows hf hq covers))
  · have finallyClause := of_decide_eq_true (Inside.of_allows fits hf)
    obtain ⟨r, hr, below, name, hn, hb⟩ :=
      Inside.exists_field_covers (x := q.inside) finallyClause covers.toHolds rfl rfl rfl
    rw [List.mem_singleton] at hn
    subst hn
    rw [tryStatement, hf]
    exact .inField "finalizer" (by simp) (Inside.convert_shows hb below)

theorem catchClause_shows (hs : x.parsed.symbol = .catchClause) : (catchClause x).Shows ℓ := by
  obtain ⟨q, hq, covers, name, hn, hf⟩ := Inside.exists_field_covers hs h rfl rfl rfl
  simp only [List.mem_cons, List.not_mem_nil, or_false] at hn
  rcases hn with rfl | rfl
  · rw [catchClause, hf]
    exact .inField "param" (by simp) (.hole covers)
  · exact .inField "body" (by simp) (Inside.convert_shows hf covers)

/-! ## Labels -/

theorem jumpStatement_shows {s : Symbol} (hs : x.parsed.symbol = s)
    (jump : s = .breakStatement ∨ s = .continueStatement) (kind : Kind) :
    (jumpStatement src kind x).Shows ℓ := by
  have fields : s.partFields? = some ["label"] := by rcases jump with rfl | rfl <;> rfl
  have others : s.freeParts = [] ∧ s.keepsAll = true := by
    rcases jump with rfl | rfl <;> exact ⟨rfl, rfl⟩
  obtain ⟨q, hq, covers, name, hn, hf⟩ :=
    Inside.exists_field_covers hs h fields others.1 others.2
  have names : x.parsed.allows "label" Parsed.isName = true := by
    have fits := (h.standsInFields hs fields).2
    rcases jump with rfl | rfl <;> simpa only [Parsed.fieldsFit, hs] using fits
  rw [List.mem_singleton] at hn
  subst hn
  exact .inField "label" (by simp) (identifierOrNull_shows src hf covers.toHolds names)

theorem labeledStatement_shows (hs : x.parsed.symbol = .labeledStatement) :
    (labeledStatement src x).Shows ℓ := by
  obtain ⟨q, hq, covers, name, hn, hf⟩ := Inside.exists_field_covers hs h rfl rfl rfl
  have fits := (h.standsInFields hs rfl).2
  simp only [Parsed.fieldsFit, hs] at fits
  simp only [List.mem_cons, List.not_mem_nil, or_false] at hn
  rcases hn with rfl | rfl
  · exact .inField "label" (by simp) (identifierIn_shows src hf covers.toHolds fits)
  · exact .inField "body" (by simp) (Inside.convert_shows hf covers)

theorem withStatement_shows (hs : x.parsed.symbol = .withStatement) :
    (withStatement x).Shows ℓ := converted_shows hs h rfl rfl rfl (by simp)

/-! ## Imports -/

omit h in
/-- The specifiers of one part of an import clause. -/
theorem exists_importSpecifiers_shows (src : Source) (holds : q.parsed.Holds setting ℓ)
    (hq : q.parsed.symbol ∈ [.identifier, .namespaceImport, .namedImports]) :
    ∃ slot ∈ importSpecifiers src q, ∃ t, slot.template? = some t ∧ t.Shows ℓ := by
  simp only [List.mem_cons, List.not_mem_nil, or_false] at hq
  rcases hq with hs | hs | hs
  · have isName : q.parsed.isName = true := by simp [Parsed.isName, hs, Symbol.isVariable]
    rw [importSpecifiers, show q.symbol = .identifier from hs]
    exact ⟨_, List.mem_singleton_self _, _, rfl,
      .inField "local" (by simp) (.one (identifier_shows src holds isName))⟩
  · obtain ⟨r, hr, covers⟩ := Part.exists_below hs holds rfl rfl
    obtain ⟨one, names⟩ := holds.hasOnePart hs rfl
    have isName := List.all_eq_true.mp (names (Or.inl rfl)) r.parsed (Inside.parsed_mem_named hr)
    rw [importSpecifiers, show q.symbol = .namespaceImport from hs]
    simp only [Inside.head?_named one hr]
    exact ⟨_, List.mem_singleton_self _, _, rfl,
      .inField "local" (by simp) (.one (identifier_shows src covers.toHolds isName))⟩
  · obtain ⟨r, hr, covers⟩ := Part.exists_below hs holds rfl rfl
    have specifier := List.mem_singleton.mp
      (holds.symbol_mem hs rfl (Inside.parsed_mem_named hr))
    rw [importSpecifiers, show q.symbol = .namedImports from hs]
    refine ⟨.hole r, List.mem_map_of_mem (List.mem_filter.mpr ⟨hr, ?_⟩), _, rfl, .hole covers⟩
    exact decide_eq_true specifier

theorem importDeclaration_shows (hs : x.parsed.symbol = .importStatement)
    (notCall : setting ≠ .importCall) : (importDeclaration src x).Shows ℓ := by
  obtain ⟨q, hq, kept, covers⟩ :=
    Inside.exists_kept h (by rw [hs]; rfl) (by rw [hs]; decide) (by rw [hs]; decide)
  -- the attributes are passed over, and the module is a constant
  have clause : q.parsed.symbol = .importClause := by
    have seen := Parsed.passesOver_of_kept notCall (by rw [hs]; rfl) kept
    have constant := covers.isConstant_eq_false
    have among := h.symbol_mem hs rfl (Inside.parsed_mem_named hq)
    simp only [Parsed.passesOver, hs, decide_eq_false_iff_not] at seen
    simp only [List.mem_cons, List.not_mem_nil, or_false] at among
    rcases among with clause | string | attributes
    · exact clause
    · rw [string] at constant
      cases constant
    · exact absurd attributes seen
  obtain ⟨r, hr, below⟩ := Part.exists_below clause covers.toHolds rfl rfl
  obtain ⟨slot, mem, t, ht, shows⟩ := exists_importSpecifiers_shows src below.toHolds
    (covers.symbol_mem clause rfl (Inside.parsed_mem_named hr))
  have specifiers : slot ∈ (x.named.filter fun q => q.symbol = .importClause).flatMap fun c =>
      c.inside.named.flatMap (importSpecifiers src) :=
    List.mem_flatMap.mpr ⟨q, List.mem_filter.mpr ⟨hq, decide_eq_true clause⟩,
      List.mem_flatMap.mpr ⟨r, hr, mem⟩⟩
  exact .inField "specifiers" (by simp) (.many specifiers ht shows)

theorem importSpecifier_shows (hs : x.parsed.symbol = .importSpecifier) :
    (importSpecifier src x).Shows ℓ := by
  obtain ⟨q, hq, covers, name, hn, hf⟩ := Inside.exists_field_covers hs h rfl rfl rfl
  have fits := (h.standsInFields hs rfl).2
  simp only [Parsed.fieldsFit, hs, Bool.and_eq_true] at fits
  simp only [List.mem_cons, List.not_mem_nil, or_false] at hn
  rcases hn with rfl | rfl
  · have isName := Inside.of_allows fits.1 hf
    unfold importSpecifier
    split
    · next imported _ him _ =>
      cases him.symm.trans hf
      exact .inField "imported" (by simp) (exportName_shows src covers.toHolds isName)
    · exact .fault _
  · have isName := Inside.of_allows fits.2 hf
    unfold importSpecifier fieldOr
    rw [hf, Option.some_or]
    split
    · next _ localName _ hl =>
      cases hl
      exact .inField "local" (by simp) (.one (identifier_shows src covers.toHolds isName))
    · exact .fault _

theorem exportSpecifier_shows (hs : x.parsed.symbol = .exportSpecifier) :
    (exportSpecifier src x).Shows ℓ := by
  obtain ⟨q, hq, covers, name, hn, hf⟩ := Inside.exists_field_covers hs h rfl rfl rfl
  have fits := (h.standsInFields hs rfl).2
  simp only [Parsed.fieldsFit, hs, Bool.and_eq_true] at fits
  simp only [List.mem_cons, List.not_mem_nil, or_false] at hn
  rcases hn with rfl | rfl
  · have isName := Inside.of_allows fits.1 hf
    unfold exportSpecifier
    split
    · next localName _ hl _ =>
      cases hl.symm.trans hf
      exact .inField "local" (by simp) (exportName_shows src covers.toHolds isName)
    · exact .fault _
  · have isName := Inside.of_allows fits.2 hf
    unfold exportSpecifier fieldOr
    rw [hf, Option.some_or]
    split
    · next _ exported _ he =>
      cases he
      exact .inField "exported" (by simp) (exportName_shows src covers.toHolds isName)
    · exact .fault _

/-! ## Exports -/

omit h in
/-- A clause of an export: the names of specifiers, or the name of everything. -/
theorem exportNames_shows (hq : x.named.find? (fun q => q.symbol = .exportClause ||
      q.symbol = .namespaceExport) = some q) (covers : q.Covers ℓ) :
    (exportNames src x).Shows ℓ := by
  have clause := List.find?_some hq
  simp only [Bool.or_eq_true, decide_eq_true_eq] at clause
  simp only [exportNames, hq]
  split
  · next hs =>
    obtain ⟨r, hr, below⟩ := Part.exists_below hs covers.toHolds rfl rfl
    have specifier := List.mem_singleton.mp
      (covers.symbol_mem hs rfl (Inside.parsed_mem_named hr))
    have kept : r ∈ q.inside.named.filter fun s => s.symbol = .exportSpecifier :=
      List.mem_filter.mpr ⟨hr, decide_eq_true specifier⟩
    exact .inField "specifiers" (by simp) (.late (.holes kept below))
  · next notClause =>
    have hs : q.parsed.symbol = .namespaceExport := clause.resolve_left notClause
    obtain ⟨r, hr, below⟩ := Part.exists_below hs covers.toHolds rfl rfl
    obtain ⟨one, names⟩ := covers.hasOnePart hs rfl
    have isName := List.all_eq_true.mp (names (Or.inr rfl)) r.parsed (Inside.parsed_mem_named hr)
    simp only [Inside.head?_named one hr]
    exact .inField "exported" (by simp) (.late (exportName_shows src below.toHolds isName))

/-- The only part of an export statement besides its decorators and its module. -/
theorem exists_exported (hs : x.parsed.symbol = .exportStatement)
    (notCall : setting ≠ .importCall) :
    ∃ q ∈ x.named, q.parsed ∈ x.parsed.exported ∧ q.Covers ℓ := by
  obtain ⟨q, hq, kept, covers⟩ :=
    Inside.exists_kept h (by rw [hs]; rfl) (by rw [hs]; decide) (by rw [hs]; decide)
  have seen := Parsed.passesOver_of_kept notCall (by rw [hs]; rfl) kept
  simp only [Parsed.passesOver, hs, Bool.or_eq_false_iff, decide_eq_false_iff_not] at seen
  have notString : q.parsed.symbol ≠ .string := by
    intro string
    have constant := covers.isConstant_eq_false
    rw [string] at constant
    cases constant
  refine ⟨q, hq, List.mem_filter.mpr ⟨Inside.parsed_mem_named hq, ?_⟩, covers⟩
  simp [seen.1, seen.2, notString]

omit h in
/-- If an export statement has one part, and that is a clause, then it is the clause. -/
theorem find?_clause (hq : q ∈ x.named) (one : x.parsed.exported.length ≤ 1)
    (clause : q.symbol = .exportClause ∨ q.symbol = .namespaceExport) :
    x.named.find? (fun q => q.symbol = .exportClause || q.symbol = .namespaceExport) = some q := by
  have few : (x.named.filter fun q =>
      q.symbol = .exportClause || q.symbol = .namespaceExport).length ≤ 1 := by
    refine Nat.le_trans ?_ one
    rw [Parsed.exported, ← x.named_map_parsed, List.filter_map, List.length_map,
      ← List.countP_eq_length_filter, ← List.countP_eq_length_filter]
    apply List.countP_mono_left
    intro r _ hr
    simp only [Bool.or_eq_true, decide_eq_true_eq] at hr
    have clause : r.parsed.symbol = .exportClause ∨ r.parsed.symbol = .namespaceExport := hr
    rcases clause with clause | clause <;> simp [clause, Symbol.importAttribute]
  rw [← List.head?_filter,
    eq_singleton_of_length_le few (List.mem_filter.mpr ⟨hq, by simpa using clause⟩)]
  rfl

theorem exportStatement_shows (hs : x.parsed.symbol = .exportStatement)
    (notCall : setting ≠ .importCall) : (exportStatement src x).Shows ℓ := by
  obtain ⟨q, hq, mem, covers⟩ := exists_exported h hs notCall
  have fits : x.parsed.exportFits = true := by
    simpa only [Parsed.listFits, hs] using h.listFits hs rfl rfl rfl
  simp only [Parsed.exportFits, Bool.and_eq_true, decide_eq_true_eq, List.all_eq_true,
    List.length_append] at fits
  obtain ⟨⟨one, single⟩, all⟩ := fits
  have fit := all q.parsed mem
  unfold exportStatement
  split at fit
  · next clause =>
    simp only [Bool.and_eq_true, Bool.not_eq_true', ← Inside.field?_map_parsed,
      Option.isNone_iff_eq_none, Option.map_eq_none_iff] at fit
    simp only [Bool.or_eq_true, decide_eq_true_eq] at clause
    simp only [Inside.hasToken, fit.1, fit.2, Bool.false_eq_true, if_false]
    exact exportNames_shows (find?_clause hq one clause) covers
  · simp only [Bool.or_eq_true, Bool.and_eq_true, decide_eq_true_eq] at fit
    rcases fit with declaration | ⟨value, isDefault⟩
    · have hf := Inside.field?_eq_of_length_le hq declaration (by omega)
      simp only [fieldOr, hf, Option.some_or]
      split
      · exact .inField "declaration" (by simp) (.late (.hole covers))
      · exact .inField "declaration" (by simp) (.late (.hole covers))
    · have hf := Inside.field?_eq_of_length_le hq value (by omega)
      have noDeclaration : x.field? "declaration" = none := by
        have some : q.parsed ∈ x.parsed.fieldAll "value" :=
          List.mem_filter.mpr
            ⟨Parsed.mem_children_of_named (Inside.parsed_mem_named hq), decide_eq_true value⟩
        have nil : x.parsed.fieldAll "declaration" = [] := by
          have := List.length_pos_of_mem some
          exact List.eq_nil_of_length_eq_zero (by omega)
        have none : x.parsed.field? "declaration" = none := by
          rw [Parsed.field?, ← List.head?_filter]
          exact congrArg List.head? nil
        rwa [← Inside.field?_map_parsed, Option.map_eq_none_iff] at none
      simp only [Inside.hasToken, isDefault, if_true, fieldOr, noDeclaration, hf, Option.none_or]
      exact .inField "declaration" (by simp) (.late (.hole covers))

end FreeNames.Conversion
