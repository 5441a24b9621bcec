import FreeNames.Conversion.Expressions
import FreeNames.Conversion.Functions
import FreeNames.Conversion.Patterns
import FreeNames.Proofs.Conversion.Parts

/-!
# Expressions and patterns keep their variables

For every template of an expression or a pattern, other than those of chains: if the node holds
a variable that is to be kept, then the template shows it.  A nested sequence is followed with
the list of pending sequences that the template takes its expressions from.
-/

namespace FreeNames.Conversion

variable {w ℓ : Parsed} {src : Source} {x : Inside w} {q : Part w} {setting : Setting}

/-! ## Sequences -/

/-- What holds of the parts of a sequence, and again in the sequences among them, holds of all the
expressions that pending sequences give. -/
theorem forall_mem_sequenceParts {P : Part w → Prop} {Q : Inside w → Prop}
    (parts : ∀ y, Q y → ∀ r ∈ y.named, P r)
    (nested : ∀ y, Q y → ∀ r ∈ y.named, r.symbol = .sequenceExpression → Q r.inside)
    {pending : List (Inside w)} (h : ∀ y ∈ pending, Q y) : ∀ r ∈ sequenceParts pending, P r := by
  fun_induction sequenceParts pending with
  | case1 => exact List.forall_mem_nil _
  | case2 y pending ih =>
    obtain ⟨first, rest⟩ := List.forall_mem_cons.mp h
    refine List.forall_mem_append.mpr ⟨fun r hr => ?_, ih fun z hz => ?_⟩
    · exact parts y first r (List.mem_of_mem_filter hr)
    · rcases List.mem_append.mp hz with hz | hz
      · obtain ⟨r, hr, rfl⟩ := List.mem_map.mp (List.mem_reverse.mp hz)
        obtain ⟨named, symbol⟩ := List.mem_filter.mp hr
        exact nested y first r named (of_decide_eq_true symbol)
      · exact rest z hz

/-- A pending sequence that holds the variable has it in one of the expressions to come. -/
theorem exists_mem_sequenceParts (pending : List (Inside w)) (hx : x ∈ pending)
    (hs : x.parsed.symbol = .sequenceExpression) (h : x.parsed.Holds setting ℓ) :
    ∃ q ∈ sequenceParts pending, q.Covers ℓ := by
  fun_induction sequenceParts pending generalizing x setting with
  | case1 => cases hx
  | case2 y pending ih =>
    -- a nested sequence is pending next, so the induction goes on with it
    rcases List.mem_cons.mp hx with rfl | later
    · obtain ⟨q, hq, covers⟩ := Inside.exists_covers hs h rfl rfl
      by_cases nested : q.symbol = .sequenceExpression
      · have mem : q.inside ∈ nestedSequences x := by
          rw [nestedSequences, List.mem_reverse]
          exact List.mem_map_of_mem (List.mem_filter.mpr ⟨hq, decide_eq_true nested⟩)
        obtain ⟨r, hr, below⟩ := ih (List.mem_append_left _ mem) nested covers.toHolds
        exact ⟨r, List.mem_append_right _ hr, below⟩
      · exact ⟨q, List.mem_append_left _ (List.mem_filter.mpr ⟨hq, by simpa using nested⟩), covers⟩
    · obtain ⟨r, hr, below⟩ := ih (List.mem_append_right _ later) hs h
      exact ⟨r, List.mem_append_right _ hr, below⟩

variable (h : x.parsed.Holds setting ℓ)

include h

theorem sequenceExpression_shows (hs : x.parsed.symbol = .sequenceExpression) :
    (sequenceExpression x).Shows ℓ := by
  obtain ⟨q, hq, covers⟩ := exists_mem_sequenceParts [x] (List.mem_singleton_self x) hs h
  exact .inField "expressions" (by simp) (.holes hq covers)

/-! ## Templates and operators -/

theorem templateLiteral_shows (hs : x.parsed.symbol = .templateString) :
    (templateLiteral src x).Shows ℓ := by
  obtain ⟨q, hq, covers⟩ := Inside.exists_covers hs h rfl rfl
  have fits := h.listFits hs rfl rfl rfl
  simp only [Parsed.listFits, hs, List.all_eq_true, Bool.or_eq_true, decide_eq_true_eq] at fits
  -- the fixed pieces are words, so the variable is in a substitution
  have substitution : q.parsed.symbol = .templateSubstitution := by
    rcases fits q.parsed (Inside.parsed_mem_named hq) with substitution | word
    · exact substitution
    · have mem := covers.mem
      rw [Parsed.reads_of_isWord word] at mem
      cases mem
  obtain ⟨n, hn⟩ := List.mem_iff_getElem?.mp hq
  have turn : (q, n) ∈ x.named.zipIdx.filter fun q =>
      decide (q.1.symbol = .templateSubstitution) = true :=
    List.mem_filter.mpr
      ⟨List.mem_zipIdx_iff_getElem?.mpr hn, decide_eq_true (decide_eq_true substitution)⟩
  have slot :=
    List.mem_map_of_mem (f := fun q => Slot.turn q.2 (.one q.1.inside.first)) turn
  exact .inField "expressions" (by simp)
    (.many slot rfl (Part.first_shows substitution covers.toHolds rfl))

theorem newExpression_shows (hs : x.parsed.symbol = .newExpression) :
    (newExpression x).Shows ℓ := by
  obtain ⟨q, hq, covers, name, hn, hf⟩ := Inside.exists_field_covers hs h rfl rfl rfl
  have fits := (h.standsInFields hs rfl).2
  simp only [Parsed.fieldsFit, hs] at fits
  simp only [List.mem_cons, List.not_mem_nil, or_false] at hn
  rcases hn with rfl | rfl
  · exact .inField "callee" (by simp) (Inside.convert_shows hf covers)
  · have list := of_decide_eq_true (Inside.of_allows fits hf)
    obtain ⟨r, hr, below⟩ := Part.exists_below list covers.toHolds rfl rfl
    rw [newExpression, hf]
    exact .inField "arguments" (by simp) (.holes hr below)

theorem assignment_shows {s : Symbol} (hs : x.parsed.symbol = s)
    (hf : s.partFields? = some ["left", "right"]) (free : s.freeParts = [])
    (keeps : s.keepsAll = true) (operator : Slot w) : (assignment operator x).Shows ℓ :=
  converted_shows hs h hf free keeps (by simp)

theorem unaryExpression_shows (hs : x.parsed.symbol = .unaryExpression) :
    (unaryExpression src x).Shows ℓ := converted_shows hs h rfl rfl rfl (by simp)

theorem updateExpression_shows (hs : x.parsed.symbol = .updateExpression) :
    (updateExpression src x).Shows ℓ := converted_shows hs h rfl rfl rfl (by simp)

theorem conditionalExpression_shows (hs : x.parsed.symbol = .ternaryExpression) :
    (conditionalExpression x).Shows ℓ := converted_shows hs h rfl rfl rfl (by simp)

/-! ## Patterns and literals -/

omit h in
theorem pair_shows {s : Symbol} (hs : q.parsed.symbol = s) (isPair : s = .pair ∨ s = .pairPattern)
    (holds : q.parsed.Holds setting ℓ) : (pair src q).Shows ℓ := by
  have rules : s.partFields? = some ["key", "value"] ∧ s.freeParts = [] ∧ s.keepsAll = true := by
    rcases isPair with rfl | rfl <;> exact ⟨rfl, rfl, rfl⟩
  obtain ⟨r, hr, covers, name, hn, hf⟩ :=
    Inside.exists_field_covers (x := q.inside) hs holds rules.1 rules.2.1 rules.2.2
  have keys : q.parsed.allows "key" Parsed.isKey = true := by
    have fits := (holds.standsInFields hs rules.1).2
    rcases isPair with rfl | rfl <;> simpa only [Parsed.fieldsFit, hs] using fits
  simp only [List.mem_cons, List.not_mem_nil, or_false] at hn
  unfold pair
  split
  · exact .fault _
  · next key hk =>
    rcases hn with rfl | rfl
    · cases hk.symm.trans hf
      exact .inField "key" (by simp)
        (propertyKey_shows src covers.toHolds (Inside.of_allows (x := q.inside) keys hf))
    · exact .inField "value" (by simp) (Inside.convert_shows hf covers)

theorem assignmentPattern_shows {s : Symbol} (hs : x.parsed.symbol = s)
    (hf : s.partFields? = some ["left", "right"]) (free : s.freeParts = [])
    (keeps : s.keepsAll = true) : (assignmentPattern x).Shows ℓ :=
  converted_shows hs h hf free keeps (by simp)

omit h in
/-- A name alone is the key and the value of its property. -/
theorem shorthand_shows (isName : q.parsed.isName = true) (holds : q.parsed.Holds setting ℓ)
    (value : Slot w) : (shorthand src q value).Shows ℓ :=
  .inField "key" (by simp) (.one (identifier_shows src holds isName))

omit h in
theorem objectAssignment_shows (hs : q.parsed.symbol = .objectAssignmentPattern)
    (holds : q.parsed.Holds setting ℓ) : (objectAssignment src q).Shows ℓ := by
  have whole : (assignmentPattern q.inside).Shows ℓ :=
    assignmentPattern_shows (x := q.inside) holds hs rfl rfl rfl
  unfold objectAssignment
  split
  · exact .fault _
  · split
    · exact .inField "value" (by simp) (.one whole)
    · exact whole

theorem objectPattern_shows (hs : x.parsed.symbol = .objectPattern) :
    (objectPattern src x).Shows ℓ := by
  obtain ⟨q, hq, covers⟩ := Inside.exists_covers hs h rfl rfl
  have entry : ∃ t, (patternEntry src q).template? = some t ∧ t.Shows ℓ := by
    unfold patternEntry
    split
    · next e =>
      have isName : q.parsed.isName = true := by
        rw [Parsed.isName, show q.parsed.symbol = _ from e]
        rfl
      exact ⟨_, rfl, shorthand_shows isName covers.toHolds _⟩
    · next e => exact ⟨_, rfl, pair_shows e (Or.inr rfl) covers.toHolds⟩
    · next e => exact ⟨_, rfl, objectAssignment_shows e covers.toHolds⟩
    · exact ⟨_, rfl, .hole covers⟩
  obtain ⟨t, ht, shows⟩ := entry
  exact .inField "properties" (by simp) (.many (List.mem_map_of_mem hq) ht shows)

theorem objectExpression_shows (hs : x.parsed.symbol = .object) :
    (objectExpression src x).Shows ℓ := by
  obtain ⟨q, hq, -, holds, -⟩ :=
    Inside.exists_holds h (by rw [hs]; rfl) (by simp [Parsed.isImportCall, hs])
  have entry : ∃ t, (objectEntry src q).template? = some t ∧ t.Shows ℓ := by
    unfold objectEntry
    split
    · next e => exact ⟨_, rfl, pair_shows e (Or.inl rfl) holds⟩
    · next e =>
      have isName : q.parsed.isName = true := by
        rw [Parsed.isName, show q.parsed.symbol = _ from e]
        rfl
      exact ⟨_, rfl, shorthand_shows isName holds _⟩
    · next notShorthand => exact ⟨_, rfl, .hole ⟨holds, notShorthand⟩⟩
  obtain ⟨t, ht, shows⟩ := entry
  exact .inField "properties" (by simp) (.many (List.mem_map_of_mem hq) ht shows)

omit h in
/-- What holds of null, and of the holes of parts that are no bracket, comma or comment, holds of
all elements of a list in brackets. -/
theorem forall_mem_elementsFrom {P : Slot w → Prop} {qs : List (Part w)} (null : P .null)
    (hole : ∀ q ∈ qs, q.symbol ≠ .openBracket ∧ q.symbol ≠ .closeBracket → q.symbol ≠ .comma →
      P (.hole q)) (expecting : Bool) : ∀ slot ∈ elementsFrom expecting qs, P slot := by
  induction qs generalizing expecting with
  | nil => exact List.forall_mem_nil _
  | cons q qs ih =>
    obtain ⟨here, there⟩ := List.forall_mem_cons.mp hole
    have rest := ih there
    unfold elementsFrom
    split
    · exact rest _
    · next kept =>
      simp only [Bool.or_eq_true, decide_eq_true_eq, not_or] at kept
      split
      · split
        · exact List.forall_mem_cons.mpr ⟨null, rest _⟩
        · exact rest _
      · next comma => exact List.forall_mem_cons.mpr ⟨here ⟨kept.1.2, kept.2⟩ comma, rest _⟩

omit h in
/-- What is no bracket, comma or comment is an element of a list in brackets. -/
theorem mem_elementsFrom {qs : List (Part w)} (hq : q ∈ qs) (extra : q.symbol.isExtra = false)
    (bracket : q.symbol ≠ .openBracket ∧ q.symbol ≠ .closeBracket) (comma : q.symbol ≠ .comma)
    (expecting : Bool) : .hole q ∈ elementsFrom expecting qs := by
  induction qs generalizing expecting with
  | nil => cases hq
  | cons r qs ih =>
    rcases List.mem_cons.mp hq with rfl | later
    · simp [elementsFrom, extra, bracket, comma]
    · unfold elementsFrom
      split
      · exact ih later _
      · split
        · split
          · exact List.mem_cons_of_mem _ (ih later _)
          · exact ih later _
        · exact List.mem_cons_of_mem _ (ih later _)

theorem elements_shows {s : Symbol} (hs : x.parsed.symbol = s) (hv : s.isVariable = false)
    (keeps : s.keepsAll = true) : (elements x).Shows ℓ := by
  obtain ⟨q, hq, covers⟩ := Inside.exists_covers hs h hv keeps
  have constant : q.symbol.isConstant = false := covers.isConstant_eq_false
  have named := (List.mem_filter.mp hq).2
  rw [Bool.and_eq_true, Bool.not_eq_true'] at named
  have notConstant : ∀ s : Symbol, s.isConstant = true → q.symbol ≠ s := by
    rintro s hs rfl
    rw [constant] at hs
    cases hs
  have mem := mem_elementsFrom (Inside.mem_parts_of_named hq) named.2
    ⟨notConstant .openBracket rfl, notConstant .closeBracket rfl⟩ (notConstant .comma rfl) true
  exact .many mem rfl (.hole covers)

end FreeNames.Conversion
