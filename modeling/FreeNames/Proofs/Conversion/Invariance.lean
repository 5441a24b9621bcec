import Mathlib
import FreeNames.Proofs.Conversion.Uniform
import FreeNames.Resolution.Report

/-!
# Comments and parentheses leave no trace

Inserting comments anywhere in a parse changes nothing in its tree, and neither does putting
expressions in parentheses, however often and wherever it is done.

* `addsComment_variation` and `addsParentheses_variation`: one edit gives a variation.
* `Parsed.toTree_of_comments` and `Parsed.toTree_of_parentheses` are the results for any number
  of edits.
-/

namespace FreeNames

namespace Parsed

section

variable {p p' : Parsed} {cs : List Parsed} {E : Parsed → List Parsed → Prop}

@[simp] theorem symbol_withChildren : (p.withChildren cs).symbol = p.symbol := by cases p; rfl

@[simp] theorem isNamed_withChildren : (p.withChildren cs).isNamed = p.isNamed := by cases p; rfl

@[simp] theorem isMissing_withChildren : (p.withChildren cs).isMissing = p.isMissing := by
  cases p; rfl

@[simp] theorem isFlagged_withChildren : (p.withChildren cs).isFlagged = p.isFlagged := by
  cases p; rfl

@[simp] theorem span_withChildren : (p.withChildren cs).span = p.span := by cases p; rfl

@[simp] theorem field_withChildren : (p.withChildren cs).field = p.field := by cases p; rfl

@[simp] theorem children_withChildren : (p.withChildren cs).children = cs := by cases p; rfl

@[simp] theorem symbol_withField {f : Option String} : (p.withField f).symbol = p.symbol := by
  cases p; rfl

@[simp] theorem isNamed_withField {f : Option String} : (p.withField f).isNamed = p.isNamed := by
  cases p; rfl

@[simp] theorem span_withField {f : Option String} : (p.withField f).span = p.span := by
  cases p; rfl

@[simp] theorem children_withField {f : Option String} :
    (p.withField f).children = p.children := by cases p; rfl

@[simp] theorem withField_self : p.withField p.field = p := by cases p; rfl

/-- An edit changes nothing but children. -/
theorem Edits.exists_withChildren (h : Edits E p p') : ∃ cs, p' = p.withChildren cs := by
  cases h with
  | here => exact ⟨_, rfl⟩
  | inside => exact ⟨_, rfl⟩

theorem Edits.field (h : Edits E p p') : p'.field = p.field := by
  obtain ⟨cs, rfl⟩ := h.exists_withChildren
  exact field_withChildren

/-- An edit in the first child. -/
theorem Edits.inFirst {c c' : Parsed} {after : List Parsed} (h : p.children = c :: after)
    (edit : Edits E c c') : Edits E p (p.withChildren (c' :: after)) :=
  @Edits.inside E p c c' [] after h edit

end

/-! ## Comments -/

theorem IsComment.isRemark {c : Parsed} (h : c.IsComment) : IsRemark c :=
  ⟨h.isExtra, h.isNamed, h.field⟩

/-- A parse with no comment more, or with one. -/
def MayAddComment (p p' : Parsed) : Prop := p' = p ∨ p.AddsComment p'

theorem MayAddComment.children {p p' : Parsed} (h : MayAddComment p p') :
    Woven (ChildOf MayAddComment p) IsRemark p.children p'.children := by
  have same : ∀ c, ChildOf MayAddComment p c c := fun c => .same (Or.inl rfl) rfl
  rcases h with rfl | edit
  · exact .refl fun c _ => same c
  cases edit with
  | here edit =>
    obtain ⟨before, c, after, children, comment, rfl⟩ := edit
    rw [children, children_withChildren]
    exact .append (.refl fun c _ => same c) (.more comment.isRemark (.refl fun c _ => same c))
  | inside children edit =>
    rw [children, children_withChildren]
    exact .append (.refl fun c _ => same c)
      (.both (.same (Or.inr edit) edit.field) (.refl fun c _ => same c))

theorem addsComment_variation : Variation MayAddComment where
  refl _ := Or.inl rfl
  symbol h := by
    rcases h with rfl | edit
    · rfl
    · obtain ⟨cs, rfl⟩ := edit.exists_withChildren
      exact symbol_withChildren
  isNamed h := by
    rcases h with rfl | edit
    · rfl
    · obtain ⟨cs, rfl⟩ := edit.exists_withChildren
      exact isNamed_withChildren
  span h := by
    rcases h with rfl | edit
    · rfl
    · obtain ⟨cs, rfl⟩ := edit.exists_withChildren
      exact span_withChildren
  children := MayAddComment.children

theorem IsComment.hasError {c : Parsed} (h : c.IsComment) : c.hasError = false := by
  have notError : c.symbol ≠ .error := fun e => by have := h.isExtra; rw [e] at this; cases this
  rw [hasError_eq, h.isFlagged, h.isMissing, h.leaf, decide_eq_false notError]
  rfl

/-- A comment brings no error and hides none. -/
theorem AddsComment.hasError_eq {p p' : Parsed} (h : p.AddsComment p') :
    p'.hasError = p.hasError := by
  induction h with
  | @here p cs edit =>
    obtain ⟨before, c, after, children, comment, rfl⟩ := edit
    rw [Parsed.hasError_eq, Parsed.hasError_eq p, children]
    simp [comment.hasError]
  | @inside p c c' before after children _ ih =>
    rw [Parsed.hasError_eq, Parsed.hasError_eq p, children]
    simp [ih]

end Parsed

/-- The report of a source, given its parse. -/
def Source.report (src : Source) (root : Parsed) (path : Option String)
    (reportArrowArguments : Bool) : Except ReadError Report := do
  let tree ← src.toTree root path
  (Report.ofTree reportArrowArguments tree).mapError .fault

namespace Parsed

variable {root root' : Parsed}

theorem convert_eq_of_addsComments (h : Relation.ReflTransGen AddsComment root root')
    (src : Source) (inObject : Bool) :
    Conversion.convert src root' inObject = Conversion.convert src root inObject := by
  induction h with
  | refl => rfl
  | tail _ edit ih => exact (addsComment_variation.convert_eq (Or.inr edit) inObject).trans ih

theorem hasError_eq_of_addsComments (h : Relation.ReflTransGen AddsComment root root') :
    root'.hasError = root.hasError := by
  induction h with
  | refl => rfl
  | tail _ edit ih => exact edit.hasError_eq.trans ih

/-- Comments that are inserted into a parse leave no trace in its tree, and none in the report of
a source that has one. -/
theorem toTree_of_comments (h : Relation.ReflTransGen AddsComment root root') (src : Source) :
    root'.toTree src = root.toTree src ∧
      ∀ path tree, src.toTree root path = .ok tree →
        src.toTree root' path = .ok tree ∧
          ∀ arrows, src.report root' path arrows = src.report root path arrows := by
  have trees : root'.toTree src = root.toTree src := by
    rw [toTree, toTree, convert_eq_of_addsComments h]
  refine ⟨trees, fun path tree converts => ?_⟩
  have same : src.toTree root' path = src.toTree root path := by
    have correct : root.hasError = false := by
      rw [Bool.eq_false_iff]
      intro faulty
      simp [Source.toTree, check, faulty] at converts
    have correct' : root'.hasError = false := (hasError_eq_of_addsComments h).trans correct
    simp [Source.toTree, check, correct, correct', trees]
  refine ⟨same.trans converts, fun arrows => ?_⟩
  rw [Source.report, Source.report, same]

/-- The parse of `[/**/, x]`, with the comment or without it. -/
def arrayWithHole (comments : List Parsed) : Parsed :=
  .mk .program true false false ⟨0, 9, 1, 0⟩ none
    [.mk .expressionStatement true false false ⟨0, 9, 1, 0⟩ none
      [.mk .array true false false ⟨0, 9, 1, 0⟩ none
        ([.mk .openBracket false false false ⟨0, 1, 1, 0⟩ none []] ++ (comments ++
          [.mk .comma false false false ⟨5, 6, 1, 5⟩ none [],
            .mk .identifier true false false ⟨7, 8, 1, 7⟩ none [],
            .mk .closeBracket false false false ⟨8, 9, 1, 8⟩ none []]))]]

def arrayWithHoleSource : Source := .ofString "[/**/, x]"

def hiddenComment : Parsed := .mk .comment true false false ⟨1, 5, 1, 1⟩ none []

theorem isSome_arrayWithHole :
    (arrayWithHoleSource.toTree (arrayWithHole []) none).toOption.isSome = true := by
  decide_cbv

/-- A comment in front of a comma is no element: the hole stays. -/
theorem arrayWithHole_keeps_tree :
    Relation.ReflTransGen AddsComment (arrayWithHole []) (arrayWithHole [hiddenComment]) ∧
      (∃ tree, arrayWithHoleSource.toTree (arrayWithHole []) none = .ok tree) ∧
      (arrayWithHole [hiddenComment]).toTree arrayWithHoleSource =
        (arrayWithHole []).toTree arrayWithHoleSource ∧
      ∀ path tree, arrayWithHoleSource.toTree (arrayWithHole []) path = .ok tree →
        arrayWithHoleSource.toTree (arrayWithHole [hiddenComment]) path = .ok tree ∧
          ∀ arrows, arrayWithHoleSource.report (arrayWithHole [hiddenComment]) path arrows =
            arrayWithHoleSource.report (arrayWithHole []) path arrows := by
  have comment : hiddenComment.IsComment := ⟨rfl, rfl, rfl, rfl, rfl, rfl⟩
  have inserted : AddsComment (arrayWithHole []) (arrayWithHole [hiddenComment]) :=
    .inFirst rfl (.inFirst rfl (.here ⟨[_], hiddenComment, _, rfl, comment, rfl⟩))
  have some := isSome_arrayWithHole
  refine ⟨.single inserted, ?_, toTree_of_comments (.single inserted) arrayWithHoleSource⟩
  cases h : arrayWithHoleSource.toTree (arrayWithHole []) none with
  | ok tree => exact ⟨tree, rfl⟩
  | error e => rw [h] at some; cases some

/-! ## Parentheses -/

variable {p p' e o : Parsed}

/-- A parse with no more parentheses, or with one pair, in whatever field it stands. -/
def MayAddParentheses (p p' : Parsed) : Prop :=
  (∃ f, p' = p.withField f) ∨ p.AddsParentheses p'

theorem named_parenthesized (expects : p.expects e = true) {inner : Option String}
    {span opening closing : Span} :
    (e.parenthesized inner span opening closing).named = [e.withField inner] := by
  simp only [Parsed.expects, Bool.and_eq_true, Bool.not_eq_true'] at expects
  have named : (e.withField inner).isNamed = true := by rw [isNamed_withField, expects.1.1.1]
  have plain : (e.withField inner).symbol.isExtra = false := by
    rw [symbol_withField, expects.1.1.2]
  rw [Parsed.named, parenthesized, children]
  simp only [List.filter_cons, named, plain]
  rfl

/-- Parentheses around an operand stay on its side of the operator, of which they hold no byte. -/
theorem operator_side (update : p.symbol = .updateExpression) (expects : p.expects e = true)
    {before after : List Parsed} (children : p.children = before ++ e :: after) {span : Span}
    (within : e.span.Within span)
    (disjoint : ∀ sibling ∈ before ++ after, sibling.span.Disjoint span)
    (ho : p.field? "operator" = some o) (written : o.span.start < o.span.stop) :
    o.span.start < span.start ↔ o.span.start < e.span.start := by
  have field : o.field = some "operator" :=
    of_decide_eq_true (List.find?_some (p := fun c : Parsed => c.field = some "operator") ho)
  have sibling : o ∈ before ++ after := by
    have mem := mem_children_of_field? ho
    rw [children, List.mem_append, List.mem_cons] at mem
    rcases mem with mem | rfl | mem
    · exact List.mem_append_left _ mem
    · simp [Parsed.expects, hasExpressionIn, update, field, Symbol.holdsExpressions,
        Symbol.expressionFields] at expects
    · exact List.mem_append_right _ mem
  obtain ⟨starts, forwards, stops⟩ := within
  refine ⟨fun h => Nat.lt_of_lt_of_le h starts, fun h => ?_⟩
  by_contra late
  exact disjoint o sibling o.span.start (Nat.le_refl _) written (Nat.le_of_not_lt late)
    (Nat.lt_of_lt_of_le h (Nat.le_trans forwards stops))

theorem MayAddParentheses.children (h : MayAddParentheses p p') :
    Woven (ChildOf MayAddParentheses p) IsRemark p.children p'.children := by
  have same : ∀ c, ChildOf MayAddParentheses p c c := fun c =>
    .same (Or.inl ⟨c.field, withField_self.symm⟩) rfl
  rcases h with ⟨f, rfl⟩ | edit
  · rw [children_withField]
    exact .refl fun c _ => same c
  cases edit with
  | here edit =>
    obtain ⟨⟨before, e, after, inner, span, opening, closing, children, expects, within, disjoint,
      rfl⟩, written⟩ := edit
    have wrapped : ChildOf MayAddParentheses p e (e.parenthesized inner span opening closing) :=
      .wrapped expects rfl rfl rfl (named_parenthesized expects) (Or.inl ⟨inner, rfl⟩)
        fun update o ho =>
          operator_side update expects children within disjoint ho (written update o ho)
    rw [children, children_withChildren]
    exact .append (.refl fun c _ => same c) (.both wrapped (.refl fun c _ => same c))
  | inside children edit =>
    rw [children, children_withChildren]
    exact .append (.refl fun c _ => same c)
      (.both (.same (Or.inr edit) edit.field) (.refl fun c _ => same c))

theorem addsParentheses_variation : Variation MayAddParentheses where
  refl p := Or.inl ⟨p.field, withField_self.symm⟩
  symbol h := by
    rcases h with ⟨f, rfl⟩ | edit
    · exact symbol_withField
    · obtain ⟨cs, rfl⟩ := edit.exists_withChildren
      exact symbol_withChildren
  isNamed h := by
    rcases h with ⟨f, rfl⟩ | edit
    · exact isNamed_withField
    · obtain ⟨cs, rfl⟩ := edit.exists_withChildren
      exact isNamed_withChildren
  span h := by
    rcases h with ⟨f, rfl⟩ | edit
    · exact span_withField
    · obtain ⟨cs, rfl⟩ := edit.exists_withChildren
      exact span_withChildren
  children := MayAddParentheses.children

/-- Expressions and targets of assignments that are put in parentheses leave no trace of them in
the tree, not even in its places. -/
theorem toTree_of_parentheses (h : Relation.ReflTransGen AddsParentheses root root')
    (src : Source) : root'.toTree src = root.toTree src := by
  induction h with
  | refl => rfl
  | tail _ edit ih =>
    rw [← ih, toTree, toTree, addsParentheses_variation.convert_eq (Or.inr edit)]

/-- The parse of `++(a)`, with this byte range for the operator and this operand. -/
def increment (operator : Span) (operand : Parsed) : Parsed :=
  .mk .program true false false ⟨0, 5, 1, 0⟩ none
    [.mk .expressionStatement true false false ⟨0, 5, 1, 0⟩ none
      [.mk .updateExpression true false false ⟨0, 5, 1, 0⟩ none
        [.mk (.other "++") false false false operator (some "operator") [], operand]]]

/-- The operand of `++(a)`. -/
def incremented : Parsed :=
  .mk .identifier true false false ⟨3, 4, 1, 3⟩ (some "argument") []

/-- The operand with its parentheses. -/
def incrementedInParentheses : Parsed :=
  incremented.parenthesized none ⟨2, 5, 1, 2⟩ ⟨2, 3, 1, 2⟩ ⟨4, 5, 1, 4⟩

theorem parenthesizes_incremented {operator : Span} (before : operator.stop ≤ 2) :
    Parenthesizes
      (.mk .updateExpression true false false ⟨0, 5, 1, 0⟩ none
        [.mk (.other "++") false false false operator (some "operator") [], incremented])
      [.mk (.other "++") false false false operator (some "operator") [],
        incrementedInParentheses] := by
  refine ⟨[_], incremented, [], none, _, _, _, rfl, rfl, ⟨by decide, by decide, by decide⟩,
    fun sibling mem i _ below above _ => ?_, rfl⟩
  cases List.mem_singleton.mp mem
  exact absurd (Nat.lt_of_lt_of_le below before) (Nat.not_lt.mpr above)

/-- The operand of an increment keeps its side in parentheses. -/
theorem increment_keeps_tree :
    Relation.ReflTransGen AddsParentheses (increment ⟨0, 2, 1, 0⟩ incremented)
        (increment ⟨0, 2, 1, 0⟩ incrementedInParentheses) ∧
      (increment ⟨0, 2, 1, 0⟩ incrementedInParentheses).toTree (.ofString "++(a)") =
        (increment ⟨0, 2, 1, 0⟩ incremented).toTree (.ofString "++(a)") := by
  have added : AddsParentheses (increment ⟨0, 2, 1, 0⟩ incremented)
      (increment ⟨0, 2, 1, 0⟩ incrementedInParentheses) :=
    .inFirst rfl (.inFirst rfl (.here
      ⟨parenthesizes_incremented (by decide), fun _ o ho => by cases ho; decide⟩))
  exact ⟨.single added, toTree_of_parentheses (.single added) _⟩

/-- The sides of the operators of a tree. -/
def sides (tree : Node) : List Bool :=
  tree.preorder.filterMap fun n => (n.field? "prefix").map Value.isSet

theorem sides_of_empty_operator :
    ((increment ⟨2, 2, 1, 2⟩ incremented).toTree (.ofString "  (a)")).map sides = .ok [true] ∧
      ((increment ⟨2, 2, 1, 2⟩ incrementedInParentheses).toTree (.ofString "  (a)")).map sides =
        .ok [false] := by
  constructor <;> cbv

/-- An operator that is an empty token right before the parentheses is taken to be behind its
operand: it starts where the parentheses do. -/
theorem toTree_ne_of_empty_operator :
    ¬ ∀ (src : Source) (root root' : Parsed),
      Relation.ReflTransGen (Edits Parenthesizes) root root' →
        root'.toTree src = root.toTree src := by
  intro blind
  have added : Edits Parenthesizes (increment ⟨2, 2, 1, 2⟩ incremented)
      (increment ⟨2, 2, 1, 2⟩ incrementedInParentheses) :=
    .inFirst rfl (.inFirst rfl (.here (parenthesizes_incremented (by decide))))
  obtain ⟨bare, wrapped⟩ := sides_of_empty_operator
  rw [blind _ _ _ (.single added), bare] at wrapped
  cases wrapped

end Parsed

end FreeNames
