import FreeNames.Proofs.Conversion.Variation

/-!
# Templates that fill to the same

Two templates are the same for a source if they fill to one node, or to one fault, where each
hole is filled with the conversion of its part.  The lemmas here say so of the common slots of
templates in alike places, and of the templates of names and keys.

* `Template.Same` and `Slot.Same` are the notion, with one lemma for each way to build a
  template or a slot.
* `Inside.Alike.field?_cases` and `Inside.Alike.named` are what a template finds in alike
  places; where a node holds no expression, what it finds is alike again.
-/

namespace FreeNames

variable {w w' : Parsed} {src : Source} {S : Parsed → Parsed → Prop}

/-! ## Templates and slots -/

/-- The conversion of a part. -/
def Part.converted (src : Source) (q : Part w) : Except Fault Node :=
  Conversion.convert src q.parsed q.inObject

/-- The templates fill to one node or fault. -/
def Template.Same (src : Source) (t : Template w) (t' : Template w') : Prop :=
  t'.fill (Part.converted src) = t.fill (Part.converted src)

/-- The slots fill to one value or fault. -/
def Slot.Same (src : Source) (s : Slot w) (s' : Slot w') : Prop :=
  Template.fillSlot (Part.converted src) s' = Template.fillSlot (Part.converted src) s

/-- Fields of the same names with the same slots, in one order. -/
abbrev Template.FieldsSame (src : Source) (fs : List (String × Slot w))
    (fs' : List (String × Slot w')) : Prop :=
  List.Forall₂ (fun f f' => f'.1 = f.1 ∧ f.2.Same src f'.2) fs fs'

namespace Template

theorem fillFields_eq_of_same {fs : List (String × Slot w)} {fs' : List (String × Slot w')}
    (h : FieldsSame src fs fs') :
    fillFields (Part.converted src) fs' = fillFields (Part.converted src) fs := by
  induction h with
  | nil => rfl
  | @cons f f' _ _ same _ ih =>
    obtain ⟨name, slot⟩ := f
    obtain ⟨name', slot'⟩ := f'
    obtain ⟨rfl, same⟩ := same
    rw [fillFields, fillFields, ih, same]

theorem fillSlots_eq_of_same {ss : List (Slot w)} {ss' : List (Slot w')}
    (h : List.Forall₂ (Slot.Same src) ss ss') :
    fillSlots (Part.converted src) ss' = fillSlots (Part.converted src) ss := by
  induction h with
  | nil => rfl
  | cons same _ ih => rw [fillSlots, fillSlots, ih, same]

namespace Same

theorem fault (f : Fault) : (Template.fault f : Template w).Same src (.fault f : Template w') :=
  rfl

theorem hole {q : Part w} {q' : Part w'} (h : q.ConvertsLike src q') :
    (Template.hole q).Same src (.hole q') := h

theorem build {kind : Kind} {span span' : Span} {fs : List (String × Slot w)}
    {fs' : List (String × Slot w')} {ds : List (Slot w)} {ds' : List (Slot w')}
    (hs : span' = span) (hf : FieldsSame src fs fs') (hd : List.Forall₂ (Slot.Same src) ds ds') :
    (Template.build kind span fs ds).Same src (.build kind span' fs' ds') := by
  subst hs
  rw [Same, fill, fill, fillFields_eq_of_same hf, fillSlots_eq_of_same hd]

theorem node {kind : Kind} {span span' : Span} {fs : List (String × Slot w)}
    {fs' : List (String × Slot w')} (hs : span' = span) (hf : FieldsSame src fs fs') :
    (Template.node kind span fs).Same src (.node kind span' fs') :=
  .build hs hf .nil

end Same

theorem FieldsSame.field {name : String} {s : Slot w} {s' : Slot w'}
    {fs : List (String × Slot w)} {fs' : List (String × Slot w')} (h : s.Same src s')
    (hf : FieldsSame src fs fs') : FieldsSame src ((name, s) :: fs) ((name, s') :: fs') :=
  .cons ⟨rfl, h⟩ hf

end Template

namespace Slot.Same

theorem value (v : Value) : (Slot.value v : Slot w).Same src (.value v : Slot w') := rfl

theorem fault (f : Fault) : (Slot.fault f : Slot w).Same src (.fault f : Slot w') := rfl

theorem one {t : Template w} {t' : Template w'} (h : t.Same src t') :
    (Slot.one t).Same src (.one t') := by
  rw [Slot.Same, Template.fillSlot, Template.fillSlot, h]

theorem many {ss : List (Slot w)} {ss' : List (Slot w')}
    (h : List.Forall₂ (Slot.Same src) ss ss') : (Slot.many ss).Same src (.many ss') := by
  rw [Slot.Same, Template.fillSlot, Template.fillSlot, Template.fillSlots_eq_of_same h]

theorem turn {s : Slot w} {s' : Slot w'} (h : s.Same src s') (n : Nat) :
    (Slot.turn n s).Same src (.turn n s') := by
  rw [Slot.Same, Template.fillSlot, Template.fillSlot, h]

theorem late {s : Slot w} {s' : Slot w'} (h : s.Same src s') : s.late.Same src s'.late := h.turn 1

theorem hole {q : Part w} {q' : Part w'} (h : q.ConvertsLike src q') :
    (Slot.hole q).Same src (.hole q') := one (.hole h)

theorem holes {qs : List (Part w)} {qs' : List (Part w')}
    (h : List.Forall₂ (Part.ConvertsLike src) qs qs') : (Slot.holes qs).Same src (.holes qs') := by
  refine many ?_
  rw [List.forall₂_map_left_iff, List.forall₂_map_right_iff]
  exact h.imp fun _ _ => hole

theorem text {span span' : Span} (h : span' = span) :
    (Slot.text src span : Slot w).Same src (Slot.text src span' : Slot w') := by
  subst h
  unfold Slot.text
  split
  · exact value _
  · exact fault _

end Slot.Same

/-! ## Parts in which no expression stands -/

namespace Symbol

/-- Nodes that have no expression in the field. -/
def isPlainIn (s : Symbol) (name : String) : Bool :=
  !s.holdsExpressions && !s.expressionFields.contains name

/-- Nodes that have no expression among their parts. -/
def isPlain (s : Symbol) : Bool := !s.holdsExpressions && s.expressionFields.isEmpty

end Symbol

theorem Parsed.expects_eq_false_of_field {p c : Parsed} {s : Symbol} {name : String}
    (hs : p.symbol = s) (plain : s.isPlainIn name = true) (field : c.field = some name) :
    p.expects c = false := by
  subst hs
  simp only [Symbol.isPlainIn, Bool.and_eq_true, Bool.not_eq_true'] at plain
  rw [Parsed.expects, field, Option.any_some, Parsed.hasExpressionIn, plain.1, plain.2]
  simp

theorem Parsed.expects_eq_false {p c : Parsed} {s : Symbol} (hs : p.symbol = s)
    (plain : s.isPlain = true) : p.expects c = false := by
  subst hs
  simp only [Symbol.isPlain, Bool.and_eq_true, Bool.not_eq_true', List.isEmpty_iff] at plain
  cases hf : c.field <;> simp [Parsed.expects, Parsed.hasExpressionIn, plain, hf]

/-! ## Common slots -/

namespace Inside.Alike

variable {x : Inside w} {x' : Inside w'} (V : Variation S) (h : x.Alike src S x')

include V h

/-- What the places have in a field: nothing, or parts in one place. -/
theorem field?_cases (name : String) :
    (x.field? name = none ∧ x'.field? name = none) ∨
      ∃ q q', x.field? name = some q ∧ x'.field? name = some q' ∧ Part.Alike src S x q q' := by
  have found := (h.parts V).find? (f := fun q => q.parsed.field = some name)
    (g := fun q => q.parsed.field = some name)
    (fun q q' alike => by rw [alike.child.field]) fun q' remark => by simp [remark.2.2]
  cases hq : x.field? name with
  | none =>
    rw [Inside.field?] at hq
    rw [hq] at found
    exact Or.inl ⟨rfl, (by cases hq' : x'.parts.find? _ with
      | none => exact hq'
      | some q' => rw [hq'] at found; cases found)⟩
  | some q =>
    rw [Inside.field?] at hq
    rw [hq] at found
    cases hq' : x'.parts.find? (fun q => decide (q.parsed.field = some name)) with
    | none => rw [hq'] at found; cases found
    | some q' =>
      rw [hq'] at found
      cases found with
      | some alike => exact Or.inr ⟨q, q', rfl, hq', alike⟩

omit h in
/-- Of parts that correspond but for comments, the named ones that are no comments do. -/
theorem filter_named {qs : List (Part w)} {qs' : List (Part w')}
    (woven : Woven (Part.Alike src S x) (fun q' => IsRemark q'.parsed) qs qs') :
    List.Forall₂ (Part.Alike src S x) (qs.filter fun q => q.parsed.isNamed && !q.symbol.isExtra)
      (qs'.filter fun q => q.parsed.isNamed && !q.symbol.isExtra) := by
  have kept := woven.filter (f := fun q => q.parsed.isNamed && !q.symbol.isExtra)
    (g := fun q => q.parsed.isNamed && !q.symbol.isExtra) fun q q' alike => by
      rw [alike.child.isNamed V, Part.symbol, alike.child.isExtra V]; rfl
  refine kept.forall₂ fun q' hq' remark => ?_
  have := (List.mem_filter.mp hq').2
  simp [Part.symbol, remark.1] at this

/-- The named parts correspond. -/
theorem named : List.Forall₂ (Part.Alike src S x) x.named x'.named := filter_named V (h.parts V)

theorem fieldAll (name : String) :
    List.Forall₂ (Part.Alike src S x) (x.fieldAll name) (x'.fieldAll name) := by
  have woven := (h.parts V).filter
    (f := fun q => q.parsed.field = some name && q.parsed.isNamed && !q.symbol.isExtra)
    (g := fun q => q.parsed.field = some name && q.parsed.isNamed && !q.symbol.isExtra)
    fun q q' alike => by
      rw [alike.child.isNamed V, alike.child.field, Part.symbol, alike.child.isExtra V]; rfl
  refine woven.forall₂ fun q' hq' remark => ?_
  have := (List.mem_filter.mp hq').2
  simp [Part.symbol, remark.1] at this

theorem hasToken (tokens : List Symbol) : x'.hasToken tokens = x.hasToken tokens := by
  have woven := V.children h.related
  refine woven.any (fun c c' child => ?_) fun c' remark => by simp [remark.2.1]
  cases child with
  | same related => rw [V.isNamed related, V.symbol related]
  | wrapped expects _ named =>
    simp only [Parsed.expects, Bool.and_eq_true] at expects
    simp [named, expects.1.1.1]

theorem holes_named : (Slot.holes x.named).Same src (.holes x'.named) :=
  .holes ((h.named V).imp fun _ _ alike => alike.converts)

theorem convert (name : String) : (x.convert name).Same src (x'.convert name) := by
  rw [Inside.convert, Inside.convert]
  obtain ⟨hq, hq'⟩ | ⟨q, q', hq, hq', alike⟩ := h.field?_cases V name
  · rw [hq, hq', h.lacking V]
    exact .fault _
  · rw [hq, hq']
    exact .hole alike.converts

theorem optional (name : String) : (x.optional name).Same src (x'.optional name) := by
  rw [Inside.optional, Inside.optional]
  obtain ⟨hq, hq'⟩ | ⟨q, q', hq, hq', alike⟩ := h.field?_cases V name
  · rw [hq, hq']
    exact .value _
  · rw [hq, hq']
    simp only [alike.child.isNamed V]
    split
    · exact .hole alike.converts
    · exact .value _

/-- What the places have as their first named part: nothing, or parts in one place. -/
theorem head?_named_cases : (x.named.head? = none ∧ x'.named.head? = none) ∨
    ∃ q q', x.named.head? = some q ∧ x'.named.head? = some q' ∧ Part.Alike src S x q q' := by
  have named := h.named V
  generalize x.named = qs, x'.named = qs' at named ⊢
  cases named with
  | nil => exact Or.inl ⟨rfl, rfl⟩
  | cons alike _ => exact Or.inr ⟨_, _, rfl, rfl, alike⟩

theorem first : x.first.Same src x'.first := by
  rw [Inside.first, Inside.first, h.lacking V]
  obtain ⟨hq, hq'⟩ | ⟨q, q', hq, hq', alike⟩ := h.head?_named_cases V
  · rw [hq, hq']
    exact .fault _
  · rw [hq, hq']
    exact .hole alike.converts

theorem firstOrNull : x.firstOrNull.Same src x'.firstOrNull := by
  rw [Inside.firstOrNull, Inside.firstOrNull]
  obtain ⟨hq, hq'⟩ | ⟨q, q', hq, hq', alike⟩ := h.head?_named_cases V
  · rw [hq, hq']
    exact .value _
  · rw [hq, hq']
    exact .hole alike.converts

section

variable {s : Symbol} (hs : x.symbol = s)

include hs

/-- What the places have in a field without an expression. -/
theorem plainField?_cases (name : String) (plain : s.isPlainIn name = true) :
    (x.field? name = none ∧ x'.field? name = none) ∨
      ∃ q q', x.field? name = some q ∧ x'.field? name = some q' ∧
        q.ConvertsLike src q' ∧ q.inside.Alike src S q'.inside := by
  refine (h.field?_cases V name).imp_right fun ⟨q, q', hq, hq', alike⟩ => ?_
  exact ⟨q, q', hq, hq', alike.converts,
    alike.inside (Parsed.expects_eq_false_of_field hs plain (field_eq_of_field? hq))⟩

/-- The named parts of a node without expressions. -/
theorem plainNamed (plain : s.isPlain = true) :
    List.Forall₂ (fun q q' => q.ConvertsLike src q' ∧ q.inside.Alike src S q'.inside)
      x.named x'.named :=
  (h.named V).imp fun _ _ alike =>
    ⟨alike.converts, alike.inside (Parsed.expects_eq_false hs plain)⟩

/-- The named parts of a node without expressions, of those symbols. -/
theorem plainNamed_filter (plain : s.isPlain = true) (kept : Symbol → Bool) :
    List.Forall₂
      (fun q q' => kept q.symbol = true ∧ q.ConvertsLike src q' ∧ q.inside.Alike src S q'.inside)
      (x.named.filter fun q => kept q.symbol) (x'.named.filter fun q => kept q.symbol) := by
  have alike : List.Forall₂ _ (x.named.filter fun q => kept q.symbol)
      (x'.named.filter fun q => kept q.symbol) := List.rel_filter (fun q q' alike => by
    have symbol : q'.symbol = q.symbol := alike.2.symbol V
    simp only [symbol]) (h.plainNamed V hs plain)
  exact ((Woven.of_exact alike).mem.imp fun q q' ⟨hq, _, both⟩ =>
    ⟨(List.mem_filter.mp hq).2, both⟩).forall₂ fun _ _ => id

theorem textOf (name : String) (plain : s.isPlainIn name = true) :
    (x.textOf src name).Same src (x'.textOf src name) := by
  rw [Inside.textOf, Inside.textOf]
  obtain ⟨hq, hq'⟩ | ⟨q, q', hq, hq', -, alike⟩ := h.plainField?_cases V hs name plain
  · rw [hq, hq', h.lacking V]
    exact .fault _
  · rw [hq, hq']
    exact .text (alike.span V)

end

end Inside.Alike

/-! ## Names and keys -/

namespace Conversion

theorem identifier_same {span span' : Span} (hs : span' = span) :
    (identifier src span : Template w).Same src (identifier src span' : Template w') :=
  .node hs (.field (.text hs) .nil)

theorem privateName_same {span span' : Span} (hs : span' = span) :
    (privateName src span : Template w).Same src (privateName src span' : Template w') := by
  subst hs
  unfold privateName
  split
  · exact .node rfl (.field (.value _) .nil)
  · exact .fault _

section

variable {q : Part w} {q' : Part w'} (V : Variation S) (h : q.inside.Alike src S q'.inside)

include V h

theorem isComputedKey_eq : isComputedKey q' = isComputedKey q := by
  have symbol : q'.symbol = q.symbol := h.symbol V
  rw [isComputedKey, isComputedKey, symbol]

variable (converts : q.ConvertsLike src q')

include converts

theorem exportName_same : (exportName src q).Same src (exportName src q') := by
  have symbol : q'.symbol = q.symbol := h.symbol V
  rw [exportName, exportName, symbol]
  split
  · exact .hole converts
  · exact .one (identifier_same (h.span V))

theorem propertyKey_same : (propertyKey src q).Same src (propertyKey src q') := by
  have symbol : q'.symbol = q.symbol := h.symbol V
  rw [propertyKey, propertyKey, symbol]
  split
  · exact .one (h.first V)
  · exact .one (privateName_same (h.span V))
  · exact .hole converts
  · exact .hole converts
  · exact .one (identifier_same (h.span V))

end

section

variable {x : Inside w} {x' : Inside w'} (V : Variation S) (h : x.Alike src S x') {s : Symbol}
  (hs : x.symbol = s) {name : String} (plain : s.isPlainIn name = true)

include V h hs plain

theorem identifierIn_same : (identifierIn src x name).Same src (identifierIn src x' name) := by
  rw [identifierIn, identifierIn]
  obtain ⟨hq, hq'⟩ | ⟨q, q', hq, hq', -, alike⟩ := h.plainField?_cases V hs name plain
  · rw [hq, hq', h.lacking V]
    exact .fault _
  · rw [hq, hq']
    exact .one (identifier_same (alike.span V))

theorem identifierOrNull_same :
    (identifierOrNull src x name).Same src (identifierOrNull src x' name) := by
  rw [identifierOrNull, identifierOrNull]
  obtain ⟨hq, hq'⟩ | ⟨q, q', hq, hq', -, alike⟩ := h.plainField?_cases V hs name plain
  · rw [hq, hq']
    exact .value _
  · rw [hq, hq']
    exact .one (identifier_same (alike.span V))

end

end Conversion

end FreeNames
