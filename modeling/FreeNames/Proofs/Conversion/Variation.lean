import FreeNames.Conversion.Table
import FreeNames.Proofs.Conversion.Edits
import FreeNames.Proofs.Conversion.Parts
import FreeNames.Proofs.Tree.Likeness

/-!
# Variations of a parse

A variation relates parses that differ in comments and in parentheses around expressions, and
in nothing that a template looks at.  The lemmas here say what stays the same for the reader of
a node: its parts correspond in order, and corresponding parts are alike unless the second one
is the first one in parentheses.

* `Variation` is such a relation, and `ChildOf` relates a child to the one in its place.
* `Inside.Alike` and `Part.Alike` are what the readers of a node and of its parts rely on while
  the conversions of smaller nodes are known to agree.
-/

namespace FreeNames

/-! ## Lists -/

namespace Woven

variable {α β γ δ : Type} {R : α → β → Prop} {More : β → Prop} {as : List α} {bs : List β}

theorem mem (h : Woven R More as bs) :
    Woven (fun a b => a ∈ as ∧ b ∈ bs ∧ R a b) More as bs := by
  induction h with
  | nil => exact .nil
  | both hab _ ih =>
    refine .both ⟨List.mem_cons_self .., List.mem_cons_self .., hab⟩ ?_
    simpa using ih.map (f := id) (g := id) (S := fun a b => a ∈ _ :: _ ∧ b ∈ _ :: _ ∧ R a b)
      (fun a b ⟨ha, hb, hab⟩ => ⟨List.mem_cons_of_mem _ ha, List.mem_cons_of_mem _ hb, hab⟩)
      fun b hb => hb
  | more hb _ ih =>
    refine .more hb ?_
    simpa using ih.map (f := id) (g := id) (S := fun a b => a ∈ _ ∧ b ∈ _ :: _ ∧ R a b)
      (fun a b ⟨ha, hb, hab⟩ => ⟨ha, List.mem_cons_of_mem _ hb, hab⟩) fun b hb => hb

theorem imp {S : α → β → Prop} (h : Woven R More as bs) (next : ∀ a b, R a b → S a b) :
    Woven S More as bs := by
  simpa using h.map (f := id) (g := id) next fun _ hb => hb

theorem of_map {f : γ → α} {g : δ → β} {cs : List γ} {ds : List δ}
    (h : Woven R More (cs.map f) (ds.map g)) :
    Woven (fun c d => R (f c) (g d)) (fun d => More (g d)) cs ds := by
  generalize hc : cs.map f = as at h
  generalize hd : ds.map g = bs at h
  induction h generalizing cs ds with
  | nil =>
    rw [List.map_eq_nil_iff.mp hc, List.map_eq_nil_iff.mp hd]
    exact .nil
  | both hab _ ih =>
    obtain ⟨c, cs, rfl, rfl, rfl⟩ := List.map_eq_cons_iff.mp hc
    obtain ⟨d, ds, rfl, rfl, rfl⟩ := List.map_eq_cons_iff.mp hd
    exact .both hab (ih rfl rfl)
  | more hb _ ih =>
    obtain ⟨d, ds, rfl, rfl, rfl⟩ := List.map_eq_cons_iff.mp hd
    exact .more hb (ih hc rfl)

theorem eraseP {f : α → Bool} {g : β → Bool} (h : Woven R More as bs)
    (same : ∀ a b, R a b → g b = f a) (none : ∀ b, More b → g b = false) :
    Woven R More (as.eraseP f) (bs.eraseP g) := by
  induction h with
  | nil => exact .nil
  | @both a b _ _ hab rest ih =>
    cases hf : f a with
    | true => simpa [List.eraseP_cons, same a b hab, hf] using rest
    | false => simpa [List.eraseP_cons, same a b hab, hf] using .both hab ih
  | @more b _ _ hb _ ih => simpa [List.eraseP_cons, none b hb] using .more hb ih

theorem find? {f : α → Bool} {g : β → Bool} (h : Woven R More as bs)
    (same : ∀ a b, R a b → g b = f a) (none : ∀ b, More b → g b = false) :
    Option.Rel R (as.find? f) (bs.find? g) := by
  induction h with
  | nil => exact .none
  | @both a b _ _ hab rest ih =>
    cases hf : f a with
    | true => simpa [List.find?_cons, same a b hab, hf] using Option.Rel.some hab
    | false => simpa [List.find?_cons, same a b hab, hf] using ih
  | @more b _ _ hb _ ih => simpa [List.find?_cons, none b hb] using ih

theorem any {f : α → Bool} {g : β → Bool} (h : Woven R More as bs)
    (same : ∀ a b, R a b → g b = f a) (none : ∀ b, More b → g b = false) :
    bs.any g = as.any f := by
  induction h with
  | nil => rfl
  | @both a b _ _ hab _ ih => rw [List.any_cons, List.any_cons, same a b hab, ih]
  | @more b _ _ hb _ ih => rw [List.any_cons, none b hb, Bool.false_or, ih]

end Woven

/-! ## Variations -/

/-- A child and what stands in its place: a related node, or one in parentheses where the node
has an expression.  Parentheses do not change on which side of the operator an operand is. -/
inductive ChildOf (S : Parsed → Parsed → Prop) (p : Parsed) : Parsed → Parsed → Prop
  | same {c c' : Parsed} : S c c' → c'.field = c.field → ChildOf S p c c'
  | wrapped {c c' d : Parsed} : p.expects c = true → c'.symbol = .parenthesizedExpression →
      c'.isNamed = true → c'.field = c.field → c'.named = [d] → S c d →
      (p.symbol = .updateExpression → ∀ o, p.field? "operator" = some o →
        (o.span.start < c'.span.start ↔ o.span.start < c.span.start)) → ChildOf S p c c'

/-- A comment that stands in no field. -/
def IsRemark (c : Parsed) : Prop := c.symbol.isExtra = true ∧ c.isNamed = true ∧ c.field = none

/-- Related parses are the same but for comments and for parentheses around expressions. -/
structure Variation (S : Parsed → Parsed → Prop) : Prop where
  refl : ∀ p, S p p
  symbol : ∀ {p p'}, S p p' → p'.symbol = p.symbol
  isNamed : ∀ {p p'}, S p p' → p'.isNamed = p.isNamed
  span : ∀ {p p'}, S p p' → p'.span = p.span
  children : ∀ {p p'}, S p p' → Woven (ChildOf S p) IsRemark p.children p'.children

namespace ChildOf

variable {S : Parsed → Parsed → Prop} {p c c' : Parsed} (V : Variation S)

theorem field (h : ChildOf S p c c') : c'.field = c.field := by
  cases h with
  | same _ field => exact field
  | wrapped _ _ _ field => exact field

include V in
theorem isNamed (h : ChildOf S p c c') : c'.isNamed = c.isNamed := by
  cases h with
  | same h => exact V.isNamed h
  | wrapped expects _ named =>
    simp only [Parsed.expects, Bool.and_eq_true] at expects
    rw [named, expects.1.1.1]

include V in
theorem isExtra (h : ChildOf S p c c') : c'.symbol.isExtra = c.symbol.isExtra := by
  cases h with
  | same h => rw [V.symbol h]
  | wrapped expects symbol =>
    simp only [Parsed.expects, Bool.and_eq_true, Bool.not_eq_true'] at expects
    rw [symbol, expects.1.1.2]
    rfl

/-- No symbol by which a node tells its parts apart is that of an expression in parentheses. -/
theorem symbol_eq_iff (V : Variation S) {s : Symbol} (h : ChildOf S p c c')
    (told : s.isNoExpression = true) : c'.symbol = s ↔ c.symbol = s := by
  cases h with
  | same h => rw [V.symbol h]
  | wrapped expects symbol =>
    simp only [Parsed.expects, Bool.and_eq_true, Bool.not_eq_true'] at expects
    rw [symbol]
    constructor
    · rintro rfl
      cases told
    · rintro rfl
      rw [told] at expects
      cases expects.1.2

end ChildOf

/-! ## Parts of related nodes -/

variable {w w' : Parsed} {src : Source} {S : Parsed → Parsed → Prop}

/-- A part has the conversion of the part in whose place it stands. -/
def Part.ConvertsLike (src : Source) (q : Part w) (q' : Part w') : Prop :=
  Conversion.convert src q'.parsed q'.inObject = Conversion.convert src q.parsed q.inObject

/-- Related places, below which related nodes have one conversion. -/
structure Inside.Alike (src : Source) (S : Parsed → Parsed → Prop) (x : Inside w)
    (x' : Inside w') : Prop where
  related : S x.parsed x'.parsed
  below : ∀ {c c' : Parsed}, sizeOf c < sizeOf x.parsed → S c c' → ∀ inObject,
    Conversion.convert src c' inObject = Conversion.convert src c inObject

/-- A part of a node and the part in its place. -/
structure Part.Alike (src : Source) (S : Parsed → Parsed → Prop) (x : Inside w) (q : Part w)
    (q' : Part w') : Prop where
  child : ChildOf S x.parsed q.parsed q'.parsed
  converts : q.ConvertsLike src q'
  below : ∀ {c c' : Parsed}, sizeOf c < sizeOf q.parsed → S c c' → ∀ inObject,
    Conversion.convert src c' inObject = Conversion.convert src c inObject

/-- The conversion of a node in parentheses is that of the node. -/
theorem Conversion.convert_of_parenthesized {p d : Parsed} {inObject : Bool}
    (symbol : p.symbol = .parenthesizedExpression) (inner : p.named = [d]) :
    convert src p inObject = convert src d false := by
  have hs : p.inside.symbol = .parenthesizedExpression := symbol
  have template : template src inObject p.inside = p.inside.first := by
    unfold Conversion.template
    rw [hs]
  have named := p.inside.named_map_parsed
  rw [show p.inside.parsed.named = [d] from inner] at named
  obtain ⟨r, hr, rfl⟩ := List.map_eq_singleton_iff.mp named
  have member : r ∈ p.inside.parts := Inside.mem_parts_of_named (hr ▸ List.mem_singleton.mpr rfl)
  have plain : r.inObject = false := by
    rw [Inside.inObject_of_mem_parts member, hs]
    rfl
  rw [convert_eq, template, Inside.first, hr, List.head?_cons]
  exact congrArg (convert src r.parsed) plain

namespace Part.Alike

variable {x : Inside w} {q : Part w} {q' : Part w'}

/-- Where the node has no expression, a part stands for itself. -/
theorem inside (h : Part.Alike src S x q q') (out : x.parsed.expects q.parsed = false) :
    q.inside.Alike src S q'.inside := by
  refine ⟨?_, h.below⟩
  cases h.child with
  | same related => exact related
  | wrapped expects => rw [out] at expects; cases expects

end Part.Alike

namespace Inside.Alike

variable {x : Inside w} {x' : Inside w'} (V : Variation S) (h : x.Alike src S x')

include V h

theorem symbol : x'.symbol = x.symbol := V.symbol h.related

theorem span : x'.span = x.span := V.span h.related

theorem lacking (name : String) : x'.lacking name = x.lacking name := by
  rw [Inside.lacking, Inside.lacking, h.symbol V]

/-- Corresponding parts have one conversion. -/
theorem converts {q : Part w} {q' : Part w'} (hq : q ∈ x.parts) (hq' : q' ∈ x'.parts)
    (child : ChildOf S x.parsed q.parsed q'.parsed) : q.ConvertsLike src q' := by
  have smaller := Inside.sizeOf_lt_of_mem_parts hq
  rw [Part.ConvertsLike, Inside.inObject_of_mem_parts hq', Inside.inObject_of_mem_parts hq,
    h.symbol V]
  cases child with
  | same related => exact h.below smaller related _
  | wrapped expects symbol _ _ inner related =>
    have notObject : x.symbol ≠ .object := by
      intro object
      have hs : x.parsed.symbol = .object := object
      cases hf : q.parsed.field <;> simp [Parsed.expects, Parsed.hasExpressionIn, hs, hf,
        Symbol.holdsExpressions, Symbol.expressionFields] at expects
    rw [Conversion.convert_of_parenthesized symbol inner, decide_eq_false notObject]
    exact h.below smaller related _

/-- The parts correspond, except that the second node may have comments besides. -/
theorem parts :
    Woven (Part.Alike src S x) (fun q' => IsRemark q'.parsed) x.parts x'.parts := by
  have woven := V.children h.related
  rw [← x.map_parsed_parts, ← x'.map_parsed_parts] at woven
  refine woven.of_map.mem.imp fun q q' ⟨hq, hq', child⟩ => ?_
  exact ⟨child, h.converts V hq hq' child, fun smaller =>
    h.below (Nat.lt_trans smaller (Inside.sizeOf_lt_of_mem_parts hq))⟩

/-- So do the parts that are no comments. -/
theorem uncommented :
    List.Forall₂ (Part.Alike src S x) (x.parts.filter fun q => !q.symbol.isExtra)
      (x'.parts.filter fun q => !q.symbol.isExtra) := by
  have woven := (h.parts V).filter (f := fun q => !q.symbol.isExtra)
    (g := fun q => !q.symbol.isExtra) fun q q' alike => congrArg not (alike.child.isExtra V)
  exact woven.forall₂ fun q' hq' remark => by
    have := (List.mem_filter.mp hq').2
    rw [Bool.not_eq_true'] at this
    exact absurd remark.1 (by simpa [Part.symbol] using this)

end Inside.Alike

end FreeNames
