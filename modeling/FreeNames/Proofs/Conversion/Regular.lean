import FreeNames.Proofs.Conversion.Fills
import FreeNames.Proofs.Conversion.Same
import FreeNames.Proofs.Conversion.Reads
import FreeNames.Proofs.Tree.Built

/-!
# Templates and what they build

A slot builds a shape if whatever it is filled with has the shape, and the nodes in it are built
throughout.  The lemmas here say so of the common slots of templates and of the templates of
names and keys.  What depends on a regular parse is said of regular parses only; of the others
less is said, by one and the same lemma.

* `Parsed.IsRegular` is what a parse has in place so that the run finds what it reads.
* `Template.Builds` and `Slot.Builds` are the notion, with one lemma for each way to build a
  template or a slot.
-/

namespace FreeNames

/-! ## Regular parses -/

namespace Parsed

/-- Declarations declare with declarators, the body of a switch has cases, an accessed object, a
called function and the left side of an operator are there, and no symbol is named like a kind. -/
structure IsRegularHere (p : Parsed) : Prop where
  name : ∀ k ∈ Kind.known, k.name ≠ p.symbol.name
  declarators : p.symbol = .variableDeclaration → ∀ c ∈ p.named, c.symbol = .variableDeclarator
  cases : p.symbol = .switchStatement → ∀ body, p.field? "body" = some body →
    ∀ c ∈ body.named, c.symbol = .switchCase ∨ c.symbol = .switchDefault
  operand : ∀ field, p.symbol.operandField? = some field → (p.field? field).isSome = true

instance (p : Parsed) : Decidable p.IsRegularHere :=
  decidable_of_iff ((∀ k ∈ Kind.known, k.name ≠ p.symbol.name) ∧
      (p.symbol = .variableDeclaration → ∀ c ∈ p.named, c.symbol = .variableDeclarator) ∧
      (p.symbol = .switchStatement → ∀ body ∈ p.field? "body",
        ∀ c ∈ body.named, c.symbol = .switchCase ∨ c.symbol = .switchDefault) ∧
      ∀ field ∈ p.symbol.operandField?, (p.field? field).isSome = true)
    ⟨fun ⟨name, declarators, cases, operand⟩ => ⟨name, declarators, cases, operand⟩,
      fun h => ⟨h.name, h.declarators, h.cases, h.operand⟩⟩

/-- A parse that has in place what the run reads. -/
def IsRegular (root : Parsed) : Prop := ∀ p ∈ root.preorder, p.IsRegularHere

variable {p c : Parsed}

theorem IsRegular.here (h : p.IsRegular) : p.IsRegularHere := h p (self_mem_preorder p)

theorem IsRegular.child (h : p.IsRegular) (hc : c ∈ p.children) : c.IsRegular :=
  fun q hq => h q (mem_preorder_of_child hc hq)

end Parsed

variable {w : Parsed} {src : Source}

/-! ## Templates and slots -/

/-- Whatever the template is filled to is built throughout, and is of such a kind. -/
def Template.Builds (regular : Bool) (src : Source) (test : Kind → Bool) (t : Template w) : Prop :=
  ∀ n, t.fill (Part.converted src) = .ok n → n.BuiltThroughout regular ∧ test n.kind = true

/-- Whatever the slot is filled with has the shape, with nodes in it that are built throughout. -/
def Slot.Builds (regular : Bool) (src : Source) (shape : Shape) (slot : Slot w) : Prop :=
  ∀ v, Template.fillSlot (Part.converted src) slot = .ok v →
    (shape.forParse regular).admits v = true ∧ ∀ c ∈ v.nodes, c.BuiltThroughout regular

/-- The fields have the names of the shapes and build them, in order. -/
abbrev Template.FieldsBuild (regular : Bool) (src : Source) (shapes : List (String × Shape))
    (fields : List (String × Slot w)) : Prop :=
  List.Forall₂ (fun s f => f.1 = s.1 ∧ f.2.Builds regular src s.2) shapes fields

variable {regular : Bool} {test : Kind → Bool} {shape : Shape}

namespace Template

variable {kind : Kind} {span : Span} {shapes : List (String × Shape)}
  {fields : List (String × Slot w)} {dropped : List (Slot w)}

theorem FieldsBuild.fits (h : FieldsBuild regular src shapes fields)
    {vs : List (String × Value)} (filled : fillFields (Part.converted src) fields = .ok vs) :
    Shape.fits (shapes.map fun s => (s.1, s.2.forParse regular)) vs = true ∧
      ∀ f ∈ vs, ∀ c ∈ f.2.nodes, c.BuiltThroughout regular := by
  induction h generalizing vs with
  | nil =>
    cases filled
    exact ⟨rfl, List.forall_mem_nil _⟩
  | @cons s f shapes fields builds _ ih =>
    obtain ⟨name, slot⟩ := f
    obtain ⟨rfl, builds⟩ := builds
    obtain ⟨v, rest, hv, hrest, rfl⟩ := exists_of_fillFields_cons filled
    obtain ⟨admits, nodes⟩ := builds _ hv
    obtain ⟨fits, others⟩ := ih hrest
    refine ⟨?_, List.forall_mem_cons.mpr ⟨nodes, others⟩⟩
    rw [List.map_cons]
    exact Shape.fits_cons.mpr ⟨_, _, rfl, admits, fits⟩

theorem FieldsBuild.field {name : String} {slot : Slot w} (h : slot.Builds regular src shape)
    (rest : FieldsBuild regular src shapes fields) :
    FieldsBuild regular src ((name, shape) :: shapes) ((name, slot) :: fields) :=
  .cons ⟨rfl, h⟩ rest

theorem Builds.of_alternative (layout : shapes ∈ kind.alternatives regular)
    (fieldsBuild : FieldsBuild regular src shapes fields) (hk : test kind = true) :
    (Template.build kind span fields dropped).Builds regular src test := by
  intro n hn
  obtain ⟨vs, filled, rfl⟩ := exists_fields_of_fill hn
  obtain ⟨fits, nodes⟩ := fieldsBuild.fits filled
  refine ⟨Node.everywhere_iff.mpr ⟨?_, fun c hc => ?_⟩, hk⟩
  · exact List.any_eq_true.mpr ⟨_, List.mem_map_of_mem layout, fits⟩
  · obtain ⟨v, hv, mem⟩ := Node.mem_children.mp (show (c.1, c.2) ∈ _ from hc)
    exact nodes _ hv _ mem

theorem Builds.build (layout : shapes ∈ kind.readLayouts)
    (fieldsBuild : FieldsBuild regular src shapes fields) (hk : test kind = true) :
    (Template.build kind span fields dropped).Builds regular src test :=
  .of_alternative (Kind.mem_alternatives layout) fieldsBuild hk

theorem Builds.fault (f : Fault) : (Template.fault f : Template w).Builds regular src test := by
  intro n hn
  cases hn

theorem Builds.imp {t : Template w} {test' : Kind → Bool} (h : t.Builds regular src test)
    (next : ∀ k, test k = true → test' k = true) : t.Builds regular src test' :=
  fun n hn => (h n hn).imp_right (next _)

end Template

namespace Slot.Builds

theorem scalar {v : Value} (h : v.isScalar = true) :
    (Slot.value v : Slot w).Builds regular src .scalar := by
  intro u hu
  cases hu
  refine ⟨Shape.admits_forParse h, ?_⟩
  rw [Value.nodes_of_isScalar h]
  exact List.forall_mem_nil _

theorem bool (b : Bool) : (Slot.bool b : Slot w).Builds regular src .scalar := scalar rfl

theorem word (s : String) : (Slot.word s : Slot w).Builds regular src .scalar := scalar rfl

theorem textValue (t : Text) : (Slot.value (.text t) : Slot w).Builds regular src .text := by
  intro u hu
  cases hu
  exact ⟨Shape.admits_forParse rfl, List.forall_mem_nil _⟩

theorem null : (Slot.null : Slot w).Builds regular src (.option test) := by
  intro u hu
  cases hu
  exact ⟨Shape.admits_forParse rfl, List.forall_mem_nil _⟩

theorem fault (f : Fault) : (Slot.fault f : Slot w).Builds regular src shape := by
  intro u hu
  cases hu

theorem text (span : Span) : (Slot.text src span : Slot w).Builds regular src .text := by
  unfold Slot.text
  split
  · exact textValue _
  · exact fault _

theorem scalar_of_text {slot : Slot w} (h : slot.Builds regular src .text) :
    slot.Builds regular src .scalar := by
  intro v hv
  obtain ⟨admits, nodes⟩ := h v hv
  have text : Shape.text.admits v = true := by cases regular <;> exact admits
  obtain ⟨t, rfl⟩ := Shape.admits_text.mp text
  exact ⟨Shape.admits_forParse rfl, nodes⟩

theorem one {t : Template w} (h : t.Builds regular src test) :
    (Slot.one t).Builds regular src (.node test) := by
  intro v hv
  obtain ⟨n, filled, rfl⟩ := Template.exists_of_fillSlot_one hv
  obtain ⟨built, kind⟩ := h n filled
  refine ⟨Shape.admits_forParse kind, fun c hc => ?_⟩
  rw [Value.nodes_node, List.mem_singleton] at hc
  rwa [hc]

theorem option {slot : Slot w} (h : slot.Builds regular src (.node test)) :
    slot.Builds regular src (.option test) := by
  intro v hv
  obtain ⟨admits, nodes⟩ := h v hv
  refine ⟨?_, nodes⟩
  cases regular with
  | true => exact Bool.or_eq_true_iff.mpr (Or.inr admits)
  | false => exact admits

theorem turn {slot : Slot w} (h : slot.Builds regular src shape) (n : Nat) :
    (Slot.turn n slot).Builds regular src shape :=
  fun v hv => h v (Template.fillSlot_of_turn hv)

theorem late {slot : Slot w} (h : slot.Builds regular src shape) :
    slot.late.Builds regular src shape := h.turn 1

/-- The values that slots are filled with, one for each. -/
theorem forall_of_fillSlots {slots : List (Slot w)}
    (h : ∀ slot ∈ slots, slot.Builds regular src shape) {vs : List Value}
    (filled : Template.fillSlots (Part.converted src) slots = .ok vs) :
    ∀ v ∈ vs, (shape.forParse regular).admits v = true ∧
      ∀ c ∈ v.nodes, c.BuiltThroughout regular := by
  induction slots generalizing vs with
  | nil =>
    cases filled
    exact List.forall_mem_nil _
  | cons slot slots ih =>
    obtain ⟨v, rest, hv, hrest, rfl⟩ := Template.exists_of_fillSlots_cons filled
    exact List.forall_mem_cons.mpr ⟨h slot (List.mem_cons_self ..) _ hv,
      ih (fun s hs => h s (List.mem_cons_of_mem _ hs)) hrest⟩

theorem nodes_of_list {vs : List Value}
    (h : ∀ v ∈ vs, ∀ c ∈ v.nodes, c.BuiltThroughout regular) :
    ∀ c ∈ (Value.list vs).nodes, c.BuiltThroughout regular := by
  intro c hc
  obtain ⟨v, hv, node⟩ := List.mem_filterMap.mp hc
  cases v with
  | node n =>
    cases node
    exact h _ hv _ (List.mem_singleton_self _)
  | _ => cases node

/-- A list has a shape if its having that shape is all that its entries have theirs. -/
theorem many {entry : Shape} {slots : List (Slot w)}
    (entries : ∀ vs : List Value, (∀ v ∈ vs, (entry.forParse regular).admits v = true) →
      (shape.forParse regular).admits (.list vs) = true)
    (h : ∀ slot ∈ slots, slot.Builds regular src entry) :
    (Slot.many slots).Builds regular src shape := by
  intro v hv
  obtain ⟨vs, filled, rfl⟩ := Template.exists_of_fillSlot_many hv
  have all := forall_of_fillSlots h filled
  exact ⟨entries vs fun v hv => (all v hv).1, nodes_of_list fun v hv => (all v hv).2⟩

theorem list {slots : List (Slot w)} (h : ∀ slot ∈ slots, slot.Builds regular src (.node test)) :
    (Slot.many slots).Builds regular src (.list test) :=
  many (fun _ all => by cases regular <;> exact List.all_eq_true.mpr all) h

theorem slots {slots : List (Slot w)}
    (h : ∀ slot ∈ slots, slot.Builds regular src (.option test)) :
    (Slot.many slots).Builds regular src (.slots test) :=
  many (fun _ all => by cases regular <;> exact List.all_eq_true.mpr all) h

theorem empty : (Slot.many [] : Slot w).Builds regular src (.list test) :=
  list (List.forall_mem_nil _)

end Slot.Builds

/-! ## Common slots -/

/-- A place in a parse that is regular if it has to be, below which all conversions are known to
be built throughout. -/
structure Inside.Sound (regular : Bool) (src : Source) (x : Inside w) : Prop where
  isRegular : regular = true → x.parsed.IsRegular
  below : ∀ {c : Parsed}, sizeOf c < sizeOf x.parsed → (regular = true → c.IsRegular) →
    ∀ inObject n, Conversion.convert src c inObject = .ok n → n.BuiltThroughout regular

namespace Inside.Sound

variable {x : Inside w} {q : Part w} {name : String} (h : x.Sound regular src)

include h

theorem inside (hq : q ∈ x.parts) : q.inside.Sound regular src where
  isRegular yes := (h.isRegular yes).child (mem_children_of_mem_parts hq)
  below smaller := h.below (Nat.lt_trans smaller (sizeOf_lt_of_mem_parts hq))

theorem template (hq : q ∈ x.parts) :
    (Template.hole q).Builds regular src Kind.isAny := by
  intro n hn
  exact ⟨h.below (sizeOf_lt_of_mem_parts hq)
    (fun yes => (h.isRegular yes).child (mem_children_of_mem_parts hq)) _ n hn, rfl⟩

theorem hole (hq : q ∈ x.parts) : (Slot.hole q).Builds regular src (.node Kind.isAny) :=
  .one (h.template hq)

/-- The conversion of a part, where its kind is known. -/
theorem holeOf (hq : q ∈ x.parts)
    (kinds : ∀ n, q.converted src = .ok n → test n.kind = true) :
    (Slot.hole q).Builds regular src (.node test) :=
  .one fun n hn => ⟨(h.template hq n hn).1, kinds n hn⟩

theorem holes {qs : List (Part w)} (hqs : ∀ q ∈ qs, q ∈ x.parts) :
    (Slot.holes qs).Builds regular src (.list Kind.isAny) := by
  refine .list fun slot hs => ?_
  obtain ⟨q, hq, rfl⟩ := List.mem_map.mp hs
  exact h.hole (hqs q hq)

theorem holesOf {qs : List (Part w)} (hqs : ∀ q ∈ qs, q ∈ x.parts)
    (kinds : ∀ q ∈ qs, ∀ n, q.converted src = .ok n → test n.kind = true) :
    (Slot.holes qs).Builds regular src (.list test) := by
  refine .list fun slot hs => ?_
  obtain ⟨q, hq, rfl⟩ := List.mem_map.mp hs
  exact h.holeOf (hqs q hq) (kinds q hq)

theorem named : (Slot.holes x.named).Builds regular src (.list Kind.isAny) :=
  h.holes fun _ => mem_parts_of_named

theorem convert (name : String) : (x.convert name).Builds regular src (.node Kind.isAny) := by
  unfold Inside.convert
  split
  · next q hq => exact h.hole (mem_parts_of_field? hq)
  · exact .fault _

theorem optional (name : String) : (x.optional name).Builds regular src (.option Kind.isAny) := by
  unfold Inside.optional
  split
  · next q hq =>
    split
    · exact (h.hole (mem_parts_of_field? hq)).option
    · exact .null
  · exact .null

theorem first : x.first.Builds regular src Kind.isAny := by
  unfold Inside.first
  split
  · next q hq => exact h.template (mem_parts_of_named (List.mem_of_mem_head? hq))
  · exact .fault _

theorem firstOrNull : x.firstOrNull.Builds regular src (.option Kind.isAny) := by
  unfold Inside.firstOrNull
  split
  · next q hq => exact (h.hole (mem_parts_of_named (List.mem_of_mem_head? hq))).option
  · exact .null

omit h in
theorem textOf (name : String) : (x.textOf src name).Builds regular src .text := by
  unfold Inside.textOf
  split
  · exact .text _
  · exact .fault _

end Inside.Sound

/-! ## Kinds of parts -/

namespace Conversion

variable {q : Part w} {n : Node}

/-- The conversion of a string is a literal. -/
theorem kind_of_string (hs : q.symbol = .string) (hn : q.converted src = .ok n) :
    n.kind = .literal := by
  have hs' : q.parsed.inside.symbol = .string := hs
  have same : template src q.inObject q.parsed.inside = stringLiteral src q.parsed.inside := by
    unfold template
    rw [hs']
  rw [Part.converted, convert_eq, same, stringLiteral] at hn
  split at hn
  · cases hn
  · obtain ⟨vs, -, rfl⟩ := Template.exists_fields_of_fill hn
    rfl

/-- The conversion of a declarator is a declarator. -/
theorem kind_of_declarator (hs : q.symbol = .variableDeclarator) (hn : q.converted src = .ok n) :
    n.kind = .variableDeclarator := by
  have hs' : q.parsed.inside.symbol = .variableDeclarator := hs
  have same : template src q.inObject q.parsed.inside = variableDeclarator q.parsed.inside := by
    unfold template
    rw [hs']
  rw [Part.converted, convert_eq, same] at hn
  obtain ⟨vs, -, rfl⟩ := Template.exists_fields_of_fill hn
  rfl

/-- The conversion of a case is a case. -/
theorem kind_of_switchCase (hs : q.symbol = .switchCase ∨ q.symbol = .switchDefault)
    (hn : q.converted src = .ok n) : n.kind = .switchCase := by
  have same : template src q.inObject q.parsed.inside = switchCase q.parsed.inside ∨
      template src q.inObject q.parsed.inside = switchDefault q.parsed.inside := by
    unfold template
    rcases hs with hs | hs
    · have hs' : q.parsed.inside.symbol = .switchCase := hs
      rw [hs']
      exact Or.inl rfl
    · have hs' : q.parsed.inside.symbol = .switchDefault := hs
      rw [hs']
      exact Or.inr rfl
  rw [Part.converted, convert_eq] at hn
  rcases same with same | same
  all_goals
    rw [same] at hn
    obtain ⟨vs, -, rfl⟩ := Template.exists_fields_of_fill hn
    rfl

/-- The conversion of a specifier of an import is one. -/
theorem kind_of_importSpecifier (hs : q.symbol = .importSpecifier)
    (hn : q.converted src = .ok n) : n.kind = .importSpecifier := by
  have hs' : q.parsed.inside.symbol = .importSpecifier := hs
  have same : template src q.inObject q.parsed.inside = importSpecifier src q.parsed.inside := by
    unfold template
    rw [hs']
  rw [Part.converted, convert_eq, same, importSpecifier] at hn
  split at hn
  · obtain ⟨vs, -, rfl⟩ := Template.exists_fields_of_fill hn
    rfl
  · cases hn

/-- The conversion of a specifier of an export is one. -/
theorem kind_of_exportSpecifier (hs : q.symbol = .exportSpecifier)
    (hn : q.converted src = .ok n) : n.kind = .exportSpecifier := by
  have hs' : q.parsed.inside.symbol = .exportSpecifier := hs
  have same : template src q.inObject q.parsed.inside = exportSpecifier src q.parsed.inside := by
    unfold template
    rw [hs']
  rw [Part.converted, convert_eq, same, exportSpecifier] at hn
  split at hn
  · obtain ⟨vs, -, rfl⟩ := Template.exists_fields_of_fill hn
    rfl
  · cases hn

end Conversion

/-! ## Names and keys -/

namespace Conversion

open Template (FieldsBuild)

variable {x : Inside w} {q : Part w}

theorem identifier_builds (span : Span) :
    (identifier src span : Template w).Builds regular src Kind.isIdentifier :=
  .build (.head _) (.field (.text _) .nil) rfl

theorem identifierIn_builds (name : String) :
    (identifierIn src x name).Builds regular src (.node Kind.isIdentifier) := by
  unfold identifierIn
  split
  · exact .one (identifier_builds _)
  · exact .fault _

theorem identifierOrNull_builds (name : String) :
    (identifierOrNull src x name).Builds regular src (.option Kind.isIdentifier) := by
  unfold identifierOrNull
  split
  · exact (Slot.Builds.one (identifier_builds _)).option
  · exact .null

theorem privateName_builds (span : Span) :
    (privateName src span : Template w).Builds regular src Kind.isAny := by
  unfold privateName
  split
  · exact .build (.head _) (.field (.textValue _) .nil) rfl
  · exact .fault _

section

variable (h : x.Sound regular src) (hq : q ∈ x.parts)

include h hq

theorem exportName_builds : (exportName src q).Builds regular src (.node Kind.isModuleName) := by
  unfold exportName
  split
  · next string =>
    refine h.holeOf hq fun n hn => ?_
    rw [kind_of_string string hn]
    rfl
  · exact .one ((identifier_builds _).imp fun k hk => by rw [Kind.isModuleName, hk]; rfl)

theorem propertyKey_builds : (propertyKey src q).Builds regular src (.node Kind.isAny) := by
  unfold propertyKey
  split
  · exact .one (h.inside hq).first
  · exact .one (privateName_builds _)
  · exact h.hole hq
  · exact h.hole hq
  · exact .one ((identifier_builds _).imp fun _ _ => rfl)

end

end Conversion

end FreeNames
