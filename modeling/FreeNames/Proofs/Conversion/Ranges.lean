import FreeNames.Proofs.Conversion.Fills
import FreeNames.Proofs.Conversion.Same
import FreeNames.Proofs.Conversion.Reads
import FreeNames.Proofs.Tree.Built

/-!
# Ranges of nodes

The ranges of a parse nest if every node contains its children.  Most nodes of the tree of such a
parse have the range of the node that they come from, and contain their children as well.  Two
kinds of nodes are made up and have the range of only a part of that node:

* the property for a name with a default in an object pattern has the range of the name, although
  the default belongs to its value;
* the declarator of a loop over a collection has the range of the declared name, and so has the
  declaration around it, although the value that the name starts with stands behind it.

`Parsed.Strays` says of a child that it stands outside its parent in one of these two ways, and
`Parsed.NestsAt` that a node has no other children outside its range.

* `Parsed.NestsIn` and `Parsed.Encloses` say of a whole node that it lies in a range, and nests.
* `Template.Gives` and `Slot.Gives` carry a statement on nodes over to whatever a template is filled
  to, with one lemma for each way to build a slot.
* `Inside.InRange` is a place in a nested parse; its lemmas are those of the common slots.
-/

namespace FreeNames

/-! ## Containment -/

/-- The second range lies inside the first. -/
structure Span.Contains (outer inner : Span) : Prop where
  start : outer.start ≤ inner.start
  stop : inner.stop ≤ outer.stop

namespace Span.Contains

instance (outer inner : Span) : Decidable (outer.Contains inner) :=
  decidable_of_iff (outer.start ≤ inner.start ∧ inner.stop ≤ outer.stop)
    ⟨fun ⟨start, stop⟩ => ⟨start, stop⟩, fun h => ⟨h.start, h.stop⟩⟩

theorem refl (s : Span) : s.Contains s := ⟨Nat.le_refl _, Nat.le_refl _⟩

theorem trans {r s t : Span} (outer : r.Contains s) (inner : s.Contains t) : r.Contains t :=
  ⟨Nat.le_trans outer.start inner.start, Nat.le_trans inner.stop outer.stop⟩

end Span.Contains

/-- Every node of the parse contains its children. -/
def Parsed.IsNested (root : Parsed) : Prop :=
  ∀ p ∈ root.preorder, ∀ c ∈ p.children, p.span.Contains c.span

theorem Parsed.isNested_of_all {root : Parsed} (h : (root.preorder.all fun p =>
    p.children.all fun c => decide (p.span.Contains c.span)) = true) : root.IsNested :=
  fun p hp c hc => of_decide_eq_true (List.all_eq_true.mp (List.all_eq_true.mp h p hp) c hc)

/-- The node and everything below it lie in the range. -/
abbrev Node.Within (outer : Span) (n : Node) : Prop := n.Everywhere fun m => outer.Contains m.span

theorem Node.Within.mono {outer wider : Span} {n : Node} (h : n.Within outer)
    (contains : wider.Contains outer) : n.Within wider := fun m hm => contains.trans (h m hm)

/-! ## Children outside -/

namespace Parsed

/-- The child in the field stands outside the node, because conversion makes the node up with the
range of a name. -/
inductive Strays (root : Parsed) (n : Node) : String → Node → Prop
  /-- The value of a property for a name with a default. -/
  | withDefault {entry name : Parsed} {value : Node} :
      entry ∈ root.preorder → entry.symbol = .objectAssignmentPattern →
      entry.field? "left" = some name → name.symbol = .shorthandPropertyIdentifierPattern →
      n.kind = .property → n.span = name.span →
      value.kind = .assignmentPattern → value.span = entry.span →
      ¬name.span.Contains entry.span → Strays root n "value" value
  /-- The value that the name declared by a loop starts with. -/
  | startValue {loop left value : Parsed} {init : Node} :
      loop ∈ root.preorder → loop.symbol = .forInStatement → (loop.field? "kind").isSome = true →
      loop.field? "left" = some left → loop.field? "value" = some value →
      n.kind = .variableDeclarator → n.span = left.span → value.span.Contains init.span →
      ¬left.span.Contains init.span → Strays root n "init" init

/-- None of the children strays. -/
def Keeps (root : Parsed) (n : Node) : Prop := ∀ c ∈ n.children, ¬root.Strays n c.1 c.2

/-- The node contains exactly the children that do not stray.  It covers everything below it exactly
if none of them strays, and none of the children of a child with its own range. -/
@[mk_iff]
structure NestsAt (root : Parsed) (n : Node) : Prop where
  children : ∀ c ∈ n.children, n.span.Contains c.2.span ↔ ¬root.Strays n c.1 c.2
  below : n.Within n.span ↔
    root.Keeps n ∧ ∀ c ∈ n.children, c.2.span = n.span → root.Keeps c.2

variable {root : Parsed} {n c : Node} {field : String} {outer : Span}

theorem Strays.not_contains (h : root.Strays n field c) : ¬n.span.Contains c.span := by
  cases h with
  | withDefault _ _ _ _ _ span _ valueSpan outside => rwa [span, valueSpan]
  | startValue _ _ _ _ _ _ span _ outside => rwa [span]

theorem Keeps.of_within (h : n.Within n.span) : root.Keeps n :=
  fun _ hc strays => strays.not_contains (h.of_mem_children hc).here

namespace NestsAt

theorem of (children : ∀ c ∈ n.children, n.span.Contains c.2.span ∨ root.Strays n c.1 c.2)
    (below : root.Keeps n → (∀ c ∈ n.children, c.2.span = n.span → root.Keeps c.2) →
      n.Within n.span) : root.NestsAt n where
  children c hc :=
    ⟨fun contains strays => strays.not_contains contains, (children c hc).resolve_right⟩
  below := by
    refine ⟨fun h => ⟨.of_within h, fun c hc same => ?_⟩, fun h => below h.1 h.2⟩
    have inner := h.of_mem_children hc
    rw [← same] at inner
    exact .of_within inner

/-- A node that covers everything below it. -/
theorem of_within (h : n.Within n.span) : root.NestsAt n :=
  .of (fun _ hc => Or.inl (h.of_mem_children hc).here) fun _ _ => h

end NestsAt

/-! ### Numbering -/

theorem Strays.congr {n' c' : Node} (h : root.Strays n field c) (kind : n'.kind = n.kind)
    (span : n'.span = n.span) (childKind : c'.kind = c.kind) (childSpan : c'.span = c.span) :
    root.Strays n' field c' := by
  cases h with
  | withDefault mem symbol left name hk hs vk vs outside =>
    exact .withDefault mem symbol left name (kind.trans hk) (span.trans hs) (childKind.trans vk)
      (childSpan.trans vs) outside
  | startValue mem symbol keyword left value hk hs inside outside =>
    rw [← childSpan] at inside outside
    exact .startValue mem symbol keyword left value (kind.trans hk) (span.trans hs) inside outside

/-- Only kinds and ranges decide whether a child strays, and numbering changes neither. -/
@[simp] theorem strays_numberFrom_parent (i : Nat) :
    root.Strays (Node.numberFrom i n).1 field c ↔ root.Strays n field c :=
  ⟨fun h => h.congr (by simp) (by simp) rfl rfl, fun h => h.congr (by simp) (by simp) rfl rfl⟩

@[simp] theorem strays_numberFrom_child (i : Nat) :
    root.Strays n field (Node.numberFrom i c).1 ↔ root.Strays n field c :=
  ⟨fun h => h.congr rfl rfl (by simp) (by simp), fun h => h.congr rfl rfl (by simp) (by simp)⟩

@[simp] theorem keeps_numberFrom (i : Nat) :
    root.Keeps (Node.numberFrom i n).1 ↔ root.Keeps n := by
  simp only [Keeps, strays_numberFrom_parent]
  exact Node.forall_children_numberFrom (P := fun field c => ¬root.Strays n field c)
    (fun c _ j => by simp) i

theorem nestsAt_numberFrom (i : Nat) :
    root.NestsAt (Node.numberFrom i n).1 ↔ root.NestsAt n := by
  have children := Node.forall_children_numberFrom (n := n)
    (P := fun field c => n.span.Contains c.span ↔ ¬root.Strays n field c) (fun c _ j => by simp) i
  have within : (Node.numberFrom i n).1.Within n.span ↔ n.Within n.span :=
    Node.everywhere_numberFrom (fun m j => by simp) n i
  have keeps := Node.forall_children_numberFrom (n := n)
    (P := fun _ c => c.span = n.span → root.Keeps c) (fun c _ j => by simp) i
  simp only [nestsAt_iff, Node.span_numberFrom, strays_numberFrom_parent, keeps_numberFrom, within,
    children, keeps]

/-! ## Nodes in a range -/

/-- The node and everything below it lie in the range, and each of them nests. -/
structure NestsIn (root : Parsed) (outer : Span) (n : Node) : Prop where
  within : n.Within outer
  nests : n.Everywhere root.NestsAt

/-- The node covers everything below it as well. -/
structure Encloses (root : Parsed) (outer : Span) (n : Node) : Prop
    extends root.NestsIn outer n where
  covers : n.Within n.span

theorem NestsIn.mono {wider : Span} (h : root.NestsIn outer n) (contains : wider.Contains outer) :
    root.NestsIn wider n := ⟨h.within.mono contains, h.nests⟩

theorem Encloses.mono {wider : Span} (h : root.Encloses outer n) (contains : wider.Contains outer) :
    root.Encloses wider n := ⟨h.toNestsIn.mono contains, h.covers⟩

theorem NestsIn.of_here (contains : outer.Contains n.span) (here : root.NestsAt n)
    (children : ∀ c ∈ n.children, root.NestsIn outer c.2) : root.NestsIn outer n where
  within := Node.everywhere_iff.mpr ⟨contains, fun c hc => (children c hc).within⟩
  nests := Node.everywhere_iff.mpr ⟨here, fun c hc => (children c hc).nests⟩

/-- A node that has the range itself. -/
theorem Encloses.of_children (span : n.span = outer)
    (children : ∀ c ∈ n.children, root.NestsIn outer c.2) : root.Encloses outer n := by
  subst span
  have within : n.Within n.span :=
    Node.everywhere_iff.mpr ⟨.refl _, fun c hc => (children c hc).within⟩
  exact ⟨.of_here (.refl _) (.of_within within) children, within⟩

/-- A node with a smaller range, which covers everything below it unless a child strays. -/
theorem NestsIn.of_strays (contains : outer.Contains n.span)
    (children : ∀ c ∈ n.children, root.NestsIn outer c.2 ∧
      (c.2.Within n.span ∨ root.Strays n c.1 c.2)) :
    root.NestsIn outer n ∧ (root.Keeps n → n.Within n.span) := by
  have covers (keeps : root.Keeps n) : n.Within n.span :=
    Node.everywhere_iff.mpr ⟨.refl _, fun c hc => (children c hc).2.resolve_right (keeps c hc)⟩
  have here : root.NestsAt n :=
    .of (fun c hc => (children c hc).2.imp_left Node.Everywhere.here) fun keeps _ => covers keeps
  exact ⟨.of_here contains here fun c hc => (children c hc).1, covers⟩

/-- A node that only holds nodes of its own range. -/
theorem NestsIn.of_same (contains : outer.Contains n.span)
    (children : ∀ c ∈ n.children, root.NestsIn outer c.2 ∧ c.2.span = n.span ∧
      (root.Keeps c.2 → c.2.Within n.span)) : root.NestsIn outer n := by
  refine .of_here contains (.of (fun c hc => Or.inl ?_) fun _ keeps => ?_) fun c hc =>
    (children c hc).1
  · rw [(children c hc).2.1]
    exact .refl _
  · refine Node.everywhere_iff.mpr ⟨.refl _, fun c hc => ?_⟩
    obtain ⟨-, same, covers⟩ := children c hc
    exact covers (keeps c hc same)

end Parsed

/-! ## Templates and slots -/

variable {w root : Parsed} {src : Source} {outer wider : Span} {P Q : Node → Prop}

/-- Whatever the template is filled to, the statement holds of it. -/
def Template.Gives (src : Source) (P : Node → Prop) (t : Template w) : Prop :=
  ∀ n, t.fill (Part.converted src) = .ok n → P n

/-- Whatever the slot is filled to, the statement holds of the nodes in it. -/
def Slot.Gives (src : Source) (P : Node → Prop) (slot : Slot w) : Prop :=
  ∀ v, Template.fillSlot (Part.converted src) slot = .ok v → ∀ c ∈ v.nodes, P c

/-- The statement holds of the nodes in all fields. -/
def Template.FieldsGive (src : Source) (P : String → Node → Prop)
    (fields : List (String × Slot w)) : Prop := ∀ f ∈ fields, f.2.Gives src (P f.1)

namespace Template

theorem Gives.imp {t : Template w} (h : t.Gives src P) (imp : ∀ n, P n → Q n) : t.Gives src Q :=
  fun n hn => imp n (h n hn)

theorem Gives.fault (f : Fault) : (Template.fault f : Template w).Gives src P := by
  intro n hn
  cases hn

theorem FieldsGive.nil {P : String → Node → Prop} :
    FieldsGive src P ([] : List (String × Slot w)) := List.forall_mem_nil _

theorem FieldsGive.field {P : String → Node → Prop} {name : String} {slot : Slot w}
    {fields : List (String × Slot w)} (h : slot.Gives src (P name))
    (rest : FieldsGive src P fields) : FieldsGive src P ((name, slot) :: fields) :=
  List.forall_mem_cons.mpr ⟨h, rest⟩

/-- The children of what a template is filled to come from its fields. -/
theorem children_of_fill {P : String → Node → Prop} {kind : Kind} {span : Span}
    {fields : List (String × Slot w)} {dropped : List (Slot w)} (h : FieldsGive src P fields)
    {n : Node} (hn : (Template.build kind span fields dropped).fill (Part.converted src) = .ok n) :
    n.kind = kind ∧ n.span = span ∧ ∀ c ∈ n.children, P c.1 c.2 := by
  obtain ⟨vs, filled, rfl⟩ := exists_fields_of_fill hn
  refine ⟨rfl, rfl, fun c hc => ?_⟩
  obtain ⟨v, hv, mem⟩ := Node.mem_children.mp (show (c.1, c.2) ∈ _ from hc)
  obtain ⟨slot, hs, filledSlot⟩ := exists_slot_of_fillFields filled hv
  exact h _ hs v filledSlot c.2 mem

end Template

namespace Slot.Gives

theorem imp {slot : Slot w} (h : slot.Gives src P) (imp : ∀ n, P n → Q n) : slot.Gives src Q :=
  fun v hv c hc => imp c (h v hv c hc)

/-- A value without nodes. -/
theorem value {v : Value} (none : v.nodes = []) : (Slot.value v : Slot w).Gives src P := by
  intro u hu c hc
  cases hu
  rw [none] at hc
  cases hc

theorem null : (Slot.null : Slot w).Gives src P := value rfl

theorem bool (b : Bool) : (Slot.bool b : Slot w).Gives src P := value rfl

theorem word (s : String) : (Slot.word s : Slot w).Gives src P := value rfl

theorem one {t : Template w} (h : t.Gives src P) : (Slot.one t).Gives src P := by
  intro v hv c hc
  obtain ⟨n, filled, rfl⟩ := Template.exists_of_fillSlot_one hv
  rw [Value.nodes_node, List.mem_singleton] at hc
  exact hc ▸ h n filled

theorem fault (f : Fault) : (Slot.fault f : Slot w).Gives src P := one (.fault f)

theorem text (span : Span) : (Slot.text src span : Slot w).Gives src P := by
  unfold Slot.text
  split
  · exact value rfl
  · exact fault _

theorem textOf (x : Inside w) (name : String) : (x.textOf src name).Gives src P := by
  unfold Inside.textOf
  split
  · exact text _
  · exact fault _

theorem turn {slot : Slot w} (h : slot.Gives src P) (n : Nat) : (Slot.turn n slot).Gives src P :=
  fun v hv => h v (Template.fillSlot_of_turn hv)

theorem late {slot : Slot w} (h : slot.Gives src P) : slot.late.Gives src P := h.turn 1

theorem many {slots : List (Slot w)} (h : ∀ slot ∈ slots, slot.Gives src P) :
    (Slot.many slots).Gives src P := by
  intro v hv c hc
  obtain ⟨vs, filled, rfl⟩ := Template.exists_of_fillSlot_many hv
  clear hv
  induction slots generalizing vs with
  | nil =>
    cases filled
    cases hc
  | cons slot slots ih =>
    obtain ⟨first, others⟩ := List.forall_mem_cons.mp h
    obtain ⟨u, rest, hu, hrest, rfl⟩ := Template.exists_of_fillSlots_cons filled
    cases u with
    | node m =>
      rcases List.mem_cons.mp hc with rfl | hc
      · exact first _ hu _ (List.mem_singleton_self _)
      · exact ih others rest hrest hc
    | _ => exact ih others rest hrest hc

theorem empty : (Slot.many [] : Slot w).Gives src P := many (List.forall_mem_nil _)

end Slot.Gives

/-- Whatever the template is filled to lies in the range, nests, and covers what is below it. -/
abbrev Template.Encloses (root : Parsed) (src : Source) (outer : Span) (t : Template w) : Prop :=
  t.Gives src (root.Encloses outer)

/-- The nodes that the slot is filled with lie in the range and nest. -/
abbrev Slot.NestsIn (root : Parsed) (src : Source) (outer : Span) (slot : Slot w) : Prop :=
  slot.Gives src (root.NestsIn outer)

/-- So do those in all fields. -/
def Template.FieldsNest (root : Parsed) (src : Source) (outer : Span)
    (fields : List (String × Slot w)) : Prop := FieldsGive src (fun _ => root.NestsIn outer) fields

namespace Template

theorem FieldsNest.nil : FieldsNest root src outer ([] : List (String × Slot w)) :=
  FieldsGive.nil

theorem FieldsNest.field {name : String} {slot : Slot w} {fields : List (String × Slot w)}
    (h : slot.NestsIn root src outer) (rest : FieldsNest root src outer fields) :
    FieldsNest root src outer ((name, slot) :: fields) := FieldsGive.field h rest

/-- A node with the range itself. -/
theorem Encloses.build {kind : Kind} {fields : List (String × Slot w)} {dropped : List (Slot w)}
    (h : FieldsNest root src outer fields) :
    (Template.build kind outer fields dropped).Encloses root src outer := by
  intro n hn
  obtain ⟨-, span, children⟩ := children_of_fill h hn
  exact .of_children span children

theorem Encloses.mono {t : Template w} (h : t.Encloses root src outer)
    (contains : wider.Contains outer) : t.Encloses root src wider :=
  h.imp fun _ encloses => encloses.mono contains

end Template

theorem Slot.NestsIn.one {t : Template w} (h : t.Encloses root src outer) :
    (Slot.one t).NestsIn root src outer :=
  Slot.Gives.one (h.imp fun _ => Parsed.Encloses.toNestsIn)

theorem Slot.NestsIn.mono {slot : Slot w} (h : slot.NestsIn root src outer)
    (contains : wider.Contains outer) : slot.NestsIn root src wider :=
  h.imp fun _ nests => nests.mono contains

/-! ## Common slots -/

/-- A place in a nested parse, below which all conversions are known to lie in their ranges. -/
structure Inside.InRange (root : Parsed) (src : Source) (x : Inside w) : Prop where
  nested : root.IsNested
  mem : x.parsed ∈ root.preorder
  below : ∀ {c : Parsed}, c ∈ root.preorder → sizeOf c < sizeOf x.parsed →
    ∀ inObject n, Conversion.convert src c inObject = .ok n → root.Encloses c.span n

namespace Inside.InRange

variable {x : Inside w} {q : Part w} {name : String} (h : x.InRange root src)

include h

theorem contains (hq : q ∈ x.parts) : x.span.Contains q.span :=
  h.nested x.parsed h.mem q.parsed (mem_children_of_mem_parts hq)

theorem mem_preorder (hq : q ∈ x.parts) : q.parsed ∈ root.preorder :=
  Parsed.mem_preorder_trans h.mem
    (Parsed.mem_preorder_of_child (mem_children_of_mem_parts hq) (Parsed.self_mem_preorder _))

theorem inside (hq : q ∈ x.parts) : q.inside.InRange root src where
  nested := h.nested
  mem := h.mem_preorder hq
  below mem smaller := h.below mem (Nat.lt_trans smaller (sizeOf_lt_of_mem_parts hq))

/-- What lies in a part lies in the node. -/
theorem within (hq : q ∈ x.parts) {slot : Slot w} (nests : slot.NestsIn root src q.span) :
    slot.NestsIn root src x.span := nests.mono (h.contains hq)

theorem template (hq : q ∈ x.parts) : (Template.hole q).Encloses root src q.span :=
  fun n hn => h.below (h.mem_preorder hq) (sizeOf_lt_of_mem_parts hq) _ n hn

theorem hole (hq : q ∈ x.parts) : (Slot.hole q).NestsIn root src x.span :=
  h.within hq (.one (h.template hq))

theorem holes {qs : List (Part w)} (hqs : ∀ q ∈ qs, q ∈ x.parts) :
    (Slot.holes qs).NestsIn root src x.span := by
  refine .many fun slot hs => ?_
  obtain ⟨q, hq, rfl⟩ := List.mem_map.mp hs
  exact h.hole (hqs q hq)

theorem named : (Slot.holes x.named).NestsIn root src x.span :=
  h.holes fun _ => mem_parts_of_named

theorem convert (name : String) : (x.convert name).NestsIn root src x.span := by
  unfold Inside.convert
  split
  · next q hq => exact h.hole (mem_parts_of_field? hq)
  · exact .fault _

/-- The part that is in the field, if it is converted. -/
theorem optionalPart (name : String) : (x.optional name).Gives src fun c =>
    ∃ p, x.parsed.field? name = some p ∧ x.span.Contains p.span ∧ root.Encloses p.span c := by
  unfold Inside.optional
  split
  · next q hq =>
    split
    · have parts := mem_parts_of_field? hq
      exact .one fun c hc =>
        ⟨q.parsed, parsed_field? hq, h.contains parts, h.template parts c hc⟩
    · exact .null
  · exact .null

theorem optional (name : String) : (x.optional name).NestsIn root src x.span :=
  (h.optionalPart name).imp fun _ ⟨_, _, contains, encloses⟩ => encloses.toNestsIn.mono contains

theorem first : x.first.Encloses root src x.span := by
  unfold Inside.first
  split
  · next q hq =>
    have parts := mem_parts_of_named (List.mem_of_mem_head? hq)
    exact (h.template parts).mono (h.contains parts)
  · exact .fault _

theorem firstOrNull : x.firstOrNull.NestsIn root src x.span := by
  unfold Inside.firstOrNull
  split
  · next q hq => exact h.hole (mem_parts_of_named (List.mem_of_mem_head? hq))
  · exact .null

/-- The parts of a part. -/
theorem namedOf (hq : q ∈ x.parts) : (Slot.holes q.inside.named).NestsIn root src x.span :=
  h.within hq (h.inside hq).named

/-- The first part of a part. -/
theorem firstOf (hq : q ∈ x.parts) : (Slot.one q.inside.first).NestsIn root src x.span :=
  h.within hq (.one (h.inside hq).first)

end Inside.InRange

/-! ## Names and keys -/

namespace Conversion

variable {x : Inside w} {q : Part w}

theorem identifier_encloses (span : Span) :
    (identifier src span : Template w).Encloses root src span := .build (.field (.text _) .nil)

theorem privateName_encloses (span : Span) :
    (privateName src span : Template w).Encloses root src span := by
  unfold privateName
  split
  · exact .build (.field (.value rfl) .nil)
  · exact .fault _

section

variable (h : x.InRange root src)

include h

theorem identifierOf_nests (hq : q ∈ x.parts) :
    (Slot.one (identifier src q.span) : Slot w).NestsIn root src x.span :=
  h.within hq (.one (identifier_encloses _))

theorem identifierIn_nests (name : String) :
    (identifierIn src x name).NestsIn root src x.span := by
  unfold identifierIn
  split
  · next q hq => exact identifierOf_nests h (Inside.mem_parts_of_field? hq)
  · exact .fault _

theorem identifierOrNull_nests (name : String) :
    (identifierOrNull src x name).NestsIn root src x.span := by
  unfold identifierOrNull
  split
  · next q hq => exact identifierOf_nests h (Inside.mem_parts_of_field? hq)
  · exact .null

theorem exportName_nests (hq : q ∈ x.parts) : (exportName src q).NestsIn root src x.span := by
  unfold exportName
  split
  · exact h.hole hq
  · exact identifierOf_nests h hq

theorem propertyKey_nests (hq : q ∈ x.parts) : (propertyKey src q).NestsIn root src x.span := by
  unfold propertyKey
  split
  · exact h.firstOf hq
  · exact h.within hq (.one (privateName_encloses _))
  · exact h.hole hq
  · exact h.hole hq
  · exact identifierOf_nests h hq

end

end Conversion

end FreeNames
