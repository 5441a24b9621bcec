import FreeNames.Proofs.Conversion.Fills
import FreeNames.Proofs.Conversion.Same
import FreeNames.Proofs.Conversion.Reads
import FreeNames.Proofs.Tree.Points

/-!
# Ordered parses, and templates that keep their order

In an ordered parse the children of a node stand one behind the other, in the order of the grammar.
A template stands in some groups of children if the names in whatever it is filled to increase, each
of them in one of these children, provided that the groups themselves stand one behind the other.

* `Parsed.IsOrdered` is what is asked of a parse; `Symbol.groups` is what the grammar says about
  the order of fields.
* `RisingIn` says that positions strictly increase within nodes of a parse.
* `Template.Stands` and `Slot.Stands` are the notion, with one lemma for each way to build a
  template or a slot; `Template.FieldsStand` goes through the fields and the groups side by side.
-/

namespace FreeNames

/-! ## Ordered parses -/

/-- Whatever is among the first ends before anything among the second starts. -/
def Apart (cs ds : List Parsed) : Prop := ∀ c ∈ cs, ∀ d ∈ ds, c.span.stop ≤ d.span.start

instance (cs ds : List Parsed) : Decidable (Apart cs ds) := by
  unfold Apart
  infer_instance

namespace Parsed

/-- The children of a symbol. -/
def allOf (p : Parsed) (s : Symbol) : List Parsed := p.children.filter fun c => c.symbol = s

end Parsed

/-- The groups of children that the grammar puts one behind the other. -/
def Symbol.groups (s : Symbol) (p : Parsed) : List (List Parsed) :=
  match s with
  | .variableDeclarator => ["name", "value"].map p.fieldAll
  | .ifStatement | .ternaryExpression =>
    ["condition", "consequence", "alternative"].map p.fieldAll
  | .switchStatement | .switchCase => ["value", "body"].map p.fieldAll
  | .forStatement => ["initializer", "condition", "increment", "body"].map p.fieldAll
  | .forInStatement => ["left", "value", "right", "body"].map p.fieldAll
  | .whileStatement => ["condition", "body"].map p.fieldAll
  | .doStatement => ["body", "condition"].map p.fieldAll
  | .tryStatement => ["body", "handler", "finalizer"].map p.fieldAll
  | .catchClause => ["parameter", "body"].map p.fieldAll
  | .labeledStatement => ["label", "body"].map p.fieldAll
  | .withStatement => ["object", "body"].map p.fieldAll
  | .importSpecifier => ["name", "alias"].map p.fieldAll
  | .exportStatement => [p.allOf .exportClause, p.fieldAll "source"]
  | .functionDeclaration | .generatorFunctionDeclaration | .functionExpression | .olderFunction
  | .generatorFunction => ["name", "parameters", "body"].map p.fieldAll
  | .arrowFunction => [p.fieldAll "parameter" ++ p.fieldAll "parameters", p.fieldAll "body"]
  | .classDeclaration | .classExpression =>
    [p.allOf .decorator, p.fieldAll "name", p.allOf .classHeritage, p.fieldAll "body"]
  | .methodDefinition => p.allOf .decorator :: ["name", "parameters", "body"].map p.fieldAll
  | .fieldDefinition => p.allOf .decorator :: ["property", "value"].map p.fieldAll
  | .pair | .pairPattern => ["key", "value"].map p.fieldAll
  | .objectAssignmentPattern | .assignmentPattern | .assignmentExpression
  | .augmentedAssignmentExpression | .binaryExpression => ["left", "right"].map p.fieldAll
  | .newExpression => ["constructor", "arguments"].map p.fieldAll
  | .memberExpression => ["object", "property"].map p.fieldAll
  | .subscriptExpression => ["object", "index"].map p.fieldAll
  | .callExpression => ["function", "arguments"].map p.fieldAll
  | _ => []

namespace Parsed

/-- The children of a node stand inside it, one behind the other and in the order of the grammar; a
leaf is not empty, and no sequence stands directly in a sequence. -/
structure IsOrderedHere (p : Parsed) : Prop where
  disjoint : p.children.Pairwise fun c d => c.span.stop ≤ d.span.start
  nested : ∀ c ∈ p.children, p.span.start ≤ c.span.start ∧ c.span.stop ≤ p.span.stop
  nonempty : p.children = [] → p.span.start < p.span.stop
  groups : (p.symbol.groups p).Pairwise Apart
  flat : p.symbol = .sequenceExpression → ∀ c ∈ p.children, c.symbol ≠ .sequenceExpression

instance (p : Parsed) : Decidable p.IsOrderedHere :=
  decidable_of_iff (p.children.Pairwise (fun c d => c.span.stop ≤ d.span.start) ∧
      (∀ c ∈ p.children, p.span.start ≤ c.span.start ∧ c.span.stop ≤ p.span.stop) ∧
      (p.children.isEmpty = true → p.span.start < p.span.stop) ∧
      (p.symbol.groups p).Pairwise Apart ∧
      (p.symbol = .sequenceExpression → ∀ c ∈ p.children, c.symbol ≠ .sequenceExpression))
    ⟨fun ⟨disjoint, nested, nonempty, groups, flat⟩ =>
        ⟨disjoint, nested, fun none => nonempty (List.isEmpty_iff.mpr none), groups, flat⟩,
      fun h => ⟨h.disjoint, h.nested, fun none => h.nonempty (List.isEmpty_iff.mp none), h.groups,
        h.flat⟩⟩

/-- A parse that is ordered throughout. -/
def IsOrdered (root : Parsed) : Prop := ∀ p ∈ root.preorder, p.IsOrderedHere

theorem isOrdered_of_all {root : Parsed}
    (h : (root.preorder.all fun p => decide p.IsOrderedHere) = true) : root.IsOrdered :=
  fun p hp => of_decide_eq_true (List.all_eq_true.mp h p hp)

variable {p c : Parsed}

theorem IsOrdered.here (h : p.IsOrdered) : p.IsOrderedHere := h p (self_mem_preorder p)

theorem IsOrdered.child (h : p.IsOrdered) (hc : c ∈ p.children) : c.IsOrdered :=
  fun q hq => h q (mem_preorder_of_child hc hq)

/-- No node is empty, for the leaves are not. -/
theorem IsOrdered.start_lt_stop {p : Parsed} (h : p.IsOrdered) : p.span.start < p.span.stop := by
  cases hcs : p.children with
  | nil => exact h.here.nonempty hcs
  | cons c cs =>
    have hc : c ∈ p.children := hcs ▸ List.mem_cons_self
    have := sizeOf_lt_of_mem_children hc
    have inner := start_lt_stop (h.child hc)
    obtain ⟨low, high⟩ := h.here.nested c hc
    exact Nat.lt_of_le_of_lt low (Nat.lt_of_lt_of_le inner high)
termination_by sizeOf p

theorem fieldAll_subset (p : Parsed) (name : String) : p.fieldAll name ⊆ p.children :=
  List.filter_sublist.subset

theorem allOf_subset (p : Parsed) (s : Symbol) : p.allOf s ⊆ p.children :=
  List.filter_sublist.subset

end Parsed

theorem Symbol.groups_subset (s : Symbol) (p : Parsed) : ∀ cs ∈ s.groups p, cs ⊆ p.children := by
  unfold groups
  split <;> simp [Parsed.fieldAll_subset, Parsed.allOf_subset]

/-! ## Rising positions -/

/-- The positions strictly increase, and each lies in one of the nodes. -/
structure RisingIn (cs : List Parsed) (ps : List Nat) : Prop where
  increasing : ps.Pairwise (· < ·)
  within : ∀ p ∈ ps, ∃ c ∈ cs, c.span.start ≤ p ∧ p < c.span.stop

namespace RisingIn

variable {cs ds : List Parsed} {ps qs : List Nat}

theorem nil : RisingIn cs [] := ⟨.nil, List.forall_mem_nil _⟩

theorem start {c : Parsed} (h : c.span.start < c.span.stop) : RisingIn [c] [c.span.start] :=
  ⟨List.pairwise_singleton _ _, List.forall_mem_singleton.mpr
    ⟨c, List.mem_singleton_self c, Nat.le_refl _, h⟩⟩

theorem append (hp : RisingIn cs ps) (hq : RisingIn ds qs) (apart : Apart cs ds) :
    RisingIn (cs ++ ds) (ps ++ qs) := by
  refine ⟨List.pairwise_append.mpr ⟨hp.increasing, hq.increasing, fun p mem q mem' => ?_⟩,
    List.forall_mem_append.mpr ⟨fun p mem => ?_, fun q mem => ?_⟩⟩
  · obtain ⟨c, hc, -, below⟩ := hp.within p mem
    obtain ⟨d, hd, above, -⟩ := hq.within q mem'
    exact Nat.lt_of_lt_of_le below (Nat.le_trans (apart c hc d hd) above)
  · obtain ⟨c, hc, bounds⟩ := hp.within p mem
    exact ⟨c, List.mem_append_left _ hc, bounds⟩
  · obtain ⟨d, hd, bounds⟩ := hq.within q mem
    exact ⟨d, List.mem_append_right _ hd, bounds⟩

theorem sublist (h : RisingIn cs ps) (sub : qs.Sublist ps) : RisingIn cs qs :=
  ⟨h.increasing.sublist sub, fun q mem => h.within q (sub.subset mem)⟩

theorem mono (h : RisingIn cs ps) (more : cs ⊆ ds) : RisingIn ds ps :=
  ⟨h.increasing, fun p mem => (h.within p mem).imp fun _ found => found.imp_left (more ·)⟩

/-- What lies in the children lies in the node. -/
theorem up {x : Parsed} (h : RisingIn cs ps) (children : cs ⊆ x.children)
    (ordered : x.IsOrderedHere) : RisingIn [x] ps := by
  refine ⟨h.increasing, fun p mem => ⟨x, List.mem_singleton_self x, ?_⟩⟩
  obtain ⟨c, hc, above, below⟩ := h.within p mem
  obtain ⟨low, high⟩ := ordered.nested c (children hc)
  exact ⟨Nat.le_trans low above, Nat.lt_of_lt_of_le below high⟩

end RisingIn

/-! ## Templates and slots -/

variable {w : Parsed} {src : Source}

/-- Whatever the template is filled to, its names increase and stand in these groups of children,
if the groups stand one behind the other. -/
def Template.Stands (src : Source) (groups : List (List Parsed)) (t : Template w) : Prop :=
  groups.Pairwise Apart → ∀ n, t.fill (Part.converted src) = .ok n →
    RisingIn groups.flatten n.points

def Slot.Stands (src : Source) (groups : List (List Parsed)) (slot : Slot w) : Prop :=
  groups.Pairwise Apart → ∀ v, Template.fillSlot (Part.converted src) slot = .ok v →
    RisingIn groups.flatten v.points

def Template.FieldsStand (src : Source) (groups : List (List Parsed))
    (fields : List (String × Slot w)) : Prop :=
  groups.Pairwise Apart → ∀ vs, Template.fillFields (Part.converted src) fields = .ok vs →
    RisingIn groups.flatten (vs.flatMap fun f => f.2.points)

/-- The names in the values of the slots increase and stand in these children. -/
def Template.SlotsStand (src : Source) (cs : List Parsed) (slots : List (Slot w)) : Prop :=
  ∀ vs, Template.fillSlots (Part.converted src) slots = .ok vs →
    RisingIn cs (vs.flatMap Value.points)

variable {groups : List (List Parsed)} {cs : List Parsed} {slot : Slot w} {t : Template w}

theorem flatten_subset_iff {groups : List (List Parsed)} :
    groups.flatten ⊆ cs ↔ ∀ g ∈ groups, g ⊆ cs := by
  simp only [List.subset_def, List.mem_flatten]
  exact ⟨fun h g hg c hc => h ⟨g, hg, hc⟩, fun h c ⟨g, hg, hc⟩ => h g hg hc⟩

namespace Slot.Stands

theorem nothing (h : ∀ v, Template.fillSlot (Part.converted src) slot = .ok v → v.points = []) :
    slot.Stands src groups := by
  intro _ v hv
  rw [h v hv]
  exact .nil

/-- A value without nodes. -/
theorem value {v : Value} (h : v.nodes = []) : (Slot.value v : Slot w).Stands src groups := by
  refine nothing fun u hu => ?_
  cases hu
  rw [Value.points, h, List.flatMap_nil]

theorem null : (Slot.null : Slot w).Stands src groups := value rfl

theorem bool (b : Bool) : (Slot.bool b : Slot w).Stands src groups := value rfl

theorem word (s : String) : (Slot.word s : Slot w).Stands src groups := value rfl

theorem empty : (Slot.many [] : Slot w).Stands src groups := by
  refine nothing fun u hu => ?_
  cases hu
  rfl

theorem fault (f : Fault) : (Slot.fault f : Slot w).Stands src groups := by
  refine nothing fun u hu => ?_
  cases hu

theorem text (span : Span) : (Slot.text src span : Slot w).Stands src groups := by
  unfold Slot.text
  split
  · exact value rfl
  · exact fault _

theorem textOf (x : Inside w) (name : String) : (x.textOf src name).Stands src groups := by
  unfold Inside.textOf
  split
  · exact text _
  · exact fault _

theorem one (h : t.Stands src groups) : (Slot.one t).Stands src groups := by
  intro apart v hv
  obtain ⟨n, filled, rfl⟩ := Template.exists_of_fillSlot_one hv
  rw [Value.points, Value.nodes_node, List.flatMap_singleton]
  exact h apart n filled

theorem turn (h : slot.Stands src groups) (n : Nat) : (Slot.turn n slot).Stands src groups :=
  fun apart v hv => h apart v (Template.fillSlot_of_turn hv)

theorem late (h : slot.Stands src groups) : slot.late.Stands src groups := h.turn 1

/-- A slot that stands in a group stands in a wider one. -/
theorem mono {ds : List Parsed} (h : slot.Stands src [cs]) (more : cs ⊆ ds) :
    slot.Stands src [ds] := by
  intro _ v hv
  rw [List.flatten_singleton]
  have rising := h (List.pairwise_singleton _ _) v hv
  rw [List.flatten_singleton] at rising
  exact rising.mono more

theorem of_mem {c : Parsed} (h : slot.Stands src [[c]]) (mem : c ∈ cs) : slot.Stands src [cs] :=
  h.mono (List.cons_subset.mpr ⟨mem, List.nil_subset _⟩)

theorem many {slots : List (Slot w)} (h : Template.SlotsStand src cs slots) :
    (Slot.many slots).Stands src [cs] := by
  intro _ v hv
  obtain ⟨vs, filled, rfl⟩ := Template.exists_of_fillSlot_many hv
  have direct : (Value.list vs).points.Sublist (vs.flatMap Value.points) := by
    rw [Value.points, Value.nodes, List.filterMap_eq_flatMap_toList, List.flatMap_assoc]
    refine List.Sublist.flatMap_right _ fun v _ => ?_
    cases v with
    | node n => exact List.Sublist.refl _
    | _ => exact List.nil_sublist _
  rw [List.flatten_singleton]
  exact (h vs filled).sublist direct

/-- A list of slots without names. -/
theorem silent {slots : List (Slot w)} (h : Template.SlotsStand src [] slots) :
    (Slot.many slots).Stands src [] := fun _ => many h (List.pairwise_singleton _ _)

theorem single (h : slot.Stands src groups) : (Slot.many [slot]).Stands src groups := by
  intro apart v hv
  obtain ⟨vs, filled, rfl⟩ := Template.exists_of_fillSlot_many hv
  obtain ⟨u, rest, hu, hrest, rfl⟩ := Template.exists_of_fillSlots_cons filled
  cases hrest
  refine (h apart u hu).sublist ?_
  cases u with
  | node n => exact List.Sublist.refl _
  | _ => exact List.nil_sublist _

/-- A slot that stands in the first group only. -/
theorem first (h : slot.Stands src [cs]) : slot.Stands src (cs :: groups) := by
  intro _ v hv
  have rising := h (List.pairwise_singleton _ _) v hv
  rw [List.flatten_singleton] at rising
  exact rising.mono (List.subset_append_left _ _)

end Slot.Stands

namespace Template

theorem Stands.fault (f : Fault) : (Template.fault f : Template w).Stands src groups := by
  intro _ n hn
  cases hn

theorem Stands.mono {ds : List Parsed} (h : t.Stands src [cs]) (more : cs ⊆ ds) :
    t.Stands src [ds] := by
  intro _ n hn
  rw [List.flatten_singleton]
  have rising := h (List.pairwise_singleton _ _) n hn
  rw [List.flatten_singleton] at rising
  exact rising.mono more

theorem Stands.of_mem {c : Parsed} (h : t.Stands src [[c]]) (mem : c ∈ cs) : t.Stands src [cs] :=
  h.mono (List.cons_subset.mpr ⟨mem, List.nil_subset _⟩)

/-! ### Lists of slots -/

namespace SlotsStand

variable {c : Parsed} {slots : List (Slot w)}

theorem nil : SlotsStand src cs ([] : List (Slot w)) := by
  intro vs hv
  cases hv
  exact .nil

/-- A slot in one child, and the others in later ones. -/
theorem cons (h : slot.Stands src [[c]]) (rest : SlotsStand src cs slots)
    (apart : ∀ d ∈ cs, c.span.stop ≤ d.span.start) :
    SlotsStand src (c :: cs) (slot :: slots) := by
  intro vs hv
  obtain ⟨v, others, filled, hrest, rfl⟩ := exists_of_fillSlots_cons hv
  have first := h (List.pairwise_singleton _ _) v filled
  rw [List.flatten_singleton] at first
  exact first.append (rest others hrest) (List.forall_mem_singleton.mpr apart)

theorem mono {ds : List Parsed} (h : SlotsStand src cs slots) (more : cs ⊆ ds) :
    SlotsStand src ds slots := fun vs hv => (h vs hv).mono more

/-- A slot without names. -/
theorem skip (h : slot.Stands src []) (rest : SlotsStand src cs slots) :
    SlotsStand src cs (slot :: slots) := by
  intro vs hv
  obtain ⟨v, others, filled, hrest, rfl⟩ := exists_of_fillSlots_cons hv
  exact (h .nil v filled).append (rest others hrest) (List.forall_mem_nil _)

/-- One slot for each child. -/
theorem map {α : Type} {as : List α} {part : α → Parsed} {f : α → Slot w}
    (disjoint : (as.map part).Pairwise fun c d => c.span.stop ≤ d.span.start)
    (h : ∀ a ∈ as, (f a).Stands src [[part a]]) : SlotsStand src (as.map part) (as.map f) := by
  induction as with
  | nil => exact .nil
  | cons a as ih =>
    obtain ⟨first, disjoint⟩ := List.pairwise_cons.mp disjoint
    obtain ⟨ha, has⟩ := List.forall_mem_cons.mp h
    exact .cons ha (ih disjoint has) first

/-- Slots without names. -/
theorem silent (h : ∀ slot ∈ slots, slot.Stands src []) : SlotsStand src [] slots := by
  induction slots with
  | nil => exact .nil
  | cons slot slots ih =>
    obtain ⟨first, others⟩ := List.forall_mem_cons.mp h
    exact .skip first (ih others)

end SlotsStand

/-! ### Fields -/

namespace FieldsStand

variable {fs : List (String × Slot w)} {name : String}

theorem nil : FieldsStand src groups ([] : List (String × Slot w)) := by
  intro _ vs hv
  cases hv
  exact .nil

/-- A field in some groups, and the others in those behind them. -/
theorem fields {later : List (List Parsed)} (h : slot.Stands src groups)
    (rest : FieldsStand src later fs) :
    FieldsStand src (groups ++ later) ((name, slot) :: fs) := by
  intro apart vs hv
  obtain ⟨v, others, filled, hrest, rfl⟩ := exists_of_fillFields_cons hv
  obtain ⟨here, behind, between⟩ := List.pairwise_append.mp apart
  rw [List.flatten_append]
  refine (h here v filled).append (rest behind others hrest) fun c hc d hd => ?_
  obtain ⟨g, hg, hc⟩ := List.mem_flatten.mp hc
  obtain ⟨l, hl, hd⟩ := List.mem_flatten.mp hd
  exact between g hg l hl c hc d hd

theorem field (h : slot.Stands src [cs]) (rest : FieldsStand src groups fs) :
    FieldsStand src (cs :: groups) ((name, slot) :: fs) := .fields h rest

/-- The last field with names. -/
theorem last (h : slot.Stands src groups) (rest : FieldsStand src [] fs) :
    FieldsStand src groups ((name, slot) :: fs) := by
  rw [← List.append_nil groups]
  exact .fields h rest

/-- A field without names. -/
theorem skip (h : slot.Stands src []) (rest : FieldsStand src groups fs) :
    FieldsStand src groups ((name, slot) :: fs) := .fields h rest

/-- A group that the fields do not hold. -/
theorem pass (rest : FieldsStand src groups fs) : FieldsStand src (cs :: groups) fs := by
  intro apart vs hv
  rw [List.flatten_cons]
  exact (rest (List.pairwise_cons.mp apart).2 vs hv).mono (List.subset_append_right _ _)

end FieldsStand

section

variable {kind : Kind} {span : Span} {fields : List (String × Slot w)} {dropped : List (Slot w)}

theorem Stands.build (notName : kind.isName = false) (h : FieldsStand src groups fields) :
    (Template.build kind span fields dropped).Stands src groups := by
  intro apart n hn
  obtain ⟨vs, filled, rfl⟩ := exists_fields_of_fill hn
  have sub := Node.points_sublist (n := .mk 0 kind span vs) (fun _ => true) notName
    fun _ _ none => by cases none
  rw [List.filter_eq_self.mpr fun _ _ => rfl] at sub
  exact (h apart vs filled).sublist sub

/-- A node in which the names of one field only say what something is called. -/
theorem Stands.called (field : String) (notName : kind.isName = false)
    (called : ∀ vs, fillFields (Part.converted src) fields = .ok vs → ∀ slot v c,
      (field, slot) ∈ fields → fillSlot (Part.converted src) slot = .ok v → c ∈ v.nodes →
        (Node.mk 0 kind span vs).pointsOf (field, c) = [])
    (h : FieldsStand src groups (fields.filter fun f => decide (f.1 ≠ field))) :
    (Template.build kind span fields dropped).Stands src groups := by
  intro apart n hn
  obtain ⟨vs, filled, rfl⟩ := exists_fields_of_fill hn
  have kept := h apart _ (fillFields_filter (fun name => decide (name ≠ field)) filled)
  refine kept.sublist (Node.points_sublist (n := .mk 0 kind span vs)
    (fun name => decide (name ≠ field)) notName fun c hc out => ?_)
  obtain ⟨v, hv, mem⟩ := Node.mem_children.mp (show (c.1, c.2) ∈ _ from hc)
  obtain ⟨slot, hs, filledSlot⟩ := exists_slot_of_fillFields filled hv
  have same : c.1 = field := by simpa using out
  rw [same] at hs
  have none := called vs filled slot v c.2 hs filledSlot mem
  rwa [← same] at none

/-- A node in which nothing is looked at. -/
theorem Stands.inert (h : kind.isInert = true) :
    (Template.build kind span fields dropped).Stands src groups := by
  intro _ n hn
  obtain ⟨vs, -, rfl⟩ := exists_fields_of_fill hn
  rw [Node.points_of_isInert (n := .mk 0 kind span vs) h]
  exact .nil

end

end Template

/-! ## Common slots -/

/-- A place in an ordered parse, below which the names of all conversions are known to increase. -/
structure Inside.InOrder (src : Source) (x : Inside w) : Prop where
  isOrdered : x.parsed.IsOrdered
  below : ∀ {c : Parsed}, sizeOf c < sizeOf x.parsed → c.IsOrdered →
    ∀ inObject n, Conversion.convert src c inObject = .ok n → RisingIn [c] n.points

namespace Inside

variable {x : Inside w} {q : Part w} {name : String}

theorem parsed_mem_fieldAll (hq : x.field? name = some q) :
    q.parsed ∈ x.parsed.fieldAll name := by
  have mem := mem_children_of_mem_parts (mem_parts_of_field? hq)
  exact List.mem_filter.mpr ⟨mem, decide_eq_true (field_eq_of_field? hq)⟩

theorem parsed_mem_allOf {s : Symbol} (hq : q ∈ x.parts) (hs : q.symbol = s) :
    q.parsed ∈ x.parsed.allOf s :=
  List.mem_filter.mpr ⟨mem_children_of_mem_parts hq, decide_eq_true hs⟩

/-- The children in some parts. -/
theorem sublist_children {qs : List (Part w)} (sub : qs.Sublist x.parts) :
    (qs.map Part.parsed).Sublist x.parsed.children := by
  rw [← x.map_parsed_parts]
  exact sub.map _

theorem named_sublist (x : Inside w) : x.named.Sublist x.parts := List.filter_sublist

theorem filter_named_sublist (x : Inside w) (test : Part w → Bool) :
    (x.named.filter test).Sublist x.parts := List.filter_sublist.trans x.named_sublist

/-- The parts that are taken with their place among the others. -/
theorem zipIdx_named_sublist (x : Inside w) (test : Part w × Nat → Bool) :
    ((x.named.zipIdx.filter test).map Prod.fst).Sublist x.named := by
  have all : (x.named.zipIdx.map Prod.fst).Sublist x.named := by
    rw [List.zipIdx_map_fst]
  exact (List.filter_sublist.map _).trans all

namespace InOrder

variable (h : x.InOrder src)

include h

theorem here : x.parsed.IsOrderedHere := h.isOrdered.here

theorem inside (hq : q ∈ x.parts) : q.inside.InOrder src where
  isOrdered := h.isOrdered.child (mem_children_of_mem_parts hq)
  below smaller := h.below (Nat.lt_trans smaller (sizeOf_lt_of_mem_parts hq))

theorem of_named (hq : q ∈ x.named) : q.inside.InOrder src := h.inside (mem_parts_of_named hq)

theorem of_field (hq : x.field? name = some q) : q.inside.InOrder src :=
  h.inside (mem_parts_of_field? hq)

/-! ### Whole nodes -/

/-- A template that stands in groups of children stands in the node. -/
theorem whole {groups : List (List Parsed)} {t : Template w} (apart : groups.Pairwise Apart)
    (children : ∀ g ∈ groups, g ⊆ x.parsed.children) (stands : t.Stands src groups) :
    t.Stands src [[x.parsed]] := by
  intro _ n hn
  rw [List.flatten_singleton]
  exact (stands apart n hn).up (flatten_subset_iff.mpr children) h.here

/-- A template that stands in some children. -/
theorem among {t : Template w} (stands : t.Stands src [x.parsed.children]) :
    t.Stands src [[x.parsed]] :=
  h.whole (List.pairwise_singleton _ _)
    (List.forall_mem_singleton.mpr (List.Subset.refl _)) stands

/-- A slot that stands in the children stands in the node. -/
theorem within {slot : Slot w} (stands : slot.Stands src [x.parsed.children]) :
    slot.Stands src [[x.parsed]] := by
  intro _ v hv
  have inside := stands (List.pairwise_singleton _ _) v hv
  rw [List.flatten_singleton] at inside ⊢
  exact inside.up (List.Subset.refl _) h.here

section

variable {kind : Kind} {span : Span} {fields : List (String × Slot w)} {dropped : List (Slot w)}
  (notName : kind.isName = false)

include notName

/-- A node with fields in the order of the grammar. -/
theorem build {s : Symbol} (hs : x.symbol = s)
    (stand : Template.FieldsStand src (s.groups x.parsed) fields) :
    (Template.build kind span fields dropped).Stands src [[x.parsed]] := by
  subst hs
  exact h.whole h.here.groups (Symbol.groups_subset _ _) (.build notName stand)

/-- A node with one field for children. -/
theorem list (stand : Template.FieldsStand src [x.parsed.children] fields) :
    (Template.build kind span fields dropped).Stands src [[x.parsed]] :=
  h.among (.build notName stand)

end

/-- A name that is the node itself. -/
theorem itself {kind : Kind} {fields : List (String × Slot w)} {dropped : List (Slot w)}
    (isName : kind.isName = true) :
    (Template.build kind x.span fields dropped).Stands src [[x.parsed]] := by
  intro _ n hn
  obtain ⟨vs, -, rfl⟩ := Template.exists_fields_of_fill hn
  rw [Node.points_of_name (n := .mk 0 kind x.span vs) isName, List.flatten_singleton]
  exact .start h.isOrdered.start_lt_stop

/-! ### Parts -/

theorem template (hq : q ∈ x.parts) : (Template.hole q).Stands src [[q.parsed]] := by
  intro _ n hn
  rw [List.flatten_singleton]
  exact h.below (sizeOf_lt_of_mem_parts hq)
    (h.isOrdered.child (mem_children_of_mem_parts hq)) _ n hn

theorem hole (hq : q ∈ x.parts) : (Slot.hole q).Stands src [[q.parsed]] := .one (h.template hq)

theorem fieldHole (hq : x.field? name = some q) :
    (Slot.hole q).Stands src [x.parsed.fieldAll name] :=
  (h.hole (mem_parts_of_field? hq)).of_mem (parsed_mem_fieldAll hq)

theorem convert (name : String) : (x.convert name).Stands src [x.parsed.fieldAll name] := by
  unfold Inside.convert
  split
  · next q hq => exact h.fieldHole hq
  · exact .fault _

theorem optional (name : String) : (x.optional name).Stands src [x.parsed.fieldAll name] := by
  unfold Inside.optional
  split
  · next q hq =>
    split
    · exact h.fieldHole hq
    · exact .null
  · exact .null

theorem first : x.first.Stands src [x.parsed.children] := by
  unfold Inside.first
  split
  · next q hq =>
    have parts := mem_parts_of_named (List.mem_of_mem_head? hq)
    exact (h.template parts).of_mem (mem_children_of_mem_parts parts)
  · exact .fault _

theorem firstOrNull : x.firstOrNull.Stands src [x.parsed.children] := by
  unfold Inside.firstOrNull
  split
  · next q hq =>
    have parts := mem_parts_of_named (List.mem_of_mem_head? hq)
    exact (h.hole parts).of_mem (mem_children_of_mem_parts parts)
  · exact .null

/-- Some of the parts, in their order, each with a slot. -/
theorem slots {α : Type} {as : List α} (part : α → Part w) {f : α → Slot w}
    (sub : (as.map part).Sublist x.parts)
    (each : ∀ a ∈ as, (f a).Stands src [[(part a).parsed]]) :
    Template.SlotsStand src (as.map fun a => (part a).parsed) (as.map f) := by
  refine .map ?_ each
  have children := sublist_children sub
  rw [List.map_map] at children
  exact h.here.disjoint.sublist children

/-- The conversions of some of the parts, in their order. -/
theorem holes {qs : List (Part w)} (sub : qs.Sublist x.parts) :
    (Slot.holes qs).Stands src [qs.map Part.parsed] :=
  .many (h.slots id (by rwa [List.map_id]) fun _ hq => h.hole (sub.subset hq))

theorem holes_named : (Slot.holes x.named).Stands src [x.parsed.children] :=
  (h.holes x.named_sublist).mono (sublist_children x.named_sublist).subset

end InOrder

end Inside

end FreeNames
