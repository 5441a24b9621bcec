import Mathlib
import FreeNames.Proofs.Conversion.Elements
import FreeNames.Proofs.Conversion.Expressions

/-!
# Nested sequences

The operands of a comma sequence stand in a row, and a sequence nested in another one adds its own
operands to the row.  Conversion takes the operands of a sequence itself at once, and then those of
the nested sequences, from the last one to the first.

* `Parsed.operands` are the operands in the order in which they stand, `Parsed.operandsTaken` in the
  order in which they are taken, and `Conversion.sequenceParts_eq` says that conversion does so.
* `Parsed.operandsTaken_perm`: no operand is lost, and none is taken twice.
* `Parsed.nestsLast` is the exact condition for both orders to agree; `Conversion.convert_sequence`
  puts all this together.
-/

namespace FreeNames

/-! ## Two orders of a list of lists -/

section PlainFirst

variable {α β γ : Type} {nested : α → Bool} {f g : α → List β} {a : α} {as : List α}

/-- What the plain members of a list stand for, and then the nested ones from the last on. -/
def plainFirst (nested : α → Bool) (f : α → List β) (as : List α) : List β :=
  (as.filter fun a => !nested a).flatMap f ++ (as.filter nested).reverse.flatMap f

theorem plainFirst_map (h : γ → α) (cs : List γ) :
    plainFirst nested f (cs.map h) = plainFirst (fun c => nested (h c)) (fun c => f (h c)) cs := by
  simp only [plainFirst, List.filter_map, ← List.map_reverse, List.flatMap_map, Function.comp_def]

theorem plainFirst_cons_plain (h : nested a = false) :
    plainFirst nested f (a :: as) = f a ++ plainFirst nested f as := by
  rw [plainFirst, List.filter_cons_of_pos (by simp [h]), List.filter_cons_of_neg (by simp [h]),
    List.flatMap_cons, List.append_assoc, plainFirst]

theorem plainFirst_cons_nested (h : nested a = true) :
    plainFirst nested f (a :: as) = plainFirst nested f as ++ f a := by
  rw [plainFirst, List.filter_cons_of_neg (by simp [h]), List.filter_cons_of_pos h,
    List.reverse_cons, List.flatMap_append, List.flatMap_singleton, ← List.append_assoc, plainFirst]

theorem plainFirst_perm (perm : ∀ a ∈ as, (g a).Perm (f a)) :
    (plainFirst nested g as).Perm (as.flatMap f) := by
  induction as with
  | nil => exact .refl _
  | cons a as ih =>
    obtain ⟨first, rest⟩ := List.forall_mem_cons.mp perm
    rw [List.flatMap_cons]
    cases h : nested a with
    | false =>
      rw [plainFirst_cons_plain h]
      exact first.append (ih rest)
    | true =>
      rw [plainFirst_cons_nested h]
      exact List.perm_append_comm.trans (first.append (ih rest))

/-- Both orders agree if what is nested stands behind everything else. -/
theorem plainFirst_eq_flatMap (same : ∀ a ∈ as, g a = f a)
    (last : as.Pairwise fun a b => nested a = true → f a = [] ∨ f b = []) :
    plainFirst nested g as = as.flatMap f := by
  induction as with
  | nil => rfl
  | cons a as ih =>
    obtain ⟨here, others⟩ := List.forall_mem_cons.mp same
    obtain ⟨behind, rest⟩ := List.pairwise_cons.mp last
    rw [List.flatMap_cons]
    cases h : nested a with
    | false => rw [plainFirst_cons_plain h, ih others rest, here]
    | true =>
      rw [plainFirst_cons_nested h, ih others rest, here]
      by_cases empty : f a = []
      · rw [empty, List.append_nil, List.nil_append]
      · have nothing : as.flatMap f = [] :=
          List.flatMap_eq_nil_iff.mpr fun b hb => (behind b hb h).resolve_left empty
        rw [nothing, List.append_nil, List.nil_append]

/-- Two rows that change places make another row, if nothing stands twice and none of them is
empty. -/
theorem eq_nil_of_exchanged {xs xs' ys ys' : List β} (perm : ys'.Perm ys)
    (distinct : (xs ++ ys).Nodup) (same : ys' ++ xs' = xs ++ ys) : xs = [] ∨ ys = [] := by
  cases xs with
  | nil => exact .inl rfl
  | cons x xs =>
    cases ys' with
    | nil => exact .inr (List.nil_perm.mp perm)
    | cons y ys' =>
      have mem : y ∈ ys := perm.subset (List.mem_cons_self ..)
      have first : y = x := (List.cons.inj same).1
      exact absurd first.symm ((List.nodup_append.mp distinct).2.2 x (List.mem_cons_self ..) y mem)

/-- And they agree only so, where nothing stands twice in the list. -/
theorem last_of_plainFirst_eq (perm : ∀ a ∈ as, (g a).Perm (f a)) (distinct : (as.flatMap f).Nodup)
    (same : plainFirst nested g as = as.flatMap f) :
    (as.Pairwise fun a b => nested a = true → f a = [] ∨ f b = []) ∧ ∀ a ∈ as, g a = f a := by
  induction as with
  | nil => exact ⟨.nil, List.forall_mem_nil _⟩
  | cons a as ih =>
    obtain ⟨first, rest⟩ := List.forall_mem_cons.mp perm
    rw [List.flatMap_cons] at same distinct
    have distinct_rest := (List.nodup_append.mp distinct).2.1
    cases h : nested a with
    | false =>
      rw [plainFirst_cons_plain h] at same
      obtain ⟨here, there⟩ := List.append_inj same first.length_eq
      obtain ⟨later, all⟩ := ih rest distinct_rest there
      have plain : ∀ b ∈ as, nested a = true → f a = [] ∨ f b = [] := fun _ _ hn =>
        absurd (h.symm.trans hn) Bool.false_ne_true
      exact ⟨List.pairwise_cons.mpr ⟨plain, later⟩, List.forall_mem_cons.mpr ⟨here, all⟩⟩
    | true =>
      rw [plainFirst_cons_nested h] at same
      have others : (plainFirst nested g as).Perm (as.flatMap f) := plainFirst_perm rest
      rcases eq_nil_of_exchanged others distinct same with empty | nothing
      · rw [empty] at first same
        rw [first.eq_nil, List.append_nil, List.nil_append] at same
        obtain ⟨later, all⟩ := ih rest distinct_rest same
        exact ⟨List.pairwise_cons.mpr ⟨fun _ _ _ => .inl empty, later⟩,
          List.forall_mem_cons.mpr ⟨first.eq_nil.trans empty.symm, all⟩⟩
      · have none : ∀ b ∈ as, f b = [] := List.flatMap_eq_nil_iff.mp nothing
        rw [nothing] at others
        rw [nothing, others.eq_nil, List.append_nil, List.nil_append] at same
        refine ⟨List.pairwise_cons.mpr ⟨fun b hb _ => .inr (none b hb), ?_⟩,
          List.forall_mem_cons.mpr ⟨same, fun b hb => ?_⟩⟩
        · exact List.pairwise_of_forall_mem_list fun _ _ c hc _ => .inr (none c hc)
        · have := rest b hb
          rw [none b hb] at this ⊢
          exact this.eq_nil

end PlainFirst

namespace Parsed

variable {p : Parsed}

/-! ## The operands of a sequence -/

def isSequence (p : Parsed) : Bool := p.symbol = .sequenceExpression

/-- What a node stands for in a sequence: a nested sequence for its operands, in the order in which
they stand, and everything else for itself. -/
def operands (p : Parsed) : List Parsed :=
  if p.isSequence then p.named.attach.flatMap fun c => c.1.operands else [p]
termination_by sizeOf p
decreasing_by exact sizeOf_lt_of_mem_children (mem_children_of_named c.2)

/-- The operands in the order in which they are taken. -/
def operandsTaken (p : Parsed) : List Parsed :=
  if p.isSequence then
    plainFirst (fun c => c.1.isSequence) (fun c => c.1.operandsTaken) p.named.attach
  else [p]
termination_by sizeOf p
decreasing_by exact sizeOf_lt_of_mem_children (mem_children_of_named c.2)

/-- In the sequence, and in the nested ones, no operand stands behind a nested sequence with
operands. -/
def nestsLast (p : Parsed) : Bool :=
  decide (p.named.Pairwise fun a b => a.isSequence = true → a.operands = [] ∨ b.operands = []) &&
    p.named.attach.all fun c => !c.1.isSequence || c.1.nestsLast
termination_by sizeOf p
decreasing_by exact sizeOf_lt_of_mem_children (mem_children_of_named c.2)

theorem operands_of_plain (h : p.isSequence = false) : p.operands = [p] := by
  rw [operands, h, if_neg Bool.false_ne_true]

theorem operandsTaken_of_plain (h : p.isSequence = false) : p.operandsTaken = [p] := by
  rw [operandsTaken, h, if_neg Bool.false_ne_true]

theorem operands_of_isSequence (h : p.isSequence = true) :
    p.operands = p.named.flatMap operands := by
  rw [operands, if_pos h]
  conv => rhs; rw [← List.attach_map_subtype_val p.named]
  rw [List.flatMap_map]

theorem operandsTaken_of_isSequence (h : p.isSequence = true) :
    p.operandsTaken = plainFirst isSequence operandsTaken p.named := by
  rw [operandsTaken, if_pos h]
  conv => rhs; rw [← List.attach_map_subtype_val p.named]
  rw [plainFirst_map]

theorem nestsLast_iff : p.nestsLast = true ↔
    (p.named.Pairwise fun a b => a.isSequence = true → a.operands = [] ∨ b.operands = []) ∧
      ∀ c ∈ p.named, c.isSequence = true → c.nestsLast = true := by
  rw [nestsLast]
  simp [Decidable.imp_iff_not_or]

/-- No operand is lost, and none is taken twice. -/
theorem operandsTaken_perm (p : Parsed) : p.operandsTaken.Perm p.operands := by
  cases h : p.isSequence with
  | false => rw [operandsTaken_of_plain h, operands_of_plain h]
  | true =>
    rw [operandsTaken_of_isSequence h, operands_of_isSequence h]
    refine plainFirst_perm fun c hc => ?_
    have := sizeOf_lt_of_mem_children (mem_children_of_named hc)
    exact operandsTaken_perm c
termination_by sizeOf p

/-- Where no operand stands behind a nested sequence, the operands are taken in order. -/
theorem operandsTaken_of_nestsLast (p : Parsed) (last : p.nestsLast = true) :
    p.operandsTaken = p.operands := by
  cases h : p.isSequence with
  | false => rw [operandsTaken_of_plain h, operands_of_plain h]
  | true =>
    obtain ⟨behind, nested⟩ := nestsLast_iff.mp last
    have same : ∀ c ∈ p.named, c.operandsTaken = c.operands := fun c hc => by
      have := sizeOf_lt_of_mem_children (mem_children_of_named hc)
      cases hs : c.isSequence with
      | false => rw [operandsTaken_of_plain hs, operands_of_plain hs]
      | true => exact operandsTaken_of_nestsLast c (nested c hc hs)
    rw [operandsTaken_of_isSequence h, operands_of_isSequence h, plainFirst_eq_flatMap same behind]
termination_by sizeOf p

/-- If the operands are taken in order, and no node is two of them, then no operand stands behind a
nested sequence. -/
theorem nestsLast_of_operandsTaken_eq (p : Parsed) (h : p.isSequence = true)
    (distinct : p.operands.Nodup) (same : p.operandsTaken = p.operands) : p.nestsLast = true := by
  rw [operands_of_isSequence h] at distinct same
  rw [operandsTaken_of_isSequence h] at same
  obtain ⟨behind, all⟩ := last_of_plainFirst_eq (fun c _ => c.operandsTaken_perm) distinct same
  refine nestsLast_iff.mpr ⟨behind, fun c hc hs => ?_⟩
  have := sizeOf_lt_of_mem_children (mem_children_of_named hc)
  exact nestsLast_of_operandsTaken_eq c hs ((List.nodup_flatMap.mp distinct).1 c hc) (all c hc)
termination_by sizeOf p

end Parsed

/-! ## Conversion -/

namespace Conversion

variable {w : Parsed} {src : Source}

/-- The operands of a sequence itself. -/
theorem map_parsed_plain (x : Inside w) :
    (x.named.filter fun q => q.symbol ≠ .sequenceExpression).map Part.parsed =
      (x.parsed.named.filter fun c => !c.isSequence).flatMap Parsed.operandsTaken := by
  have parts : (x.named.filter fun q => q.symbol ≠ .sequenceExpression).map Part.parsed =
      x.parsed.named.filter fun c => !c.isSequence := by
    rw [← x.named_map_parsed, List.filter_map]
    congr 1
    refine List.filter_congr fun q _ => ?_
    rw [Function.comp_apply, Parsed.isSequence, decide_not]
    rfl
  have itself : ∀ c ∈ x.parsed.named.filter fun c => !c.isSequence, c.operandsTaken = [c] :=
    fun c hc => Parsed.operandsTaken_of_plain (by simpa using (List.mem_filter.mp hc).2)
  rw [parts, List.flatMap_congr itself, List.flatMap_singleton']

theorem map_parsed_nestedSequences (x : Inside w) :
    (nestedSequences x).map Inside.parsed = (x.parsed.named.filter Parsed.isSequence).reverse := by
  rw [nestedSequences, List.map_reverse, List.map_map, ← x.named_map_parsed, List.filter_map]
  rfl

/-- What is pending next are sequences again. -/
theorem isSequence_of_mem_pending {x : Inside w} {pending : List (Inside w)}
    (h : ∀ y ∈ pending, y.parsed.isSequence = true) :
    ∀ y ∈ nestedSequences x ++ pending, y.parsed.isSequence = true := by
  intro y hy
  rcases List.mem_append.mp hy with hy | hy
  · have mem := List.mem_map_of_mem (f := Inside.parsed) hy
    rw [map_parsed_nestedSequences, List.mem_reverse] at mem
    exact (List.mem_filter.mp mem).2
  · exact h y hy

/-- Conversion takes the operands of the pending sequences. -/
theorem sequenceParts_eq {pending : List (Inside w)}
    (h : ∀ x ∈ pending, x.parsed.isSequence = true) :
    (sequenceParts pending).map Part.parsed =
      (pending.map Inside.parsed).flatMap Parsed.operandsTaken := by
  fun_induction sequenceParts pending with
  | case1 => rfl
  | case2 x pending ih =>
    obtain ⟨first, rest⟩ := List.forall_mem_cons.mp h
    rw [List.map_append, ih (isSequence_of_mem_pending rest), map_parsed_plain, List.map_append,
      List.flatMap_append, map_parsed_nestedSequences, List.map_cons, List.flatMap_cons,
      Parsed.operandsTaken_of_isSequence first, plainFirst, List.append_assoc]

theorem fillSlots_holes {qs : List (Part w)} (plain : ∀ q ∈ qs, q.inObject = false) :
    Template.fillSlots (Part.converted src) (qs.map Slot.hole) =
      ((qs.map Part.parsed).mapM (childValue src)).mapError (TurnFault.mk 0) := by
  induction qs with
  | nil => rfl
  | cons q qs ih =>
    obtain ⟨first, rest⟩ := List.forall_mem_cons.mp plain
    rw [List.map_cons, List.map_cons, List.mapM_cons]
    exact Template.fillSlots_cons_eq (fillSlot_hole first) (ih rest)

/-- No part of a sequence stands in an object literal. -/
theorem inObject_of_mem_sequenceParts {pending : List (Inside w)}
    (h : ∀ x ∈ pending, x.parsed.isSequence = true) :
    ∀ q ∈ sequenceParts pending, q.inObject = false := by
  refine forall_mem_sequenceParts (fun x isSequence q hq => ?_)
    (fun _ _ _ _ symbol => decide_eq_true symbol) h
  have noObject : x.symbol ≠ .object := fun object => by
    rw [Parsed.isSequence, show x.parsed.symbol = _ from object] at isSequence
    cases isSequence
  exact (Inside.inObject_of_mem_parts (Inside.mem_parts_of_named hq)).trans
    (decide_eq_false noObject)

/-- The conversion of a sequence lists the conversions of its operands, each of them once, and in
the order in which they stand exactly if no operand stands behind a nested sequence. -/
theorem convert_sequence {p : Parsed} (h : p.symbol = .sequenceExpression) (inObject : Bool) :
    convert src p inObject = (p.operandsTaken.mapM (childValue src)).map
        (fun vs => .mk 0 .sequenceExpression p.span [("expressions", .list vs)]) ∧
      p.operandsTaken.Perm p.operands ∧
      (p.nestsLast = true → p.operandsTaken = p.operands) ∧
      (p.operands.Nodup → p.operandsTaken = p.operands → p.nestsLast = true) := by
  have isSequence : p.isSequence = true := decide_eq_true h
  refine ⟨?_, p.operandsTaken_perm, p.operandsTaken_of_nestsLast,
    p.nestsLast_of_operandsTaken_eq isSequence⟩
  have pending : ∀ x ∈ [p.inside], x.parsed.isSequence = true :=
    List.forall_mem_singleton.mpr isSequence
  have parts := sequenceParts_eq pending
  rw [List.map_singleton, List.flatMap_singleton] at parts
  have table : template src inObject p.inside = sequenceExpression p.inside := by
    have hs : p.inside.symbol = .sequenceExpression := h
    simp only [template, hs]
  rw [convert_eq, table, ← show p.inside.parsed.operandsTaken = p.operandsTaken from rfl, ← parts]
  exact Template.fill_list (fillSlots_holes (inObject_of_mem_sequenceParts pending))

/-- A name at a place in `a,b,c`. -/
def nameInRow (start : Nat) : Parsed :=
  .mk .identifier true false false ⟨start, start + 1, 1, start⟩ none []

/-- What the name at this place becomes. -/
def identifierInRow (start : Nat) (name : String) : Value :=
  .node (.mk 0 .identifier ⟨start, start + 1, 1, start⟩ [("name", .text name)])

/-- The parse of `a,b,c` in which `a,b` is a sequence of its own. -/
def sequenceInFront : Parsed :=
  .mk .sequenceExpression true false false ⟨0, 5, 1, 0⟩ none
    [.mk .sequenceExpression true false false ⟨0, 3, 1, 0⟩ none
      [nameInRow 0, .mk .comma false false false ⟨1, 2, 1, 1⟩ none [], nameInRow 2],
      .mk .comma false false false ⟨3, 4, 1, 3⟩ none [], nameInRow 4]

/-- A sequence in front comes last. -/
theorem sequenceInFront_reordered :
    sequenceInFront.symbol = .sequenceExpression ∧
      sequenceInFront.operands = [nameInRow 0, nameInRow 2, nameInRow 4] ∧
      sequenceInFront.nestsLast = false ∧
      convert (.ofString "a,b,c") sequenceInFront false =
        .ok (.mk 0 .sequenceExpression ⟨0, 5, 1, 0⟩ [("expressions", .list
          [identifierInRow 4 "c", identifierInRow 0 "a", identifierInRow 2 "b"])]) := by
  have operands : sequenceInFront.operands = [nameInRow 0, nameInRow 2, nameInRow 4] := by cbv
  have taken : sequenceInFront.operandsTaken = [nameInRow 4, nameInRow 0, nameInRow 2] := by cbv
  have a : (Source.ofString "a,b,c").text? (nameInRow 0).span = some "a" := by cbv
  have b : (Source.ofString "a,b,c").text? (nameInRow 2).span = some "b" := by cbv
  have c : (Source.ofString "a,b,c").text? (nameInRow 4).span = some "c" := by cbv
  have values : [nameInRow 4, nameInRow 0, nameInRow 2].mapM (childValue (.ofString "a,b,c")) =
      .ok [identifierInRow 4 "c", identifierInRow 0 "a", identifierInRow 2 "b"] := by
    simp only [List.mapM_cons, List.mapM_nil, childValue_identifier rfl a,
      childValue_identifier rfl b, childValue_identifier rfl c]
    rfl
  obtain ⟨converted, -, inOrder, -⟩ :=
    @convert_sequence (.ofString "a,b,c") sequenceInFront rfl false
  refine ⟨rfl, operands, ?_, ?_⟩
  · rw [Bool.eq_false_iff]
    intro last
    have same := inOrder last
    rw [taken, operands] at same
    cases same
  · rw [converted, taken, values]
    rfl

end Conversion

end FreeNames
