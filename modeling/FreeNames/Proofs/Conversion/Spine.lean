import FreeNames.Proofs.Conversion.Chains

/-!
# Chains link by link

The template of a chain is built along its spine, yet it fills like one link around the template
of its operand: the faults of an operand come before everything else in the link.

* `linkTemplate_fill_error`: a link with a faulty operand has the fault of the operand.
* `fill_chain`: one link of a chain, the rest of it being its operand.
* `exists_of_fill_chain` and `chain_induction`: what is known of links passes on to chains.
-/

namespace FreeNames

variable {w : Parsed} {src : Source}

/-- A chain link is an access, a call or a binary operator. -/
theorem Symbol.eq_of_isLink {s : Symbol} (link : s.operandField?.isSome = true) :
    s = .memberExpression ∨ s = .subscriptExpression ∨ s = .callExpression ∨
      s = .binaryExpression := by
  unfold Symbol.operandField? at link
  split at link <;> simp_all

/-! ## Faults of operands -/

namespace Template

variable {convert : Part w → Except Fault Node} {f : Fault} {name : String} {slot : Slot w}
  {fields : List (String × Slot w)}

/-- The fields end in this fault, which arises in the first turn. -/
def FailsWith (convert : Part w → Except Fault Node) (f : Fault)
    (fields : List (String × Slot w)) : Prop :=
  fillFields convert fields = .error ⟨0, f⟩

theorem FailsWith.here {t : Template w} (h : t.fill convert = .error f) :
    FailsWith convert f ((name, .one t) :: fields) := by
  rw [FailsWith, fillFields, fillSlot, h]
  cases fillFields convert fields <;> simp [TurnFault.both, Except.map, Except.mapError]

/-- A fault of the first turn comes before one of the second. -/
theorem FailsWith.later (h : FailsWith convert f fields) :
    FailsWith convert f ((name, .late slot) :: fields) := by
  rw [FailsWith, fillFields, h, Slot.late, fillSlot]
  cases fillSlot convert slot <;> simp [TurnFault.both, Except.map, Except.mapError]

theorem FailsWith.fill {kind : Kind} {span : Span} (h : FailsWith convert f fields) :
    (Template.node kind span fields).fill convert = .error f := by
  rw [Template.fill, h]
  rfl

end Template

namespace Conversion

variable {x : Inside w} {q : Part w}

/-- A link with a faulty operand has the fault of the operand. -/
theorem linkTemplate_fill_error {convert : Part w → Except Fault Node} {t : Template w}
    {f : Fault} (h : t.fill convert = .error f) :
    (linkTemplate src x (some t)).fill convert = .error f := by
  have here : ∀ (name : String) (fields : List (String × Slot w)),
      Template.FailsWith convert f ((name, .one t) :: fields) := fun _ _ => .here h
  unfold linkTemplate
  split
  · exact (here _ _).fill
  · exact (here _ _).fill
  · exact (Template.FailsWith.later (here _ _)).fill
  · unfold callTemplate
    simp only
    split
    · exact (here _ _).fill
    · exact (here _ _).fill

/-! ## One link of a chain -/

/-- The operand of a link: the rest of the chain, or the operand of the innermost link. -/
def operandTemplate (src : Source) (q : Part w) : Template w :=
  if q.symbol.operandField?.isSome then chain src q.inside else .hole q

theorem chain_of_error {f : Fault} (ho : chainOperand x = .error f) :
    chain src x = .fault f := by
  have hx : spine x = .error f := by
    rw [spine]
    split <;> simp_all
  simp only [chain, hx]

/-- A link without an operand is the whole chain. -/
theorem chain_of_none (ho : chainOperand x = .ok none) :
    chain src x = linkTemplate src x none := by
  have hx : spine x = .ok ([x], none) := by
    rw [spine]
    split <;> simp_all
  simp only [chain, hx]
  rfl

/-- A chain fills like its first link around the rest. -/
theorem fill_chain (ho : chainOperand x = .ok (some q)) (convert : Part w → Except Fault Node) :
    (chain src x).fill convert =
      (linkTemplate src x (some (operandTemplate src q))).fill convert := by
  have hx : spine x = if q.symbol.operandField?.isSome then
      (spine q.inside).map fun rest => (x :: rest.1, rest.2)
    else .ok ([x], some q) := by
    rw [spine]
    split
    · simp_all
    · simp_all
    · next r hr =>
      rw [ho] at hr
      cases hr
      rfl
  rw [operandTemplate]
  split
  · next link =>
    rw [if_pos link] at hx
    cases hq : spine q.inside with
    | error f =>
      rw [hq] at hx
      have fault : chain src q.inside = .fault f := by simp only [chain, hq]
      rw [fault, linkTemplate_fill_error rfl]
      simp only [chain, hx]
      rfl
    | ok rest =>
      obtain ⟨links, operand⟩ := rest
      rw [hq] at hx
      obtain ⟨t, ht⟩ := Option.isSome_iff_exists.mp
        (isSome_linked hq : (linked src links operand).isSome = true)
      rw [linked] at ht
      have inner : chain src q.inside = t := by simp only [chain, hq, ht]
      rw [inner]
      simp only [chain, hx, Except.map, List.foldr_cons, ht]
  · next other =>
    rw [if_neg other] at hx
    simp only [chain, hx]
    rfl

/-- A chain that can be filled is filled like its first link, around the rest if there is any. -/
theorem exists_of_fill_chain {convert : Part w → Except Fault Node} {n : Node}
    (h : (chain src x).fill convert = .ok n) : ∃ operand, chainOperand x = .ok operand ∧
      (linkTemplate src x (operand.map (operandTemplate src))).fill convert = .ok n := by
  cases ho : chainOperand x with
  | error f =>
    rw [chain_of_error ho] at h
    cases h
  | ok operand =>
    refine ⟨operand, rfl, ?_⟩
    cases operand with
    | none => rwa [chain_of_none ho] at h
    | some q => rwa [fill_chain ho] at h

/-- Induction along a chain, from the innermost link outwards. -/
@[elab_as_elim]
theorem chain_induction {motive : Inside w → Prop}
    (step : ∀ x, (∀ q, chainOperand x = .ok (some q) → motive q.inside) → motive x)
    (x : Inside w) : motive x := by
  induction size : sizeOf x.parsed using Nat.strongRecOn generalizing x with | ind k ih => ?_
  refine step x fun q ho => ih _ ?_ q.inside rfl
  exact size ▸ Inside.sizeOf_lt_of_mem_parts (mem_parts_of_chainOperand ho)

end Conversion

end FreeNames
