import FreeNames.Resolution.Events

/-!
# Chains link by link

`Visit.chainSteps` puts all links of a chain on the stack at once.  Here the same steps are
read from the outermost link inwards: a link holds the steps of the chain that is its operand,
and after them its remaining fields (`Visit.spineSteps_cons`).

* `Visit.SpineOf` describes the spine of a chain as an inductive relation; `Visit.spineOf`
  says that it is what `Visit.spine` finds.
-/

namespace FreeNames.Visit

/-- The links of a chain, outermost first, and the operand of the innermost. -/
inductive SpineOf : Node → List Node → Node → Prop
  | last {n operand : Node} {field : String} :
    n.kind.operandField? = some field → n.child field = .ok operand →
    operand.kind.operandField? = none → SpineOf n [n] operand
  | link {n inner operand : Node} {field : String} {links : List Node} :
    n.kind.operandField? = some field → n.child field = .ok inner →
    SpineOf inner links operand → SpineOf n (n :: links) operand

theorem SpineOf.ne_nil {n operand : Node} {links : List Node} (h : SpineOf n links operand) :
    links ≠ [] := by
  cases h with
  | last => exact List.cons_ne_nil _ _
  | link => exact List.cons_ne_nil _ _

theorem SpineOf.isChainLink {n operand : Node} {links : List Node}
    (h : SpineOf n links operand) : n.kind.isChainLink = true := by
  cases h with
  | last hk => simp [Kind.isChainLink, hk]
  | link hk => simp [Kind.isChainLink, hk]

theorem spineOf {n operand : Node} {links : List Node} (hn : n.kind.isChainLink = true)
    (h : spine n = .ok (links, operand)) : SpineOf n links operand := by
  fun_induction spine n generalizing links operand with
  | case1 n hk => simp [Kind.isChainLink, hk] at hn
  | case2 => cases h
  | case3 n field hk inner hchild hsmall ih =>
    cases hs : spine inner with
    | error f => rw [hs] at h; cases h
    | ok r =>
      rw [hs] at h
      cases h
      cases hi : inner.kind.operandField? with
      | none =>
        obtain rfl : r = ([], inner) := by
          rw [spine] at hs
          simp only [hi] at hs
          exact (Except.ok.inj hs).symm
        exact .last hk hchild hi
      | some f => exact .link hk hchild (ih (by simp [Kind.isChainLink, hi]) hs)

theorem unwind_append (scopes : List Frame) (xs ys : List Node) :
    unwind scopes (xs ++ ys) = unwind scopes xs ++ unwind scopes ys := by
  induction xs with
  | nil => rfl
  | cons x xs ih =>
    rw [List.cons_append, unwind, unwind, ih, List.append_assoc, List.cons_append]

/-- The fields of a link that do not hold the operand. -/
def keepsRest (n : Node) (field : String) : Bool := some field ≠ n.kind.operandField?

theorem unwind_singleton (scopes : List Frame) (n : Node) :
    unwind scopes [n] = readingChildren n (keepsRest n) scopes ++ [.emit .pop] := rfl

/-- The only link of a chain holds the operand. -/
theorem spineSteps_singleton (n operand : Node) (scopes : List Frame) :
    spineSteps [n] operand scopes = within n
      (.go ⟨.read, operand, n.kind.operandField?, some n, scopes⟩
        :: readingChildren n (keepsRest n) scopes) := by
  rw [spineSteps, List.reverse_singleton, unwind_singleton]
  rfl

/-- The outermost link of a chain holds the steps of the others. -/
theorem spineSteps_cons (n operand : Node) {links : List Node} (more : links ≠ [])
    (scopes : List Frame) :
    spineSteps (n :: links) operand scopes = within n
      (spineSteps links operand scopes ++ readingChildren n (keepsRest n) scopes) := by
  have same : readingOperand (n :: links) operand scopes = readingOperand links operand scopes := by
    rw [readingOperand, readingOperand, List.getLast?_cons,
      List.getLast?_eq_some_getLast more]
    rfl
  rw [spineSteps, spineSteps, within, same, List.reverse_cons, unwind_append, unwind_singleton]
  simp only [List.map_cons, List.cons_append, List.append_assoc]

end FreeNames.Visit
