import FreeNames.Proofs.Scope.Built
import FreeNames.Proofs.Scope.Declared
import Mathlib.Data.List.Forall2

/-!
# Scopes under the two settings

Arrow functions bind `arguments` if such uses are not reported, and do not bind it if they are.
Nothing else that a scope binds depends on the setting.

* `Node.declared_of_arrow`, `Node.declared_of_not_arrow` compare what one node declares.
* `Builder.LikeBut` compares the scopes of two runs; entering a node in both keeps it.
-/

namespace FreeNames

/-- Is the node an arrow function? -/
def Node.isArrow (n : Node) : Bool := n.kind = .arrowFunctionExpression

/-! ## Declarations -/

namespace Node

variable {n : Node}

theorem declared_of_not_arrow (h : n.isArrow = false) : n.declared false = n.declared true := by
  have other : n.kind ≠ .arrowFunctionExpression := by simpa [isArrow] using h
  unfold declared functionNames
  cases hk : n.kind <;> simp_all

/-- An arrow function binds `arguments` first. -/
theorem declared_of_arrow (h : n.isArrow = true) :
    n.declared false = .ok argumentsBinding :: n.declared true := by
  have arrow : n.kind = .arrowFunctionExpression := by simpa [isArrow] using h
  simp [declared, functionNames, arrow]

theorem faults_declared (n : Node) : (n.declared false).faults = (n.declared true).faults := by
  cases h : n.isArrow with
  | false => rw [declared_of_not_arrow h]
  | true => rw [declared_of_arrow h]; rfl

theorem declares_iff_of_settings (n : Node) (name : Text) :
    (n.declared false).bindings.declares name = true ↔
      (n.declared true).bindings.declares name = true ∨
        (name = "arguments" ∧ n.isArrow = true) := by
  cases h : n.isArrow with
  | false => simp [declared_of_not_arrow h]
  | true =>
    rw [declared_of_arrow h, Declared.declares_iff, Declared.declares_iff]
    simp only [List.mem_cons, Except.ok.injEq, or_and_right, exists_or, exists_eq_left, and_true]
    rw [or_comm, eq_comm]
    exact Iff.rfl

end Node

/-! ## Bindings of all other names -/

namespace Bindings

/-- The bindings of all other names, in their order. -/
def without (b : Bindings) (name : Text) : List Binding := b.entries.filter fun x => x.name ≠ name

variable {b b' : Bindings} {name : Text}

theorem declares_eq_of_without (same : b.without name = b'.without name) {other : Text}
    (h : other ≠ name) : b.declares other = b'.declares other := by
  have find : ∀ c : Bindings, c.find? other = (c.without name).find? fun x => x.name = other := by
    intro c
    unfold find? without
    rw [List.find?_filter]
    congr 1
    funext x
    by_cases hx : x.name = other
    · simp [hx, h]
    · simp [hx]
  unfold declares
  rw [find b, find b', same]

theorem without_declare (same : b.without name = b'.without name) (x : Binding) :
    (b.declare x).2.without name = (b'.declare x).2.without name := by
  have added : ∀ c : Bindings, (⟨c.entries ++ [x]⟩ : Bindings).without name =
      c.without name ++ [x].filter fun x => x.name ≠ name := by
    intro c
    exact List.filter_append ..
  by_cases hx : x.name = name
  · have none : ∀ c : Bindings, (c.declare x).2.without name = c.without name := by
      intro c
      rw [declare_snd]
      split
      · rfl
      · rw [added, List.filter_singleton]
        simp [hx]
    rw [none, none, same]
  · rw [declare_snd, declare_snd, declares_eq_of_without same hx]
    split
    · exact same
    · rw [added, added, same]

theorem without_declareAll (same : b.without name = b'.without name) (xs : List Binding) :
    (b.declareAll xs).without name = (b'.declareAll xs).without name := by
  induction xs generalizing b b' with
  | nil => exact same
  | cons x xs ih => exact ih (without_declare same x)

end Bindings

/-- What is declared first does not change the bindings of other names. -/
theorem Declared.without_bindings_cons (x : Binding) (ds : Declared) :
    (Declared.bindings (.ok x :: ds)).without x.name = ds.bindings.without x.name := by
  have first : (Bindings.empty.declare x).2.without x.name = Bindings.empty.without x.name := by
    rw [Bindings.declare_snd, if_neg (by simp)]
    simp [Bindings.without, Bindings.empty]
  exact Bindings.without_declareAll first _

/-! ## Scopes -/

/-- Scopes that agree but for the binding of `arguments` in the scope of an arrow function. -/
structure Scope.LikeBut (s s' : Scope) : Prop where
  kind : s'.kind = s.kind
  node : s'.node = s.node
  parent : s'.parent = s.parent
  children : s'.children = s.children
  bindings : s'.bindings = s.bindings ∨ ((∃ n, s.node = some n ∧ n.isArrow = true) ∧
    s'.bindings.without "arguments" = s.bindings.without "arguments")

/-- The same scopes have been opened for the same nodes, and they agree but for the bindings of
`arguments` in arrow functions. -/
structure Builder.LikeBut (b b' : Builder) : Prop where
  reports : b.reportArrowArguments = true
  binds : b'.reportArrowArguments = false
  entered : b'.entered = b.entered
  globalScope : b'.globalScope = b.globalScope
  size : b'.forest.size = b.forest.size
  scopes : ∀ i, Option.Rel Scope.LikeBut (b.forest.get? i) (b'.forest.get? i)

namespace Builder.LikeBut

theorem new : (Builder.new true).LikeBut (.new false) where
  reports := rfl
  binds := rfl
  entered := rfl
  globalScope := rfl
  size := rfl
  scopes := by
    intro i
    simp [Builder.new, Forest.empty, Forest.get?]

theorem enterIn {b b' : Builder} (h : b.LikeBut b') (e : Node × Option Node) :
    (b.enterIn e).LikeBut (b'.enterIn e) := by
  obtain ⟨n, o⟩ := e
  have outer : o.bind b'.scopeOf? = o.bind b.scopeOf? := by
    cases o with
    | none => rfl
    | some m =>
      simp only [Option.bind_some, Builder.scopeOf?]
      rw [h.entered]
  refine ⟨h.reports, h.binds, ?_, ?_, ?_, fun i => ?_⟩
  · simp [Builder.enterIn, Builder.enter, h.entered, h.size]
  · simp [Builder.enterIn, Builder.enter, h.globalScope, h.size]
  · simp only [Builder.enterIn, Builder.enter, Forest.size_openScope, h.size]
  · simp only [Builder.enterIn, Builder.enter, Forest.get?_openScope, outer, h.reports, h.binds,
      h.size]
    split
    · refine .some ⟨rfl, rfl, rfl, rfl, ?_⟩
      cases arrow : n.isArrow with
      | false => exact Or.inl (by rw [Node.declared_of_not_arrow arrow])
      | true =>
        refine Or.inr ⟨⟨n, rfl, arrow⟩, ?_⟩
        rw [Node.declared_of_arrow arrow]
        exact Declared.without_bindings_cons Node.argumentsBinding _
    · have scopes := h.scopes i
      generalize b.forest.get? i = x, b'.forest.get? i = x' at scopes ⊢
      cases scopes with
      | none => exact .none
      | @some s s' like =>
        simp only [Option.map_some]
        split
        · exact .some ⟨like.kind, like.node, like.parent, by rw [like.children], like.bindings⟩
        · exact .some like

end Builder.LikeBut

end FreeNames
