import FreeNames.Proofs.Resolution.Spine
import FreeNames.Proofs.Scope.Declared
import FreeNames.Proofs.Scope.InForce

/-!
# The trace of a place

In a laid out tree, what happens at a place and below it is said by one recursion over the tree,
`Place.trace`, that knows nothing of patterns, chains and declarators: a node is put on the
stack, its scope is entered between what stands outside and what stands inside of it, the
children follow in order, and the node is left.

* `Place.run` is the visit of a place as the traversal makes it: as a pattern or as code, with
  the scopes in force there.
-/

namespace FreeNames

/-- Does a node export names of another module? -/
def Node.isReexport (n : Node) : Bool :=
  n.kind = .exportNamedDeclaration &&
    match n.given "source" with
    | .ok fromModule => fromModule
    | .error _ => false

/-- Is nothing below the node looked at? -/
def Node.isSealed (n : Node) : Bool :=
  n.kind = .identifier || n.kind = .thisExpression || n.kind.isInert || n.isReexport

namespace Place

/-- How the node is looked at. -/
def mode (p : Place) : Mode := if p.binds then .bind else .read

/-- The visit of a place. -/
def run (report : Bool) (p : Place) : Visit := p.visit p.mode (p.frames report)

/-- Is a name at this place read as a variable? -/
def reads (p : Place) : Bool := isReadPosition p.field p.parent && !p.binds

/-- The scopes in force inside a node. -/
def inner (report : Bool) (p : Place) : List Frame :=
  if p.opens then Frame.of report p.node :: p.frames report else p.frames report

/-- The children outside the scope of a node. -/
def outsideParts (p : Place) : List Place :=
  (p.node.children.filter fun c => p.node.isOutside c.1).map p.child

/-- The other children. -/
def insideParts (p : Place) : List Place :=
  (p.node.children.filter fun c => !p.node.isOutside c.1).map p.child

theorem sizeOf_lt_of_mem_parts {p q : Place} {keep : String × Node → Bool}
    (h : q ∈ (p.node.children.filter keep).map p.child) : sizeOf q.node < sizeOf p.node := by
  obtain ⟨c, hc, rfl⟩ := List.mem_map.mp h
  exact Node.sizeOf_lt_of_mem_children (List.mem_filter.mp hc).1

variable (report : Bool)

/-- What happens at a node that nothing is looked at below. -/
def own (p : Place) : List Event :=
  match p.node.kind with
  | .thisExpression => [.free Visit.thisName p.node]
  | .identifier =>
    match p.node.text "name" with
    | .ok name =>
      if p.reads && !isBound (p.frames report) name then [.free name p.node] else []
    | .error _ => []
  | _ => []

/-- The scope of a node is entered inside the innermost scope in force. -/
def entry (p : Place) : List Event :=
  if p.opens then [.enter p.node (p.outer.map node)] else []

/-- What happens before the parts inside a node.  The scope of a function is entered before
the function is put on the stack. -/
def lead (p : Place) (outside : List Event) : List Event :=
  if p.node.kind.isFunction then p.entry ++ .push p.node :: outside
  else .push p.node :: outside ++ p.entry

/-- Everything that happens at a place and below it. -/
def trace (p : Place) : List Event :=
  if p.node.isSealed then p.own report
  else p.lead (p.outsideParts.attach.flatMap fun q => q.1.trace)
    ++ p.insideParts.attach.flatMap (fun q => q.1.trace) ++ [.pop]
termination_by sizeOf p.node
decreasing_by all_goals exact sizeOf_lt_of_mem_parts q.2

/-- The trace of places, one after the other. -/
def traces (ps : List Place) : List Event := ps.flatMap (trace report)

variable {report}

theorem trace_eq (p : Place) : p.trace report =
    if p.node.isSealed then p.own report
    else p.lead (traces report p.outsideParts) ++ traces report p.insideParts ++ [.pop] := by
  rw [trace]
  have unattach : ∀ ps : List Place,
      (ps.attach.flatMap fun q => q.1.trace report) = traces report ps := by
    intro ps
    rw [traces]
    conv => rhs; rw [← List.attach_map_subtype_val ps]
    rw [List.flatMap_map]
  rw [unattach, unattach]

/-- A node without a scope of its own: its children, in order. -/
theorem trace_of_not_opens {p : Place} (sealed : p.node.isSealed = false)
    (opens : p.opens = false) (inside : ∀ c ∈ p.node.children, p.node.isOutside c.1 = false) :
    p.trace report = .push p.node :: traces report p.children ++ [.pop] := by
  have noOutside : p.outsideParts = [] := by
    rw [outsideParts, List.map_eq_nil_iff, List.filter_eq_nil_iff]
    exact fun c hc => by simp [inside c hc]
  have allInside : p.insideParts = p.children := by
    rw [insideParts, children, List.filter_eq_self.mpr fun c hc => by simp [inside c hc]]
  have lead : p.lead [] = [.push p.node] := by
    unfold lead entry
    rw [opens]
    split <;> rfl
  rw [trace_eq, sealed, noOutside, allInside, traces, List.flatMap_nil, lead]
  rfl

end Place

end FreeNames
