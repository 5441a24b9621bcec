import FreeNames.Tree.Node

/-!
# Declaration patterns

`Node.patternNames` lists the identifiers that a declaration pattern binds, from left to
right.  Defaults and keys bind nothing; a node that is no pattern binds nothing.

* `Node.subpatterns` are the patterns directly inside a pattern; `patternNames` is their
  recursion (`patternNames_eq`).
* A part that is missing stands in the list as a fault, so a list is meaningful up to its
  first fault.
-/

namespace FreeNames

/-- Nodes read from a tree, with a fault in the place of each part that is missing. -/
abbrev Readings := List (Except Fault Node)

namespace Readings

/-- The readings of a part that may be null: nothing if it is. -/
def ofOption : Except Fault (Option Node) → Readings
  | .ok (some n) => [.ok n]
  | .ok none => []
  | .error f => [.error f]

/-- The readings of a list. -/
def ofList : Except Fault (List Node) → Readings
  | .ok ns => ns.map .ok
  | .error f => [.error f]

/-- The readings of a list with holes. -/
def ofSlots : Except Fault (List (Option Node)) → Readings
  | .ok ns => ns.filterMap fun o => o.map .ok
  | .error f => [.error f]

@[simp] theorem ok_mem_ofOption {x : Except Fault (Option Node)} {c : Node} :
    .ok c ∈ ofOption x ↔ x = .ok (some c) := by
  rcases x with f | _ | n <;> simp [ofOption, eq_comm]

@[simp] theorem ok_mem_ofList {x : Except Fault (List Node)} {c : Node} :
    .ok c ∈ ofList x ↔ ∃ ns, x = .ok ns ∧ c ∈ ns := by
  rcases x with f | ns <;> simp [ofList]

@[simp] theorem ok_mem_ofSlots {x : Except Fault (List (Option Node))} {c : Node} :
    .ok c ∈ ofSlots x ↔ ∃ ns, x = .ok ns ∧ some c ∈ ns := by
  rcases x with f | ns <;> simp [ofSlots]

end Readings

namespace Node

/-- The patterns directly inside a property of an object pattern: its value; anything else
there is a pattern itself. -/
def propertyPatterns (p : Node) : Readings :=
  if p.kind = .property then .ofOption (p.child? "value") else [.ok p]

/-- The patterns directly inside a pattern. -/
def subpatterns (n : Node) : Readings :=
  match n.kind with
  | .objectPattern => (Readings.ofList (n.items "properties")).flatMap fun
    | .ok p => p.propertyPatterns
    | .error f => [.error f]
  | .arrayPattern => .ofSlots (n.slots "elements")
  | .restElement => .ofOption (n.child? "argument")
  | .assignmentPattern => .ofOption (n.child? "left")
  | _ => []

theorem sizeOf_le_of_mem_propertyPatterns {p c : Node} (h : .ok c ∈ p.propertyPatterns) :
    sizeOf c ≤ sizeOf p := by
  unfold propertyPatterns at h
  split at h
  · rw [Readings.ok_mem_ofOption] at h
    exact Nat.le_of_lt (sizeOf_lt_of_child? h)
  · simp only [List.mem_singleton, Except.ok.injEq] at h
    exact Nat.le_of_eq (congrArg sizeOf h)

theorem sizeOf_lt_of_mem_subpatterns {n c : Node} (h : .ok c ∈ n.subpatterns) :
    sizeOf c < sizeOf n := by
  unfold subpatterns at h
  split at h
  · obtain ⟨r, hr, hc⟩ := List.mem_flatMap.mp h
    cases r with
    | ok p =>
      obtain ⟨ns, hns, hp⟩ := Readings.ok_mem_ofList.mp hr
      exact Nat.lt_of_le_of_lt (sizeOf_le_of_mem_propertyPatterns hc) (sizeOf_lt_of_items hns hp)
    | error f => simp at hc
  · obtain ⟨ns, hns, hc⟩ := Readings.ok_mem_ofSlots.mp h
    exact sizeOf_lt_of_slots hns hc
  · exact sizeOf_lt_of_child? (Readings.ok_mem_ofOption.mp h)
  · exact sizeOf_lt_of_child? (Readings.ok_mem_ofOption.mp h)
  · simp at h

/-- The identifiers that a declaration pattern binds. -/
def patternNames (n : Node) : Readings :=
  if n.kind = .identifier then [.ok n]
  else n.subpatterns.attach.flatMap fun
    | ⟨.ok c, _⟩ => c.patternNames
    | ⟨.error f, _⟩ => [.error f]
termination_by sizeOf n
decreasing_by exact sizeOf_lt_of_mem_subpatterns (by assumption)

/-- The identifiers of a pattern are those of its parts, one after the other. -/
theorem patternNames_eq (n : Node) : n.patternNames =
    if n.kind = .identifier then [.ok n]
    else n.subpatterns.flatMap fun
      | .ok c => c.patternNames
      | .error f => [.error f] := by
  rw [patternNames]
  split
  · rfl
  · conv => rhs; rw [← List.attach_map_subtype_val n.subpatterns]
    rw [List.flatMap_map]
    congr 1
    funext x
    obtain ⟨_ | _, _⟩ := x <;> rfl

end Node

end FreeNames
