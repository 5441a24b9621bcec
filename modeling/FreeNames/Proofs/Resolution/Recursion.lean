import Mathlib
import FreeNames.Proofs.Resolution.Replay
import FreeNames.Proofs.Resolution.Spine

/-!
# Chains by plain recursion

A chain is visited along its spine: first all of its links are put on the stack, then the innermost
operand is visited, and then the rest of each link from the inside out.  Plain recursion knows
nothing of spines.  It treats a link like any node without a rule of its own: it puts the link on
the stack, visits the children in the order of fields, and takes the link off again.

* `Visit.recursiveEvents` is the run by plain recursion, and `Visit.recursiveEvents_link` what it
  does at a link.
* `Visit.SpineOf.recursiveEvents_eq` goes down one spine, link by link.
* `Node.resolves_recursively`: where every link holds its operand first, both runs are the same, so
  they give the same report.
-/

namespace FreeNames

/-! ## Operands in front -/

namespace Node

/-- A link holds its operand, and only that, in the first of the fields that hold nodes. -/
def holdsOperandFirst (n : Node) : Bool :=
  match n.kind.operandField? with
  | none => true
  | some field =>
    match n.child field, n.children with
    | .ok _, (first, _) :: rest => first = field && rest.all fun c => c.1 ≠ field
    | _, _ => false

/-- All links of the tree do. -/
abbrev OperandsFirst (root : Node) : Prop := root.Everywhere fun n => n.holdsOperandFirst = true

theorem exists_operandFirst {n : Node} {field : String} (h : n.holdsOperandFirst = true)
    (hk : n.kind.operandField? = some field) : ∃ operand rest, n.child field = .ok operand ∧
      n.children = (field, operand) :: rest ∧ ∀ c ∈ rest, c.1 ≠ field := by
  unfold holdsOperandFirst at h
  rw [hk] at h
  cases hchild : n.child field with
  | error f => simp [hchild] at h
  | ok operand =>
    have mem := mem_children_of_child hchild
    cases hn : n.children with
    | nil =>
      rw [hn] at mem
      cases mem
    | cons first rest =>
      obtain ⟨name, c⟩ := first
      simp only [hchild, hn, Bool.and_eq_true, decide_eq_true_eq, List.all_eq_true] at h
      obtain ⟨rfl, others⟩ := h
      rw [hn] at mem
      rcases List.mem_cons.mp mem with same | later
      · cases same
        exact ⟨operand, rest, rfl, rfl, others⟩
      · exact absurd rfl (others _ later)

end Node

namespace Visit

variable {report : Bool} {v : Visit} {n operand : Node} {links : List Node}

/-- So the spine of a chain is found. -/
theorem exists_spine_of_operandsFirst (h : n.OperandsFirst) : ∃ r, spine n = .ok r := by
  fun_induction spine n with
  | case1 n hk => exact ⟨_, rfl⟩
  | case2 n field hk f missing =>
    obtain ⟨operand, -, hchild, -⟩ := Node.exists_operandFirst h.here hk
    cases missing.symm.trans hchild
  | case3 n field hk operand hchild _ ih =>
    obtain ⟨r, hr⟩ := ih (h.of_child hchild)
    exact ⟨_, by rw [hr]; rfl⟩

/-! ## Runs by plain recursion -/

section

variable (report)

/-- The steps of a visit, if links have no rule of their own. -/
def recursiveSteps (v : Visit) : List Step :=
  if v.node.kind.isChainLink then v.plainSteps report else v.steps report

theorem inside_of_mem_recursiveSteps {w : Visit} (h : .go w ∈ v.recursiveSteps report) :
    w.node.Inside v.node := by
  unfold recursiveSteps at h
  split at h
  · exact below_plainSteps report v w h
  · exact inside_of_mem_steps report h

/-- Everything that happens in a visit by plain recursion. -/
def recursiveEvents (v : Visit) : List Event :=
  (v.recursiveSteps report).attach.flatMap fun
    | ⟨.emit e, _⟩ => [e]
    | ⟨.go w, _⟩ => w.recursiveEvents
termination_by sizeOf v.node
decreasing_by exact (inside_of_mem_recursiveSteps report (by assumption)).sizeOf_lt

end

end Visit

/-- Everything that happens in a part of a step by plain recursion. -/
def Step.recursiveEvents (report : Bool) : Step → List Event
  | .emit e => [e]
  | .go w => w.recursiveEvents report

namespace Visit

variable {report : Bool} {v : Visit} {n operand : Node} {links : List Node} {scopes : List Frame}

theorem recursiveEvents_eq_flatMap (report : Bool) (v : Visit) : v.recursiveEvents report =
    (v.recursiveSteps report).flatMap (Step.recursiveEvents report) := by
  rw [recursiveEvents]
  conv => rhs; rw [← List.attach_map_subtype_val (v.recursiveSteps report)]
  rw [List.flatMap_map]
  congr 1
  funext x
  obtain ⟨_ | _, _⟩ := x <;> rfl

/-- A link opens no scope and has no rule of its own but the one for chains. -/
theorem plainSteps_of_isChainLink (link : v.node.kind.isChainLink = true) :
    v.plainSteps report = within v.node (readingChildren v.node (fun _ => true) v.scopes) := by
  unfold plainSteps outsideSteps insideSteps Node.opensScope
  cases hk : v.node.kind <;> rw [hk] at link <;> first | rfl | cases link

theorem steps_of_isChainLink (link : v.node.kind.isChainLink = true) :
    v.steps report = v.chainSteps := by
  unfold steps bindSteps readSteps
  cases v.mode <;> cases hk : v.node.kind <;> rw [hk] at link <;> first | rfl | cases link

/-- Plain recursion puts a link on the stack, visits its children in the order of fields, and
takes it off again. -/
theorem recursiveEvents_link (link : v.node.kind.isChainLink = true) :
    v.recursiveEvents report = .push v.node :: (v.node.children.flatMap fun c =>
      (⟨.read, c.2, some c.1, some v.node, v.scopes⟩ : Visit).recursiveEvents report) ++
        [.pop] := by
  rw [recursiveEvents_eq_flatMap, recursiveSteps, if_pos link, plainSteps_of_isChainLink link]
  simp only [within, readingChildren, reading, Step.recursiveEvents, List.filter_true,
    List.flatMap_append, List.flatMap_cons, List.flatMap_nil, List.flatMap_map, List.append_nil,
    List.cons_append, List.nil_append]

/-- The run of a link along its spine, when that is known of its operand and of all else in it. -/
theorem flatMap_events_link (inner : List Step) {field : String} {rest : List (String × Node)}
    (hk : n.kind.operandField? = some field) (children : n.children = (field, operand) :: rest)
    (others : ∀ c ∈ rest, c.1 ≠ field)
    (first : (reading operand field n scopes).recursiveEvents report =
      inner.flatMap (Step.events report))
    (each : ∀ w : Visit, w.node.Inside n → w.recursiveEvents report = w.events report)
    (mode : Mode) (at_ : Option String) (parent : Option Node) :
    (⟨mode, n, at_, parent, scopes⟩ : Visit).recursiveEvents report =
      (within n (inner ++ readingChildren n (keepsRest n) scopes)).flatMap
        (Step.events report) := by
  have link : n.kind.isChainLink = true := by simp [Kind.isChainLink, hk]
  have kept : n.children.filter (fun c => keepsRest n c.1) = rest := by
    have own : keepsRest n field = false := by simp [keepsRest, hk]
    rw [children, List.filter_cons_of_neg (by simp [own]), List.filter_eq_self]
    intro c hc
    simpa [keepsRest, hk] using others c hc
  have same : rest.flatMap (fun c =>
      (⟨.read, c.2, some c.1, some n, scopes⟩ : Visit).recursiveEvents report) =
        rest.flatMap fun c => (⟨.read, c.2, some c.1, some n, scopes⟩ : Visit).events report := by
    refine List.flatMap_congr fun c hc => each _ ?_
    exact .child (children ▸ List.mem_cons_of_mem _ hc)
  rw [recursiveEvents_link link, within, readingChildren, kept]
  show _ :: List.flatMap _ n.children ++ _ = _
  rw [children, List.flatMap_cons, same]
  simp only [List.flatMap_append, List.flatMap_cons, List.flatMap_nil, List.flatMap_map, reading,
    Step.events, List.append_nil, List.cons_append, List.nil_append, List.append_assoc]
  rw [← first]
  rfl

/-- The loop over a spine does what plain recursion does, by induction from the innermost link
outwards. -/
theorem SpineOf.recursiveEvents_eq (spine : SpineOf n links operand) (h : n.OperandsFirst)
    (each : ∀ w : Visit, w.node.Inside n → w.recursiveEvents report = w.events report)
    (mode : Mode) (at_ : Option String) (parent : Option Node) :
    (⟨mode, n, at_, parent, scopes⟩ : Visit).recursiveEvents report =
      (spineSteps links operand scopes).flatMap (Step.events report) := by
  induction spine generalizing mode at_ parent with
  | @last n operand field hk hchild _ =>
    obtain ⟨c, rest, hc, children, others⟩ := Node.exists_operandFirst h.here hk
    obtain rfl : operand = c := Except.ok.inj (hchild.symm.trans hc)
    rw [spineSteps_singleton, hk]
    refine flatMap_events_link [reading operand field n scopes] hk children others ?_ each
      mode at_ parent
    rw [List.flatMap_singleton]
    exact each _ (.of_child hchild)
  | @link n inner operand field links hk hchild spine ih =>
    obtain ⟨c, rest, hc, children, others⟩ := Node.exists_operandFirst h.here hk
    obtain rfl : inner = c := Except.ok.inj (hchild.symm.trans hc)
    rw [spineSteps_cons _ _ spine.ne_nil]
    refine flatMap_events_link _ hk children others ?_ each mode at_ parent
    exact ih (h.of_child hchild) (fun w hw => each w (hw.trans (.of_child hchild))) _ _ _

/-- Both ways to visit do the same. -/
theorem recursiveEvents_eq (v : Visit) (h : v.node.OperandsFirst) :
    v.recursiveEvents report = v.events report := by
  induction size : sizeOf v.node using Nat.strongRecOn generalizing v with | ind k ih => ?_
  have each : ∀ w : Visit, w.node.Inside v.node → w.recursiveEvents report = w.events report :=
    fun w hw => ih _ (size ▸ hw.sizeOf_lt) w (h.of_inside hw) rfl
  rw [events_eq]
  by_cases link : v.node.kind.isChainLink = true
  · obtain ⟨⟨links, operand⟩, found⟩ := exists_spine_of_operandsFirst h
    rw [steps_of_isChainLink link, chainSteps, found]
    exact (spineOf link found).recursiveEvents_eq h each _ _ _
  · rw [recursiveEvents_eq_flatMap, recursiveSteps, if_neg link]
    refine List.flatMap_congr fun s hs => ?_
    cases s with
    | emit e => rfl
    | go w => exact each w (inside_of_mem_steps report hs)

end Visit

/-! ## Whole trees -/

/-- Everything that happens when a tree is resolved by plain recursion. -/
def Node.recursiveEvents (root : Node) (report : Bool) : List Event :=
  root.visit.recursiveEvents report

/-- If every link holds its operand first, then plain recursion does the same as the loops over
spines.  It reads the same names in the same order, each with the same stack of enclosing nodes, and
comes to the same report, with the same scopes entered in the same order, or to the same fault. -/
theorem Node.resolves_recursively {root : Node} (h : root.OperandsFirst) (report : Bool) :
    root.recursiveEvents report = root.events report ∧
      freed [] (root.recursiveEvents report) = freed [] (root.events report) ∧
      Report.ofEvents report (root.recursiveEvents report) = Report.ofTree report root := by
  have same : root.recursiveEvents report = root.events report := root.visit.recursiveEvents_eq h
  exact ⟨same, by rw [same], by rw [same]; rfl⟩

/-- The expression `f(function () { a.b })[c] + d`. -/
def mixedChain : Node :=
  .mk 0 .binaryExpression default [("operator", .text "+"), ("left", .node access),
    ("right", .node (name 13 "d"))]
where
  name (id : Nat) (word : String) : Node :=
    .mk id .identifier default [("name", .text (Text.ofString word))]
  /-- The chain in the braces of the function. -/
  inner : Node := .mk 8 .memberExpression default [("object", .node (name 9 "a")),
    ("property", .node (name 10 "b")), ("computed", .bool false), ("optional", .bool false)]
  function : Node := .mk 5 .functionExpression default [("id", .null), ("params", .list []),
    ("body", .node (.mk 6 .blockStatement default [("body", .list
      [.node (.mk 7 .expressionStatement default [("expression", .node inner)])])])),
    ("generator", .bool false), ("async_", .bool false)]
  call : Node := .mk 3 .callExpression default [("callee", .node (name 4 "f")),
    ("arguments", .list [.node function]), ("optional", .bool false)]
  access : Node := .mk 2 .memberExpression default [("object", .node call),
    ("property", .node (name 11 "c")), ("computed", .bool true), ("optional", .bool false)]

/-- A call, an access and an operator make one chain, with a function and another chain in it. -/
theorem mixedChain_resolves : mixedChain.OperandsFirst ∧
    (freed [] (mixedChain.recursiveEvents true)).map (fun x => (x.name, x.enclosing.map Node.id)) =
      [(Text.ofString "f", [3, 2, 0]), (Text.ofString "a", [8, 7, 6, 5, 3, 2, 0]),
        (Text.ofString "c", [2, 0]), (Text.ofString "d", [0])] ∧
    Report.ofEvents true (mixedChain.recursiveEvents true) = Report.ofTree true mixedChain := by
  have all : (mixedChain.preorder.all Node.holdsOperandFirst) = true := by cbv
  have first : mixedChain.OperandsFirst := List.all_eq_true.mp all
  obtain ⟨same, reads, reports⟩ := Node.resolves_recursively first true
  exact ⟨first, by rw [reads]; cbv, reports⟩

end FreeNames
