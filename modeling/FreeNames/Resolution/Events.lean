import FreeNames.Resolution.Visit

/-!
# The events of a traversal

Running the steps of a visit gives the list of everything that happens, in order.  The
visits that follow a step are of nodes inside the one visited, so every run ends.

* `Visit.inside_of_mem_steps` says so of every kind of step.
* `Visit.events_eq` unfolds a run by one step.
-/

namespace FreeNames

/-- The nodes still to visit in a list of steps stand inside the node given. -/
def Below (n : Node) (steps : List Step) : Prop :=
  ∀ v, Step.go v ∈ steps → v.node.Inside n

namespace Below

theorem nil {n : Node} : Below n [] := by
  intro v h
  cases h

theorem append {n : Node} {xs ys : List Step} (hx : Below n xs) (hy : Below n ys) :
    Below n (xs ++ ys) := by
  intro v h
  rcases List.mem_append.mp h with h | h
  · exact hx v h
  · exact hy v h

theorem emit {n : Node} {e : Event} : Below n [.emit e] := by
  intro v h
  simp at h

theorem go {n : Node} {v : Visit} (h : v.node.Inside n) : Below n [.go v] := by
  intro w hw
  simp only [List.mem_singleton, Step.go.injEq] at hw
  rw [hw]
  exact h

theorem cons {n : Node} {v : Visit} {xs : List Step} (h : v.node.Inside n)
    (hx : Below n xs) : Below n (.go v :: xs) := by
  intro w hw
  rcases List.mem_cons.mp hw with hw | hw
  · cases hw
    exact h
  · exact hx w hw

theorem emitCons {n : Node} {e : Event} {xs : List Step} (hx : Below n xs) :
    Below n (.emit e :: xs) := by
  intro w hw
  rcases List.mem_cons.mp hw with hw | hw
  · cases hw
  · exact hx w hw

theorem need {n : Node} {α : Type} {x : Except Fault α} {k : α → List Step}
    (h : ∀ a, x = .ok a → Below n (k a)) : Below n (need x k) := by
  cases x with
  | ok a => exact h a rfl
  | error f => exact emit

theorem map {n : Node} {α : Type} {xs : List α} {k : α → Visit}
    (h : ∀ a ∈ xs, (k a).node.Inside n) : Below n (xs.map fun a => .go (k a)) := by
  intro v hv
  obtain ⟨a, ha, he⟩ := List.mem_map.mp hv
  cases he
  exact h a ha

theorem flatMap {n : Node} {α : Type} {xs : List α} {k : α → List Step}
    (h : ∀ a ∈ xs, Below n (k a)) : Below n (xs.flatMap k) := by
  intro v hv
  obtain ⟨a, ha, hv⟩ := List.mem_flatMap.mp hv
  exact h a ha v hv

theorem mono {m n : Node} {xs : List Step} (hmn : m.Inside n) (h : Below m xs) : Below n xs :=
  fun v hv => (h v hv).trans hmn

theorem entering {n m : Node} {report : Bool} {scopes : List Frame} :
    Below n (entering report m scopes) := by
  intro v hv
  simp only [FreeNames.entering, List.mem_append, List.mem_map, List.mem_singleton,
    reduceCtorEq, and_false, exists_false, or_self] at hv

theorem within {n m : Node} {xs : List Step} (h : Below n xs) : Below n (within m xs) := by
  intro v hv
  simp only [FreeNames.within, List.mem_append, List.mem_cons, List.not_mem_nil,
    reduceCtorEq, or_false, false_or] at hv
  exact h v hv

theorem readingChildren {n : Node} {keep : String → Bool} {scopes : List Frame} :
    Below n (readingChildren n keep scopes) := by
  refine map fun c hc => ?_
  exact .child (List.mem_filter.mp hc).1

theorem optional {n : Node} {o : Option Node} {k : Node → Visit}
    (h : ∀ c, o = some c → (k c).node.Inside n) :
    Below n (o.toList.map fun c => .go (k c)) := by
  refine map fun c hc => ?_
  exact h c (by simpa using hc)

end Below

variable (report : Bool)

namespace Visit

/-! ## Chains -/

/-- The links of a chain but the outermost, and the operand, stand inside the outermost. -/
theorem inside_of_spine {n operand : Node} {links : List Node}
    (h : spine n = .ok (links, operand)) :
    (n.kind.isChainLink = true → operand.Inside n) ∧
      (n.kind.isChainLink = false → operand = n) ∧ ∀ link ∈ links, link = n ∨ link.Inside n := by
  fun_induction spine n generalizing links operand with
  | case1 n hk =>
    cases h
    simp [Kind.isChainLink, hk]
  | case2 => cases h
  | case3 n field hk m hchild hsmall ih =>
    cases hm : spine m with
    | error f => rw [hm] at h; cases h
    | ok r =>
      rw [hm] at h
      cases h
      obtain ⟨inner, same, hlinks⟩ := ih hm
      have first : m.Inside n := .of_child hchild
      refine ⟨fun _ => ?_, fun hn => ?_, fun link hl => ?_⟩
      · cases chain : m.kind.isChainLink with
        | true => exact (inner chain).trans first
        | false => exact same chain ▸ first
      · simp [Kind.isChainLink, hk] at hn
      · rcases List.mem_cons.mp hl with hl | hl
        · exact .inl hl
        · rcases hlinks link hl with rfl | inside
          · exact .inr first
          · exact .inr (inside.trans first)

theorem below_unwind {n : Node} {scopes : List Frame} {links : List Node}
    (h : ∀ link ∈ links, link = n ∨ link.Inside n) : Below n (unwind scopes links) := by
  induction links with
  | nil => exact .nil
  | cons link links ih =>
    refine .append ?_ (.emitCons (ih fun l hl => h l (List.mem_cons_of_mem _ hl)))
    rcases h link (List.mem_cons_self ..) with rfl | inside
    · exact .readingChildren
    · exact .mono inside .readingChildren

theorem below_chainSteps {v : Visit} (h : v.node.kind.isChainLink = true) :
    Below v.node v.chainSteps := by
  refine .need fun (links, operand) hs => ?_
  obtain ⟨inner, -, hlinks⟩ := inside_of_spine hs
  refine .append ?_ (.cons (inner h) (below_unwind fun link hl => ?_))
  · intro w hw
    simp at hw
  · exact hlinks link (List.mem_reverse.mp hl)

/-! ## The other rules -/

theorem below_bodySteps (n body : Node) {m : Node} (h : body.Inside m)
    (scopes : List Frame) : Below m (bodySteps n body scopes) := by
  unfold bodySteps
  split
  · refine .within (.need fun statements hs => .map fun s hmem => ?_)
    exact (Node.Inside.of_items hs hmem).trans h
  · exact .go h

theorem below_functionSteps (v : Visit) : Below v.node (v.functionSteps report) := by
  refine .append .entering (.within (.append (.need fun params hp => ?_)
    (.need fun body hb => ?_)))
  · exact .map fun p hmem => Node.Inside.of_items hp hmem
  · exact below_bodySteps _ _ (Node.Inside.of_child hb) _

theorem below_classSteps (v : Visit) : Below v.node (v.classSteps report) := by
  refine .within (.append (.append (.append (.need fun ds hd => ?_) (.need fun h hh => ?_))
    .entering) (.need fun body hb => .go (Node.Inside.of_child hb)))
  · exact .map fun d hmem => Node.Inside.of_items hd hmem
  · exact .optional fun c hc => Node.Inside.of_child? (hc ▸ hh)

theorem below_declaratorSteps (d : Node) (scopes : List Frame) :
    Below d (declaratorSteps d scopes) := by
  refine .within (.append (.need fun p hp => .go (Node.Inside.of_child hp))
    (.need fun i hi => ?_))
  exact .optional fun c hc => Node.Inside.of_child? (hc ▸ hi)

theorem below_insideSteps (n : Node) (scopes : List Frame) :
    Below n (insideSteps n scopes) := by
  unfold insideSteps
  split
  · refine .need fun ds hd => .flatMap fun d hmem => ?_
    exact .mono (.of_items hd hmem) (below_declaratorSteps d _)
  · refine .append (.need fun p hp => ?_) (.need fun b hb => .go (Node.Inside.of_child hb))
    exact .optional fun c hc => Node.Inside.of_child? (hc ▸ hp)
  · exact .readingChildren
  · exact .readingChildren

theorem below_outsideSteps (n : Node) (scopes : List Frame) :
    Below n (outsideSteps n scopes) := by
  unfold outsideSteps
  split
  · exact .need fun d hd => .go (Node.Inside.of_child hd)
  · exact .nil

theorem below_plainSteps (v : Visit) : Below v.node (v.plainSteps report) := by
  refine .within (.append (below_outsideSteps _ _) ?_)
  split
  · exact .append .entering (below_insideSteps _ _)
  · exact below_insideSteps _ _

theorem below_identifierSteps (v : Visit) : Below v.node v.identifierSteps := by
  unfold identifierSteps
  split
  · refine .need fun name _ => ?_
    split
    · exact .nil
    · exact .emit
  · exact .nil

theorem below_readSteps (v : Visit) : Below v.node (v.readSteps report) := by
  unfold readSteps
  split
  · exact below_identifierSteps v
  · exact .emit
  · refine .need fun b _ => ?_
    split
    · exact .nil
    · exact below_plainSteps report v
  · split
    · exact .nil
    · split
      · exact below_functionSteps report v
      · split
        · exact below_classSteps report v
        · split
          · exact below_chainSteps (by assumption)
          · exact below_plainSteps report v

theorem below_propertySteps (p : Node) {n : Node} (h : p.Inside n) (pattern : Node)
    (scopes : List Frame) : Below n (propertySteps p pattern scopes) := by
  unfold propertySteps
  split
  · refine .mono h (.within (.append (.need fun b _ => ?_)
      (.need fun c hc => ?_)))
    · split
      · exact .need fun key hk => .go (Node.Inside.of_child hk)
      · exact .nil
    · exact .go (Node.Inside.of_child hc)
  · exact .go h

theorem below_patternSteps (n : Node) (scopes : List Frame) :
    Below n (patternSteps n scopes) := by
  unfold patternSteps
  split
  · exact .need fun ps hp => .flatMap fun p hmem =>
      below_propertySteps p (Node.Inside.of_items hp hmem) _ _
  · refine .need fun es he => .flatMap fun e hmem => .optional fun c hc => ?_
    exact Node.Inside.of_slots he (hc ▸ hmem)
  · exact .need fun a ha => .go (Node.Inside.of_child ha)
  · refine .append (.need fun l hl => ?_) (.need fun r hr => ?_)
    · exact .go (Node.Inside.of_child hl)
    · exact .go (Node.Inside.of_child hr)

theorem below_bindSteps (v : Visit) : Below v.node (v.bindSteps report) := by
  unfold bindSteps
  split
  · exact .nil
  · split
    · exact .within (below_patternSteps _ _)
    · exact below_readSteps report v

/-- Every visit that follows a step is of a node inside. -/
theorem inside_of_mem_steps {v w : Visit} (h : Step.go w ∈ v.steps report) :
    w.node.Inside v.node := by
  unfold steps at h
  split at h
  · exact below_readSteps report v w h
  · exact below_bindSteps report v w h

theorem sizeOf_lt_of_mem_steps {v w : Visit} (h : Step.go w ∈ v.steps report) :
    sizeOf w.node < sizeOf v.node := (inside_of_mem_steps report h).sizeOf_lt

/-! ## Runs -/

/-- Everything that happens in a visit, in order. -/
def events (v : Visit) : List Event :=
  (v.steps report).attach.flatMap fun
    | ⟨.emit e, _⟩ => [e]
    | ⟨.go w, _⟩ => w.events
termination_by sizeOf v.node
decreasing_by exact sizeOf_lt_of_mem_steps report (by assumption)

end Visit

/-- Everything that happens in a part of a step. -/
def Step.events : Step → List Event
  | .emit e => [e]
  | .go w => w.events report

/-- A run is its first step, with every visit in it replaced by its own run. -/
theorem Visit.events_eq (v : Visit) :
    v.events report = (v.steps report).flatMap (Step.events report) := by
  rw [events]
  conv => rhs; rw [← List.attach_map_subtype_val (v.steps report)]
  rw [List.flatMap_map]
  congr 1
  funext x
  obtain ⟨_ | _, _⟩ := x <;> rfl

/-- The visit of a whole tree. -/
def Node.visit (root : Node) : Visit := ⟨.read, root, none, none, []⟩

/-- Everything that happens when a tree is resolved. -/
def Node.events (root : Node) (reportArrowArguments : Bool) : List Event :=
  root.visit.events reportArrowArguments

end FreeNames
