import FreeNames.Proofs.Resolution.Trace

/-!
# Runs and traces

In a laid out tree the run of the traversal is the trace of the root.

* `Place.Agrees` says so of one place; the lemmas below prove it for each rule of the traversal
  from what it says of smaller nodes, and `Node.Laid.agrees` closes the induction.
* Declarators and the entries of declared object patterns are never visited by themselves
  (`Place.isDirect`); the rules of what holds them take care of them.
-/

namespace FreeNames

/-- Everything that happens in a list of steps. -/
def runAll (report : Bool) (steps : List Step) : List Event := steps.flatMap (Step.events report)

section

variable {report : Bool}

@[simp] theorem runAll_nil : runAll report [] = [] := rfl

@[simp] theorem runAll_append (xs ys : List Step) :
    runAll report (xs ++ ys) = runAll report xs ++ runAll report ys := List.flatMap_append

@[simp] theorem runAll_cons_go (v : Visit) (xs : List Step) :
    runAll report (.go v :: xs) = v.events report ++ runAll report xs := rfl

theorem runAll_within (n : Node) (xs : List Step) :
    runAll report (within n xs) = .push n :: runAll report xs ++ [.pop] := by
  unfold within
  rw [runAll_append]
  rfl

theorem runAll_entering {n : Node} {scopes : List Frame} (clean : (n.declared report).faults = []) :
    runAll report (entering report n scopes) = [.enter n (scopes.head?.map Frame.node)] := by
  unfold entering
  rw [clean]
  rfl

@[simp] theorem need_ok {α : Type} (a : α) (k : α → List Step) : need (.ok a) k = k a := rfl

/-- Steps that visit places one after the other. -/
theorem runAll_map {α : Type} {xs : List α} {step : α → Step} {place : α → Place}
    (h : ∀ a ∈ xs, runAll report [step a] = (place a).trace report) :
    runAll report (xs.map step) = Place.traces report (xs.map place) := by
  induction xs with
  | nil => rfl
  | cons a xs ih =>
    have first := h a (List.mem_cons_self ..)
    rw [List.map_cons, ← List.singleton_append, runAll_append, first,
      ih fun b hb => h b (List.mem_cons_of_mem _ hb)]
    rfl

theorem runAll_flatMap {α : Type} {xs : List α} {steps : α → List Step} {place : α → Place}
    (h : ∀ a ∈ xs, runAll report (steps a) = (place a).trace report) :
    runAll report (xs.flatMap steps) = Place.traces report (xs.map place) := by
  induction xs with
  | nil => rfl
  | cons a xs ih =>
    rw [List.flatMap_cons, runAll_append, h a (List.mem_cons_self ..),
      ih fun b hb => h b (List.mem_cons_of_mem _ hb)]
    rfl

end

namespace Place

variable {report : Bool} {p : Place} {c : String × Node}

/-- The run of a place is its trace. -/
def Agrees (report : Bool) (p : Place) : Prop := (p.run report).events report = p.trace report

/-- Is the node visited by itself, and not with what holds it? -/
def isDirect (p : Place) : Bool :=
  p.node.kind ≠ .variableDeclarator && !(p.isEntry && p.binds)

@[simp] theorem traces_nil : traces report [] = [] := rfl

@[simp] theorem traces_cons (p : Place) (ps : List Place) :
    traces report (p :: ps) = p.trace report ++ traces report ps := rfl

@[simp] theorem traces_append (ps qs : List Place) :
    traces report (ps ++ qs) = traces report ps ++ traces report qs := List.flatMap_append

/-! ## Scopes inside a node -/

theorem frames_child_of_inside (inside : p.node.isOutside c.1 = false) :
    (p.child c).frames report = p.inner report := by
  unfold inner
  split
  · next opens => exact frames_child_of_opens opens inside
  · next opens => exact frames_child_of_not_opens (Bool.eq_false_iff.mpr opens)

theorem inner_of_not_opens (opens : p.opens = false) : p.inner report = p.frames report := by
  rw [inner, opens]
  rfl

theorem inner_of_opens (opens : p.opens = true) :
    p.inner report = Frame.of report p.node :: p.frames report := by
  rw [inner, if_pos opens]

theorem runAll_entering (clean : (p.node.declared report).faults = []) (opens : p.opens = true) :
    runAll report (entering report p.node (p.frames report)) = p.entry := by
  rw [FreeNames.runAll_entering clean, entry, if_pos opens, outer, frames]
  cases p.holders <;> rfl

/-! ## Visits of children -/

theorem runAll_reading {scopes : List Frame} (agrees : (p.child c).Agrees report)
    (reads : (p.child c).binds = false) (hs : scopes = (p.child c).frames report) :
    runAll report [reading c.2 c.1 p.node scopes] = (p.child c).trace report := by
  have same : reading c.2 c.1 p.node scopes = .go ((p.child c).run report) := by
    rw [hs, run, mode, reads]
    rfl
  rw [same, runAll_cons_go, runAll_nil, List.append_nil]
  exact agrees

theorem runAll_binding {scopes : List Frame} (agrees : (p.child c).Agrees report)
    (binds : (p.child c).binds = true) (hs : scopes = (p.child c).frames report) :
    runAll report [binding c.2 c.1 p.node scopes] = (p.child c).trace report := by
  have same : binding c.2 c.1 p.node scopes = .go ((p.child c).run report) := by
    rw [hs, run, mode, binds]
    rfl
  rw [same, runAll_cons_go, runAll_nil, List.append_nil]
  exact agrees

theorem runAll_readingChildren {keep : String → Bool} {scopes : List Frame}
    (each : ∀ c ∈ p.node.children, keep c.1 = true →
      runAll report [reading c.2 c.1 p.node scopes] = (p.child c).trace report) :
    runAll report (readingChildren p.node keep scopes) =
      traces report ((p.node.children.filter fun c => keep c.1).map p.child) := by
  refine runAll_map fun c hc => ?_
  obtain ⟨hc, hkeep⟩ := List.mem_filter.mp hc
  exact each c hc hkeep

/-- All smaller places have the run that their trace says. -/
def Smaller (root : Node) (report : Bool) (p : Place) : Prop :=
  ∀ q ∈ root.places, sizeOf q.node < sizeOf p.node → q.isDirect = true → q.Agrees report

variable {root : Node}

theorem Smaller.child (smaller : Smaller root report p) (hc : c ∈ p.node.children) :
    Smaller root report (p.child c) := fun q hq hlt =>
  smaller q hq (Nat.lt_trans hlt (Node.sizeOf_lt_of_mem_children hc))

theorem Smaller.agrees (smaller : Smaller root report p) (hp : p ∈ root.places)
    (hc : c ∈ p.node.children) (direct : (p.child c).isDirect = true) :
    (p.child c).Agrees report :=
  smaller _ (Node.child_mem_places hp hc) (Node.sizeOf_lt_of_mem_children hc) direct

/-- What stands in neither a variable declaration nor a declared object pattern is visited by
itself. -/
theorem isDirect_child (h : root.Laid) (hp : p ∈ root.places) (hc : c ∈ p.node.children)
    (noDeclaration : p.node.kind ≠ .variableDeclaration)
    (noEntry : p.node.kind = .objectPattern → p.binds = true → c.2.kind ≠ .property) :
    (p.child c).isDirect = true := by
  unfold isDirect
  rw [Bool.and_eq_true, decide_eq_true_eq, Bool.not_eq_true']
  constructor
  · exact fun hd => noDeclaration (h.declarators _ (Node.node_mem_preorder hp) c hc hd)
  · by_contra both
    rw [Bool.not_eq_false, Bool.and_eq_true] at both
    obtain ⟨entry, binds⟩ := both
    obtain ⟨q, -, hchild, -, hk, hprop, hsame⟩ :=
      Node.Laid.exists_of_isEntry (Node.child_mem_places hp hc) entry
    obtain ⟨rfl, -⟩ : q = p ∧ ("properties", c.2) = c := by
      simp only [child, Place.mk.injEq, List.cons.injEq, Prod.mk.injEq, true_and] at hchild
      obtain ⟨⟨hfield, hnode⟩, habove⟩ := hchild
      exact ⟨by cases q; cases p; simp_all, by rw [hfield]⟩
    exact noEntry hk (hsame ▸ binds) hprop

/-- The kinds with a rule of their own, in code. -/
def isPlain (p : Place) : Bool :=
  !p.node.isSealed && !p.node.kind.isFunction && !p.node.kind.isClass && !p.node.kind.isChainLink
    && p.isDirect && !(p.node.kind.isPattern && p.binds)

/-! ## Declarators and plain nodes -/

theorem traces_map_child (field : String) (cs : List Node) :
    (Node.inField field cs).map p.child = cs.map fun c => p.child (field, c) := by
  rw [Node.inField, List.map_map]
  rfl

theorem isSealed_of_kind {n : Node} {k : Kind} (hk : n.kind = k)
    (other : k.isInert = false ∧ k ≠ .identifier ∧ k ≠ .thisExpression ∧
      k ≠ .exportNamedDeclaration) : n.isSealed = false := by
  obtain ⟨inert, noName, noThis, noExport⟩ := other
  simp [Node.isSealed, Node.isReexport, hk, inert, noName, noThis, noExport]

theorem runAll_declaratorSteps (h : root.Laid) (hp : p ∈ root.places)
    (smaller : Smaller root report p) (hk : p.node.kind = .variableDeclarator) :
    runAll report (Visit.declaratorSteps p.node (p.frames report)) = p.trace report := by
  obtain ⟨pattern, init, hid, hinit, children⟩ := Node.laid_declarator (h.hasLayout hp) hk
  have opens : p.opens = false := opens_of_kind hk (by decide)
  have outside := isOutside_of_kind hk (by decide)
  have direct : ∀ c ∈ p.node.children, (p.child c).isDirect = true := fun c hc =>
    isDirect_child h hp hc (by simp [hk]) (by simp [hk])
  have scopes : ∀ c, p.frames report = (p.child c).frames report := fun c =>
    (frames_child_of_not_opens opens).symm
  have id_mem : ("id", pattern) ∈ p.node.children := by simp [children]
  have id_trace := runAll_binding (smaller.agrees hp id_mem (direct _ id_mem))
    (binds_child_of_declaresIn (by simp [Node.declaresIn, hk])) (scopes _)
  have init_trace : ∀ i ∈ init.toList, runAll report
      [reading i "init" p.node (p.frames report)] = (p.child ("init", i)).trace report := by
    intro i hi
    have mem : ("init", i) ∈ p.node.children := by
      rw [children]
      exact List.mem_cons_of_mem _ (Node.mem_inField.mpr ⟨rfl, hi⟩)
    exact runAll_reading (smaller.agrees hp mem (direct _ mem))
      (by simp [binds_child, Node.declaresIn, Node.patternIn, hk, Kind.isFunction, isEntry,
        isEntryOf]) (scopes _)
  unfold Visit.declaratorSteps
  rw [hid, hinit, need_ok, need_ok, runAll_within, runAll_append, id_trace, runAll_map init_trace,
    trace_of_not_opens (isSealed_of_kind hk (by decide)) opens fun c _ => outside c.1,
    Place.children, children, List.map_cons, traces_map_child, traces_cons]

theorem isPlain_iff : p.isPlain = true ↔ p.node.isSealed = false ∧
    p.node.kind.isFunction = false ∧ p.node.kind.isClass = false ∧
    p.node.kind.isChainLink = false ∧ p.isDirect = true ∧
    (p.node.kind.isPattern = true → p.binds = false) := by
  unfold isPlain
  simp only [Bool.and_eq_true, Bool.not_eq_true', Bool.and_eq_false_iff]
  constructor
  · rintro ⟨⟨⟨⟨⟨sealed, function⟩, cls⟩, chain⟩, direct⟩, pattern⟩
    exact ⟨sealed, function, cls, chain, direct, fun hk => pattern.resolve_left (by simp [hk])⟩
  · rintro ⟨sealed, function, cls, chain, direct, pattern⟩
    refine ⟨⟨⟨⟨⟨sealed, function⟩, cls⟩, chain⟩, direct⟩, ?_⟩
    cases hk : p.node.kind.isPattern with
    | false => exact Or.inl rfl
    | true => exact Or.inr (pattern hk)

/-- Only the parameter of a catch clause is a pattern. -/
theorem binds_child_of_isPlain (plain : p.isPlain = true)
    (noParam : p.node.kind = .catchClause → c.1 ≠ "param") : (p.child c).binds = false := by
  obtain ⟨-, function, -, -, direct, pattern⟩ := isPlain_iff.mp plain
  unfold isDirect at direct
  rw [Bool.and_eq_true, decide_eq_true_eq, Bool.not_eq_true'] at direct
  have declares : p.node.declaresIn c.1 = false := by
    simp only [Node.declaresIn, direct.1, function, decide_false, Bool.false_and, Bool.false_or,
      Bool.and_eq_false_iff, decide_eq_false_iff_not]
    by_cases hk : p.node.kind = .catchClause
    · exact Or.inr (noParam hk)
    · exact Or.inl hk
  have part : (p.node.patternIn c.1 && p.binds) = false := by
    cases hpart : p.node.patternIn c.1 with
    | false => rfl
    | true =>
      refine pattern ?_
      unfold Node.patternIn at hpart
      split at hpart <;> first | cases hpart | skip
      all_goals next hk => rw [hk]; rfl
  have entry : (p.isEntry && decide (c.1 = "value") && p.binds) = false := by
    rw [Bool.and_right_comm, direct.2, Bool.false_and]
  rw [binds_child, declares, part, entry]
  rfl

theorem runAll_insideSteps (h : root.Laid) (hp : p ∈ root.places)
    (smaller : Smaller root report p) (plain : p.isPlain = true) :
    runAll report (Visit.insideSteps p.node (p.inner report)) = traces report p.insideParts := by
  have layout := h.hasLayout hp
  obtain ⟨-, -, cls, -, -, pattern⟩ := isPlain_iff.mp plain
  have read : p.node.kind ≠ .variableDeclaration → ∀ c ∈ p.node.children,
      p.node.isOutside c.1 = false → (p.node.kind = .catchClause → c.1 ≠ "param") →
      runAll report [reading c.2 c.1 p.node (p.inner report)] = (p.child c).trace report := by
    intro noDeclaration c hc inside noParam
    refine runAll_reading (smaller.agrees hp hc (isDirect_child h hp hc noDeclaration ?_))
      (binds_child_of_isPlain plain noParam) (frames_child_of_inside inside).symm
    intro hk binds
    rw [pattern (by rw [hk]; rfl)] at binds
    cases binds
  unfold Visit.insideSteps
  split
  · next hk =>
    obtain ⟨-, ds, -, hds, kinds, children⟩ := Node.laid_variableDeclaration layout hk
    have outside := isOutside_of_kind hk (by decide)
    have parts : p.insideParts = ds.map fun d => p.child ("declarations", d) := by
      rw [insideParts, List.filter_eq_self.mpr fun c _ => by simp [outside], children,
        traces_map_child]
    rw [hds, need_ok, parts]
    refine runAll_flatMap fun d hd => ?_
    have hc : ("declarations", d) ∈ p.node.children := children ▸ Node.mem_inField.mpr ⟨rfl, hd⟩
    have scopes : (p.child ("declarations", d)).frames report = p.inner report :=
      frames_child_of_inside (outside _)
    rw [← scopes]
    exact runAll_declaratorSteps h (Node.child_mem_places hp hc) (smaller.child hc) (kinds d hd)
  · next hk =>
    obtain ⟨param, body, hparam, hbody, children⟩ := Node.laid_catch layout hk
    have outside := isOutside_of_kind hk (by decide)
    have parts : p.insideParts =
        (param.toList.map fun q => p.child ("param", q)) ++ [p.child ("body", body)] := by
      rw [insideParts, List.filter_eq_self.mpr fun c _ => by simp [outside], children,
        List.map_append, traces_map_child]
      rfl
    have body_trace := read (by simp [hk]) ("body", body) (by simp [children]) (outside _) (by simp)
    have param_trace : ∀ q ∈ param.toList, runAll report
        [binding q "param" p.node (p.inner report)] = (p.child ("param", q)).trace report := by
      intro q hq
      have mem : ("param", q) ∈ p.node.children := by
        rw [children]
        exact List.mem_append_left _ (Node.mem_inField.mpr ⟨rfl, hq⟩)
      exact runAll_binding
        (smaller.agrees hp mem (isDirect_child h hp mem (by simp [hk]) (by simp [hk])))
        (binds_child_of_declaresIn (by simp [Node.declaresIn, hk]))
        (frames_child_of_inside (outside _)).symm
    rw [hparam, hbody, need_ok, need_ok, runAll_append, body_trace, runAll_map param_trace, parts,
      traces_append, traces_cons, traces_nil, List.append_nil]
  · next hk =>
    have keeps : ∀ field, decide (field ≠ "discriminant") = !p.node.isOutside field := by
      intro field
      simp [Node.isOutside, hk, Kind.isClass]
    rw [runAll_readingChildren fun c hc keep => read (by simp [hk]) c hc ?_ (by simp [hk])]
    · simp only [keeps]
      rfl
    · simpa [keeps] using keep
  · next noDeclaration noCatch noSwitch =>
    have outside := isOutside_of_kind rfl ⟨cls, noSwitch⟩
    rw [runAll_readingChildren fun c hc _ => read noDeclaration c hc (outside _)
      fun hk => absurd hk noCatch]
    simp only [insideParts, outside, Bool.not_false]

theorem runAll_plainSteps (h : root.Laid) (hp : p ∈ root.places)
    (smaller : Smaller root report p) (plain : p.isPlain = true) (mode : Mode) :
    runAll report ((p.visit mode (p.frames report)).plainSteps report) = p.trace report := by
  have inside := runAll_insideSteps h hp smaller plain
  obtain ⟨sealed, function, cls, -, -, -⟩ := isPlain_iff.mp plain
  have outside : runAll report (Visit.outsideSteps p.node (p.frames report)) =
      traces report p.outsideParts := by
    unfold Visit.outsideSteps
    split
    · next hk =>
      obtain ⟨d, cs, hd, -, -, children⟩ := Node.laid_switch (h.hasLayout hp) hk
      have mem : ("discriminant", d) ∈ p.node.children := by simp [children]
      have out : p.node.isOutside "discriminant" = true := by simp [Node.isOutside, hk]
      have parts : p.outsideParts = [p.child ("discriminant", d)] := by
        have others : ∀ c ∈ Node.inField "cases" cs, p.node.isOutside c.1 = false := by
          rintro ⟨field, c⟩ hc
          obtain ⟨rfl, -⟩ := Node.mem_inField.mp hc
          simp [Node.isOutside, hk, Kind.isClass]
        rw [outsideParts, children, List.filter_cons, if_pos out, List.filter_eq_nil_iff.mpr fun c hc => by
          simp [others c hc]]
        rfl
      rw [hd, need_ok, parts, traces_cons, traces_nil, List.append_nil]
      exact runAll_reading
        (smaller.agrees hp mem (isDirect_child h hp mem (by simp [hk]) (by simp [hk])))
        (binds_child_of_isPlain plain (by simp [hk])) (frames_child_of_isOutside out).symm
    · next hk =>
      have out := isOutside_of_kind rfl ⟨cls, hk⟩
      rw [outsideParts, List.filter_eq_nil_iff.mpr fun c _ => by simp [out]]
      rfl
  have lead : p.lead (traces report p.outsideParts) =
      .push p.node :: traces report p.outsideParts ++ p.entry := by
    rw [Place.lead, if_neg (by simp [function])]
  rw [trace_eq, sealed, if_neg Bool.false_ne_true, lead]
  have steps : (p.visit mode (p.frames report)).plainSteps report = within p.node
      (Visit.outsideSteps p.node (p.frames report) ++ if p.opens then
        entering report p.node (p.frames report)
          ++ Visit.insideSteps p.node (Frame.of report p.node :: p.frames report)
      else Visit.insideSteps p.node (p.frames report)) := rfl
  rw [steps, runAll_within, runAll_append, outside]
  cases opens : p.opens with
  | true =>
    rw [if_pos rfl, runAll_append, runAll_entering (h.builtThroughout.faults_eq_nil hp report) opens,
      ← inner_of_opens opens, inside]
    simp only [List.cons_append, List.append_assoc]
  | false =>
    rw [if_neg Bool.false_ne_true, ← inner_of_not_opens opens, inside, entry, opens]
    simp

/-! ## Functions and classes -/

/-- Nothing happens at a name that is not read. -/
theorem trace_of_not_reads {p : Place} (hk : p.node.kind = .identifier) (reads : p.reads = false) :
    p.trace report = [] := by
  rw [trace_eq, if_pos (by simp [Node.isSealed, hk]), own, hk]
  cases p.node.text "name" with
  | error f => rfl
  | ok name => simp [reads]

/-- Nothing happens at the name of a function or a class. -/
theorem traces_own_name {name : Option Node} (kinds : ∀ i ∈ name, i.kind = .identifier)
    (position : ∀ i ∈ name, (p.node.kind, "id") ∈ namingPositions) :
    traces report ((Node.inField "id" name.toList).map p.child) = [] := by
  cases name with
  | none => rfl
  | some i =>
    have reads : (p.child ("id", i)).reads = false := by
      simp [reads, isReadPosition, position i rfl]
    show (p.child ("id", i)).trace report ++ [] = []
    rw [trace_of_not_reads (kinds i rfl) reads, List.append_nil]

theorem runAll_bodySteps (h : root.Laid) (hp : p ∈ root.places)
    (smaller : Smaller root report p) (hk : p.node.kind.isFunction = true) {body : Node}
    (hc : ("body", body) ∈ p.node.children) :
    runAll report (Visit.bodySteps p.node body (p.inner report)) =
      (p.child ("body", body)).trace report := by
  have noSwitch : p.node.kind ≠ .switchStatement := by
    intro hs
    simp [hs, Kind.isFunction] at hk
  have noClass : p.node.kind.isClass = false := by
    cases hn : p.node.kind <;> rw [hn] at hk <;> first | rfl | cases hk
  have outside := isOutside_of_kind rfl ⟨noClass, noSwitch⟩
  have scopes : (p.child ("body", body)).frames report = p.inner report :=
    frames_child_of_inside (outside _)
  unfold Visit.bodySteps
  split
  · next hblock =>
    have hq := Node.child_mem_places hp hc
    obtain ⟨statements, hs, children⟩ := Node.laid_block (h.hasLayout hq) (Or.inl hblock)
    replace hs : body.items "body" = .ok statements := hs
    have opens : (p.child ("body", body)).opens = false := by
      simp [Place.opens, Node.opensScope, hblock, hk]
    have inside := isOutside_of_kind hblock (by decide)
    have sealed : (p.child ("body", body)).node.isSealed = false :=
      isSealed_of_kind hblock (by decide)
    have each : ∀ s ∈ statements, runAll report [reading s "body" body (p.inner report)] =
        ((p.child ("body", body)).child ("body", s)).trace report := by
      intro s hmem
      have hc' : ("body", s) ∈ (p.child ("body", body)).node.children :=
        children ▸ Node.mem_inField.mpr ⟨rfl, hmem⟩
      refine runAll_reading (c := ("body", s)) ((smaller.child hc).agrees hq hc'
        (isDirect_child h hq hc' (by simp [hblock]) (by simp [hblock]))) ?_ ?_
      · simp [binds_child, Node.declaresIn, Node.patternIn, isEntry, isEntryOf, hblock,
          Kind.isFunction]
      · rw [frames_child_of_not_opens opens, scopes]
    rw [trace_of_not_opens sealed opens fun c _ => inside c.1, runAll_within, hs, need_ok,
      runAll_map each, Place.children, children, traces_map_child]
    rfl
  · have noDeclaration : p.node.kind ≠ .variableDeclaration := by
      intro hd
      simp [hd, Kind.isFunction] at hk
    have noPattern : p.node.kind ≠ .objectPattern := by
      intro ho
      simp [ho, Kind.isFunction] at hk
    refine runAll_reading (c := ("body", body)) (smaller.agrees hp hc
      (isDirect_child h hp hc noDeclaration fun ho => absurd ho noPattern)) ?_ scopes.symm
    cases hn : p.node.kind <;> rw [hn] at hk <;> cases hk
    all_goals simp [binds_child, Node.declaresIn, Node.patternIn, isEntry, isEntryOf, hn]

theorem runAll_functionSteps (h : root.Laid) (hp : p ∈ root.places)
    (smaller : Smaller root report p) (hk : p.node.kind.isFunction = true) (mode : Mode) :
    runAll report ((p.visit mode (p.frames report)).functionSteps report) = p.trace report := by
  obtain ⟨name, params, body, -, names, hparams, hbody, children⟩ :=
    Node.laid_function (h.hasLayout hp) hk
  have kinds : p.node.kind ≠ .switchStatement ∧ p.node.kind.isClass = false ∧
      p.node.isSealed = false ∧ p.node.kind ≠ .variableDeclaration ∧
      p.node.kind ≠ .objectPattern := by
    cases hn : p.node.kind <;> rw [hn] at hk <;> cases hk <;>
      simp [Kind.isClass, Node.isSealed, Node.isReexport, Kind.isInert, hn]
  obtain ⟨noSwitch, noClass, sealed, noDeclaration, noPattern⟩ := kinds
  have outside := isOutside_of_kind rfl ⟨noClass, noSwitch⟩
  have opens : p.opens = true := by
    cases hn : p.node.kind <;> rw [hn] at hk <;> cases hk <;>
      simp [Place.opens, Node.opensScope, hn, Kind.isFunction]
  have params_trace : ∀ q ∈ params, runAll report
      [binding q "params" p.node (p.inner report)] = (p.child ("params", q)).trace report := by
    intro q hq
    have mem : ("params", q) ∈ p.node.children := Node.mem_children_of_items hparams hq
    exact runAll_binding
      (smaller.agrees hp mem (isDirect_child h hp mem noDeclaration (absurd · noPattern)))
      (binds_child_of_declaresIn (by simp [Node.declaresIn, hk]))
      (frames_child_of_inside (outside _)).symm
  have body_trace := runAll_bodySteps h hp smaller hk (Node.mem_children_of_child hbody)
  have name_trace : traces report ((Node.inField "id" name.toList).map p.child) = [] := by
    refine traces_own_name (fun i hi => (names i hi).1) fun i hi => ?_
    have noArrow := (names i hi).2
    cases hn : p.node.kind <;> rw [hn] at hk noArrow <;> cases hk <;>
      first | exact absurd rfl noArrow | simp [namingPositions]
  have parts : traces report p.insideParts =
      traces report (params.map fun q => p.child ("params", q))
        ++ (p.child ("body", body)).trace report := by
    rw [insideParts, List.filter_eq_self.mpr fun c _ => by simp [outside], children,
      List.map_append, List.map_append, traces_append, traces_append, name_trace, traces_map_child,
      List.nil_append]
    show _ ++ (_ ++ []) = _
    rw [List.append_nil]
  have noOutside : p.outsideParts = [] := by
    rw [outsideParts, List.filter_eq_nil_iff.mpr fun c _ => by simp [outside], List.map_nil]
  have steps : (p.visit mode (p.frames report)).functionSteps report =
      entering report p.node (p.frames report) ++ within p.node
        (need (p.node.items "params") (fun params =>
            params.map fun q => binding q "params" p.node (p.inner report))
          ++ need (p.node.child "body") fun body =>
            Visit.bodySteps p.node body (p.inner report)) := by
    rw [inner_of_opens opens]
    rfl
  have lead : p.lead [] = p.entry ++ [.push p.node] := by
    rw [Place.lead, if_pos hk]
  rw [steps, hparams, hbody, need_ok, need_ok, runAll_append,
    runAll_entering (h.builtThroughout.faults_eq_nil hp report) opens, runAll_within, runAll_append,
    runAll_map params_trace, body_trace, trace_eq p, sealed, if_neg Bool.false_ne_true, noOutside,
    traces_nil, lead, parts]
  simp only [List.append_assoc, List.cons_append, List.nil_append]

theorem runAll_classSteps (h : root.Laid) (hp : p ∈ root.places)
    (smaller : Smaller root report p) (hk : p.node.kind.isClass = true) (mode : Mode) :
    runAll report ((p.visit mode (p.frames report)).classSteps report) = p.trace report := by
  obtain ⟨decorators, name, heritage, body, hdecorators, -, names, hheritage, hbody, children⟩ :=
    Node.laid_class (h.hasLayout hp) hk
  have kinds : p.node.kind.isFunction = false ∧ p.node.isSealed = false ∧
      p.node.kind ≠ .variableDeclaration ∧ p.node.kind ≠ .objectPattern ∧
      p.node.kind ≠ .switchStatement ∧ (p.node.kind, "id") ∈ namingPositions ∧
      p.opens = true ∧ ∀ c : String × Node, (p.child c).binds = false := by
    cases hn : p.node.kind <;> rw [hn] at hk <;> cases hk <;>
      simp [Kind.isFunction, Node.isSealed, Node.isReexport, Kind.isInert, hn, namingPositions,
        Place.opens, Node.opensScope, Kind.isClass, binds_child, Node.declaresIn, Node.patternIn,
        isEntry, isEntryOf]
  obtain ⟨function, sealed, noDeclaration, noPattern, noSwitch, position, opens, reads⟩ := kinds
  have outside : ∀ field, p.node.isOutside field =
      (field = "decorators" || field = "superClass") := by
    intro field
    simp [Node.isOutside, hk, noSwitch]
  have agrees : ∀ c ∈ p.node.children, (p.child c).Agrees report := fun c hc =>
    smaller.agrees hp hc (isDirect_child h hp hc noDeclaration (absurd · noPattern))
  have decorators_trace : ∀ d ∈ decorators, runAll report
      [reading d "decorators" p.node (p.frames report)] =
        (p.child ("decorators", d)).trace report := fun d hd =>
    runAll_reading (agrees _ (Node.mem_children_of_items hdecorators hd)) (reads _)
      (frames_child_of_isOutside (by simp [outside])).symm
  have heritage_trace : ∀ s ∈ heritage.toList, runAll report
      [reading s "superClass" p.node (p.frames report)] =
        (p.child ("superClass", s)).trace report := by
    intro s hs
    have mem := Node.mem_children_of_child? (Option.mem_toList.mp hs ▸ hheritage)
    exact runAll_reading (agrees _ mem) (reads _)
      (frames_child_of_isOutside (by simp [outside])).symm
  have body_trace : runAll report [reading body "body" p.node (p.inner report)] =
      (p.child ("body", body)).trace report :=
    runAll_reading (agrees _ (Node.mem_children_of_child hbody)) (reads _)
      (frames_child_of_inside (by simp [outside])).symm
  have outside_parts : p.outsideParts = (decorators.map fun d => p.child ("decorators", d)) ++
      heritage.toList.map fun s => p.child ("superClass", s) := by
    rw [outsideParts, children, List.filter_append, List.filter_append, List.filter_append,
      Node.filter_inField "decorators" true (by simp [outside]),
      Node.filter_inField "id" false (by simp [outside]),
      Node.filter_inField "superClass" true (by simp [outside])]
    simp [outside, Node.inField, Function.comp_def]
  have inside_parts : traces report p.insideParts = (p.child ("body", body)).trace report := by
    rw [insideParts, children, List.filter_append, List.filter_append, List.filter_append,
      Node.filter_inField "decorators" false (by simp [outside]),
      Node.filter_inField "id" true (by simp [outside]),
      Node.filter_inField "superClass" false (by simp [outside])]
    have name_trace : traces report ((Node.inField "id" name.toList).map p.child) = [] :=
      traces_own_name names fun _ _ => position
    simp [outside, name_trace]
  have steps : (p.visit mode (p.frames report)).classSteps report = within p.node
      (need (p.node.items "decorators") (fun ds =>
          ds.map fun d => reading d "decorators" p.node (p.frames report))
        ++ need (p.node.child? "superClass") (fun heritage =>
          heritage.toList.map fun s => reading s "superClass" p.node (p.frames report))
        ++ entering report p.node (p.frames report)
        ++ need (p.node.child "body") fun body =>
          [reading body "body" p.node (p.inner report)]) := by
    rw [inner_of_opens opens]
    rfl
  have lead : ∀ es, p.lead es = .push p.node :: es ++ p.entry := by
    intro es
    rw [Place.lead, if_neg (by simp [function])]
  rw [steps, hdecorators, hheritage, hbody, need_ok, need_ok, need_ok, runAll_within,
    runAll_append, runAll_append, runAll_append, runAll_map decorators_trace,
    runAll_map heritage_trace, runAll_entering (h.builtThroughout.faults_eq_nil hp report) opens, body_trace,
    trace_eq p, sealed, if_neg Bool.false_ne_true, outside_parts, traces_append, lead, inside_parts]
  simp only [List.append_assoc, List.cons_append]

/-! ## Chains -/

/-- A link holds its operand and then its other children. -/
theorem trace_of_link (h : root.Laid) (hp : p ∈ root.places) (smaller : Smaller root report p)
    {field : String} {operand : Node} (hk : p.node.kind.operandField? = some field)
    (hc : p.node.child field = .ok operand) :
    p.trace report = .push p.node :: ((p.child (field, operand)).trace report ++
      runAll report (readingChildren p.node (Visit.keepsRest p.node) (p.frames report)))
        ++ [.pop] := by
  obtain ⟨field', operand', rest, hk', hc', children, others⟩ :=
    Node.laid_link (h.hasLayout hp) (by simp [Kind.isChainLink, hk])
  obtain rfl : field = field' := Option.some.inj (hk.symm.trans hk')
  obtain rfl : operand = operand' := Except.ok.inj (hc.symm.trans hc')
  have kinds : p.opens = false ∧ p.node.isSealed = false ∧ p.node.kind.isClass = false ∧
      p.node.kind ≠ .switchStatement ∧ p.node.kind ≠ .variableDeclaration ∧
      p.node.kind ≠ .objectPattern ∧ ∀ c : String × Node, (p.child c).binds = false := by
    cases hn : p.node.kind <;> rw [hn] at hk <;> cases hk <;>
      simp [Kind.isFunction, Kind.isLoop, Node.isSealed, Node.isReexport, Kind.isInert, hn,
        Place.opens, Node.opensScope, Kind.isClass, binds_child, Node.declaresIn, Node.patternIn,
        isEntry, isEntryOf]
  obtain ⟨opens, sealed, noClass, noSwitch, noDeclaration, noPattern, reads⟩ := kinds
  have outside := isOutside_of_kind rfl ⟨noClass, noSwitch⟩
  have kept : p.node.children.filter (fun c => Visit.keepsRest p.node c.1) = rest := by
    rw [children, List.filter_cons_of_neg (by simp [Visit.keepsRest, hk]), List.filter_eq_self]
    exact fun c hc => by simp [Visit.keepsRest, hk, others c hc]
  have rest_trace : runAll report (readingChildren p.node (Visit.keepsRest p.node)
      (p.frames report)) = traces report (rest.map p.child) := by
    rw [runAll_readingChildren fun c hc _ => runAll_reading
      (smaller.agrees hp hc (isDirect_child h hp hc noDeclaration (absurd · noPattern))) (reads c)
      (frames_child_of_not_opens opens).symm, kept]
  rw [trace_of_not_opens sealed opens fun c _ => outside c.1, rest_trace, Place.children, children,
    List.map_cons, traces_cons]

theorem runAll_spineSteps (h : root.Laid) (hp : p ∈ root.places)
    (smaller : Smaller root report p) {links : List Node} {operand : Node}
    (spine : Visit.SpineOf p.node links operand) :
    runAll report (Visit.spineSteps links operand (p.frames report)) = p.trace report := by
  generalize hn : p.node = n at spine
  induction spine generalizing p with
  | @last n operand field hk hc _ =>
    subst hn
    have mem := Node.mem_children_of_child hc
    have kinds : p.opens = false ∧ p.node.kind ≠ .variableDeclaration ∧
        p.node.kind ≠ .objectPattern ∧ (p.child (field, operand)).binds = false := by
      cases hn : p.node.kind <;> rw [hn] at hk <;> cases hk <;>
        simp [Kind.isFunction, Kind.isLoop, hn, Place.opens, Node.opensScope, Kind.isClass,
          binds_child, Node.declaresIn, Node.patternIn, isEntry, isEntryOf]
    obtain ⟨opens, noDeclaration, noPattern, reads⟩ := kinds
    have operand_trace : runAll report [reading operand field p.node (p.frames report)] =
        (p.child (field, operand)).trace report := runAll_reading
      (smaller.agrees hp mem (isDirect_child h hp mem noDeclaration (absurd · noPattern))) reads
      (frames_child_of_not_opens opens).symm
    rw [Visit.spineSteps_singleton, runAll_within, trace_of_link h hp smaller hk hc,
      ← operand_trace, hk, ← runAll_append]
    rfl
  | @link n inner operand field links hk hc spine ih =>
    subst hn
    have mem := Node.mem_children_of_child hc
    have opens : p.opens = false := by
      cases hn : p.node.kind <;> rw [hn] at hk <;> cases hk <;>
        exact opens_of_kind hn (by decide)
    have inner_trace := ih (Node.child_mem_places hp mem) (smaller.child mem) rfl
    rw [frames_child_of_not_opens opens] at inner_trace
    rw [Visit.spineSteps_cons _ _ spine.ne_nil, runAll_within, runAll_append, inner_trace,
      trace_of_link h hp smaller hk hc]

/-- The spine of a laid out chain can be read. -/
theorem exists_spine (h : root.Laid) (hp : p ∈ root.places) :
    ∃ r, Visit.spine p.node = .ok r := by
  induction size : sizeOf p.node using Nat.strongRecOn generalizing p with | ind k ih => ?_
  cases hk : p.node.kind.operandField? with
  | none => exact ⟨([], p.node), by rw [Visit.spine]; simp only [hk]⟩
  | some field =>
    obtain ⟨field', operand, -, hk', hc, -⟩ :=
      Node.laid_link (h.hasLayout hp) (by simp [Kind.isChainLink, hk])
    obtain rfl : field = field' := Option.some.inj (hk.symm.trans hk')
    have mem := Node.mem_children_of_child hc
    obtain ⟨r, hr⟩ := ih _ (size ▸ Node.sizeOf_lt_of_child hc) (Node.child_mem_places hp mem) rfl
    replace hr : Visit.spine operand = .ok r := hr
    refine ⟨(p.node :: r.1, r.2), ?_⟩
    rw [Visit.spine]
    split
    · next other => cases hk.symm.trans other
    · next same =>
      cases hk.symm.trans same
      split
      · next other => cases hc.symm.trans other
      · next same =>
        cases hc.symm.trans same
        rw [hr]
        rfl

theorem runAll_chainSteps (h : root.Laid) (hp : p ∈ root.places)
    (smaller : Smaller root report p) (hk : p.node.kind.isChainLink = true) (mode : Mode) :
    runAll report (p.visit mode (p.frames report)).chainSteps = p.trace report := by
  obtain ⟨⟨links, operand⟩, hspine⟩ := exists_spine h hp
  have steps : (p.visit mode (p.frames report)).chainSteps =
      Visit.spineSteps links operand (p.frames report) := by
    show need (Visit.spine p.node) _ = _
    rw [hspine]
    rfl
  rw [steps]
  exact runAll_spineSteps h hp smaller (Visit.spineOf hk hspine)

/-! ## Patterns -/

/-- A key that is not computed is no place where something happens. -/
theorem trace_of_plain_key (h : root.Laid) (hp : p ∈ root.places) {key : Node}
    (hk : p.node.kind = .property) (hc : ("key", key) ∈ p.node.children)
    (fixed : p.node.isComputed = false) : (p.child ("key", key)).trace report = [] := by
  have kinds : key.kind ∈ Node.plainKeys :=
    h.keys _ (Node.node_mem_preorder hp) _ hc (by simp [hk, keyPositions]) fixed
  have reads : (p.child ("key", key)).reads = false := by
    simp [reads, isReadPosition, hk, namingPositions, keyPositions, fixed]
  simp only [Node.plainKeys, List.mem_cons, List.not_mem_nil, or_false] at kinds
  rcases kinds with name | other | other
  · exact trace_of_not_reads name reads
  · rw [trace_eq, if_pos (by simp [Node.isSealed, other, Kind.isInert]), own]
    simp [other]
  · rw [trace_eq, if_pos (by simp [Node.isSealed, other, Kind.isInert]), own]
    simp [other]

theorem runAll_propertySteps (h : root.Laid) (hp : p ∈ root.places)
    (smaller : Smaller root report p) (hk : p.node.kind = .objectPattern)
    (binds : p.binds = true) {q : Node} (hc : ("properties", q) ∈ p.node.children) :
    runAll report (Visit.propertySteps q p.node (p.frames report)) =
      (p.child ("properties", q)).trace report := by
  have opens : p.opens = false := opens_of_kind hk (by decide)
  have scopes : p.frames report = (p.child ("properties", q)).frames report :=
    (frames_child_of_not_opens opens).symm
  have binds' : (p.child ("properties", q)).binds = true :=
    binds_child_of_patternIn (by simp [Node.patternIn, hk]) binds
  unfold Visit.propertySteps
  split
  · next hprop =>
    have hq := Node.child_mem_places hp hc
    have property : (p.child ("properties", q)).node.kind = .property := hprop
    obtain ⟨key, value, hflag, hkey, hvalue, children⟩ :=
      Node.laid_property (h.hasLayout hq) property
    have opens' : (p.child ("properties", q)).opens = false := opens_of_kind property (by decide)
    have scopes' : ∀ c, p.frames report =
        ((p.child ("properties", q)).child c).frames report := fun c => by
      rw [frames_child_of_not_opens opens', scopes]
    have agrees : ∀ c ∈ (p.child ("properties", q)).node.children,
        ((p.child ("properties", q)).child c).Agrees report := fun c hc' =>
      (smaller.child hc).agrees hq hc'
        (isDirect_child h hq hc' (by rw [property]; simp) (by rw [property]; simp))
    have key_mem := Node.mem_children_of_child hkey
    have value_trace := runAll_binding (agrees _ (Node.mem_children_of_child hvalue))
      (binds_child_of_isEntry (isEntry_child hk hprop) binds') (scopes' _)
    have key_trace : runAll report (if (p.child ("properties", q)).node.isComputed then
        need (q.child "key") fun key => [reading key "key" q (p.frames report)] else []) =
        ((p.child ("properties", q)).child ("key", key)).trace report := by
      split
      · replace hkey : q.child "key" = .ok key := hkey
        rw [hkey, need_ok]
        refine runAll_reading (c := ("key", key)) (agrees _ key_mem) ?_ (scopes' _)
        simp [binds_child, Node.declaresIn, Node.patternIn, hprop, Kind.isFunction]
      · next fixed =>
        rw [trace_of_plain_key h hq property key_mem (Bool.eq_false_iff.mpr fixed), runAll_nil]
    replace hflag : q.flag "computed" = .ok (p.child ("properties", q)).node.isComputed := hflag
    replace hvalue : q.child "value" = .ok value := hvalue
    rw [hflag, hvalue, need_ok, need_ok, runAll_within, runAll_append, key_trace]
    rw [trace_of_not_opens (isSealed_of_kind property (by decide)) opens'
      fun c _ => isOutside_of_kind property (by decide) c.1, Place.children, children]
    rw [List.map_cons, List.map_cons, List.map_nil, traces_cons, traces_cons, traces_nil,
      List.append_nil, ← value_trace]
    rfl
  · next hprop =>
    exact runAll_binding (c := ("properties", q)) (smaller.agrees hp hc
      (isDirect_child h hp hc (by simp [hk]) fun _ _ => hprop)) binds' scopes

/-- The kinds of patterns that have parts. -/
theorem runAll_patternSteps (h : root.Laid) (hp : p ∈ root.places)
    (smaller : Smaller root report p) (binds : p.binds = true)
    (hk : p.node.kind ∈ [Kind.objectPattern, .arrayPattern, .restElement, .assignmentPattern]) :
    runAll report (Visit.patternSteps p.node (p.frames report)) = traces report p.children := by
  have layout := h.hasLayout hp
  have kinds : p.opens = false ∧ p.node.kind ≠ .variableDeclaration := by
    simp only [List.mem_cons, List.not_mem_nil, or_false] at hk
    rcases hk with hk | hk | hk | hk <;> exact ⟨opens_of_kind hk (by decide), by simp [hk]⟩
  obtain ⟨opens, noDeclaration⟩ := kinds
  have part : ∀ {field : String} {c : Node}, (field, c) ∈ p.node.children →
      p.node.patternIn field = true → p.node.kind ≠ .objectPattern → runAll report
        [binding c field p.node (p.frames report)] = (p.child (field, c)).trace report :=
    fun hc hin noObject => runAll_binding
      (smaller.agrees hp hc (isDirect_child h hp hc noDeclaration (absurd · noObject)))
      (binds_child_of_patternIn hin binds) (frames_child_of_not_opens opens).symm
  simp only [List.mem_cons, List.not_mem_nil, or_false] at hk
  unfold Visit.patternSteps
  rcases hk with hk | hk | hk | hk
  · obtain ⟨ps, hps, children⟩ := Node.laid_objectPattern layout hk
    simp only [hk]
    rw [hps, need_ok, Place.children, children, traces_map_child]
    refine runAll_flatMap fun q hq => ?_
    exact runAll_propertySteps h hp smaller hk binds (children ▸ Node.mem_inField.mpr ⟨rfl, hq⟩)
  · obtain ⟨es, hes, children⟩ := Node.laid_arrayPattern layout hk
    simp only [hk]
    rw [hes, need_ok, Place.children, children, traces_map_child, ← List.map_flatMap]
    refine runAll_map fun c hc => part ?_ (by simp [Node.patternIn, hk]) (by simp [hk])
    rw [children]
    exact Node.mem_inField.mpr ⟨rfl, hc⟩
  · obtain ⟨a, ha, children⟩ := Node.laid_restElement layout hk
    have argument_trace := part (Node.mem_children_of_child ha) (by simp [Node.patternIn, hk])
      (by simp [hk])
    simp only [hk]
    rw [ha, need_ok, argument_trace, Place.children, children, List.map_cons, List.map_nil,
      traces_cons, traces_nil, List.append_nil]
  · obtain ⟨l, r, hl, hr, children⟩ := Node.laid_assignmentPattern layout hk
    have left_trace := part (Node.mem_children_of_child hl) (by simp [Node.patternIn, hk])
      (by simp [hk])
    have right_mem := Node.mem_children_of_child hr
    have right_trace : runAll report [reading r "right" p.node (p.frames report)] =
        (p.child ("right", r)).trace report := by
      refine runAll_reading (c := ("right", r)) (smaller.agrees hp right_mem
        (isDirect_child h hp right_mem noDeclaration (by simp [hk]))) ?_
        (frames_child_of_not_opens opens).symm
      simp [binds_child, Node.declaresIn, Node.patternIn, hk, Kind.isFunction, isEntry, isEntryOf]
    simp only [hk]
    rw [hl, hr, need_ok, need_ok, runAll_append, left_trace, right_trace, Place.children, children,
      List.map_cons, List.map_cons, List.map_nil, traces_cons, traces_cons, traces_nil,
      List.append_nil]

/-! ## All rules -/

/-- What is no pattern is looked at as code, also where a pattern is expected. -/
theorem steps_run (noName : p.node.kind ≠ .identifier)
    (pattern : p.node.kind.isPattern = true → p.binds = false) :
    (p.run report).steps report = (p.visit p.mode (p.frames report)).readSteps report := by
  show Visit.steps report (p.visit p.mode (p.frames report)) = _
  unfold mode Visit.steps
  cases binds : p.binds with
  | false => rfl
  | true =>
    have noPattern : p.node.kind.isPattern = false := by
      cases hk : p.node.kind.isPattern with
      | false => rfl
      | true => cases (pattern hk).symm.trans binds
    show Visit.bindSteps report (p.visit .bind (p.frames report)) = _
    unfold Visit.bindSteps
    rw [if_neg (show (p.visit .bind (p.frames report)).node.kind ≠ .identifier from noName),
      if_neg (by rw [show (p.visit .bind (p.frames report)).node = p.node from rfl, noPattern]; simp)]
    rfl

theorem runAll_identifier (h : root.Laid) (hp : p ∈ root.places) (hk : p.node.kind = .identifier) :
    runAll report ((p.run report).steps report) = p.own report := by
  obtain ⟨name, hname⟩ := Node.laid_name (h.hasLayout hp) (Or.inl hk)
  unfold own
  simp only [hk, hname]
  show runAll report (Visit.steps report (p.visit p.mode (p.frames report))) = _
  unfold mode reads Visit.steps
  cases binds : p.binds with
  | true =>
    show runAll report (Visit.bindSteps report (p.visit .bind (p.frames report))) = _
    unfold Visit.bindSteps
    rw [if_pos (show (p.visit .bind (p.frames report)).node.kind = .identifier from hk)]
    simp
  | false =>
    have steps : Visit.readSteps report (p.visit .read (p.frames report)) =
        if isReadPosition p.field p.parent then
          need (p.node.text "name") fun name =>
            if isBound (p.frames report) name then [] else [.emit (.free name p.node)]
        else [] := by
      unfold Visit.readSteps
      rw [show (p.visit .read (p.frames report)).node.kind = .identifier from hk]
      rfl
    show runAll report (Visit.readSteps report (p.visit .read (p.frames report))) = _
    rw [steps, hname, need_ok]
    cases isReadPosition p.field p.parent with
    | false => rfl
    | true => cases isBound (p.frames report) name <;> rfl

/-- Below a sealed node nothing is visited. -/
theorem runAll_sealed (h : root.Laid) (hp : p ∈ root.places) (sealed : p.node.isSealed = true) :
    runAll report ((p.run report).steps report) = p.own report := by
  simp only [Node.isSealed, Bool.or_eq_true, decide_eq_true_eq] at sealed
  rcases sealed with ((hk | hk) | inert) | reexport
  · exact runAll_identifier h hp hk
  · rw [steps_run (by simp [hk]) (by simp [hk, Kind.isPattern])]
    unfold Visit.readSteps own
    simp only [Place.visit, hk]
    rfl
  · have kinds : p.node.kind ≠ .identifier ∧ p.node.kind ≠ .thisExpression ∧
        p.node.kind ≠ .exportNamedDeclaration ∧ p.node.kind.isPattern = false := by
      cases hn : p.node.kind <;> rw [hn] at inert <;> cases inert <;> simp [Kind.isPattern]
    obtain ⟨noName, noThis, noExport, noPattern⟩ := kinds
    rw [steps_run noName (by simp [noPattern])]
    unfold Visit.readSteps own
    simp only [Place.visit, inert, if_true]
    rfl
  · simp only [Node.isReexport, Bool.and_eq_true, decide_eq_true_eq] at reexport
    obtain ⟨hk, given⟩ := reexport
    rw [steps_run (by simp [hk]) (by simp [hk, Kind.isPattern])]
    unfold Visit.readSteps own
    simp only [Place.visit, hk]
    cases hgiven : p.node.given "source" with
    | error f => simp [hgiven] at given
    | ok fromModule =>
      rw [hgiven] at given
      obtain rfl : fromModule = true := given
      rfl

/-- What is not sealed has a rule by its kind. -/
theorem runAll_readSteps (h : root.Laid) (hp : p ∈ root.places)
    (smaller : Smaller root report p) (sealed : p.node.isSealed = false)
    (direct : p.isDirect = true) (pattern : p.node.kind.isPattern = true → p.binds = false)
    (mode : Mode) :
    runAll report ((p.visit mode (p.frames report)).readSteps report) = p.trace report := by
  have unsealed := sealed
  simp only [Node.isSealed, Bool.or_eq_false_iff, decide_eq_false_iff_not] at unsealed
  obtain ⟨⟨⟨noName, noThis⟩, noInert⟩, noReexport⟩ := unsealed
  have plain : p.node.kind.isFunction = false → p.node.kind.isClass = false →
      p.node.kind.isChainLink = false →
      runAll report ((p.visit mode (p.frames report)).plainSteps report) = p.trace report :=
    fun noFunction noClass noChain => runAll_plainSteps h hp smaller
      (isPlain_iff.mpr ⟨sealed, noFunction, noClass, noChain, direct, pattern⟩) mode
  unfold Visit.readSteps
  split
  · next hk => exact absurd hk noName
  · next hk => exact absurd hk noThis
  · next hk =>
    replace hk : p.node.kind = .exportNamedDeclaration := hk
    obtain ⟨fromModule, -, hgiven, -⟩ := Node.laid_exportNamed (h.hasLayout hp) hk
    have own : fromModule = false := by
      simpa [Node.isReexport, hk, hgiven] using noReexport
    rw [show (p.visit mode (p.frames report)).node.given "source" = .ok false from own ▸ hgiven,
      need_ok, if_neg Bool.false_ne_true]
    exact plain (by simp [hk, Kind.isFunction]) (by simp [hk, Kind.isClass])
      (by simp [hk, Kind.isChainLink, Kind.operandField?])
  · split
    · next inert => cases noInert.symm.trans inert
    · split
      · next hk => exact runAll_functionSteps h hp smaller hk mode
      · next noFunction =>
        split
        · next hk => exact runAll_classSteps h hp smaller hk mode
        · next noClass =>
          split
          · next hk => exact runAll_chainSteps h hp smaller hk mode
          · next noChain =>
            exact plain (Bool.eq_false_iff.mpr noFunction) (Bool.eq_false_iff.mpr noClass)
              (Bool.eq_false_iff.mpr noChain)

theorem runAll_bindSteps (h : root.Laid) (hp : p ∈ root.places)
    (smaller : Smaller root report p) (binds : p.binds = true)
    (hk : p.node.kind.isPattern = true) (noName : p.node.kind ≠ .identifier) :
    runAll report ((p.run report).steps report) = p.trace report := by
  have kinds : p.node.kind ∈ [Kind.objectPattern, .arrayPattern, .restElement,
      .assignmentPattern] ∧ p.node.isSealed = false ∧ p.opens = false ∧
      ∀ field, p.node.isOutside field = false := by
    cases hn : p.node.kind <;> rw [hn] at hk <;> cases hk <;>
      first
      | exact absurd hn noName
      | exact ⟨by simp, isSealed_of_kind hn (by decide), opens_of_kind hn (by decide),
          isOutside_of_kind hn (by decide)⟩
  obtain ⟨mem, sealed, opens, outside⟩ := kinds
  have steps : (p.run report).steps report =
      within p.node (Visit.patternSteps p.node (p.frames report)) := by
    show Visit.steps report (p.visit p.mode (p.frames report)) = _
    rw [mode, if_pos binds]
    show Visit.bindSteps report (p.visit .bind (p.frames report)) = _
    unfold Visit.bindSteps
    rw [if_neg (show (p.visit .bind (p.frames report)).node.kind ≠ .identifier from noName),
      if_pos (show (p.visit .bind (p.frames report)).node.kind.isPattern = true from hk)]
    rfl
  rw [steps, runAll_within, runAll_patternSteps h hp smaller binds mem,
    trace_of_not_opens sealed opens fun c _ => outside c.1]

end Place

namespace Node.Laid

variable {root : Node} {report : Bool}

/-- In a laid out tree the run of a place is its trace. -/
theorem agrees (h : root.Laid) {p : Place} (hp : p ∈ root.places) (direct : p.isDirect = true) :
    p.Agrees report := by
  induction size : sizeOf p.node using Nat.strongRecOn generalizing p with | ind k ih => ?_
  have smaller : Place.Smaller root report p := fun q hq hlt hdirect =>
    ih _ (size ▸ hlt) hq hdirect rfl
  have run : runAll report ((p.run report).steps report) = p.trace report := by
    cases sealed : p.node.isSealed with
    | true => rw [Place.runAll_sealed h hp sealed, Place.trace_eq, if_pos sealed]
    | false =>
      have noName : p.node.kind ≠ .identifier := by
        intro hk
        simp [isSealed, hk] at sealed
      by_cases declares : p.node.kind.isPattern = true ∧ p.binds = true
      · exact Place.runAll_bindSteps h hp smaller declares.2 declares.1 noName
      · have pattern : p.node.kind.isPattern = true → p.binds = false := fun hk =>
          Bool.eq_false_iff.mpr fun hb => declares ⟨hk, hb⟩
        rw [Place.steps_run noName pattern]
        exact Place.runAll_readSteps h hp smaller sealed direct pattern _
  rw [Place.Agrees, Visit.events_eq]
  exact run

/-- Everything that happens when a laid out tree is resolved. -/
theorem events_eq (h : root.Laid) : root.events report = root.place.trace report := by
  have direct : root.place.isDirect = true := by
    simp [Place.isDirect, Place.isEntry, Place.isEntryOf, place, h.program]
  exact h.agrees root.place_mem_places direct

end Node.Laid

end FreeNames
