import FreeNames.Proofs.Scope.Declared
import FreeNames.Proofs.Scope.InForce

/-!
# Declarations and the scopes that bind them

Which scope binds the names of a declaration follows from where the declaration stands.

* `Node.DeclarationsPlaced` says where declarations may stand: variables and functions in a body,
  and what has block scope in a list of statements that is scanned for it.
* `Node.Laid.hoisted_mem_declared`: the hoisted names of a node in a body are bound by the nearest
  holder whose scope takes variables.
* `Node.Laid.lexicalHere_mem_declared`: the names of a declaration with block scope are bound by
  the nearest holder.
-/

namespace FreeNames

/-! ## Positions of declarations -/

/-- Does a declaration bind its names in the scope that it stands in? -/
def Node.isLexical (n : Node) : Bool :=
  match n.kind with
  | .classDeclaration | .importDeclaration => true
  | .variableDeclaration =>
    match n.text "kind" with
    | .ok word => word ≠ varWord
    | .error _ => false
  | _ => false

namespace Place

/-- Going outwards from a node, one comes to a program, a static block or the braces of a function
before one comes to a class or to any other part of a function.  So it is with every statement
that is neither in an expression nor directly in the body of a class. -/
def isInBodyOf (n : Node) : List (String × Node) → Bool
  | [] => false
  | (field, m) :: rest =>
    if m.kind = .program || m.kind = .staticBlock then true
    else if m.kind.isFunction then field = "body" && n.kind = .blockStatement
    else !m.kind.isClass && isInBodyOf m rest

def isInBody (p : Place) : Bool := isInBodyOf p.node p.above

/-- Does a node stand directly in a list of statements? -/
def isListedOf : List (String × Node) → Bool
  | [] => false
  | (field, n) :: rest =>
    (field = "body" && (n.kind = .program || n.kind = .blockStatement || n.kind = .staticBlock))
      || (field = "consequent" && n.kind = .switchCase &&
        match rest with
        | (outer, m) :: _ => outer = "cases" && m.kind = .switchStatement
        | [] => false)

/-- Is this the field of a loop for its head? -/
def isHead (n : Node) (field : String) : Bool :=
  (n.kind = .forStatement && field = "init")
    || ((n.kind = .forInStatement || n.kind = .forOfStatement) && field = "left")

/-- Does a node stand directly in a list of statements or in the head of a loop, or does an export
in such a list export it? -/
def isInListOf : List (String × Node) → Bool
  | [] => false
  | (field, n) :: rest => isListedOf ((field, n) :: rest) || isHead n field
      || (n.kind.isExport && field = "declaration" && isListedOf rest)

def isInList (p : Place) : Bool := isInListOf p.above

end Place

/-- Variable and function declarations stand in bodies, and what declares with block scope stands
in a list of statements. -/
structure Node.DeclarationsPlaced (root : Node) : Prop where
  bodies : ∀ p ∈ root.places,
    p.node.kind = .variableDeclaration ∨ p.node.kind = .functionDeclaration → p.isInBody = true
  lists : ∀ p ∈ root.places, p.node.isLexical = true → p.isInList = true

instance (root : Node) : Decidable root.DeclarationsPlaced :=
  decidable_of_iff
    ((root.places.all fun p => !decide (p.node.kind = .variableDeclaration ∨
        p.node.kind = .functionDeclaration) || p.isInBody) = true ∧
      (root.places.all fun p => !p.node.isLexical || p.isInList) = true)
    (by
      simp only [List.all_eq_true, Bool.or_eq_true, Bool.not_eq_true',
        decide_eq_true_eq, ← Bool.not_eq_true, ← Decidable.imp_iff_not_or]
      exact ⟨fun ⟨bodies, lists⟩ => ⟨bodies, lists⟩, fun ⟨bodies, lists⟩ => ⟨bodies, lists⟩⟩)

/-! ## What constructs declare -/

namespace Node

theorem mem_bodyNames {n : Node} {body : List Node} (hbody : n.items "body" = .ok body)
    {x : Except Fault Binding} :
    x ∈ bodyNames n.statements ↔ ∃ s ∈ body, x ∈ s.hoisted ∨ x ∈ s.lexical := by
  unfold bodyNames statements
  rw [List.mem_append, Readings.mem_declaring_ofList hbody, Readings.mem_declaring_ofList hbody]
  constructor
  · rintro (⟨s, hs, hx⟩ | ⟨s, hs, hx⟩)
    · exact ⟨s, hs, Or.inl hx⟩
    · exact ⟨s, hs, Or.inr hx⟩
  · rintro ⟨s, hs, hx | hx⟩
    · exact Or.inl ⟨s, hs, hx⟩
    · exact Or.inr ⟨s, hs, hx⟩

theorem declared_of_isFunction {n : Node} {report : Bool} (hk : n.kind.isFunction = true) :
    n.declared report = n.functionNames report := by
  unfold declared
  cases hn : n.kind <;> rw [hn] at hk <;> first | rfl | cases hk

/-- A function binds what its body in braces declares. -/
theorem mem_declared_of_body {n body : Node} {report : Bool} (hk : n.kind.isFunction = true)
    (hbody : n.child "body" = .ok body) (block : body.kind = .blockStatement)
    {x : Except Fault Binding} (hx : x ∈ bodyNames body.statements) : x ∈ n.declared report := by
  rw [declared_of_isFunction hk, functionNames, hbody]
  exact List.mem_append_right _ (by simpa [block] using hx)

/-- A function binds its parameters. -/
theorem mem_declared_of_params {n : Node} {params : List Node} {report : Bool}
    (hk : n.kind.isFunction = true) (hparams : n.items "params" = .ok params) {q : Node}
    (hq : q ∈ params) {x : Except Fault Binding} (hx : x ∈ q.patternNames.bindAs .parameter) :
    x ∈ n.declared report := by
  have param := (Readings.mem_declaring_ofList hparams
    (k := fun p => p.patternNames.bindAs .parameter)).mpr ⟨q, hq, hx⟩
  rw [declared_of_isFunction hk, functionNames]
  exact List.mem_append_left _ (List.mem_append_right _ param)

namespace Laid

variable {root : Node} {p : Place} {c : String × Node}

theorem nodup_fields (h : root.Laid) (hp : p ∈ root.places) :
    (p.node.fields.map Prod.fst).Nodup := h.isTree.nodup_fields _ (node_mem_preorder hp)

/-- A function body in braces is the body of the function that holds it. -/
theorem child_body (h : root.Laid) (hp : p ∈ root.places) (hk : p.node.kind.isFunction = true)
    {body : Node} (hc : ("body", body) ∈ p.node.children) : p.node.child "body" = .ok body := by
  obtain ⟨-, -, b, -, -, -, hb, -⟩ := laid_function (h.hasLayout hp) hk
  rw [hb, child_eq_of_mem_children (h.nodup_fields hp) hc hb]

/-- A program and a static block hold a list of statements, and bind what it declares. -/
theorem bodyNames_mem_declared (h : root.Laid) (report : Bool) (hp : p ∈ root.places)
    (hk : p.node.kind = .program ∨ p.node.kind = .staticBlock) (hc : c ∈ p.node.children) :
    c.1 = "body" ∧ p.opens = true ∧ (∀ field, p.node.isOutside field = false) ∧
      ∀ x, x ∈ c.2.hoisted ∨ x ∈ c.2.lexical → x ∈ p.node.declared report := by
  have key : ∃ body, p.node.items "body" = .ok body ∧ p.node.children = inField "body" body := by
    rcases hk with hk | hk
    · exact laid_program (h.hasLayout hp) hk
    · exact laid_block (h.hasLayout hp) (Or.inr (Or.inl hk))
  obtain ⟨body, hbody, children⟩ := key
  have names : p.node.declared report = bodyNames p.node.statements := by
    rcases hk with hk | hk <;> rw [declared, hk]
  obtain ⟨field, s⟩ := c
  rw [children] at hc
  obtain ⟨rfl, hs⟩ := mem_inField.mp hc
  refine ⟨rfl, Place.opens_eq_true ?_, ?_, fun x hx => ?_⟩
  · rcases hk with hk | hk <;> simp [hk]
  · rcases hk with hk | hk <;> exact Place.isOutside_of_kind hk (by decide)
  · rw [names]
    exact (mem_bodyNames hbody).mpr ⟨s, hs, hx⟩

/-- A block that opens no scope is the body of the function around it. -/
theorem exists_function (hp : p ∈ root.places) (hk : p.node.kind = .blockStatement)
    (closed : p.opens = false) : ∃ f ∈ root.places, f.node.kind.isFunction = true ∧
      ("body", p.node) ∈ f.node.children ∧ f.child ("body", p.node) = p := by
  obtain ⟨node, above⟩ := p
  obtain _ | ⟨⟨field, n⟩, rest⟩ := above
  · simp [Place.opens, opensScope, Place.parent, hk] at closed
  · obtain ⟨hn, hc⟩ := mem_places_of_above hp rfl
    simp only [Place.opens, opensScope, Place.parent, Place.field, hk, List.head?_cons,
      Option.map_some, Option.some.injEq, Bool.not_eq_false', Bool.and_eq_true,
      decide_eq_true_eq] at closed
    obtain ⟨function, rfl⟩ := closed
    exact ⟨⟨n, rest⟩, hn, function, hc, rfl⟩

/-- What stands in a list of statements is scanned for the nearest holder. -/
theorem lexical_mem_declared (h : root.Laid) (report : Bool) (hp : p ∈ root.places)
    (hc : c ∈ p.node.children)
    (listed : Place.isListedOf ((c.1, p.node) :: p.above) = true) :
    ∃ o, (p.child c).outer = some o ∧ ∀ x ∈ c.2.lexical, x ∈ o.node.declared report := by
  obtain ⟨field, s⟩ := c
  simp only [Place.isListedOf, Bool.or_eq_true, Bool.and_eq_true, decide_eq_true_eq] at listed
  rcases listed with ⟨rfl, (hk | hk) | hk⟩ | ⟨⟨rfl, hk⟩, inCases⟩
  · obtain ⟨-, opens, inside, binds⟩ := h.bodyNames_mem_declared report hp (Or.inl hk) hc
    exact ⟨p, Place.outer_child_of_opens opens (inside _), fun x hx => binds x (Or.inr hx)⟩
  · obtain ⟨body, hbody, -⟩ := laid_block (h.hasLayout hp) (Or.inl hk)
    have hs := mem_items_of_mem_children (h.nodup_fields hp) hc hbody
    cases opens : p.opens with
    | true =>
      refine ⟨p, Place.outer_child_of_opens opens (Place.isOutside_of_kind hk (by decide) _), ?_⟩
      intro x hx
      rw [declared, hk]
      exact (Readings.mem_declaring_ofList hbody).mpr ⟨s, hs, hx⟩
    | false =>
      obtain ⟨f, hf, function, hbody', same⟩ := exists_function hp hk opens
      refine ⟨f, ?_, fun x hx => ?_⟩
      · rw [Place.outer_child_of_not_opens opens, ← same]
        exact Place.outer_child_of_opens (Place.opens_eq_true (Or.inl function))
          (Place.isOutside_of_isFunction function _)
      · exact mem_declared_of_body function (h.child_body hf function hbody') hk
          ((mem_bodyNames hbody).mpr ⟨s, hs, Or.inr hx⟩)
  · obtain ⟨-, opens, inside, binds⟩ := h.bodyNames_mem_declared report hp (Or.inr hk) hc
    exact ⟨p, Place.outer_child_of_opens opens (inside _), fun x hx => binds x (Or.inr hx)⟩
  · obtain ⟨node, above⟩ := p
    obtain _ | ⟨⟨outer, m⟩, rest⟩ := above
    · cases inCases
    · simp only [Bool.and_eq_true, decide_eq_true_eq] at inCases
      obtain ⟨rfl, hm⟩ := inCases
      obtain ⟨hmp, hcase⟩ := mem_places_of_above hp rfl
      obtain ⟨-, cases_, -, hcases, -⟩ := laid_switch (h.hasLayout hmp) hm
      obtain ⟨-, body, -, hbody, -⟩ := laid_switchCase (h.hasLayout hp) hk
      have hs := mem_items_of_mem_children (h.nodup_fields hp) hc hbody
      have hcase' := mem_items_of_mem_children (h.nodup_fields hmp) hcase hcases
      refine ⟨⟨m, rest⟩, ?_, fun x hx => ?_⟩
      · rw [Place.outer_child_of_not_opens (Place.opens_of_kind hk (by decide))]
        exact Place.outer_child_of_opens (p := ⟨m, rest⟩) (c := ("cases", node))
          (Place.opens_eq_true (by simp [hm])) (by simp [isOutside, hm, Kind.isClass])
      · show x ∈ m.declared report
        rw [declared, hm]
        exact (Readings.mem_declaring_ofList hcases).mpr ⟨node, hcase',
          (Readings.mem_declaring_ofList hbody).mpr ⟨s, hs, hx⟩⟩

/-- What stands in the head of a loop is scanned for the scope of the loop. -/
theorem lexical_mem_declared_of_isHead (h : root.Laid) (report : Bool) (hp : p ∈ root.places)
    (hc : c ∈ p.node.children) (head : Place.isHead p.node c.1 = true) :
    (p.child c).outer = some p ∧ ∀ x ∈ c.2.lexical, x ∈ p.node.declared report := by
  obtain ⟨field, s⟩ := c
  simp only [Place.isHead, Bool.or_eq_true, Bool.and_eq_true, decide_eq_true_eq] at head
  have loop : p.node.kind.isLoop = true ∧ ∀ field, p.node.isOutside field = false := by
    rcases head with ⟨hk, -⟩ | ⟨hk | hk, -⟩ <;>
      exact ⟨by rw [hk]; rfl, Place.isOutside_of_kind hk (by decide)⟩
  refine ⟨Place.outer_child_of_opens (Place.opens_eq_true (Or.inr (Or.inr (Or.inl loop.1))))
    (loop.2 _), fun x hx => ?_⟩
  rcases head with ⟨hk, rfl⟩ | ⟨hk, rfl⟩
  · obtain ⟨init, hinit⟩ := laid_for (h.hasLayout hp) hk
    have same := child?_eq_of_mem_children (h.nodup_fields hp) hc hinit
    rw [declared, hk]
    exact (Readings.mem_declaring_ofOption hinit).mpr ⟨s, same, hx⟩
  · obtain ⟨left, hleft⟩ := laid_forEach (h.hasLayout hp) hk
    have same : s = left := child_eq_of_mem_children (h.nodup_fields hp) hc hleft
    have names : p.node.declared report = declared.lexicalHead p.node := by
      rcases hk with hk | hk <;> rw [declared, hk]
    rw [names, declared.lexicalHead, hleft]
    exact same ▸ hx

theorem lexical_of_isLexical {n : Node} (hn : n.isLexical = true) : n.lexical = n.lexicalHere := by
  have noExport : n.kind.isExport = false := by
    cases hk : n.kind <;> simp [isLexical, hk, Kind.isExport] at hn ⊢
  rw [lexical, exported, if_neg (by simp [noExport])]

theorem opens_of_isExport (hk : p.node.kind.isExport = true) : p.opens = false := by
  cases hn : p.node.kind <;> rw [hn] at hk <;> cases hk <;>
    exact Place.opens_of_kind hn (by decide)

/-- An export makes the lexical names of the declaration that it exports. -/
theorem lexical_of_isExport (h : root.Laid) (hp : p ∈ root.places)
    (hk : p.node.kind.isExport = true) {d : Node} (hd : ("declaration", d) ∈ p.node.children) :
    p.node.lexical = d.lexicalHere := by
  have exports : p.node.child? "declaration" = .ok (some d) := by
    have nodup := h.nodup_fields hp
    cases hn : p.node.kind <;> rw [hn] at hk <;> cases hk
    case exportNamedDeclaration =>
      obtain ⟨-, declaration, -, hdecl, -⟩ := laid_exportNamed (h.hasLayout hp) hn
      rw [hdecl, child?_eq_of_mem_children nodup hd hdecl]
    case exportDefaultDeclaration =>
      obtain ⟨declaration, hdecl⟩ := laid_exportDefault (h.hasLayout hp) hn
      rw [hdecl, child?_eq_of_mem_children nodup hd hdecl]
  rw [lexical, exported, if_pos hk, exports]
  rfl

/-- A declaration with block scope that stands where it may is bound by the nearest holder. -/
theorem lexicalHere_mem_declared (h : root.Laid) (report : Bool) (hp : p ∈ root.places)
    (lexical_ : p.node.isLexical = true) (placed : p.isInList = true) :
    ∃ o, p.outer = some o ∧ ∀ x ∈ p.node.lexicalHere, x ∈ o.node.declared report := by
  obtain ⟨node, above⟩ := p
  obtain _ | ⟨⟨field, n⟩, rest⟩ := above
  · cases placed
  · obtain ⟨hn, hc⟩ := mem_places_of_above hp rfl
    simp only [Place.isInList, Place.isInListOf, Bool.or_eq_true, Bool.and_eq_true,
      decide_eq_true_eq] at placed
    have direct := lexical_of_isLexical lexical_
    rcases placed with (listed | head) | ⟨⟨export_, rfl⟩, listed⟩
    · obtain ⟨o, ho, binds⟩ := h.lexical_mem_declared report hn hc listed
      exact ⟨o, ho, fun x hx => binds x (direct ▸ hx)⟩
    · obtain ⟨ho, binds⟩ := h.lexical_mem_declared_of_isHead report hn hc head
      exact ⟨_, ho, fun x hx => binds x (direct ▸ hx)⟩
    · obtain _ | ⟨⟨outer, m⟩, around⟩ := rest
      · cases listed
      · obtain ⟨hm, hn'⟩ := mem_places_of_above hn rfl
        obtain ⟨o, ho, binds⟩ := h.lexical_mem_declared report hm hn' listed
        refine ⟨o, ?_, fun x hx => binds x ?_⟩
        · have through : (⟨n, (outer, m) :: around⟩ : Place).opens = false :=
            opens_of_isExport export_
          exact (Place.outer_child_of_not_opens (c := ("declaration", node)) through).trans ho
        · exact (h.lexical_of_isExport hn export_ hc).symm ▸ hx

/-! ## Parameters -/

/-- A parameter is bound by the scope of its function. -/
theorem parameter_mem_declared (h : root.Laid) (report : Bool) (hp : p ∈ root.places)
    (hk : p.node.kind.isFunction = true) {q : Node} (hq : ("params", q) ∈ p.node.children) :
    (p.child ("params", q)).outer = some p ∧
      ∀ x ∈ q.patternNames.bindAs .parameter, x ∈ p.node.declared report := by
  obtain ⟨-, params, -, -, -, hparams, -⟩ := laid_function (h.hasLayout hp) hk
  have param := mem_items_of_mem_children (h.nodup_fields hp) hq hparams
  refine ⟨?_, fun x hx => mem_declared_of_params hk hparams param hx⟩
  exact Place.outer_child_of_opens (Place.opens_eq_true (Or.inl hk))
    (Place.isOutside_of_isFunction hk _)

/-- What is caught is bound by the scope of the clause. -/
theorem caught_mem_declared (h : root.Laid) (report : Bool) (hp : p ∈ root.places)
    (hk : p.node.kind = .catchClause) {q : Node} (hq : ("param", q) ∈ p.node.children) :
    (p.child ("param", q)).outer = some p ∧
      ∀ x ∈ q.patternNames.bindAs .caught, x ∈ p.node.declared report := by
  obtain ⟨param, -, hparam, -⟩ := laid_catch (h.hasLayout hp) hk
  obtain rfl := child?_eq_of_mem_children (h.nodup_fields hp) hq hparam
  refine ⟨?_, fun x hx => ?_⟩
  · exact Place.outer_child_of_opens (Place.opens_eq_true (by simp [hk]))
      (Place.isOutside_of_kind hk (by decide) _)
  · rw [declared, hk, namesIn, hparam]
    simpa [Readings.ofOption] using hx

/-! ## The nearest holder that takes variables -/

/-- The scope of a node that is no boundary of the scan for variables takes none. -/
theorem isVarScope_scopeKind {n : Node} (boundary : n.isVarBoundary = false)
    (noProgram : n.kind ≠ .program) : n.scopeKind.isVarScope = false := by
  unfold isVarBoundary at boundary
  unfold scopeKind
  cases hn : n.kind <;>
    simp_all [Kind.isFunction, Kind.isClass, ScopeKind.isVarScope]

theorem isVarScope_scopeKind_of_isFunction {n : Node} (hk : n.kind.isFunction = true) :
    n.scopeKind.isVarScope = true := by
  unfold scopeKind
  cases hn : n.kind <;> rw [hn] at hk <;> first | rfl | cases hk

/-- The hoisted names of a node in a body are bound by the nearest holder whose scope takes
variables. -/
theorem hoisted_mem_declared (h : root.Laid) (report : Bool) (hp : p ∈ root.places)
    (placed : p.isInBody = true) : ∃ t, p.varHolder? = some t ∧ ∀ x ∈ p.node.hoisted, x ∈ t.node.declared report := by
  obtain ⟨node, above⟩ := p
  -- Each step outwards leaves a node that the scan goes through, until the scan began.
  induction above generalizing node with
  | nil => cases placed
  | cons step rest ih =>
    obtain ⟨field, m⟩ := step
    obtain ⟨hm, hc⟩ := mem_places_of_above hp rfl
    simp only [Place.isInBody, Place.isInBodyOf] at placed
    split at placed
    · next both =>
      have hk : m.kind = .program ∨ m.kind = .staticBlock := by simpa using both
      obtain ⟨-, opens, inside, binds⟩ := h.bodyNames_mem_declared report hm hk hc
      refine ⟨⟨m, rest⟩, ?_, fun x hx => binds x (Or.inl hx)⟩
      refine Place.varHolder?_child_of_takes (c := (field, node)) opens (inside _) ?_
      rcases hk with hk | hk <;> simp [scopeKind, hk, ScopeKind.isVarScope]
    · next neither =>
      have neither : m.kind ≠ .program ∧ m.kind ≠ .staticBlock := by simpa using neither
      split at placed
      · next function =>
        obtain ⟨rfl, block⟩ : field = "body" ∧ node.kind = .blockStatement := by simpa using placed
        refine ⟨⟨m, rest⟩, ?_, fun x hx => ?_⟩
        · exact Place.varHolder?_child_of_takes (p := ⟨m, rest⟩) (c := ("body", node))
            (Place.opens_eq_true (Or.inl function)) (Place.isOutside_of_isFunction function _)
            (isVarScope_scopeKind_of_isFunction function)
        · obtain ⟨body, hbody, children⟩ := laid_block (h.hasLayout hp) (Or.inl block)
          refine mem_declared_of_body function (h.child_body hm function hc) block
            ((mem_bodyNames hbody).mpr ?_)
          rcases mem_hoisted.mp hx with hx | ⟨-, s, hs, hx⟩
          · simp [hoistedHere, block] at hx
          · exact ⟨s.2, (mem_inField.mp (children ▸ hs)).2, Or.inl hx⟩
      · next noFunction =>
        obtain ⟨noClass, around⟩ : m.kind.isClass = false ∧ Place.isInBodyOf m rest = true := by
          simpa using placed
        have through : m.isVarBoundary = false := by
          simp [isVarBoundary, noClass, noFunction, neither.2]
        obtain ⟨t, ht, binds⟩ := ih m hm around
        refine ⟨t, ?_, fun x hx => binds x (mem_hoisted.mpr (Or.inr ⟨through, _, hc, hx⟩))⟩
        exact (Place.varHolder?_child_of_not_takes (p := ⟨m, rest⟩) (c := (field, node))
          (isVarScope_scopeKind through neither.1)).trans ht

end Laid

end Node

end FreeNames
