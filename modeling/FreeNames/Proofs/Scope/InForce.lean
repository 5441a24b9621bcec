import FreeNames.Proofs.Tree.Place
import FreeNames.Resolution.Visit

/-!
# The scopes in force at a place

Which scopes are in force at a node is decided by its place: those of the enclosing nodes
that open one, except that the decorators and the heritage of a class and the discriminant of
a switch stand outside the scope of the class or the switch.

* `Place.holders` lists the places around a place whose scopes are in force, innermost first;
  `Place.outer` is the first of them, and `Place.frames` gives the scopes themselves.
* `Place.holders_child` says what one step inwards adds.
-/

namespace FreeNames

/-- The fields of a class and of a switch that stand outside its scope. -/
def Node.isOutside (n : Node) (field : String) : Bool :=
  (n.kind.isClass && (field = "decorators" || field = "superClass"))
    || (n.kind = .switchStatement && field = "discriminant")

theorem Node.isOutside_eq_false {n : Node} {field : String} (noClass : n.kind.isClass = false)
    (noSwitch : n.kind = .switchStatement → field ≠ "discriminant") :
    n.isOutside field = false := by
  rw [isOutside, noClass, Bool.false_and, Bool.false_or]
  by_cases hk : n.kind = .switchStatement
  · simp [noSwitch hk]
  · simp [hk]

namespace Place

/-- The visit of a place. -/
def visit (p : Place) (mode : Mode) (scopes : List Frame) : Visit :=
  ⟨mode, p.node, p.field, p.parent, scopes⟩

/-- Does the node open a scope where it stands? -/
def opens (p : Place) : Bool := p.node.opensScope p.field p.parent

/-! ## Kinds -/

theorem opens_of_kind {p : Place} {k : Kind} (hk : p.node.kind = k) (other : k.isFunction = false ∧
    k.isClass = false ∧ k.isLoop = false ∧ k ∉ [.blockStatement, .program, .catchClause,
      .switchStatement, .staticBlock]) : p.opens = false := by
  obtain ⟨function, cls, loop, rest⟩ := other
  unfold opens Node.opensScope
  rw [hk]
  cases k <;> simp_all [Kind.isFunction, Kind.isClass, Kind.isLoop]

theorem opens_eq_true {p : Place} (h : p.node.kind.isFunction = true ∨
    p.node.kind.isClass = true ∨ p.node.kind.isLoop = true ∨ p.node.kind ∈
      [Kind.program, .catchClause, .switchStatement, .staticBlock]) : p.opens = true := by
  unfold opens Node.opensScope
  generalize p.node.kind = k at h
  cases k <;> simp_all [Kind.isFunction, Kind.isClass, Kind.isLoop]

/-- The body of a function opens no scope. -/
theorem opens_body {p : Place} {body : Node} (hk : p.node.kind.isFunction = true)
    (hb : body.kind = .blockStatement) : (p.child ("body", body)).opens = false := by
  simp [opens, Node.opensScope, hb, hk]

theorem isOutside_of_kind {n : Node} {k : Kind} (hk : n.kind = k)
    (other : k.isClass = false ∧ k ≠ .switchStatement) (field : String) :
    n.isOutside field = false := by
  obtain ⟨cls, noSwitch⟩ := other
  simp [Node.isOutside, hk, cls, noSwitch]

theorem isOutside_of_isFunction {n : Node} (hk : n.kind.isFunction = true) (field : String) :
    n.isOutside field = false := by
  cases hn : n.kind <;> rw [hn] at hk <;> cases hk <;> exact isOutside_of_kind hn (by decide) field

/-! ## Holders -/

/-- The places of enclosing nodes that open a scope which is in force inside, innermost
first. -/
def holdersOf : List (String × Node) → List Place
  | [] => []
  | (f, n) :: rest =>
    if (Place.mk n rest).opens && !n.isOutside f then ⟨n, rest⟩ :: holdersOf rest
    else holdersOf rest

theorem holdersOf_cons (f : String) (n : Node) (rest : List (String × Node)) :
    holdersOf ((f, n) :: rest) = if (Place.mk n rest).opens && !n.isOutside f then
      ⟨n, rest⟩ :: holdersOf rest else holdersOf rest := rfl

/-- The places around a place whose scopes are in force there, innermost first. -/
def holders (p : Place) : List Place := holdersOf p.above

/-- The place of the innermost scope in force. -/
def outer (p : Place) : Option Place := p.holders.head?

/-- The scopes in force, innermost first. -/
def frames (reportArrowArguments : Bool) (p : Place) : List Frame :=
  p.holders.map fun q => Frame.of reportArrowArguments q.node

theorem holders_child (p : Place) (c : String × Node) :
    (p.child c).holders = if p.opens && !p.node.isOutside c.1 then p :: p.holders
      else p.holders := rfl

theorem holders_child_of_opens {p : Place} {c : String × Node} (opens : p.opens = true)
    (inside : p.node.isOutside c.1 = false) : (p.child c).holders = p :: p.holders := by
  rw [holders_child, opens, inside]
  rfl

theorem holders_child_of_not_opens {p : Place} {c : String × Node} (opens : p.opens = false) :
    (p.child c).holders = p.holders := by
  rw [holders_child, opens]
  rfl

theorem holders_child_of_isOutside {p : Place} {c : String × Node}
    (outside : p.node.isOutside c.1 = true) : (p.child c).holders = p.holders := by
  rw [holders_child, outside, Bool.not_true, Bool.and_false]
  rfl

/-- What holds the innermost holder of a place holds the place. -/
theorem holders_of_cons {p o : Place} {rest : List Place} (h : p.holders = o :: rest) :
    o.holders = rest := by
  obtain ⟨node, above⟩ := p
  induction above generalizing node with
  | nil => cases h
  | cons step above ih =>
    obtain ⟨f, n⟩ := step
    rw [holders, holdersOf_cons] at h
    split at h
    · obtain ⟨rfl, rfl⟩ := List.cons.inj h
      rfl
    · exact ih n h

section

variable {p : Place} {c : String × Node}

theorem outer_child_of_opens (opens : p.opens = true) (inside : p.node.isOutside c.1 = false) :
    (p.child c).outer = some p := by
  rw [outer, holders_child_of_opens opens inside]
  rfl

theorem outer_child_of_not_opens (opens : p.opens = false) : (p.child c).outer = p.outer := by
  rw [outer, holders_child_of_not_opens opens]
  rfl

/-- The nearest holder whose scope takes variables. -/
def varHolder? (p : Place) : Option Place := p.holders.find? fun o => o.node.scopeKind.isVarScope

theorem varHolder?_child_of_takes (opens : p.opens = true) (inside : p.node.isOutside c.1 = false)
    (takes : p.node.scopeKind.isVarScope = true) : (p.child c).varHolder? = some p := by
  rw [varHolder?, holders_child_of_opens opens inside]
  exact List.find?_cons_of_pos (by simpa using takes)

theorem varHolder?_child_of_not_takes (none : p.node.scopeKind.isVarScope = false) :
    (p.child c).varHolder? = p.varHolder? := by
  rw [varHolder?, varHolder?, holders_child]
  split
  · rw [List.find?_cons_of_neg (by simp [none])]
  · rfl

end

/-- A holder opens a scope, and what leads inwards from it is not outside of this scope. -/
theorem mem_holders {p q : Place} : q ∈ p.holders ↔ q.opens = true ∧ ∃ before field,
    p.above = before ++ (field, q.node) :: q.above ∧ q.node.isOutside field = false := by
  obtain ⟨node, above⟩ := p
  show q ∈ holdersOf above ↔ q.opens = true ∧ ∃ before field,
    above = before ++ (field, q.node) :: q.above ∧ q.node.isOutside field = false
  induction above with
  | nil => simp [holdersOf]
  | cons step rest ih =>
    obtain ⟨f, n⟩ := step
    have here : (∃ field, (f, n) :: rest = (field, q.node) :: q.above ∧
        q.node.isOutside field = false) ↔ q = ⟨n, rest⟩ ∧ n.isOutside f = false := by
      constructor
      · rintro ⟨field, same, inside⟩
        simp only [List.cons.injEq, Prod.mk.injEq] at same
        obtain ⟨⟨rfl, rfl⟩, rfl⟩ := same
        exact ⟨rfl, inside⟩
      · rintro ⟨rfl, inside⟩
        exact ⟨f, rfl, inside⟩
    have around : (∃ before field, (f, n) :: rest = before ++ (field, q.node) :: q.above ∧
        q.node.isOutside field = false) ↔ (q = ⟨n, rest⟩ ∧ n.isOutside f = false) ∨
          ∃ before field, rest = before ++ (field, q.node) :: q.above ∧
            q.node.isOutside field = false := by
      rw [← here]
      constructor
      · rintro ⟨_ | ⟨step, before⟩, field, same, inside⟩
        · exact Or.inl ⟨field, same, inside⟩
        · exact Or.inr ⟨before, field, (List.cons.inj same).2, inside⟩
      · rintro (⟨field, same, inside⟩ | ⟨before, field, rfl, inside⟩)
        · exact ⟨[], field, same, inside⟩
        · exact ⟨(f, n) :: before, field, rfl, inside⟩
    rw [around, and_or_left, ← ih, holdersOf_cons f n rest]
    split
    · next both =>
      rw [Bool.and_eq_true, Bool.not_eq_true'] at both
      rw [List.mem_cons]
      refine or_congr_left ⟨?_, fun h => h.2.1⟩
      rintro rfl
      exact ⟨both.1, rfl, both.2⟩
    · next closed =>
      refine (or_iff_right ?_).symm
      rintro ⟨opens, rfl, inside⟩
      exact closed (by rw [opens, inside]; rfl)

variable {report : Bool}

theorem frames_child_of_opens {p : Place} {c : String × Node} (opens : p.opens = true)
    (inside : p.node.isOutside c.1 = false) :
    (p.child c).frames report = Frame.of report p.node :: p.frames report := by
  rw [frames, holders_child_of_opens opens inside]
  rfl

theorem frames_child_of_not_opens {p : Place} {c : String × Node} (opens : p.opens = false) :
    (p.child c).frames report = p.frames report := by
  rw [frames, holders_child_of_not_opens opens]
  rfl

theorem frames_child_of_isOutside {p : Place} {c : String × Node}
    (outside : p.node.isOutside c.1 = true) :
    (p.child c).frames report = p.frames report := by
  rw [frames, holders_child_of_isOutside outside]
  rfl

/-- The holders of a place of a tree are places of the tree that open a scope, and what holds
them holds the place too. -/
theorem of_mem_holders {root : Node} {p q : Place} (hp : p ∈ root.places) (hq : q ∈ p.holders) :
    q ∈ root.places ∧ q.opens = true := by
  obtain ⟨n, above⟩ := p
  induction above generalizing n with
  | nil => cases hq
  | cons step rest ih =>
    obtain ⟨f, m⟩ := step
    have hm := (Node.mem_places_of_above hp rfl).1
    unfold holders holdersOf at hq
    split at hq
    · next hopen =>
      rcases List.mem_cons.mp hq with rfl | hq
      · exact ⟨hm, (Bool.and_eq_true_iff.mp hopen).1⟩
      · exact ih m hm hq
    · exact ih m hm hq

end Place

end FreeNames
