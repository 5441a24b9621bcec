import FreeNames.Proofs.Resolution.Spine
import FreeNames.Proofs.Scope.InForce

/-!
# Points of a run

A run keeps the enclosing nodes on a stack, by events that put a node on it and take one off.
This module says what it means that the stack and the scopes in force fit the tree.

* A `Point` is the stack at some moment of a run, with nodes whose scope has been entered.
* `Follows` goes through a list of steps from a point and says that each of them fits the
  point it is met at: a visit is the visit of a place of the tree whose surroundings are on
  the stack, a free reference is one that is read there.  In the end the stack is the one
  given.  Steps that get stuck end the account.
* `Follows.append`, `Follows.within` and the like follow the way steps are put together;
  `Follows.flatten` replaces visits by their runs.

The scopes in force are those of the place (`Place.frames`) if all that a variable declaration
declares are declarators, and they have been entered before.
-/

namespace FreeNames

/-! ## Points of a run -/

/-- How far a run has come: the nodes on its stack, the innermost first, and nodes whose scope
has been entered. -/
structure Point where
  enclosing : List Node
  entered : List Node

/-- What an event changes. -/
def Point.after (s : Point) : Event → Point
  | .push n => ⟨n :: s.enclosing, s.entered⟩
  | .pop => ⟨s.enclosing.tail, s.entered⟩
  | .enter n _ => ⟨s.enclosing, n :: s.entered⟩
  | _ => s

theorem Point.subset_entered_after (s : Point) (e : Event) :
    s.entered ⊆ (s.after e).entered := by
  cases e with
  | enter n _ => exact List.subset_cons_self n s.entered
  | _ => exact List.Subset.refl _

namespace Node

/-- A node that can stand around a reference: no identifier, not `this`, and if it is a member
access, one with an object. -/
def CanHold (n : Node) : Prop :=
  n.kind ≠ .identifier ∧ n.kind ≠ .thisExpression ∧
    (n.kind = .memberExpression → ∃ o, n.child "object" = .ok o)

/-- What a variable declaration declares can hold other nodes, if it has a pattern. -/
def DeclaratorsHold (root : Node) : Prop :=
  ∀ n ∈ root.preorder, n.kind = .variableDeclaration → ∀ d, ("declarations", d) ∈ n.children →
    ∀ i, d.child "id" = .ok i → d.CanHold

/-- Variable declarations declare declarators only. -/
def PlainDeclarators (root : Node) : Prop :=
  ∀ n ∈ root.preorder, n.kind = .variableDeclaration → ∀ d, ("declarations", d) ∈ n.children →
    d.kind = .variableDeclarator

theorem PlainDeclarators.declaratorsHold {root : Node} (plain : root.PlainDeclarators) :
    root.DeclaratorsHold := by
  intro n hn hk d hd i _
  have := plain n hn hk d hd
  simp [CanHold, this]

theorem canHold_of_kind {n : Node} (h : n.kind ≠ .identifier ∧ n.kind ≠ .thisExpression ∧
    n.kind ≠ .memberExpression) : n.CanHold :=
  ⟨h.1, h.2.1, fun hm => absurd hm h.2.2⟩

end Node

section

variable (report : Bool) (root : Node)

/-- The scopes are those of the place, and they have been entered. -/
def Scoped (s : Point) (p : Place) (scopes : List Frame) : Prop :=
  root.PlainDeclarators →
    scopes = p.frames report ∧ ∀ frame ∈ scopes, frame.node ∈ s.entered

/-- The nodes on the stack are those around the place, and each can hold others. -/
structure Around (s : Point) (p : Place) : Prop where
  mem : p ∈ root.places
  enclosing : p.enclosing = s.enclosing
  hold : ∀ n ∈ s.enclosing, n.CanHold

/-- The run is at the visit of a place. -/
structure Visit.StandsAt (s : Point) (p : Place) (v : Visit) : Prop where
  around : Around root s p
  visit : v = p.visit v.mode v.scopes
  scopes : Scoped report root s p v.scopes

/-- A reference of this name stands where the run is. -/
def ReadAt (s : Point) (name : Text) (n : Node) : Prop :=
  ∃ p, Around root s p ∧ p.node = n ∧
    ((n.kind = .thisExpression ∧ name = Visit.thisName) ∨
      (n.kind = .identifier ∧ n.text "name" = .ok name ∧
        isReadPosition p.field p.parent = true))

/-- The event fits the point. -/
def Event.Fits (s : Point) : Event → Prop
  | .free name n => ReadAt root s name n
  | _ => True

/-- Every step fits the point it is met at, and in the end the stack is `stack`, unless the
steps get stuck. -/
def Follows (stack : List Node) : Point → List Step → Prop
  | s, [] => s.enclosing = stack
  | _, .emit (.stuck _) :: _ => True
  | s, .emit e :: rest => e.Fits root s ∧ Follows stack (s.after e) rest
  | s, .go v :: rest => (∃ p, v.StandsAt report root s p) ∧ Follows stack s rest

end

variable {report : Bool} {root : Node} {s : Point} {stack : List Node}

/-- The same stack, with no less entered. -/
structure Point.Extends (t s : Point) : Prop where
  enclosing : t.enclosing = s.enclosing
  entered : s.entered ⊆ t.entered

theorem Point.Extends.after {t : Point} (h : t.Extends s) (e : Event) :
    (t.after e).Extends (s.after e) := by
  obtain ⟨enclosing, entered⟩ := h
  cases e with
  | push n => exact ⟨congrArg (n :: ·) enclosing, entered⟩
  | pop => exact ⟨congrArg List.tail enclosing, entered⟩
  | enter n _ => exact ⟨enclosing, List.cons_subset_cons n entered⟩
  | _ => exact ⟨enclosing, entered⟩

theorem Around.mono {t : Point} {p : Place} (h : Around root s p) (ext : t.Extends s) :
    Around root t p :=
  ⟨h.mem, h.enclosing.trans ext.enclosing.symm, fun n hn => h.hold n (ext.enclosing ▸ hn)⟩

theorem Scoped.mono {t : Point} {p : Place} {scopes : List Frame}
    (h : Scoped report root s p scopes) (ext : t.Extends s) : Scoped report root t p scopes :=
  fun plain => ⟨(h plain).1, fun frame hf => ext.entered ((h plain).2 frame hf)⟩

theorem Event.Fits.mono {t : Point} {e : Event} (h : e.Fits root s) (ext : t.Extends s) :
    e.Fits root t := by
  cases e with
  | free name n =>
    obtain ⟨p, around, hn, reads⟩ := h
    exact ⟨p, around.mono ext, hn, reads⟩
  | _ => trivial

namespace Follows

theorem mono {xs : List Step} {t : Point} (h : Follows report root stack s xs)
    (ext : t.Extends s) : Follows report root stack t xs := by
  induction xs generalizing s t with
  | nil => exact ext.enclosing.trans h
  | cons x xs ih =>
    cases x with
    | go v =>
      obtain ⟨⟨p, hp⟩, h⟩ := h
      exact ⟨⟨p, hp.around.mono ext, hp.visit, hp.scopes.mono ext⟩, ih h ext⟩
    | emit e =>
      cases e with
      | stuck f => trivial
      | _ => exact ⟨h.1.mono ext, ih h.2 (ext.after _)⟩

theorem append {stack' : List Node} {xs ys : List Step} (hx : Follows report root stack' s xs)
    (hy : Follows report root stack ⟨stack', s.entered⟩ ys) :
    Follows report root stack s (xs ++ ys) := by
  induction xs generalizing s with
  | nil => exact hy.mono ⟨hx, List.Subset.refl _⟩
  | cons x xs ih =>
    cases x with
    | go v => exact ⟨hx.1, ih hx.2 hy⟩
    | emit e =>
      cases e with
      | stuck f => trivial
      | _ => exact ⟨hx.1, ih hx.2 (hy.mono ⟨rfl, s.subset_entered_after _⟩)⟩

/-- Steps that leave the stack as it is, one after the other. -/
theorem both {xs ys : List Step} (hx : Follows report root s.enclosing s xs)
    (hy : Follows report root s.enclosing s ys) :
    Follows report root s.enclosing s (xs ++ ys) := append hx hy

theorem nil (h : s.enclosing = stack) : Follows report root stack s [] := h

theorem need {α : Type} {x : Except Fault α} {k : α → List Step}
    (h : ∀ a, x = .ok a → Follows report root stack s (k a)) :
    Follows report root stack s (need x k) := by
  cases x with
  | ok a => exact h a rfl
  | error f => trivial

theorem one {v : Visit} {p : Place} (h : v.StandsAt report root s p) :
    Follows report root s.enclosing s [.go v] := ⟨⟨p, h⟩, rfl⟩

theorem map {α : Type} {xs : List α} {k : α → Visit}
    (h : ∀ a ∈ xs, ∃ p, (k a).StandsAt report root s p) :
    Follows report root s.enclosing s (xs.map fun a => .go (k a)) := by
  induction xs with
  | nil => rfl
  | cons a xs ih =>
    exact ⟨h a (List.mem_cons_self ..), ih fun b hb => h b (List.mem_cons_of_mem _ hb)⟩

theorem flatMap {α : Type} {xs : List α} {k : α → List Step}
    (h : ∀ a ∈ xs, Follows report root s.enclosing s (k a)) :
    Follows report root s.enclosing s (xs.flatMap k) := by
  induction xs with
  | nil => rfl
  | cons a xs ih =>
    rw [List.flatMap_cons]
    exact append (h a (List.mem_cons_self ..))
      (ih fun b hb => h b (List.mem_cons_of_mem _ hb))

/-- What is done inside a node starts with it on the stack and ends with it taken off. -/
theorem within {n : Node} {xs : List Step}
    (h : Follows report root (s.after (.push n)).enclosing (s.after (.push n)) xs) :
    Follows report root s.enclosing s (within n xs) := by
  exact ⟨trivial, append h ⟨trivial, rfl⟩⟩

theorem entering {n : Node} {scopes : List Frame} {xs : List Step}
    (h : Follows report root stack ⟨s.enclosing, n :: s.entered⟩ xs) :
    Follows report root stack s (entering report n scopes ++ xs) := by
  unfold FreeNames.entering
  cases (n.declared report).faults with
  | nil => exact ⟨trivial, h⟩
  | cons f fs => trivial

/-- Replacing every visit by its run keeps what is said of the steps. -/
theorem flatten {xs : List Step} (h : Follows report root stack s xs)
    (run : ∀ v s' p, Step.go v ∈ xs → v.StandsAt report root s' p →
      Follows report root s'.enclosing s' ((v.events report).map .emit)) :
    Follows report root stack s ((xs.flatMap (Step.events report)).map .emit) := by
  induction xs generalizing s with
  | nil => exact h
  | cons x xs ih =>
    rw [List.flatMap_cons, List.map_append]
    have rest : ∀ v s' p, Step.go v ∈ xs → v.StandsAt report root s' p →
        Follows report root s'.enclosing s' ((v.events report).map .emit) :=
      fun v s' p hv => run v s' p (List.mem_cons_of_mem _ hv)
    cases x with
    | go v =>
      obtain ⟨⟨p, hp⟩, h⟩ := h
      exact append (run v s p (List.mem_cons_self ..) hp) (ih h rest)
    | emit e =>
      cases e with
      | stuck f => trivial
      | _ => exact ⟨h.1, ih h.2 rest⟩

end Follows

/-! ## Inside a node -/

/-- The run is inside the node of the place. -/
structure Within (root : Node) (t : Point) (p : Place) : Prop where
  mem : p ∈ root.places
  enclosing : t.enclosing = p.node :: p.enclosing
  hold : ∀ n ∈ t.enclosing, n.CanHold

theorem Around.within {p : Place} (around : Around root s p) (hold : p.node.CanHold) :
    Within root (s.after (.push p.node)) p where
  mem := around.mem
  enclosing := congrArg (p.node :: ·) around.enclosing.symm
  hold := by
    intro n hn
    rcases List.mem_cons.mp hn with rfl | hn
    · exact hold
    · exact around.hold n hn

namespace Within

variable {t : Point} {p : Place} {scopes : List Frame} {field : String} {c : Node} {mode : Mode}

theorem enter (w : Within root t p) (n : Node) (outer : Option Node) :
    Within root (t.after (.enter n outer)) p := ⟨w.mem, w.enclosing, w.hold⟩

theorem around (w : Within root t p) (hc : (field, c) ∈ p.node.children) :
    Around root t (p.child (field, c)) :=
  ⟨Node.child_mem_places w.mem hc, w.enclosing.symm, w.hold⟩

theorem standsAt (w : Within root t p) (hc : (field, c) ∈ p.node.children)
    (frames : Scoped report root t (p.child (field, c)) scopes) :
    (Visit.mk mode c (some field) (some p.node) scopes).StandsAt report root t
      (p.child (field, c)) :=
  ⟨w.around hc, rfl, frames⟩

theorem follows (w : Within root t p) (hc : (field, c) ∈ p.node.children)
    (frames : Scoped report root t (p.child (field, c)) scopes) :
    Follows report root t.enclosing t [.go ⟨mode, c, some field, some p.node, scopes⟩] :=
  .one (w.standsAt hc frames)

theorem followsAll (w : Within root t p) {cs : List Node}
    (hc : ∀ c ∈ cs, (field, c) ∈ p.node.children)
    (frames : ∀ c ∈ cs, Scoped report root t (p.child (field, c)) scopes) :
    Follows report root t.enclosing t
      (cs.map fun c => .go ⟨mode, c, some field, some p.node, scopes⟩) :=
  .map fun c h => ⟨_, w.standsAt (hc c h) (frames c h)⟩

theorem follows_readingChildren (w : Within root t p) {keep : String → Bool}
    (frames : ∀ c ∈ p.node.children, keep c.1 = true → Scoped report root t (p.child c) scopes) :
    Follows report root t.enclosing t (readingChildren p.node keep scopes) := by
  refine .map fun c h => ?_
  obtain ⟨hc, hkeep⟩ := List.mem_filter.mp h
  exact ⟨_, w.standsAt hc (frames c hc hkeep)⟩

end Within

namespace Scoped

variable {t : Point} {p : Place} {scopes : List Frame} {c : String × Node}

/-- Inside a node that opens no scope the scopes are those around it. -/
theorem child (h : Scoped report root t p scopes)
    (closed : root.PlainDeclarators → p.opens = false) :
    Scoped report root t (p.child c) scopes := fun plain => by
  rw [Place.frames_child_of_not_opens (closed plain)]
  exact h plain

theorem outside (h : Scoped report root t p scopes) (out : p.node.isOutside c.1 = true) :
    Scoped report root t (p.child c) scopes := fun plain => by
  rw [Place.frames_child_of_isOutside out]
  exact h plain

/-- Inside a node that opens a scope, this scope has been entered and is the innermost. -/
theorem opened (h : Scoped report root t p scopes) (opens : p.opens = true)
    (inside : p.node.isOutside c.1 = false) :
    Scoped report root ⟨t.enclosing, p.node :: t.entered⟩ (p.child c)
      (Frame.of report p.node :: scopes) := fun plain => by
  rw [Place.frames_child_of_opens opens inside]
  refine ⟨congrArg _ (h plain).1, fun frame hf => ?_⟩
  rcases List.mem_cons.mp hf with rfl | hf
  · exact List.mem_cons_self ..
  · exact List.mem_cons_of_mem _ ((h plain).2 frame hf)

theorem push (h : Scoped report root t p scopes) (n : Node) :
    Scoped report root (t.after (.push n)) p scopes := h

end Scoped

end FreeNames
