import FreeNames.Proofs.Resolution.Spine
import FreeNames.Proofs.Scope.Likeness
import FreeNames.Resolution.Report

/-!
# Two runs side by side

The runs of two trees are compared step by step.  A `RunLikeness` adds to a comparison of trees
what is known of the scopes in force in the two runs, and which free references of the first run
the second one does not have.

* `Beside` goes through two lists of steps from a stack: the same happens in both at
  corresponding nodes, except that a free reference of the first may be bound in the second, and
  that the second may do more which changes nothing.  Steps that get stuck end the account.
* `Beside.append`, `Beside.within` and the like follow the way steps are put together;
  `Beside.flatten` replaces visits by their runs.
* `RunLikeness.steps` is the step lemma, one case for each rule of the traversal;
  `RunLikeness.events` is the run lemma.
-/

namespace FreeNames

/-- Steps whose events leave a report as it is. -/
def Idle (report : Bool) (xs : List Step) : Prop :=
  ∀ r : Report, (xs.flatMap (Step.events report)).foldlM Report.add r = .ok r

/-- The steps at a program. -/
theorem Node.steps_program (report : Bool) {n : Node} (hk : n.kind = .program) :
    n.visit.steps report =
      within n (entering report n [] ++ Visit.insideSteps n [Frame.of report n]) := by
  simp [Visit.steps, Node.visit, Visit.readSteps, Visit.plainSteps, Visit.outsideSteps,
    Node.opensScope, hk, Kind.isInert, Kind.isFunction, Kind.isClass, Kind.isChainLink,
    Kind.operandField?]

/-! ## Scopes -/

/-- The scopes in force are those of corresponding nodes. -/
abbrev Likeness.FramesLike (L : Likeness) (report : Bool) : List Frame → List Frame → Prop :=
  List.Forall₂ fun f f' => ∃ n n', L.Like n n' ∧ f = Frame.of report n ∧ f' = Frame.of report n'

namespace Likeness.FramesLike

variable {L : Likeness} {report : Bool} {s s' : List Frame}

theorem outer (h : L.FramesLike report s s') :
    Option.Rel L.Like (s.head?.map Frame.node) (s'.head?.map Frame.node) := by
  cases h with
  | nil => exact .none
  | cons hf _ =>
    obtain ⟨n, n', hn, rfl, rfl⟩ := hf
    exact .some hn

/-- A name is bound where its counterpart is, unless what the second tree has more binds it. -/
theorem isBound_eq {More : Binding → Prop} (N : L.Naming More)
    (inj : Function.Injective L.rename) {name : Text}
    (other : ∀ b, More b → b.name ≠ L.rename name) (h : L.FramesLike report s s') :
    isBound s' (L.rename name) = isBound s name := by
  unfold isBound
  induction h with
  | nil => rfl
  | cons hf _ ih =>
    obtain ⟨n, n', hn, rfl, rfl⟩ := hf
    rw [List.any_cons, List.any_cons, ih]
    congr 1
    exact L.declares_eq (N.declared report hn) inj other

end Likeness.FramesLike

/-! ## Runs -/

/-- Events run as they are. -/
theorem flatMap_events_emit (report : Bool) (es : List Event) :
    (es.map Step.emit).flatMap (Step.events report) = es := by
  rw [List.flatMap_map]
  exact List.flatMap_singleton' es

/-- A way to compare the runs of two trees. -/
structure RunLikeness extends Likeness where
  /-- How the first run treats `arguments` in arrows. -/
  first : Bool
  /-- How the second run does. -/
  second : Bool
  /-- What is known of the scopes in force in the two runs, with this stack in the first. -/
  Scopes : List Node → List Frame → List Frame → Prop
  /-- The name is bound in the second run although it may be free in the first. -/
  Bound : List Node → Text → Prop
  /-- A node that goes on the stack without its scope being entered. -/
  Bare : Node → Prop
  outer : ∀ {stack s s'}, Scopes stack s s' →
    Option.Rel Like (s.head?.map Frame.node) (s'.head?.map Frame.node)
  push : ∀ {stack s s' n}, Scopes stack s s' → Bare n → Scopes (n :: stack) s s'
  opened : ∀ {stack s s' n n'}, Scopes stack s s' → Like n n' →
    Scopes (n :: stack) (Frame.of first n :: s) (Frame.of second n' :: s')
  bare : ∀ {n : Node}, n.kind ≠ .arrowFunctionExpression → Bare n
  bare_declarator : ∀ {n n' d : Node}, Like n n' → n.kind = .variableDeclaration →
    ("declarations", d) ∈ n.children → Bare d
  faults : ∀ {n n'}, Like n n' → (n'.declared second).faults = (n.declared first).faults
  lookup : ∀ {stack s s'} (name : Text), Scopes stack s s' →
    (isBound s' (rename name) = true ↔ isBound s name = true ∨ Bound stack name)
  this : rename Visit.thisName = Visit.thisName
  this_free : ∀ stack, ¬ Bound stack Visit.thisName
  extra : ∀ {d field parent scopes}, Extra d →
    Idle second [.go ⟨.read, d, some field, some parent, scopes⟩]

/-- Visits of corresponding nodes. -/
structure RunLikeness.VisitLike (L : RunLikeness) (stack : List Node) (v v' : Visit) : Prop where
  mode : v'.mode = v.mode
  node : L.Like v.node v'.node
  field : v'.field = v.field
  parent : Option.Rel L.Like v.parent v'.parent
  scopes : L.Scopes stack v.scopes v'.scopes

/-- The second list of steps follows the first, from one stack of the first run to another. -/
inductive Beside (L : RunLikeness) : List Node → List Node → List Step → List Step → Prop
  | nil {stack} : Beside L stack stack [] []
  | go {stack last v v' xs xs'} : L.VisitLike stack v v' → Beside L stack last xs xs' →
    Beside L stack last (.go v :: xs) (.go v' :: xs')
  | push {stack last n n' xs xs'} : L.Like n n' → Beside L (n :: stack) last xs xs' →
    Beside L stack last (.emit (.push n) :: xs) (.emit (.push n') :: xs')
  | pop {stack last xs xs'} : Beside L stack.tail last xs xs' →
    Beside L stack last (.emit .pop :: xs) (.emit .pop :: xs')
  | enter {stack last n n' o o' xs xs'} : L.Like n n' → Option.Rel L.Like o o' →
    Beside L stack last xs xs' →
    Beside L stack last (.emit (.enter n o) :: xs) (.emit (.enter n' o') :: xs')
  | free {stack last name n n' xs xs'} : ¬ L.Bound stack name → n.segment = .ok (some name) →
    L.Like n n' → Beside L stack last xs xs' →
    Beside L stack last (.emit (.free name n) :: xs) (.emit (.free (L.rename name) n') :: xs')
  | bound {stack last name n xs xs'} : L.Bound stack name → Beside L stack last xs xs' →
    Beside L stack last (.emit (.free name n) :: xs) xs'
  | stuck {stack last f xs xs'} :
    Beside L stack last (.emit (.stuck f) :: xs) (.emit (.stuck f) :: xs')
  | idle {stack last ys xs xs'} : Idle L.second ys → Beside L stack last xs xs' →
    Beside L stack last xs (ys ++ xs')

namespace Beside

variable {L : RunLikeness} {stack middle last : List Node} {xs xs' ys ys' : List Step}
  {n n' : Node}

theorem append (hx : Beside L stack middle xs xs') (hy : Beside L middle last ys ys') :
    Beside L stack last (xs ++ ys) (xs' ++ ys') := by
  induction hx with
  | nil => exact hy
  | go hv _ ih => exact .go hv (ih hy)
  | push hn _ ih => exact .push hn (ih hy)
  | pop _ ih => exact .pop (ih hy)
  | enter hn ho _ ih => exact .enter hn ho (ih hy)
  | free hb named hn _ ih => exact .free hb named hn (ih hy)
  | bound hb _ ih => exact .bound hb (ih hy)
  | stuck => exact .stuck
  | idle hi _ ih =>
    rw [List.append_assoc]
    exact .idle hi (ih hy)

/-- Steps that leave the stack as it is, one after the other. -/
theorem both (hx : Beside L stack stack xs xs') (hy : Beside L stack stack ys ys') :
    Beside L stack stack (xs ++ ys) (xs' ++ ys') := append hx hy

theorem need {α β : Type} {R : α → β → Prop} {x : Except Fault α} {x' : Except Fault β}
    {k : α → List Step} {k' : β → List Step} (h : Agree R x x')
    (next : ∀ a b, x = .ok a → R a b → Beside L stack last (k a) (k' b)) :
    Beside L stack last (need x k) (need x' k') := by
  cases h with
  | ok hab => exact next _ _ rfl hab
  | error f => exact .stuck

theorem one {v v' : Visit} (h : L.VisitLike stack v v') : Beside L stack stack [.go v] [.go v'] :=
  .go h .nil

theorem flatMap {α β : Type} {R : α → β → Prop} {More : β → Prop} {as : List α} {bs : List β}
    {f : α → List Step} {g : β → List Step} (h : Woven R More as bs)
    (each : ∀ a b, a ∈ as → R a b → Beside L stack stack (f a) (g b))
    (rest : ∀ b, More b → Idle L.second (g b)) :
    Beside L stack stack (as.flatMap f) (bs.flatMap g) := by
  induction h with
  | nil => exact .nil
  | both hab _ ih =>
    rw [List.flatMap_cons, List.flatMap_cons]
    exact append (each _ _ (List.mem_cons_self ..) hab)
      (ih fun a b ha => each a b (List.mem_cons_of_mem _ ha))
  | more hb _ ih =>
    rw [List.flatMap_cons]
    exact .idle (rest _ hb) (ih each)

/-- Elements that correspond one by one. -/
theorem flatMap_forall₂ {α β : Type} {R : α → β → Prop} {as : List α} {bs : List β}
    {f : α → List Step} {g : β → List Step} (h : List.Forall₂ R as bs)
    (each : ∀ a b, a ∈ as → R a b → Beside L stack stack (f a) (g b)) :
    Beside L stack stack (as.flatMap f) (bs.flatMap g) :=
  flatMap (.of_exact h) each fun _ no => no.elim

theorem map {α β : Type} {R : α → β → Prop} {More : β → Prop} {as : List α} {bs : List β}
    {k : α → Visit} {k' : β → Visit} (h : Woven R More as bs)
    (each : ∀ a b, R a b → L.VisitLike stack (k a) (k' b))
    (rest : ∀ b, More b → Idle L.second [.go (k' b)]) :
    Beside L stack stack (as.map fun a => .go (k a)) (bs.map fun b => .go (k' b)) := by
  rw [List.map_eq_flatMap, List.map_eq_flatMap]
  exact flatMap h (fun a b _ hab => one (each a b hab)) rest

theorem map_forall₂ {α β : Type} {R : α → β → Prop} {as : List α} {bs : List β}
    {k : α → Visit} {k' : β → Visit} (h : List.Forall₂ R as bs)
    (each : ∀ a b, R a b → L.VisitLike stack (k a) (k' b)) :
    Beside L stack stack (as.map fun a => .go (k a)) (bs.map fun b => .go (k' b)) :=
  map (.of_exact h) each fun _ no => no.elim

theorem within (hn : L.Like n n') (h : Beside L (n :: stack) (n :: stack) xs xs') :
    Beside L stack stack (within n xs) (within n' xs') :=
  .push hn (append h (.pop .nil))

theorem entering {s s' : List Frame} (hn : L.Like n n')
    (outer : Option.Rel L.Like (s.head?.map Frame.node) (s'.head?.map Frame.node))
    (h : Beside L stack last xs xs') :
    Beside L stack last (entering L.first n s ++ xs) (entering L.second n' s' ++ xs') := by
  unfold FreeNames.entering
  rw [L.faults hn]
  cases (n.declared L.first).faults with
  | nil => exact .enter hn outer h
  | cons f fs => exact .stuck

/-- Replacing every visit by its run keeps what is said of the steps. -/
theorem flatten (h : Beside L stack last xs xs')
    (run : ∀ v v' stack, .go v ∈ xs → L.VisitLike stack v v' → Beside L stack stack
      ((v.events L.first).map .emit) ((v'.events L.second).map .emit)) :
    Beside L stack last ((xs.flatMap (Step.events L.first)).map .emit)
      ((xs'.flatMap (Step.events L.second)).map .emit) := by
  induction h with
  | nil => exact .nil
  | @go stack _ v v' xs xs' hv _ ih =>
    rw [List.flatMap_cons, List.flatMap_cons, List.map_append, List.map_append]
    exact append (run v v' stack (List.mem_cons_self ..) hv)
      (ih fun w w' s hw => run w w' s (List.mem_cons_of_mem _ hw))
  | push hn _ ih => exact .push hn (ih fun w w' s hw => run w w' s (List.mem_cons_of_mem _ hw))
  | pop _ ih => exact .pop (ih fun w w' s hw => run w w' s (List.mem_cons_of_mem _ hw))
  | enter hn ho _ ih =>
    exact .enter hn ho (ih fun w w' s hw => run w w' s (List.mem_cons_of_mem _ hw))
  | free hb named hn _ ih =>
    exact .free hb named hn (ih fun w w' s hw => run w w' s (List.mem_cons_of_mem _ hw))
  | bound hb _ ih => exact .bound hb (ih fun w w' s hw => run w w' s (List.mem_cons_of_mem _ hw))
  | stuck => exact .stuck
  | idle hi _ ih =>
    rw [List.flatMap_append, List.map_append]
    refine .idle (fun r => ?_) (ih run)
    rw [flatMap_events_emit]
    exact hi r

end Beside

namespace RunLikeness

variable {L : RunLikeness} {stack : List Node} {s s' : List Frame} {n n' c c' : Node}
  {v v' : Visit}

/-- Looking at corresponding children. -/
theorem visitLike {mode : Mode} {field : String} (hn : L.Like n n') (hc : L.Like c c')
    (hs : L.Scopes stack s s') :
    L.VisitLike stack ⟨mode, c, some field, some n, s⟩ ⟨mode, c', some field, some n', s'⟩ :=
  ⟨rfl, hc, rfl, .some hn, hs⟩

theorem bare_of_kind {k : Kind} (hk : n.kind = k) (other : k ≠ .arrowFunctionExpression) :
    L.Bare n := L.bare (hk ▸ other)

theorem readingChildren (hn : L.Like n n') (hs : L.Scopes stack s s') (keep : String → Bool) :
    Beside L stack stack (readingChildren n keep s) (readingChildren n' keep s') := by
  have children : Woven L.ChildLike L.ExtraChild (n.children.filter fun c => keep c.1)
      (n'.children.filter fun c => keep c.1) :=
    (L.children hn).filter fun c c' hc => by rw [hc.1]
  refine Beside.map children (fun c c' hc => ?_) fun d hd => L.extra hd.2
  rw [hc.1]
  exact L.visitLike hn hc.2 hs

/-! ## Declarations and plain nodes -/

theorem declaratorSteps (hd : L.Like c c') (hs : L.Scopes stack s s') (bare : L.Bare c) :
    Beside L stack stack (Visit.declaratorSteps c s) (Visit.declaratorSteps c' s') := by
  have inner := L.push hs bare
  refine Beside.within hd (Beside.both (Beside.need (L.child hd _) fun p p' _ hp => ?_)
    (Beside.need (L.child? hd _) fun i i' _ hi => ?_))
  · exact Beside.one (L.visitLike hd hp inner)
  · cases hi with
    | none => exact .nil
    | some hi => exact Beside.one (L.visitLike hd hi inner)

theorem insideSteps (hn : L.Like n n') (hs : L.Scopes stack s s') :
    Beside L stack stack (Visit.insideSteps n s) (Visit.insideSteps n' s') := by
  unfold Visit.insideSteps
  rw [L.kind_eq hn]
  split
  · next hk =>
    refine Beside.need (L.items_forall₂ hn rfl) fun ds ds' hds like => ?_
    refine Beside.flatMap_forall₂ like fun d d' hd hdd => L.declaratorSteps hdd hs ?_
    exact L.bare_declarator hn hk (Node.mem_children_of_items hds hd)
  · refine Beside.both (Beside.need (L.child? hn _) fun o o' _ ho => ?_)
      (Beside.need (L.child hn _) fun b b' _ hb => Beside.one (L.visitLike hn hb hs))
    cases ho with
    | none => exact .nil
    | some hp => exact Beside.one (L.visitLike hn hp hs)
  · exact L.readingChildren hn hs _
  · exact L.readingChildren hn hs _

theorem outsideSteps (hn : L.Like n n') (hs : L.Scopes stack s s') :
    Beside L stack stack (Visit.outsideSteps n s) (Visit.outsideSteps n' s') := by
  unfold Visit.outsideSteps
  rw [L.kind_eq hn]
  split
  · exact Beside.need (L.child hn _) fun d d' _ hd => Beside.one (L.visitLike hn hd hs)
  · exact .nil

theorem opensScope (hv : L.VisitLike stack v v') :
    v'.node.opensScope v'.field v'.parent = v.node.opensScope v.field v.parent := by
  obtain ⟨_, n, field, parent, _⟩ := v
  obtain ⟨_, n', field', parent', _⟩ := v'
  obtain ⟨-, hn, rfl, hp, -⟩ := hv
  unfold Node.opensScope
  rw [L.kind_eq hn]
  cases hp with
  | none => rfl
  | some hp => simp only [L.kind_eq hp]

theorem plainSteps (hv : L.VisitLike stack v v')
    (plain : v.node.kind ≠ .arrowFunctionExpression) :
    Beside L stack stack (v.plainSteps L.first) (v'.plainSteps L.second) := by
  have inner := L.push hv.scopes (L.bare plain)
  unfold Visit.plainSteps
  rw [L.opensScope hv]
  refine Beside.within hv.node (Beside.both (L.outsideSteps hv.node inner) ?_)
  split
  · exact Beside.entering hv.node (L.outer hv.scopes)
      (L.insideSteps hv.node (L.opened hv.scopes hv.node))
  · exact L.insideSteps hv.node inner

/-! ## Functions and classes -/

theorem bodySteps (hn : L.Like n n') (hb : L.Like c c') (hs : L.Scopes stack s s') :
    Beside L stack stack (Visit.bodySteps n c s) (Visit.bodySteps n' c' s') := by
  unfold Visit.bodySteps
  rw [L.kind_eq hb]
  split
  · next hk =>
    have inner := L.push hs (L.bare_of_kind hk (by decide))
    refine Beside.within hb (Beside.need (L.items hb _) fun ss ss' _ like => ?_)
    exact Beside.map like (fun a b hab => L.visitLike hb hab inner) fun d hd => L.extra hd.2
  · exact Beside.one (L.visitLike hn hb hs)

theorem functionSteps (hv : L.VisitLike stack v v') :
    Beside L stack stack (v.functionSteps L.first) (v'.functionSteps L.second) := by
  have inner := L.opened hv.scopes hv.node
  refine Beside.entering hv.node (L.outer hv.scopes) (Beside.within hv.node (Beside.both
    (Beside.need (L.items_forall₂ hv.node rfl) fun ps ps' _ like => ?_)
    (Beside.need (L.child hv.node _) fun b b' _ hb => L.bodySteps hv.node hb inner)))
  exact Beside.map_forall₂ like fun p p' hp => L.visitLike hv.node hp inner

theorem classSteps (hv : L.VisitLike stack v v') (hk : v.node.kind.isClass = true) :
    Beside L stack stack (v.classSteps L.first) (v'.classSteps L.second) := by
  have bare : L.Bare v.node := L.bare fun h => by simp [h, Kind.isClass] at hk
  have outside := L.push hv.scopes bare
  have inside := L.opened hv.scopes hv.node
  unfold Visit.classSteps
  rw [List.append_assoc, List.append_assoc, List.append_assoc, List.append_assoc]
  refine Beside.within hv.node (Beside.both ?_ (Beside.both ?_
    (Beside.entering hv.node (L.outer hv.scopes) ?_)))
  · exact Beside.need (L.items_forall₂ hv.node rfl) fun ds ds' _ like =>
      Beside.map_forall₂ like fun d d' hd => L.visitLike hv.node hd outside
  · refine Beside.need (L.child? hv.node _) fun o o' _ ho => ?_
    cases ho with
    | none => exact .nil
    | some hh => exact Beside.one (L.visitLike hv.node hh outside)
  · exact Beside.need (L.child hv.node _) fun b b' _ hb =>
      Beside.one (L.visitLike hv.node hb inside)

/-! ## Chains -/

/-- The spine of a chain is found in both trees, or both lack the same part of it. -/
theorem spine (hn : L.Like n n') :
    Agree (fun _ _ => True) (Visit.spine n) (Visit.spine n') := by
  fun_induction Visit.spine n generalizing n' with
  | case1 n hk =>
    rw [Visit.spine]
    simp only [L.kind_eq hn, hk]
    exact .ok trivial
  | case2 n field hk f hc =>
    have operands := L.child hn field
    rw [hc] at operands
    rw [Visit.spine]
    simp only [L.kind_eq hn, hk]
    split
    · next hc' => rw [hc'] at operands; cases operands; exact .error f
    · next hc' => rw [hc'] at operands; cases operands
  | case3 n field hk operand hc hsmall ih =>
    have operands := L.child hn field
    rw [hc] at operands
    rw [Visit.spine.eq_def n']
    simp only [L.kind_eq hn, hk]
    split
    · next hc' => rw [hc'] at operands; cases operands
    · next hc' =>
      rw [hc'] at operands
      cases operands with
      | ok ho => exact (ih ho).map fun _ _ h => h

theorem bare_link {field : String} (hk : n.kind.operandField? = some field) : L.Bare n :=
  L.bare fun h => by simp [h, Kind.operandField?] at hk

theorem keepsRest (hn : L.Like n n') : Visit.keepsRest n' = Visit.keepsRest n := by
  unfold Visit.keepsRest
  rw [L.kind_eq hn]

/-- The operands of corresponding links correspond. -/
theorem operand {field field' : String} (hn : L.Like n n')
    (hk : n.kind.operandField? = some field) (hc : n.child field = .ok c)
    (hk' : n'.kind.operandField? = some field') (hc' : n'.child field' = .ok c') :
    L.Like c c' := by
  obtain rfl : field = field' := by simpa [L.kind_eq hn, hk] using hk'
  have operands := L.child hn field
  rw [hc, hc'] at operands
  cases operands with
  | ok ho => exact ho

/-- The links of a chain correspond, and so does what is done along them. -/
theorem spineSteps {links links' : List Node} {operand operand' : Node}
    (spine : Visit.SpineOf n links operand) (spine' : Visit.SpineOf n' links' operand')
    (hn : L.Like n n') (hs : L.Scopes stack s s') :
    Beside L stack stack (Visit.spineSteps links operand s)
      (Visit.spineSteps links' operand' s') := by
  induction spine generalizing n' links' stack with
  | @last n operand field hk hc noLink =>
    have inner := L.push hs (L.bare_link hk)
    cases spine' with
    | @last _ _ field' hk' hc' noLink' =>
      have ho := L.operand hn hk hc hk' hc'
      rw [Visit.spineSteps_singleton, Visit.spineSteps_singleton, L.keepsRest hn, L.kind_eq hn]
      refine Beside.within hn (.go ⟨rfl, ho, rfl, .some hn, inner⟩ ?_)
      exact L.readingChildren hn inner _
    | @link _ operand' _ field' _ hk' hc' inner' =>
      have link := inner'.isChainLink
      rw [L.kind_eq (L.operand hn hk hc hk' hc'), Kind.isChainLink, noLink] at link
      cases link
  | @link n operand _ field links hk hc rest ih =>
    have inner := L.push hs (L.bare_link hk)
    cases spine' with
    | @last _ _ field' hk' hc' noLink' =>
      have link := rest.isChainLink
      rw [← L.kind_eq (L.operand hn hk hc hk' hc'), Kind.isChainLink, noLink'] at link
      cases link
    | @link _ operand' _ field' _ hk' hc' rest' =>
      rw [Visit.spineSteps_cons _ _ rest.ne_nil, Visit.spineSteps_cons _ _ rest'.ne_nil,
        L.keepsRest hn]
      refine Beside.within hn (Beside.both ?_ (L.readingChildren hn inner _))
      exact ih rest' (L.operand hn hk hc hk' hc') inner

theorem chainSteps (hv : L.VisitLike stack v v') (hk : v.node.kind.isChainLink = true) :
    Beside L stack stack v.chainSteps v'.chainSteps := by
  have hk' : v'.node.kind.isChainLink = true := by rw [L.kind_eq hv.node, hk]
  unfold Visit.chainSteps
  have spines := L.spine hv.node
  cases hs : Visit.spine v.node with
  | error f =>
    rw [hs] at spines
    generalize Visit.spine v'.node = x at spines
    cases spines
    exact .stuck
  | ok found =>
    rw [hs] at spines
    cases hs' : Visit.spine v'.node with
    | error f => rw [hs'] at spines; cases spines
    | ok found' =>
      exact L.spineSteps (Visit.spineOf hk hs) (Visit.spineOf hk' hs') hv.node hv.scopes

/-! ## Code -/

theorem isReadPosition (hv : L.VisitLike stack v v') :
    isReadPosition v'.field v'.parent = isReadPosition v.field v.parent := by
  obtain ⟨_, _, field, parent, _⟩ := v
  obtain ⟨_, _, field', parent', _⟩ := v'
  obtain ⟨-, -, rfl, hp, -⟩ := hv
  cases hp with
  | none => rfl
  | some hp =>
    unfold FreeNames.isReadPosition
    cases field' with
    | none => rfl
    | some f => simp only [L.kind_eq hp, L.isComputed hp]

/-- An identifier that is free in the first run is free in the second, or bound there. -/
theorem identifierSteps (hv : L.VisitLike stack v v') (hk : v.node.kind = .identifier) :
    Beside L stack stack v.identifierSteps v'.identifierSteps := by
  unfold Visit.identifierSteps
  rw [L.isReadPosition hv]
  split
  · rw [L.text_name hv.node hk]
    cases ht : v.node.text "name" with
    | error f => exact .stuck
    | ok name =>
      simp only [Except.map, FreeNames.need]
      have named : v.node.segment = .ok (some name) := by simp [Node.segment, hk, ht, Except.map]
      have lookup := L.lookup name hv.scopes
      by_cases taken : isBound v.scopes name = true
      · rw [if_pos taken, if_pos (lookup.mpr (Or.inl taken))]
        exact .nil
      · rw [if_neg taken]
        by_cases bound : L.Bound stack name
        · rw [if_pos (lookup.mpr (Or.inr bound))]
          exact .bound bound .nil
        · rw [if_neg fun h => (lookup.mp h).elim taken bound]
          exact .free bound named hv.node .nil
  · exact .nil

theorem readSteps (hv : L.VisitLike stack v v') :
    Beside L stack stack (v.readSteps L.first) (v'.readSteps L.second) := by
  unfold Visit.readSteps
  rw [L.kind_eq hv.node]
  split
  · next hk => exact L.identifierSteps hv hk
  · next hk =>
    have named : v.node.segment = .ok (some Visit.thisName) := by simp [Node.segment, hk, Visit.thisName]
    have free := Beside.free (L.this_free stack) named hv.node .nil
    rwa [L.this] at free
  · next hk =>
    rw [L.given hv.node]
    cases v.node.given "source" with
    | error f => exact .stuck
    | ok fromModule =>
      simp only [FreeNames.need]
      split
      · exact .nil
      · exact L.plainSteps hv (by simp [hk])
  · split
    · exact .nil
    · split
      · exact L.functionSteps hv
      · next hf =>
        split
        · next hc => exact L.classSteps hv hc
        · split
          · next hl => exact L.chainSteps hv hl
          · exact L.plainSteps hv fun h => hf (by simp [h, Kind.isFunction])

/-! ## Patterns -/

theorem propertySteps (hn : L.Like n n') (hc : L.Like c c') (hs : L.Scopes stack s s') :
    Beside L stack stack (Visit.propertySteps c n s) (Visit.propertySteps c' n' s') := by
  unfold Visit.propertySteps
  rw [L.kind_eq hc]
  split
  · next hk =>
    have inner := L.push hs (L.bare_of_kind hk (by decide))
    refine Beside.within hc (Beside.both ?_
      (Beside.need (L.child hc _) fun b b' _ hb => Beside.one (L.visitLike hc hb inner)))
    have same : c'.flag "computed" = c.flag "computed" :=
      L.flag hc rfl (Likeness.isOwnName_eq_false (by decide))
    rw [same]
    cases c.flag "computed" with
    | error f => exact .stuck
    | ok computed =>
      simp only [FreeNames.need]
      split
      · exact Beside.need (L.child hc _) fun k k' _ hkey =>
          Beside.one (L.visitLike hc hkey inner)
      · exact .nil
  · exact Beside.one (L.visitLike hn hc hs)

theorem patternSteps (hn : L.Like n n') (hs : L.Scopes stack s s') :
    Beside L stack stack (Visit.patternSteps n s) (Visit.patternSteps n' s') := by
  unfold Visit.patternSteps
  rw [L.kind_eq hn]
  split
  · exact Beside.need (L.items_forall₂ hn rfl) fun ps ps' _ like =>
      Beside.flatMap_forall₂ like fun p p' _ hp => L.propertySteps hn hp hs
  · refine Beside.need (L.slots_forall₂ hn rfl) fun os os' _ like =>
      Beside.flatMap_forall₂ like fun o o' _ ho => ?_
    cases ho with
    | none => exact .nil
    | some he => exact Beside.one (L.visitLike hn he hs)
  · exact Beside.need (L.child hn _) fun a a' _ ha => Beside.one (L.visitLike hn ha hs)
  · exact Beside.both
      (Beside.need (L.child hn _) fun l l' _ hl => Beside.one (L.visitLike hn hl hs))
      (Beside.need (L.child hn _) fun r r' _ hr => Beside.one (L.visitLike hn hr hs))

theorem bindSteps (hv : L.VisitLike stack v v') :
    Beside L stack stack (v.bindSteps L.first) (v'.bindSteps L.second) := by
  unfold Visit.bindSteps
  rw [L.kind_eq hv.node]
  split
  · exact .nil
  · split
    · next hk =>
      have bare : L.Bare v.node := L.bare fun h => by simp [h, Kind.isPattern] at hk
      exact Beside.within hv.node (L.patternSteps hv.node (L.push hv.scopes bare))
    · exact L.readSteps hv

/-! ## Steps and runs -/

/-- The steps of corresponding visits go side by side. -/
theorem steps (hv : L.VisitLike stack v v') :
    Beside L stack stack (v.steps L.first) (v'.steps L.second) := by
  unfold Visit.steps
  rw [hv.mode]
  split
  · exact L.readSteps hv
  · exact L.bindSteps hv

/-- So does everything that happens in their runs. -/
theorem events (v : Visit) : ∀ {v' : Visit} {stack : List Node}, L.VisitLike stack v v' →
    Beside L stack stack ((v.events L.first).map .emit) ((v'.events L.second).map .emit) := by
  intro v' stack hv
  rw [Visit.events_eq, Visit.events_eq L.second]
  refine (L.steps hv).flatten fun w w' s hw hww => ?_
  have := Visit.sizeOf_lt_of_mem_steps L.first hw
  exact events w hww
termination_by sizeOf v.node

/-- The runs of two programs go side by side if that is so inside. -/
theorem events_program (hn : L.Like n n') (hk : n.kind = .program)
    (hs : L.Scopes [n] [Frame.of L.first n] [Frame.of L.second n']) :
    Beside L [] [] ((n.events L.first).map .emit) ((n'.events L.second).map .emit) := by
  have inside : Beside L [] [] (n.visit.steps L.first) (n'.visit.steps L.second) := by
    rw [Node.steps_program L.first hk, Node.steps_program L.second (by rw [L.kind_eq hn, hk])]
    exact Beside.within hn (Beside.entering hn .none (L.insideSteps hn hs))
  unfold Node.events
  rw [Visit.events_eq, Visit.events_eq L.second]
  exact inside.flatten fun v v' stack _ hv => L.events v hv

end RunLikeness

end FreeNames
