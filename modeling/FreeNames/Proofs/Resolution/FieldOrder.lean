import FreeNames.Proofs.Resolution.Spine
import FreeNames.Proofs.Tree.Points
import FreeNames.Resolution.Report

/-!
# Names are met in the order of fields

The traversal has rules of its own for functions, classes, chains, switches and patterns.  All the
same, a run that does not get stuck meets the names of a tree in the order of fields: the free
references are some of `Node.points`, in their order.

* `Reads` says of steps that they meet some of the names given, and visit parts of the tree only;
  there is one lemma for each way to build a step.
* `Visit.reads_steps` is one step of a visit, `Visit.points_events` a whole run.
-/

namespace FreeNames

open Node

variable {report : Bool}

/-! ## Trees to read -/

namespace Node

/-- A tree that conversion has built, with the specifiers of imports in imports. -/
structure IsReadable (n : Node) : Prop where
  built : n.BuiltThroughout false
  doubles : n.DoublesImported

theorem IsReadable.child {n : Node} {c : String × Node} (h : n.IsReadable)
    (hk : n.kind.isInner = true) (hc : c ∈ n.children) : c.2.IsReadable := by
  refine ⟨h.built.of_mem_children hc, ?_, h.doubles.below.of_mem_children hc⟩
  cases double : c.2.isDouble with
  | false => rfl
  | true =>
    rw [h.doubles.below.here c hc double] at hk
    cases hk

end Node

/-! ## What steps read -/

/-- The names that a visit may read, by their starts. -/
def Visit.points (v : Visit) : List Nat :=
  if v.node.kind = .identifier && (v.mode = .bind || !isReadPosition v.field v.parent) then []
  else v.node.points

/-- The name that is found free. -/
def Event.points : Event → List Nat
  | .free _ n => [n.span.start]
  | _ => []

def Step.points : Step → List Nat
  | .emit e => e.points
  | .go v => v.points

/-- Unless they get stuck, the steps read some of the names that start at these positions, in
order, and visit trees to read. -/
def Reads (ps : List Nat) (steps : List Step) : Prop :=
  (∀ f, .emit (.stuck f) ∉ steps) →
    (steps.flatMap Step.points).Sublist ps ∧ ∀ v, .go v ∈ steps → v.node.IsReadable

namespace Reads

variable {ps qs : List Nat} {xs ys : List Step} {n : Node} {scopes : List Frame}

theorem nil : Reads ps [] := fun _ => ⟨List.nil_sublist _, fun _ mem => by cases mem⟩

/-- Nothing is said of steps that get stuck. -/
theorem stuck {f : Fault} (mem : .emit (.stuck f) ∈ xs) : Reads ps xs :=
  fun clean => absurd mem (clean f)

/-- What happens, if it is no free reference, reads nothing. -/
theorem silent {α : Type} {as : List α} {e : α → Event} (h : ∀ a ∈ as, (e a).points = []) :
    Reads [] (as.map fun a => .emit (e a)) := by
  refine fun _ => ⟨?_, fun v mem => ?_⟩
  · rw [List.flatMap_map]
    exact List.sublist_nil.mpr (List.flatMap_eq_nil_iff.mpr h)
  · obtain ⟨a, -, ha⟩ := List.mem_map.mp mem
    cases ha

theorem emit {e : Event} (h : e.points = []) : Reads [] [.emit e] :=
  @silent Unit [()] (fun _ => e) fun _ _ => h

theorem append (hx : Reads ps xs) (hy : Reads qs ys) : Reads (ps ++ qs) (xs ++ ys) := by
  intro clean
  obtain ⟨subx, visitx⟩ := hx fun f mem => clean f (List.mem_append_left _ mem)
  obtain ⟨suby, visity⟩ := hy fun f mem => clean f (List.mem_append_right _ mem)
  refine ⟨by rw [List.flatMap_append]; exact subx.append suby, fun v mem => ?_⟩
  exact (List.mem_append.mp mem).elim (visitx v) (visity v)

theorem mono (hx : Reads ps xs) (sub : ps.Sublist qs) : Reads qs xs := fun clean =>
  ⟨(hx clean).1.trans sub, (hx clean).2⟩

theorem need {α : Type} {x : Except Fault α} {k : α → List Step}
    (h : ∀ a, x = .ok a → Reads ps (k a)) : Reads ps (need x k) := by
  cases x with
  | ok a => exact h a rfl
  | error f => exact stuck (List.mem_singleton_self _)

theorem within (hx : Reads ps xs) : Reads ps (within n xs) := by
  have steps := ((emit (e := .push n) rfl).append hx).append (emit (e := .pop) rfl)
  rwa [List.nil_append, List.append_nil] at steps

theorem entering : Reads [] (entering report n scopes) :=
  (silent fun _ _ => rfl).append (emit rfl)

theorem flatMap {α : Type} {as : List α} {points : α → List Nat} {k : α → List Step}
    (h : ∀ a ∈ as, Reads (points a) (k a)) : Reads (as.flatMap points) (as.flatMap k) := by
  induction as with
  | nil => exact nil
  | cons a as ih =>
    obtain ⟨ha, has⟩ := List.forall_mem_cons.mp h
    exact append ha (ih has)

theorem map {α : Type} {as : List α} {points : α → List Nat} {k : α → Step}
    (h : ∀ a ∈ as, Reads (points a) [k a]) : Reads (as.flatMap points) (as.map k) := by
  rw [List.map_eq_flatMap]
  exact flatMap h

end Reads

/-! ## Reading children -/

section Children

variable {n c : Node} {field : String} {scopes : List Frame} (h : n.IsReadable)
  (hk : n.kind.isInner = true)

include h hk

/-- A child as code. -/
theorem reads_reading (hc : (field, c) ∈ n.children) :
    Reads (n.pointsOf (field, c)) [reading c field n scopes] := by
  refine fun _ => ⟨?_, fun v mem => ?_⟩
  · have single := List.any_eq_false.mp h.doubles.top _ hc
    rw [List.flatMap_singleton, reading, Step.points, Visit.points, pointsOf, isCalled]
    by_cases name : c.kind = .identifier <;> simp_all
  · cases List.mem_singleton.mp mem
    exact h.child hk hc

/-- A child as a pattern. -/
theorem reads_binding (hc : (field, c) ∈ n.children) :
    Reads (n.pointsOf (field, c)) [binding c field n scopes] := by
  refine fun _ => ⟨?_, fun v mem => ?_⟩
  · rw [List.flatMap_singleton, binding, Step.points, Visit.points, pointsOf, isCalled]
    by_cases name : c.kind = .identifier <;> simp [name]
  · cases List.mem_singleton.mp mem
    exact h.child hk hc

theorem reads_readingChildren (keep : String → Bool) :
    Reads ((n.children.filter fun c => keep c.1).flatMap n.pointsOf)
      (readingChildren n keep scopes) :=
  .map fun _ hc => reads_reading h hk (List.mem_filter.mp hc).1

/-- All nodes of a field as code. -/
theorem reads_readingField (scopes : List Frame) {cs : List Node} (under : n.under field = cs) :
    Reads (n.pointsIn field) (cs.map fun c => reading c field n scopes) := by
  rw [pointsIn, under]
  exact .map fun c hc => reads_reading h hk (mem_children_of_under (under ▸ hc))

/-- All nodes of a field as patterns. -/
theorem reads_bindingField (scopes : List Frame) {cs : List Node} (under : n.under field = cs) :
    Reads (n.pointsIn field) (cs.map fun c => binding c field n scopes) := by
  rw [pointsIn, under]
  exact .map fun c hc => reads_binding h hk (mem_children_of_under (under ▸ hc))

/-- Steps that read some of the fields, in order, once one of them is found. -/
theorem Reads.fields (names : List String) {xs : List Step} (lists : n.kind.lists names = true)
    (found : n.HasSome field) (hx : Reads (names.flatMap n.pointsIn) xs) : Reads n.points xs :=
  hx.mono (flatMap_pointsIn_sublist h.built.here hk (sublist_of_lists h.built.here lists found))

end Children

/-! ## Rules -/

namespace Visit

variable {v : Visit} {n : Node} {scopes : List Frame}

/-- The only child in a field, as code. -/
theorem reads_child (h : n.IsReadable) (hk : n.kind.isInner = true) (scopes : List Frame)
    {c : Node} {field : String} (hc : n.child field = .ok c) :
    Reads (n.pointsIn field) [reading c field n scopes] :=
  reads_readingField h hk scopes (under_of_child hc)

theorem reads_bodySteps (h : n.IsReadable) (hk : n.kind.isInner = true) (scopes : List Frame)
    {body : Node} (hbody : n.child "body" = .ok body) :
    Reads (n.pointsIn "body") (bodySteps n body scopes) := by
  unfold bodySteps
  split
  · next block =>
    have hc := mem_children_of_child hbody
    have inner : body.kind.isInner = true := block ▸ rfl
    have points : n.pointsIn "body" = body.points := by
      rw [pointsIn, under_of_child hbody, List.flatMap_singleton, pointsOf, isCalled]
      simp [block]
    have readable : body.IsReadable := h.child hk hc
    rw [points]
    refine .within (.need fun statements hs => ?_)
    refine .fields readable inner ["body"] (block ▸ rfl)
      (hasSome_of_items hs (by decide)) ?_
    rw [List.flatMap_singleton]
    exact reads_readingField readable inner scopes (under_of_items hs)
  · exact reads_child h hk scopes hbody

theorem isInner_of_isFunction {k : Kind} (hk : k.isFunction = true) : k.isInner = true := by
  cases k <;> first | rfl | cases hk

theorem reads_functionSteps (h : v.node.IsReadable) (hk : v.node.kind.isFunction = true) :
    Reads v.node.points (v.functionSteps report) := by
  have inner := isInner_of_isFunction hk
  have lists : v.node.kind.lists ["params", "body"] = true := by
    cases hn : v.node.kind <;> rw [hn] at hk <;> first | rfl | cases hk
  cases hbody : v.node.child "body" with
  | error f => exact .stuck (f := f) (by simp [functionSteps, within, need, hbody])
  | ok body =>
    refine .fields h inner _ lists (hasSome_of_child hbody (by decide)) ?_
    have params := Reads.need fun params (hp : v.node.items "params" = .ok params) =>
      reads_bindingField h inner (Frame.of report v.node :: v.scopes) (under_of_items hp)
    have rest := Reads.need fun body (hb : v.node.child "body" = .ok body) =>
      reads_bodySteps h inner (Frame.of report v.node :: v.scopes) hb
    exact (Reads.entering.append (.within (params.append rest))).mono (by simp)

theorem reads_classSteps (h : v.node.IsReadable) (hk : v.node.kind.isClass = true) :
    Reads v.node.points (v.classSteps report) := by
  have inner : v.node.kind.isInner = true := by
    cases hn : v.node.kind <;> rw [hn] at hk <;> first | rfl | cases hk
  have lists : v.node.kind.lists ["decorators", "superClass", "body"] = true := by
    cases hn : v.node.kind <;> rw [hn] at hk <;> first | rfl | cases hk
  cases hbody : v.node.child "body" with
  | error f => exact .stuck (f := f) (by simp [classSteps, within, need, hbody])
  | ok body =>
    refine .fields h inner _ lists (hasSome_of_child hbody (by decide)) ?_
    have decorators := Reads.need fun ds (hd : v.node.items "decorators" = .ok ds) =>
      reads_readingField h inner v.scopes (under_of_items hd)
    have heritage := Reads.need fun o (ho : v.node.child? "superClass" = .ok o) =>
      reads_readingField h inner v.scopes (under_of_child? ho)
    have rest := Reads.need fun body (hb : v.node.child "body" = .ok body) =>
      reads_child h inner (Frame.of report v.node :: v.scopes) hb
    exact (Reads.within (((decorators.append heritage).append .entering).append rest)).mono
      (by simp)

/-- Only a declarator has both a pattern and an initial value. -/
theorem kind_of_declarator {k : Kind} {shapes : List (String × Shape)}
    (mem : shapes ∈ k.readLayouts) (id : "id" ∈ shapes.map Prod.fst)
    (init : "init" ∈ shapes.map Prod.fst) : k = .variableDeclarator := by
  have key : k = .variableDeclarator ∨ (k.readLayouts.all fun shapes =>
      !((shapes.map Prod.fst).contains "id" && (shapes.map Prod.fst).contains "init")) = true := by
    cases k <;> first | exact Or.inl rfl | exact Or.inr rfl
  rcases key with hk | other
  · exact hk
  · have := List.all_eq_true.mp other shapes mem
    simp [id, init] at this

theorem reads_declaratorSteps {d : Node} (h : n.IsReadable) (hk : n.kind.isInner = true)
    {field : String} (hd : (field, d) ∈ n.children) :
    Reads (n.pointsOf (field, d)) (declaratorSteps d scopes) := by
  cases hid : d.child "id" with
  | error f => exact .stuck (f := f) (by simp [declaratorSteps, within, need, hid])
  | ok pattern =>
    cases hinit : d.child? "init" with
    | error f => exact .stuck (f := f) (by simp [declaratorSteps, within, need, hinit])
    | ok init =>
      have readable : d.IsReadable := h.child hk hd
      have foundId : d.HasSome "id" := hasSome_of_child hid (by decide)
      have foundInit : d.HasSome "init" := hasSome_of_child? hinit (by decide)
      obtain ⟨shapes, mem, -, names, -⟩ := exists_layout_of_hasSome readable.built.here foundId
      have kind : d.kind = .variableDeclarator :=
        kind_of_declarator mem (names ▸ foundId.2) (names ▸ foundInit.2)
      have inner : d.kind.isInner = true := kind ▸ rfl
      rw [pointsOf_of_ne (by rw [kind]; decide)]
      refine .fields readable inner ["id", "init"] (kind ▸ rfl) foundId ?_
      have pattern := Reads.need fun p (hp : d.child "id" = .ok p) =>
        reads_bindingField readable inner scopes (under_of_child hp)
      have value := Reads.need fun o (ho : d.child? "init" = .ok o) =>
        reads_readingField readable inner scopes (under_of_child? ho)
      exact (Reads.within (pattern.append value)).mono (by simp)

/-- What is visited below a node without a rule of its own, the discriminant of a switch apart. -/
theorem reads_insideSteps (h : n.IsReadable) (hk : n.kind.isInner = true)
    (notSwitch : n.kind ≠ .switchStatement) : Reads n.points (insideSteps n scopes) := by
  unfold insideSteps
  split
  · next kind =>
    refine .need fun ds hds => ?_
    refine .fields h hk ["declarations"] (kind ▸ rfl) (hasSome_of_items hds (by decide)) ?_
    rw [List.flatMap_singleton, pointsIn, under_of_items hds]
    exact .flatMap fun d hd => reads_declaratorSteps h hk (mem_children_of_items hds hd)
  · next kind =>
    cases hbody : n.child "body" with
    | error f => exact .stuck (f := f) (by simp [need])
    | ok body =>
      refine .fields h hk ["param", "body"] (kind ▸ rfl)
        (hasSome_of_child hbody (by decide)) ?_
      have param := Reads.need fun o (ho : n.child? "param" = .ok o) =>
        reads_bindingField h hk scopes (under_of_child? ho)
      exact (param.append (reads_child h hk scopes hbody)).mono (by simp)
  · contradiction
  · refine (reads_readingChildren h hk _).mono ?_
    rw [points_of_inner hk]
    exact List.filter_sublist.flatMap _

theorem reads_plainSteps (h : v.node.IsReadable) (hk : v.node.kind.isInner = true) :
    Reads v.node.points (v.plainSteps report) := by
  refine .within ?_
  by_cases switch : v.node.kind = .switchStatement
  · have inside (scopes : List Frame) : Reads ((v.node.children.filter fun c =>
        c.1 ≠ "discriminant").flatMap v.node.pointsOf) (insideSteps v.node scopes) := by
      unfold insideSteps
      rw [switch]
      exact reads_readingChildren h hk _
    cases hd : v.node.child "discriminant" with
    | error f => exact .stuck (f := f) (by simp [outsideSteps, need, switch, hd])
    | ok d =>
      have outside :
          Reads (v.node.pointsOf ("discriminant", d)) (outsideSteps v.node v.scopes) := by
        rw [outsideSteps, if_pos switch, hd]
        exact reads_reading h hk (mem_children_of_child hd)
      have children := children_of_leads h.built.here (switch ▸ rfl) hd (by decide)
      rw [points_of_inner hk, children, List.flatMap_cons]
      refine outside.append ?_
      split
      · exact Reads.entering.append (inside _)
      · exact inside _
  · rw [outsideSteps, if_neg switch, List.nil_append]
    split
    · exact Reads.entering.append (reads_insideSteps h hk switch)
    · exact reads_insideSteps h hk switch

/-! ## Chains -/

theorem leads_of_operandField? {k : Kind} {field : String} (hf : k.operandField? = some field) :
    k.leads field = true ∧ k.isInner = true ∧ field ≠ "children" := by
  cases k <;> cases hf <;> exact ⟨rfl, rfl, by decide⟩

/-- The links of a chain read the operand first and then their other fields. -/
theorem reads_link (h : n.IsReadable) {c : Node} {field : String}
    (hf : n.kind.operandField? = some field) (hc : n.child field = .ok c) {xs : List Step}
    (hx : Reads (n.pointsOf (field, c)) xs) :
    Reads n.points (within n (xs ++ readingChildren n (keepsRest n) scopes)) := by
  obtain ⟨leads, inner, ne⟩ := leads_of_operandField? hf
  have children := children_of_leads h.built.here leads hc ne
  have rest : keepsRest n = fun f => decide (f ≠ field) := by
    funext f
    simp [keepsRest, hf]
  rw [points_of_inner inner, children, List.flatMap_cons, rest]
  exact .within (hx.append (reads_readingChildren h inner _))

theorem reads_spineSteps {operand : Node} {links : List Node} (h : n.IsReadable)
    (spine : SpineOf n links operand) : Reads n.points (spineSteps links operand scopes) := by
  induction spine with
  | @last n operand field hf hc _ =>
    obtain ⟨-, inner, -⟩ := leads_of_operandField? hf
    rw [spineSteps_singleton, hf]
    exact reads_link h hf hc (reads_reading h inner (mem_children_of_child hc))
  | @link n inner operand field links hf hc spine ih =>
    obtain ⟨-, isInner, -⟩ := leads_of_operandField? hf
    have notName : inner.kind ≠ .identifier := by
      intro name
      have := spine.isChainLink
      rw [name] at this
      cases this
    rw [spineSteps_cons n operand spine.ne_nil]
    refine reads_link h hf hc ?_
    rw [pointsOf_of_ne notName]
    exact ih (h.child isInner (mem_children_of_child hc))

theorem reads_chainSteps (h : v.node.IsReadable) (hk : v.node.kind.isChainLink = true) :
    Reads v.node.points v.chainSteps :=
  .need fun _ hs => reads_spineSteps h (spineOf hk hs)

/-! ## Visits -/

theorem points_of_ne (ne : v.node.kind ≠ .identifier) : v.points = v.node.points := by
  rw [points, if_neg]
  simp [ne]

theorem reads_identifierSteps (hk : v.node.kind = .identifier) (hv : v.mode = .read) :
    Reads v.points v.identifierSteps := by
  unfold identifierSteps
  split
  · next read =>
    have points : v.points = [v.node.span.start] := by
      rw [Visit.points, if_neg (by simp [hv, read]), points_of_name (hk ▸ rfl)]
    refine .need fun name _ => ?_
    split
    · exact .nil
    · rw [points]
      exact fun _ => ⟨List.Sublist.refl _, fun w mem => by simp at mem⟩
  · exact .nil

theorem reads_readSteps (h : v.node.IsReadable) (hv : v.mode = .read ∨ v.node.kind ≠ .identifier) :
    Reads v.points (v.readSteps report) := by
  unfold readSteps
  split
  · next hk => exact reads_identifierSteps hk (hv.resolve_right fun ne => ne hk)
  · next hk =>
    rw [points_of_ne (by rw [hk]; decide), points_of_name (hk ▸ rfl)]
    exact fun _ => ⟨List.Sublist.refl _, fun w mem => by simp at mem⟩
  · next hk =>
    rw [points_of_ne (by rw [hk]; decide)]
    refine .need fun fromModule _ => ?_
    split
    · exact .nil
    · exact reads_plainSteps h (hk ▸ rfl)
  · next notName notThis _ =>
    rw [points_of_ne notName]
    split
    · exact .nil
    next notInert =>
    have inner : v.node.kind.isInner = true := by
      simp only [Kind.isInner_iff, Kind.isName, Bool.or_eq_false_iff, decide_eq_false_iff_not]
      exact ⟨⟨notName, notThis⟩, Bool.eq_false_iff.mpr notInert⟩
    split
    · next hk => exact reads_functionSteps h hk
    split
    · next hk => exact reads_classSteps h hk
    split
    · next hk => exact reads_chainSteps h hk
    · exact reads_plainSteps h inner

theorem reads_propertySteps {p : Node} (h : n.IsReadable) (hk : n.kind.isInner = true)
    (hp : ("properties", p) ∈ n.children) :
    Reads (n.pointsOf ("properties", p)) (propertySteps p n scopes) := by
  unfold propertySteps
  split
  · next kind =>
    have readable : p.IsReadable := h.child hk hp
    have inner : p.kind.isInner = true := kind ▸ rfl
    rw [pointsOf_of_ne (by rw [kind]; decide)]
    refine .within ?_
    cases hvalue : p.child "value" with
    | error f => exact .stuck (f := f) (by simp [need])
    | ok value =>
      refine .fields readable inner ["key", "value"] (kind ▸ rfl)
        (hasSome_of_child hvalue (by decide)) ?_
      have key : Reads (p.pointsIn "key") (need (p.flag "computed") fun computed =>
          if computed then need (p.child "key") fun key => [reading key "key" p scopes]
          else []) := by
        refine .need fun computed _ => ?_
        split
        · exact .need fun key hkey => reads_child readable inner scopes hkey
        · exact .nil
      have value := reads_bindingField readable inner scopes (under_of_child hvalue)
      exact (key.append value).mono (by simp)
  · exact reads_binding h hk hp

theorem reads_patternSteps (h : n.IsReadable) (hk : n.kind.isPattern = true)
    (notName : n.kind ≠ .identifier) : Reads n.points (patternSteps n scopes) := by
  have inner : n.kind.isInner = true := by
    cases hn : n.kind <;> rw [hn] at hk notName <;> first | rfl | contradiction
  unfold patternSteps
  split
  · next kind =>
    refine .need fun ps hps => ?_
    refine .fields h inner ["properties"] (kind ▸ rfl)
      (hasSome_of_items hps (by decide)) ?_
    rw [List.flatMap_singleton, pointsIn, under_of_items hps]
    exact .flatMap fun p hp => reads_propertySteps h inner (mem_children_of_items hps hp)
  · next kind =>
    refine .need fun es hes => ?_
    refine .fields h inner ["elements"] (kind ▸ rfl)
      (hasSome_of_slots hes (by decide)) ?_
    have elements := reads_bindingField h inner scopes (under_of_slots hes)
    rw [List.map_flatMap] at elements
    rwa [List.flatMap_singleton]
  · next kind =>
    refine .need fun a ha => ?_
    refine .fields h inner ["argument"] (kind ▸ rfl)
      (hasSome_of_child ha (by decide)) ?_
    rw [List.flatMap_singleton]
    exact reads_bindingField h inner scopes (under_of_child ha)
  · next notObject notArray notRest =>
    have kind : n.kind = .assignmentPattern := by
      cases hn : n.kind <;> rw [hn] at hk <;> first | rfl | contradiction
    cases hl : n.child "left" with
    | error f => exact .stuck (f := f) (by simp [need])
    | ok l =>
      refine .fields h inner ["left", "right"] (kind ▸ rfl)
        (hasSome_of_child hl (by decide)) ?_
      have left := reads_bindingField h inner scopes (under_of_child hl)
      have right := Reads.need fun r (hr : n.child "right" = .ok r) =>
        reads_child h inner scopes hr
      exact (left.append right).mono (by simp)

theorem reads_bindSteps (h : v.node.IsReadable) : Reads v.points (v.bindSteps report) := by
  unfold bindSteps
  split
  · exact .nil
  next notName =>
  split
  · next hk =>
    rw [points_of_ne notName]
    exact .within (reads_patternSteps h hk notName)
  · exact reads_readSteps h (Or.inr notName)

/-- One step of a visit reads some of the names that the visit may read, in order. -/
theorem reads_steps (h : v.node.IsReadable) : Reads v.points (v.steps report) := by
  unfold steps
  split
  · next hv => exact reads_readSteps h (Or.inl hv)
  · exact reads_bindSteps h

/-- So does a whole run that does not get stuck. -/
theorem points_events (h : v.node.IsReadable) (clean : ∀ f, .stuck f ∉ v.events report) :
    ((v.events report).flatMap Event.points).Sublist v.points := by
  induction hsize : sizeOf v.node using Nat.strongRecOn generalizing v with
  | ind size ih =>
    rw [events_eq] at clean ⊢
    have cleanSteps : ∀ f, .emit (.stuck f) ∉ v.steps report := fun f mem =>
      clean f (List.mem_flatMap.mpr ⟨_, mem, List.mem_singleton_self _⟩)
    have reads : Reads v.points (v.steps report) := reads_steps h
    obtain ⟨sub, visits⟩ := reads cleanSteps
    refine List.Sublist.trans ?_ sub
    rw [List.flatMap_assoc]
    refine .flatMap_right _ fun s hs => ?_
    cases s with
    | emit e =>
      rw [Step.events, List.flatMap_singleton]
      exact List.Sublist.refl _
    | go w =>
      refine ih _ (hsize ▸ sizeOf_lt_of_mem_steps report hs) (visits w hs) (fun f mem => ?_) rfl
      exact clean f (List.mem_flatMap.mpr ⟨_, hs, mem⟩)

end Visit

/-- The free references of a run that does not get stuck are some of the names that may be read, in
the order of fields. -/
theorem Node.points_events {root : Node} (h : root.IsReadable)
    (clean : ∀ f, .stuck f ∉ root.events report) :
    ((root.events report).flatMap Event.points).Sublist root.points := by
  have sub := Visit.points_events (v := root.visit) h clean
  refine sub.trans ?_
  unfold Visit.points
  split
  · exact List.nil_sublist _
  · exact List.Sublist.refl _

end FreeNames
