import Mathlib
import FreeNames.Proofs.Tree.Sites
import FreeNames.Resolution.Events

/-!
# Binders and readers of declaration patterns

Two recursions go down a declaration pattern.  `Node.patternNames` lists the names that it binds;
the traversal passes over these and reads everything else in it that is code: defaults, computed
keys, and whatever is no pattern.

* `Visit.unrolled` is the run of a pattern down to where it reads or passes over a name, and
  `Visit.calls` are the nodes at which it arrives.
* `Node.IsDeclarationPattern.splits`: both recursions agree with the sites of the pattern, so no
  identifier of it is both bound and read, and none but those of keys that are not computed is
  neither.
-/

namespace FreeNames

/-! ## Runs down to code -/

/-- The visit that a part of a step is, if it is one. -/
def Step.visit? : Step → Option Visit
  | .emit _ => none
  | .go v => some v

namespace Visit

/-- The run of a declaration pattern, with no visit replaced by its run that passes over a name or
looks at code. -/
def unrolled (v : Visit) : List Step :=
  if v.mode = .bind ∧ v.node.kind ≠ .identifier then
    if v.node.kind.isPattern then
      (within v.node (patternSteps v.node v.scopes)).attach.flatMap fun
        | ⟨.emit e, _⟩ => [.emit e]
        | ⟨.go w, _⟩ => w.unrolled
    else [.go { v with mode := .read }]
  else [.go v]
termination_by sizeOf v.node
decreasing_by exact (Below.within (below_patternSteps _ _) _ (by assumption)).sizeOf_lt

/-- The visits at which the run of a pattern arrives, in order. -/
def calls (v : Visit) : List Visit := v.unrolled.filterMap Step.visit?

end Visit

/-- The run of a part of a step. -/
def Step.unrolled : Step → List Step
  | .emit e => [.emit e]
  | .go v => v.unrolled

namespace Visit

variable {v : Visit} {report : Bool}

theorem unrolled_of_pattern (bind : v.mode = .bind) (name : v.node.kind ≠ .identifier)
    (hk : v.node.kind.isPattern = true) :
    v.unrolled = (within v.node (patternSteps v.node v.scopes)).flatMap Step.unrolled := by
  rw [unrolled, if_pos ⟨bind, name⟩, if_pos hk]
  conv => rhs; rw [← List.attach_map_subtype_val (within v.node (patternSteps v.node v.scopes))]
  rw [List.flatMap_map]
  congr 1
  funext x
  obtain ⟨_ | _, _⟩ := x <;> rfl

theorem unrolled_of_leaf (bind : v.mode = .bind) (hk : v.node.kind.isPattern = false) :
    v.unrolled = [.go { v with mode := .read }] := by
  rw [unrolled, if_pos ⟨bind, Node.not_identifier_of_not_isPattern hk⟩, if_neg (by simp [hk])]

theorem unrolled_of_name (hk : v.node.kind = .identifier) : v.unrolled = [.go v] := by
  rw [unrolled, if_neg (by simp [hk])]

theorem unrolled_of_read (read : v.mode = .read) : v.unrolled = [.go v] := by
  rw [unrolled, if_neg (by simp [read])]

/-- What happens in a visit is what happens in its run down to code. -/
theorem events_unrolled (report : Bool) (v : Visit) :
    v.events report = v.unrolled.flatMap (Step.events report) := by
  by_cases bind : v.mode = .bind
  · by_cases name : v.node.kind = .identifier
    · rw [unrolled_of_name name, List.flatMap_singleton]
      rfl
    cases pattern : v.node.kind.isPattern with
    | false =>
      rw [unrolled_of_leaf bind pattern, List.flatMap_singleton, Step.events, events_eq, events_eq]
      simp only [steps, bind, bindSteps, if_neg name, pattern]
      rfl
    | true =>
      rw [unrolled_of_pattern bind name pattern, events_eq, List.flatMap_assoc]
      simp only [steps, bind, bindSteps, if_neg name, pattern, if_true]
      refine List.flatMap_congr fun s hs => ?_
      cases s with
      | emit e => rfl
      | go w =>
        have smaller : sizeOf w.node < sizeOf v.node :=
          (Below.within (below_patternSteps _ _) _ hs).sizeOf_lt
        exact events_unrolled report w
  · have read : v.mode = .read := by
      cases mode : v.mode with
      | read => rfl
      | bind => exact absurd mode bind
    rw [unrolled_of_read read, List.flatMap_singleton]
    rfl
termination_by sizeOf v.node

end Visit

/-! ## Runs and sites -/

/-- The call that looks at the node of a site, if there is one. -/
def Site.call (scopes : List Frame) (s : Site) : Option Visit :=
  match s.role with
  | .staticKey => none
  | .name => some ⟨.bind, s.node, s.field, s.parent, scopes⟩
  | .computedKey | .default | .leaf => some ⟨.read, s.node, s.field, s.parent, scopes⟩

/-- Steps arrive at the sites, in order, and nothing else happens in them than that nodes are
entered and left. -/
structure ArriveAt (scopes : List Frame) (steps : List Step) (sites : List Site) : Prop where
  calls : steps.filterMap Step.visit? = sites.filterMap (Site.call scopes)
  moves : ∀ e, .emit e ∈ steps → e = .pop ∨ ∃ m, e = .push m

namespace ArriveAt

variable {scopes : List Frame} {steps steps' : List Step} {sites sites' : List Site}

theorem nil : ArriveAt scopes [] [] := ⟨rfl, by simp⟩

theorem append (h : ArriveAt scopes steps sites) (h' : ArriveAt scopes steps' sites') :
    ArriveAt scopes (steps ++ steps') (sites ++ sites') where
  calls := by rw [List.filterMap_append, List.filterMap_append, h.calls, h'.calls]
  moves e he := by
    rcases List.mem_append.mp he with he | he
    · exact h.moves e he
    · exact h'.moves e he

theorem flatMap {α : Type} {xs : List α} {f : α → List Step} {g : α → List Site}
    (h : ∀ x ∈ xs, ArriveAt scopes (f x) (g x)) :
    ArriveAt scopes (xs.flatMap f) (xs.flatMap g) := by
  induction xs with
  | nil => exact .nil
  | cons x xs ih =>
    exact (h x (List.mem_cons_self ..)).append (ih fun y hy => h y (List.mem_cons_of_mem _ hy))

theorem go {v : Visit} {s : Site} (h : s.call scopes = some v) : ArriveAt scopes [.go v] [s] := by
  refine ⟨?_, by simp⟩
  simp [Step.visit?, h]

/-- Entering and leaving a node around steps. -/
theorem within (n : Node) (h : ArriveAt scopes steps sites) :
    ArriveAt scopes (FreeNames.within n steps) sites where
  calls := by
    rw [FreeNames.within, List.filterMap_append, List.filterMap_cons, h.calls]
    simp [Step.visit?]
  moves e he := by
    simp only [FreeNames.within, List.cons_append, List.mem_cons, List.mem_append,
      List.not_mem_nil, or_false, Step.emit.injEq] at he
    rcases he with he | he | he
    · exact .inr ⟨n, he⟩
    · exact h.moves e he
    · exact .inl he

end ArriveAt

theorem unrolled_within (n : Node) (steps : List Step) :
    (within n steps).flatMap Step.unrolled = within n (steps.flatMap Step.unrolled) := by
  simp [within, Step.unrolled]

namespace Node

variable {n : Node} {scopes : List Frame}

/-- The visit of a node as a declaration pattern. -/
def bindVisit (n : Node) (field : Option String) (parent : Option Node) (scopes : List Frame) :
    Visit := ⟨.bind, n, field, parent, scopes⟩

theorem unrolled_bindVisit {field : Option String} {parent : Option Node}
    (name : n.kind ≠ .identifier) (hk : n.kind.isPattern = true) :
    (n.bindVisit field parent scopes).unrolled =
      within n ((Visit.patternSteps n scopes).flatMap Step.unrolled) := by
  rw [Visit.unrolled_of_pattern rfl name hk, unrolled_within]
  rfl

/-- The steps of an entry with a key follow its key and its value. -/
theorem IsPair.arriveAt {p key value pattern : Node} (h : p.IsPair key value)
    (hk : p.kind = .property)
    (hv : ArriveAt scopes (value.bindVisit (some "value") (some p) scopes).unrolled
      (value.sites (some "value") (some p))) :
    ArriveAt scopes ((Visit.propertySteps p pattern scopes).flatMap Step.unrolled)
      p.entrySites := by
  rw [Visit.propertySteps, if_pos hk, unrolled_within, h.entrySites_eq, h.computed, h.key_eq,
    h.value_eq, List.flatMap_append, ← List.singleton_append]
  refine .within p (.append ?_ ?_)
  · cases computed : p.isComputed with
    | true =>
      have call : (Site.mk p.keyRole (some "key") (some p) key).call scopes =
          some ⟨.read, key, some "key", some p, scopes⟩ := by
        simp [Site.call, keyRole, computed]
      simpa [need, reading, Step.unrolled, Visit.unrolled_of_read] using ArriveAt.go call
    | false =>
      refine ⟨?_, by simp [need]⟩
      simp [need, Site.call, keyRole, computed]
  · simpa [bindVisit, need, binding, Step.unrolled] using hv

/-- The run of a declaration pattern arrives at the sites. -/
theorem IsDeclarationPattern.arriveAt (h : n.IsDeclarationPattern) (field : Option String)
    (parent : Option Node) (scopes : List Frame) :
    ArriveAt scopes (n.bindVisit field parent scopes).unrolled (n.sites field parent) := by
  induction h generalizing field parent with
  | name hk _ =>
    rw [Visit.unrolled_of_name hk, sites_of_name hk]
    exact .go rfl
  | leaf hk =>
    rw [Visit.unrolled_of_leaf rfl hk, sites_of_leaf hk]
    exact .go rfl
  | @rest n a hk child children _ ih =>
    rw [unrolled_bindVisit (by simp [hk]) (by simp [hk, Kind.isPattern]),
      sites_of_rest hk children]
    refine .within n ?_
    simpa [bindVisit, Visit.patternSteps, hk, child, need, binding, Step.unrolled] using
      ih (some "argument") (some n)
  | @assignment n l r hk left right children _ ih =>
    rw [unrolled_bindVisit (by simp [hk]) (by simp [hk, Kind.isPattern]),
      sites_of_assignment hk children]
    refine .within n ?_
    have read : ArriveAt scopes [reading r "right" n scopes]
        [⟨.default, some "right", some n, r⟩] := .go rfl
    simpa [bindVisit, Visit.patternSteps, hk, left, right, need, binding, reading, Step.unrolled,
      Visit.unrolled_of_read] using (ih (some "left") (some n)).append read
  | @array n es hk slots children _ ih =>
    rw [unrolled_bindVisit (by simp [hk]) (by simp [hk, Kind.isPattern]),
      sites_of_array hk children]
    refine .within n ?_
    simp only [Visit.patternSteps, hk, slots, need, List.flatMap_assoc]
    refine .flatMap fun e he => ?_
    cases e with
    | none => exact .nil
    | some c =>
      simpa [bindVisit, binding, Step.unrolled] using ih c he (some "elements") (some n)
  | @object n ps hk items children pairs _ _ ihValue ihOther =>
    rw [unrolled_bindVisit (by simp [hk]) (by simp [hk, Kind.isPattern]),
      sites_of_object hk children]
    refine .within n ?_
    simp only [Visit.patternSteps, hk, items, need, List.flatMap_assoc]
    refine .flatMap fun p hp => ?_
    by_cases property : p.kind = .property
    · obtain ⟨key, value, pair⟩ := pairs p hp property
      rw [if_pos property]
      exact pair.arriveAt property (ihValue p hp property value pair.value_eq _ _)
    · simpa [bindVisit, Visit.propertySteps, property, binding, Step.unrolled] using
        ihOther p hp property (some "properties") (some n)

/-! ## The identifiers -/

/-- An identifier stands at one site only. -/
theorem site_unique (distinct : (n.preorder.map Node.id).Nodup) {sites : List Site}
    (all : n.identifiers = sites.flatMap Site.identifiers) {m : Node} {s s' : Site}
    (hs : s ∈ sites) (hs' : s' ∈ sites) (hm : m ∈ s.identifiers) (hm' : m ∈ s'.identifiers) :
    s = s' := by
  have nodup : (sites.flatMap Site.identifiers).Nodup := all ▸ (distinct.of_map _).filter _
  have apart := (List.nodup_flatMap.mp nodup).2
  have : Std.Symm (Function.onFun List.Disjoint Site.identifiers) :=
    ⟨fun _ _ h _ hs hs' => h hs' hs⟩
  by_contra differ
  exact apart.forall hs hs' differ hm hm'

/-- The names at sites are the identifiers at those with this role. -/
theorem mem_namesOf {sites : List Site} {m : Node} :
    m ∈ namesOf sites ↔ ∃ s ∈ sites, s.role = .name ∧ m ∈ s.identifiers := by
  simp only [namesOf, List.mem_filterMap, Option.ite_none_right_eq_some, Option.some.injEq]
  constructor
  · rintro ⟨s, hs, role, rfl⟩
    exact ⟨s, hs, role, by simp [Site.identifiers, role]⟩
  · rintro ⟨s, hs, role, hm⟩
    exact ⟨s, hs, role, by simpa [Site.identifiers, role, eq_comm] using hm⟩

theorem mem_identifiers_of_ne_name {s : Site} (hs : s.role ≠ .name) {m : Node} :
    m ∈ s.identifiers ↔ m ∈ s.node.preorder ∧ m.kind = .identifier := by
  simp [Site.identifiers, hs, identifiers]

/-- The code among the sites is what calls look at as such. -/
theorem exists_read_iff (scopes : List Frame) {sites : List Site} {m : Node} :
    (∃ w ∈ sites.filterMap (Site.call scopes), w.mode = .read ∧ m ∈ w.node.preorder) ↔
      ∃ s ∈ sites, s.role ≠ .name ∧ s.role ≠ .staticKey ∧ m ∈ s.node.preorder := by
  constructor
  · rintro ⟨w, hw, read, hm⟩
    obtain ⟨s, hs, call⟩ := List.mem_filterMap.mp hw
    refine ⟨s, hs, ?_⟩
    cases role : s.role <;> simp only [Site.call, role, Option.some.injEq, reduceCtorEq] at call <;>
      subst call <;> simp_all
  · rintro ⟨s, hs, name, key, hm⟩
    refine ⟨⟨.read, s.node, s.field, s.parent, scopes⟩, List.mem_filterMap.mpr ⟨s, hs, ?_⟩, rfl, hm⟩
    cases role : s.role <;> simp_all [Site.call]

/-- A call for a name comes from a name among the sites. -/
theorem exists_name_of_bind {sites : List Site} {w : Visit}
    (hw : w ∈ sites.filterMap (Site.call scopes)) (bind : w.mode = .bind) :
    ∃ s ∈ sites, s.role = .name ∧ w.node = s.node := by
  obtain ⟨s, hs, call⟩ := List.mem_filterMap.mp hw
  refine ⟨s, hs, ?_⟩
  cases role : s.role <;> simp only [Site.call, role, Option.some.injEq, reduceCtorEq] at call <;>
    subst call <;> simp_all

/-- Nothing happens at a name that is bound. -/
theorem events_of_bound {w : Visit} (bind : w.mode = .bind) (name : w.node.kind = .identifier)
    (report : Bool) : w.events report = [] := by
  rw [Visit.events_eq, Visit.steps, bind]
  simp only [Visit.bindSteps, if_pos name, List.flatMap_nil]

/-- How a declaration pattern falls apart into what binds, what is read and keys that are not
computed. -/
structure Splits (n : Node) (field : Option String) (parent : Option Node)
    (scopes : List Frame) : Prop where
  run : ∀ report, (n.bindVisit field parent scopes).events report =
    (n.bindVisit field parent scopes).unrolled.flatMap (Step.events report)
  moves : ∀ e, .emit e ∈ (n.bindVisit field parent scopes).unrolled →
    e = .pop ∨ ∃ m, e = .push m
  calls : (n.bindVisit field parent scopes).calls =
    (n.sites field parent).filterMap (Site.call scopes)
  silent : ∀ w ∈ (n.bindVisit field parent scopes).calls, w.mode = .bind →
    w.node.kind = .identifier ∧ ∀ report, w.events report = []
  names : n.patternNames = (namesOf (n.sites field parent)).map .ok
  places : ∀ s ∈ n.sites field parent, (s.field = field ∧ s.parent = parent ∧ s.node = n) ∨
    ∃ f m, s.field = some f ∧ s.parent = some m ∧ (f, s.node) ∈ m.children ∧ (m = n ∨ m.Inside n)
  order : ((n.sites field parent).map Site.node).Sublist n.preorder
  identifiers : n.identifiers = (n.sites field parent).flatMap Site.identifiers
  once : (n.preorder.map Node.id).Nodup → ∀ m ∈ n.identifiers,
    ∃! s, s ∈ n.sites field parent ∧ m ∈ s.identifiers
  passed : (n.preorder.map Node.id).Nodup → ∀ m ∈ n.identifiers,
    ((∀ w ∈ (n.bindVisit field parent scopes).calls, w.mode = .read → m ∉ w.node.preorder) ↔
      .ok m ∈ n.patternNames ∨
        ∃ s ∈ n.sites field parent, s.role = .staticKey ∧ m ∈ s.node.preorder)

/-- What the traversal calls for in a declaration pattern and what the pattern binds are the sites
of the pattern, each once and in order; every identifier is at one of them. -/
theorem IsDeclarationPattern.splits (h : n.IsDeclarationPattern) (field : Option String)
    (parent : Option Node) (scopes : List Frame) : n.Splits field parent scopes := by
  have arrives := h.arriveAt field parent scopes
  have names := h.patternNames_eq field parent
  have identifiers := identifiers_eq n field parent fun s hs role => (h.bare hs role).2
  have silent : ∀ w ∈ (n.bindVisit field parent scopes).calls, w.mode = .bind →
      w.node.kind = .identifier ∧ ∀ report, w.events report = [] := by
    intro w hw bind
    rw [Visit.calls, arrives.calls] at hw
    obtain ⟨s, hs, role, same⟩ := exists_name_of_bind hw bind
    have kind : w.node.kind = .identifier := same ▸ (h.bare hs role).1
    exact ⟨kind, events_of_bound bind kind⟩
  refine ⟨fun report => Visit.events_unrolled report _, arrives.moves, arrives.calls, silent, names,
    fun s hs => stands_of_mem_sites n hs, sites_sublist n field parent, identifiers,
    fun distinct m hm => ?_, fun distinct m hm => ?_⟩
  · obtain ⟨s, hs, at'⟩ := List.mem_flatMap.mp (identifiers ▸ hm)
    exact ⟨s, ⟨hs, at'⟩, fun t ht => site_unique distinct identifiers ht.1 hs ht.2 at'⟩
  · obtain ⟨s, hs, at'⟩ := List.mem_flatMap.mp (identifiers ▸ hm)
    have kind : m.kind = .identifier := by simpa using (List.mem_filter.mp hm).2
    have read : (∀ w ∈ (n.bindVisit field parent scopes).calls, w.mode = .read →
        m ∉ w.node.preorder) ↔ ¬ ∃ t ∈ n.sites field parent,
          t.role ≠ .name ∧ t.role ≠ .staticKey ∧ m ∈ t.node.preorder := by
      rw [← exists_read_iff scopes, ← arrives.calls]
      simp [Visit.calls]
    have bound : .ok m ∈ n.patternNames ↔ m ∈ namesOf (n.sites field parent) := by
      simp [names]
    rw [read, bound, mem_namesOf]
    constructor
    · intro unread
      by_cases name : s.role = .name
      · exact .inl ⟨s, hs, name, at'⟩
      · have below := ((mem_identifiers_of_ne_name name).mp at').1
        by_cases key : s.role = .staticKey
        · exact .inr ⟨s, hs, key, below⟩
        · exact absurd ⟨s, hs, name, key, below⟩ unread
    · rintro passed ⟨t, ht, name, key, below⟩
      have inner := (mem_identifiers_of_ne_name name).mpr ⟨below, kind⟩
      rcases passed with ⟨u, hu, role, hm'⟩ | ⟨u, hu, role, below'⟩
      · exact name (site_unique distinct identifiers hu ht hm' inner ▸ role)
      · have hm' := (mem_identifiers_of_ne_name (by simp [role])).mpr ⟨below', kind⟩
        exact key (site_unique distinct identifiers hu ht hm' inner ▸ role)

/-- The pattern `{ a, [b]: [c, , ...d], "k": e = f }`. -/
def mixedPattern : Node :=
  .mk 0 .objectPattern default [("properties", .list
    [entry 1 (name 2 "a") false (name 3 "a") true, entry 4 (name 5 "b") true elements false,
      entry 10 word false assigned false])]
where
  name (id : Nat) (word : String) : Node :=
    .mk id .identifier default [("name", .text (Text.ofString word))]
  entry (id : Nat) (key : Node) (computed : Bool) (value : Node) (shorthand : Bool) : Value :=
    .node (.mk id .property default [("key", .node key), ("computed", .bool computed),
      ("value", .node value), ("kind", .text "init"), ("method", .bool false),
      ("shorthand", .bool shorthand)])
  elements : Node := .mk 6 .arrayPattern default [("elements", .list
    [.node (name 7 "c"), .null, .node (.mk 8 .restElement default
      [("argument", .node (name 9 "d"))])])]
  word : Node := .mk 11 .literal default [("value", .text "k"), ("raw", .text "'k'")]
  assigned : Node := .mk 12 .assignmentPattern default [("left", .node (name 13 "e")),
    ("right", .node (name 14 "f"))]

/-- The names are bound, the computed key and the default are read. -/
theorem mixedPattern_splits : mixedPattern.IsDeclarationPattern ∧
    mixedPattern.Splits (some "id") none [] ∧
    (mixedPattern.sites (some "id") none).map (fun s => (s.role, s.node.id)) =
      [(.staticKey, 2), (.name, 3), (.computedKey, 5), (.name, 7), (.name, 9), (.staticKey, 11),
        (.name, 13), (.default, 14)] := by
  have layout : (mixedPattern.preorder.all fun m => m.hasLayout) = true := by cbv
  have form := isDeclarationPattern_of_hasLayout mixedPattern (List.all_eq_true.mp layout)
  exact ⟨form, form.splits (some "id") none [], by cbv⟩

end Node

end FreeNames
