import FreeNames.Proofs.Resolution.Keys
import Mathlib.Logic.Relation

/-!
# The scopes of a whole run

After the run of a laid out tree the scopes form a tree that can be read off the syntax tree.

* `ScopeTree` lists what this means: which nodes have a scope, which scope is around which, the
  agreement of parents and children, the global scope, and where bindings come from.
* `Report.scopeTree_ofTree` proves it for every run that gives a report, and says when a run does;
  what a scope binds never changes after it has been entered.
-/

namespace FreeNames

/-- The scopes of a tree. -/
structure ScopeTree (root : Node) (b : Builder) : Prop where
  /-- Exactly the nodes that open a scope where they stand have one. -/
  bearers : ∀ n, (∃ i, (n, i) ∈ b.entered) ↔
    ∃ p ∈ root.places, p.node = n ∧ n.opensScope p.field p.parent = true
  /-- Each of them was entered once, and scopes are numbered in the order in which they were. -/
  once : (b.entered.map fun e => e.1.id).Nodup ∧
    b.entered.map Prod.snd = List.range b.forest.size
  own : ∀ n i, (n, i) ∈ b.entered →
    ∃ s, b.forest.get? i = some s ∧ s.node = some n ∧ s.kind = n.scopeKind
  /-- The scope around a scope is that of the nearest node around its node that opens one and does
  not have it outside. -/
  parents : ∀ p ∈ root.places, ∀ i, (p.node, i) ∈ b.entered →
    ∀ j, b.forest.parentOf i = some j ↔ ∃ o ∈ p.outer, (o.node, j) ∈ b.entered
  earlier : ∀ i j, b.forest.parentOf i = some j → j < i
  /-- The children of a scope, in order, are the scopes that have it as their parent. -/
  children : ∀ i s, b.forest.get? i = some s → s.children.Pairwise (· < ·) ∧
    ∀ j, j ∈ s.children ↔ b.forest.parentOf j = some i
  /-- The global scope is that of the root, has alone no parent, and is around all scopes. -/
  global : ∃ g, b.globalScope = some g ∧ (root, g) ∈ b.entered ∧
    ∀ i < b.forest.size, (b.forest.parentOf i = none ↔ i = g) ∧
      Relation.ReflTransGen (fun i j => b.forest.parentOf i = some j) i g
  /-- What a scope binds is the name of an identifier in its node, `arguments` apart. -/
  bindings : ∀ n i s, (n, i) ∈ b.entered → b.forest.get? i = some s → ∀ x ∈ s.bindings.entries,
    x.kind ≠ .implicit → ∃ m ∈ n.preorder, x.node = some m ∧ m.kind = .identifier ∧
      m.text "name" = .ok x.name

/-! ## Bindings -/

theorem Bindings.mem_declareAll {b : Bindings} {xs : List Binding} {x : Binding}
    (hx : x ∈ (b.declareAll xs).entries) : x ∈ b.entries ∨ x ∈ xs := by
  induction xs generalizing b with
  | nil => exact Or.inl hx
  | cons y xs ih =>
    rcases ih hx with hx | hx
    · replace hx : x ∈ (b.declare y).2.entries := hx
      rw [declare_snd] at hx
      split at hx
      · exact Or.inl hx
      · rcases List.mem_append.mp hx with hx | hx
        · exact Or.inl hx
        · exact Or.inr (List.mem_cons.mpr (Or.inl (List.mem_singleton.mp hx)))
    · exact Or.inr (List.mem_cons_of_mem _ hx)

theorem Declared.mem_bindings {ds : Declared} {x : Binding} (hx : x ∈ ds.bindings.entries) :
    .ok x ∈ ds := by
  rcases Bindings.mem_declareAll hx with hx | hx
  · cases hx
  · obtain ⟨d, hd, same⟩ := List.mem_filterMap.mp hx
    cases d with
    | error f => cases same
    | ok y => cases same; exact hd

/-! ## Parents -/

/-- From every scope one comes to a scope without a parent. -/
theorem Forest.IsLinked.reaches {f : Forest} (linked : f.IsLinked) {g : Nat}
    (orphan : ∀ i < f.size, f.parentOf i = none → i = g) {i : Nat} (hi : i < f.size) :
    Relation.ReflTransGen (fun i j => f.parentOf i = some j) i g := by
  induction i using Nat.strongRecOn with
  | ind i ih =>
    cases parent : f.parentOf i with
    | none => rw [orphan i hi parent]
    | some j =>
      have before := linked.earlier i j parent
      exact .head parent (ih j before (Nat.lt_trans before hi))

namespace Node.Laid

variable {root : Node} {report : Bool} {b : Builder} {p : Place}

theorem opens_root (h : root.Laid) : root.place.opens = true := by
  simp [Place.opens, opensScope, place, h.program]

theorem outer_root (root : Node) : root.place.outer = none := rfl

/-- Every other place has a scope around it. -/
theorem exists_outer (h : root.Laid) (hp : p ∈ root.places) (inner : p ≠ root.place) :
    ∃ o, p.outer = some o := by
  obtain ⟨node, above⟩ := p
  induction above generalizing node with
  | nil => exact absurd (eq_place_of_above_eq_nil hp rfl) inner
  | cons step rest ih =>
    obtain ⟨field, n⟩ := step
    have hn := (mem_places_of_above hp rfl).1
    unfold Place.outer Place.holders Place.holdersOf
    split
    · exact ⟨_, rfl⟩
    · next closed =>
      refine ih n hn fun top => closed ?_
      have program : n.kind = .program := (congrArg (·.node.kind) top).trans h.program
      rw [top, h.opens_root, isOutside_eq_false (by simp [program, Kind.isClass]) (by simp [program])]
      rfl

/-- Only the root is a program. -/
theorem eq_place_of_program (h : root.Laid) (hp : p ∈ root.places) (hk : p.node.kind = .program) :
    p = root.place := by
  rcases places_cases hp with rfl | ⟨q, hq, c, hc, rfl⟩
  · rfl
  · exact absurd hk (h.inner _ (node_mem_preorder hq) c hc)

/-- What is around an entered place is entered, and what is entered opens a scope. -/
theorem mem_entered_iff (h : root.Laid) (built : Built report root.place.entries b)
    (hp : p ∈ root.places) : (∃ i, (p.node, i) ∈ b.entered) ↔ p.opens = true := by
  constructor
  · rintro ⟨i, hi⟩
    obtain ⟨q, hq, same⟩ := built.mem_entered.mp hi
    obtain ⟨hq, opens⟩ := h.mem_entries.mp (List.mem_of_getElem? hq)
    rwa [h.isTree.eq_of_id_eq hp hq (by rw [same])]
  · intro opens
    obtain ⟨i, hi⟩ := List.getElem?_of_mem (h.mem_entries.mpr ⟨hp, opens⟩)
    exact ⟨i, built.mem_entered.mpr ⟨p, hi, rfl⟩⟩

/-- The number of an entered place is the number of its scope. -/
theorem scopeOf?_iff (h : root.Laid) (built : Built report root.place.entries b)
    (hp : p ∈ root.places) {i : Nat} : b.scopeOf? p.node = some i ↔ (p.node, i) ∈ b.entered := by
  constructor
  · intro hi
    obtain ⟨q, hq, same⟩ := built.scopeOf?_eq hi
    have mem := (h.mem_entries.mp (List.mem_of_getElem? hq)).1
    exact built.mem_entered.mpr ⟨q, hq, by rw [h.isTree.eq_of_id_eq hp mem same.symm]⟩
  · intro hi
    obtain ⟨q, hq, same⟩ := built.mem_entered.mp hi
    rw [← same]
    exact built.scopeOf?_of_getElem? h.nodup_entries hq

theorem parents (h : root.Laid) (built : Built report root.place.entries b) (hp : p ∈ root.places)
    {i : Nat} (hi : (p.node, i) ∈ b.entered) (j : Nat) :
    b.forest.parentOf i = some j ↔ ∃ o ∈ p.outer, (o.node, j) ∈ b.entered := by
  obtain ⟨q, hq, same⟩ := built.mem_entered.mp hi
  have mem := (h.mem_entries.mp (List.mem_of_getElem? hq)).1
  obtain rfl := h.isTree.eq_of_id_eq hp mem (by rw [same])
  rw [built.parentOf hq, Option.bind_eq_some_iff]
  refine exists_congr fun o => and_congr_right fun ho => ?_
  have around := (Place.of_mem_holders hp (List.mem_of_mem_head? ho)).1
  exact h.scopeOf?_iff built around

/-- The scope of the root is the global scope, and the only one without a parent. -/
theorem global (h : root.Laid) (built : Built report root.place.entries b) :
    ∃ g, b.globalScope = some g ∧ (root, g) ∈ b.entered ∧
      ∀ i < b.forest.size, (b.forest.parentOf i = none ↔ i = g) := by
  have entered := h.mem_entries.mpr ⟨root.place_mem_places, h.opens_root⟩
  have found : (root.place.entries.findIdx? fun p => p.node.kind = .program).isSome := by
    rw [List.findIdx?_isSome, List.any_eq_true]
    exact ⟨root.place, entered, by simp [place, h.program]⟩
  obtain ⟨g, hg⟩ := Option.isSome_iff_exists.mp found
  have atRoot : root.place.entries[g]? = some root.place := by
    obtain ⟨lt, program, -⟩ := List.findIdx?_eq_some_iff_getElem.mp hg
    have mem := (h.mem_entries.mp (List.getElem_mem lt)).1
    rw [List.getElem?_eq_getElem lt, h.eq_place_of_program mem (by simpa using program)]
  have nodup : root.place.entries.Nodup := .of_map _ h.nodup_entries
  refine ⟨g, built.globalScope.trans hg, built.mem_entered.mpr ⟨_, atRoot, rfl⟩, fun i lt => ?_⟩
  rw [built.size] at lt
  have hi := List.getElem?_eq_getElem lt
  constructor
  · intro orphan
    by_contra other
    have mem := (h.mem_entries.mp (List.getElem_mem lt)).1
    have inner : root.place.entries[i] ≠ root.place := by
      intro same
      rw [same] at hi
      exact other ((List.getElem?_inj lt nodup).mp (hi.trans atRoot.symm))
    obtain ⟨o, ho⟩ := h.exists_outer mem inner
    have around := Place.of_mem_holders mem (List.mem_of_mem_head? ho)
    obtain ⟨j, hj⟩ := (h.mem_entered_iff built around.1).mpr around.2
    have := (h.parents built mem (built.mem_entered.mpr ⟨_, hi, rfl⟩) j).mpr ⟨o, ho, hj⟩
    cases orphan.symm.trans this
  · rintro rfl
    rw [built.parentOf atRoot, outer_root]
    rfl

theorem bindings (h : root.Laid) (hp : p ∈ root.places) {x : Binding}
    (hx : x ∈ (p.node.declared report).bindings.entries) (explicit : x.kind ≠ .implicit) :
    ∃ m ∈ p.node.preorder, x.node = some m ∧ m.kind = .identifier ∧ m.text "name" = .ok x.name := by
  obtain ⟨y, same, given | ⟨q, hq, rest⟩⟩ := h.builtThroughout.declaredIn hp (Declared.mem_bindings hx)
  · cases same
    exact absurd (by rw [given]; rfl) explicit
  · cases same
    refine ⟨q.node, ?_, rest⟩
    rw [← Place.map_node_below]
    exact List.mem_map_of_mem hq

/-- What a builder holds after all entries is the tree of the scopes. -/
theorem scopeTree (h : root.Laid) (built : Built report root.place.entries b) :
    ScopeTree root b where
  bearers := by
    intro n
    constructor
    · rintro ⟨i, hi⟩
      obtain ⟨p, hp, rfl⟩ := built.mem_entered.mp hi
      obtain ⟨hp, opens⟩ := h.mem_entries.mp (List.mem_of_getElem? hp)
      exact ⟨p, hp, rfl, opens⟩
    · rintro ⟨p, hp, rfl, opens⟩
      exact (h.mem_entered_iff built hp).mpr opens
  once := by
    have nodes : (b.entered.map fun e => e.1.id) = root.place.entries.map fun p => p.node.id := by
      rw [built.entered, List.mapIdx_eq_zipIdx_map, List.map_map]
      conv => rhs; rw [← List.zipIdx_map_fst 0 root.place.entries, List.map_map]
      rfl
    have numbers : b.entered.map Prod.snd = List.range b.forest.size := by
      rw [built.entered, built.size, List.mapIdx_eq_zipIdx_map, List.map_map, List.range_eq_range',
        ← List.zipIdx_map_snd 0 root.place.entries]
      rfl
    exact ⟨nodes ▸ h.nodup_entries, numbers⟩
  own := by
    intro n i hi
    obtain ⟨p, hp, rfl⟩ := built.mem_entered.mp hi
    obtain ⟨s, hs, node, kind, -⟩ := built.scope i p hp
    exact ⟨s, hs, node, kind⟩
  parents := fun p hp i hi => h.parents built hp hi
  earlier := built.linked.earlier
  children := by
    intro i s hs
    rw [built.linked.children i s hs]
    refine ⟨List.pairwise_lt_range.filter _, fun j => ?_⟩
    rw [List.mem_filter, List.mem_range, decide_eq_true_eq]
    refine and_iff_right_of_imp fun parent => ?_
    unfold Forest.parentOf at parent
    obtain ⟨t, ht, -⟩ := Option.bind_eq_some_iff.mp parent
    exact Forest.lt_size_of_get? ht
  global := by
    obtain ⟨g, global, entered, orphan⟩ := h.global built
    refine ⟨g, global, entered, fun i hi => ⟨orphan i hi, ?_⟩⟩
    exact built.linked.reaches (fun j hj => (orphan j hj).mp) hi
  bindings := by
    intro n i s hi hs x hx explicit
    obtain ⟨p, hp, rfl⟩ := built.mem_entered.mp hi
    obtain ⟨q, hq, -, -, bindings⟩ := built.exists_of_get? hs
    obtain rfl := Option.some.inj (hp.symm.trans hq)
    rw [bindings] at hx
    exact h.bindings (h.mem_entries.mp (List.mem_of_getElem? hp)).1 hx explicit

end Node.Laid

/-- After the run of a laid out tree the scopes are those of the tree, and what each binds has not
changed since it was entered.  A run gives a report exactly if all keys can be written. -/
theorem Report.scopeTree_ofTree {root : Node} {report : Bool} (h : root.Laid) :
    ((∃ r, ofTree report root = .ok r) ↔ root.KeysWritable report) ∧
    ∀ r, ofTree report root = .ok r → ScopeTree root r.scopes ∧
      ∀ before after r₀, root.events report = before ++ after →
        ofEvents report before = .ok r₀ → ∀ i s₀, r₀.scopes.forest.get? i = some s₀ →
          ∃ s, r.scopes.forest.get? i = some s ∧ s.bindings = s₀.bindings := by
  refine ⟨h.ofTree_writtenIff.exists_ok_iff, fun r run => ⟨h.scopeTree (h.built_ofTree run), ?_⟩⟩
  intro before after r₀ split part i s₀ hs₀
  obtain ⟨seen, ⟨rest, entries⟩, -, built⟩ := h.built split part
  obtain ⟨p, hp, -, -, bindings⟩ := built.exists_of_get? hs₀
  have later : root.place.entries[i]? = some p := by
    rw [← entries]
    exact List.getElem?_append_left (List.getElem?_eq_some_iff.mp hp).1 |>.trans hp
  obtain ⟨s, hs, -, -, same, -⟩ := (h.built_ofTree run).scope i p later
  exact ⟨s, hs, same.trans bindings.symm⟩

/-- The program `switch (class extends (() => b) {}) {}`. -/
def switchOnClass : Node :=
  .mk 0 .program default [("body", .list [.node (.mk 1 .switchStatement default
    [("discriminant", .node (.mk 2 .classExpression default
      [("decorators", .list []), ("id", .null),
        ("superClass", .node (.mk 3 .arrowFunctionExpression default
          [("id", .null), ("params", .list []),
            ("body", .node (.mk 4 .identifier default [("name", .text "b")])),
            ("expression", .bool true), ("generator", .bool false), ("async_", .bool false)])),
        ("body", .node (.mk 5 .classBody default [("body", .list [])]))])),
      ("cases", .list [])])]), ("sourceType", .text "module")]

/-- The function, the class and the switch are all directly inside the program. -/
theorem switchOnClass_scopeTree : switchOnClass.Laid ∧
    ∃ r, Report.ofTree true switchOnClass = .ok r ∧ ScopeTree switchOnClass r.scopes ∧
      r.scopes.entered.map (fun e => (e.1.id, r.scopes.forest.parentOf e.2)) =
        [(0, none), (3, some 0), (2, some 0), (1, some 0)] := by
  have laid : switchOnClass.Laid := by decide_cbv
  have run : (Report.ofTree true switchOnClass).map (fun r =>
      r.scopes.entered.map fun e => (e.1.id, r.scopes.forest.parentOf e.2)) =
        .ok [(0, none), (3, some 0), (2, some 0), (1, some 0)] := by cbv
  cases h : Report.ofTree true switchOnClass with
  | error f => rw [h] at run; cases run
  | ok r =>
    rw [h] at run
    exact ⟨laid, r, rfl, ((Report.scopeTree_ofTree laid).2 r h).1, Except.ok.inj run⟩

end FreeNames
