import Mathlib
import FreeNames.Proofs.Tree.Place
import FreeNames.Tree.Links

/-!
# The links of a tree

Linking a tree walks it in the order of `Node.preorder` (`Node.walk_eq_preorder`) and enters
the children of every node.  In a tree in which no node occurs twice the links of a node are
the way to it from the root:

* `Node.IsTree.parent?_link`: the link of a node is its parent;
* `Node.IsTree.climbs_link`: from a node the links lead over the enclosing nodes of its place,
  innermost first, and end at the root, so a search for them ends (`Links.Climbs`);
* `Node.IsTree.ancestors_link`: the bounded search finds all of them;
* `Node.IsTree.walk_mirror` puts the walk and the links of a tree together.
-/

namespace FreeNames

namespace Node

theorem walkFrom_eq (stack : List Node) : walkFrom stack = stack.flatMap preorder := by
  fun_induction walkFrom stack with
  | case1 => rfl
  | case2 n pending ih =>
    rw [ih, List.flatMap_append, List.flatMap_cons, preorder_eq, List.flatMap_map,
      List.cons_append]

theorem walk_eq_preorder (n : Node) : n.walk = n.preorder := by
  rw [walk, walkFrom_eq, List.flatMap_singleton]

end Node

namespace Links

/-- Everything that linking enters, in order: the identity of a child and its parent. -/
def entries (root : Node) : List (Nat × Node) :=
  root.preorder.flatMap fun n => n.children.map fun c => (c.2.id, n)

theorem link_eq (links : Links) (root : Node) :
    links.link root
      = (entries root).foldl (fun l e => l.insert e.1 e.2) (links.erase root.id) := by
  rw [link, Node.walk_eq_preorder, entries, List.foldl_flatMap]
  simp only [List.foldl_map]
  rfl

theorem getElem?_foldl_insert_of_not_mem {es : List (Nat × Node)} {k : Nat}
    (absent : ∀ e ∈ es, e.1 ≠ k) (links : Links) :
    (es.foldl (fun l e => l.insert e.1 e.2) links)[k]? = links[k]? := by
  induction es generalizing links with
  | nil => rfl
  | cons e es ih =>
    rw [List.foldl_cons, ih fun d hd => absent d (List.mem_cons_of_mem _ hd)]
    have hne := absent e (List.mem_cons_self ..)
    rw [Std.HashMap.getElem?_insert, if_neg (by simpa using hne)]

/-- If all entries of a key agree, the key has their value. -/
theorem getElem?_foldl_insert_of_mem {es : List (Nat × Node)} {k : Nat} {n : Node}
    (mem : (k, n) ∈ es) (agree : ∀ m, (k, m) ∈ es → m = n) (links : Links) :
    (es.foldl (fun l e => l.insert e.1 e.2) links)[k]? = some n := by
  induction es generalizing links with
  | nil => cases mem
  | cons e es ih =>
    rw [List.foldl_cons]
    by_cases later : ∃ m, (k, m) ∈ es
    · obtain ⟨m, hm⟩ := later
      obtain rfl := agree m (List.mem_cons_of_mem _ hm)
      exact ih hm (fun m' hm' => agree m' (List.mem_cons_of_mem _ hm')) _
    · have absent : ∀ d ∈ es, d.1 ≠ k := fun d hd hk => later ⟨d.2, hk ▸ hd⟩
      rw [getElem?_foldl_insert_of_not_mem absent]
      rcases List.mem_cons.mp mem with rfl | h
      · simp
      · exact absurd ⟨n, h⟩ later

theorem mem_entries {root n : Node} {k : Nat} :
    (k, n) ∈ entries root ↔ ∃ p ∈ root.places, ∃ c ∈ n.children, p.node = n ∧ c.2.id = k := by
  simp only [entries, List.mem_flatMap, List.mem_map, Prod.mk.injEq]
  constructor
  · rintro ⟨m, hm, c, hc, rfl, rfl⟩
    obtain ⟨p, hp, rfl⟩ := Node.exists_place_of_mem_preorder hm
    exact ⟨p, hp, c, hc, rfl, rfl⟩
  · rintro ⟨p, hp, c, hc, rfl, rfl⟩
    exact ⟨p.node, Node.node_mem_preorder hp, c, hc, rfl, rfl⟩

/-- From a node the links lead to these nodes, one after the other, and to no further one. -/
inductive Climbs (links : Links) : Node → List Node → Prop
  | top {n : Node} : links.parent? n = none → Climbs links n []
  | up {n p : Node} {path : List Node} :
      links.parent? n = some p → Climbs links p path → Climbs links n (p :: path)

/-- A search that is not cut short finds all of them. -/
theorem Climbs.ancestorsUpTo_eq {links : Links} {n : Node} {path : List Node}
    (climbs : links.Climbs n path) {steps : Nat} (enough : path.length ≤ steps) :
    links.ancestorsUpTo steps n = path := by
  induction climbs generalizing steps with
  | top none =>
    cases steps with
    | zero => rfl
    | succ steps => rw [ancestorsUpTo, none]
  | up parent _ ih =>
    cases steps with
    | zero => cases enough
    | succ steps =>
      rw [ancestorsUpTo, parent]
      exact congrArg _ (ih (Nat.le_of_succ_le_succ enough))

end Links

namespace Node.IsTree

variable {root : Node}

/-- The link of a node is the node that holds it, whatever the links were before. -/
theorem parent?_link (tree : root.IsTree) (links : Links) {p : Place} (hp : p ∈ root.places) :
    (links.link root).parent? p.node = p.parent := by
  have child_place : ∀ {q : Place} {c : String × Node}, q ∈ root.places → c ∈ q.node.children →
      c.2.id = p.node.id → q.child c = p := fun hq hc hid =>
    tree.eq_of_id_eq (child_mem_places hq hc) hp hid
  unfold Links.parent?
  rw [Links.link_eq]
  cases habove : p.above with
  | nil =>
    have root_id : p.node.id = root.id := by
      rw [eq_place_of_above_eq_nil hp habove]
      rfl
    rw [Links.getElem?_foldl_insert_of_not_mem, root_id]
    · simp [Place.parent, habove]
    · intro e he hk
      obtain ⟨q, hq, c, hc, hn, hid⟩ := Links.mem_entries.mp (show (e.1, e.2) ∈ _ from he)
      have := child_place hq (hn ▸ hc) (hid.trans hk)
      rw [← this] at habove
      cases habove
  | cons step rest =>
    obtain ⟨f, n⟩ := step
    obtain ⟨hq, hc⟩ := mem_places_of_above hp habove
    rw [Links.getElem?_foldl_insert_of_mem (n := n)]
    · simp [Place.parent, habove]
    · exact Links.mem_entries.mpr ⟨_, hq, _, hc, rfl, rfl⟩
    · intro m hm
      obtain ⟨r, hr, c, hcm, rfl, hid⟩ := Links.mem_entries.mp hm
      have := child_place hr hcm hid
      rw [← this] at habove
      simp only [Place.above_child, List.cons.injEq, Prod.mk.injEq] at habove
      exact habove.1.2

/-! ## Following the links -/

theorem length_enclosing_lt {p : Place} (hp : p ∈ root.places) :
    p.enclosing.length < root.places.length := by
  have key : ∀ q ∈ root.places, q.enclosing.length + q.below.length ≤ root.places.length := by
    refine Place.below_induction (by simp [Place.enclosing, place, places]) fun q _ hq r hr => ?_
    have inside : r.below.length < q.below.length := by
      rw [Place.below_eq q, List.length_cons, List.flatMap_def]
      exact Nat.lt_succ_of_le
        (List.sublist_flatten_of_mem (List.mem_map_of_mem hr)).length_le
    obtain ⟨c, -, rfl⟩ := Place.mem_children.mp hr
    rw [Place.enclosing_child, List.length_cons]
    omega
  have := key p hp
  have : 0 < p.below.length := List.length_pos_of_mem (Place.self_mem_below p)
  omega

/-- The links are no fewer than the nodes below the root. -/
theorem length_places_le (tree : root.IsTree) (links : Links) :
    root.places.length ≤ (links.link root).size + 1 := by
  have tail_eq : root.places = root.place :: root.places.tail := by
    rw [places, Place.below_eq, List.tail_cons]
  have nodup : root.place ∉ root.places.tail ∧
      (root.places.tail.map fun p => p.node.id).Nodup := by
    have places_nodup := tree.nodup_places
    have ids_nodup := tree.nodup_map_places
    rw [tail_eq] at places_nodup ids_nodup
    exact ⟨(List.nodup_cons.mp places_nodup).1, (List.nodup_cons.mp ids_nodup).2⟩
  have linked : (root.places.tail.map fun p => p.node.id) ⊆ (links.link root).keys := by
    intro k hk
    obtain ⟨p, hp, rfl⟩ := List.mem_map.mp hk
    have mem : p ∈ root.places := List.mem_of_mem_tail hp
    have parent := tree.parent?_link links mem
    cases habove : p.above with
    | nil => exact absurd (eq_place_of_above_eq_nil mem habove ▸ hp) nodup.1
    | cons step rest =>
      unfold Links.parent? at parent
      rw [Std.HashMap.mem_keys, Std.HashMap.mem_iff_isSome_getElem?, parent, Place.parent, habove]
      rfl
  have := (List.subperm_of_subset nodup.2 linked).length_le
  rw [List.length_map, List.length_tail, Std.HashMap.length_keys] at this
  omega

/-- From a node of the tree the links lead over the nodes around its place, and there they
end. -/
theorem climbs_link (tree : root.IsTree) (links : Links) {p : Place} (hp : p ∈ root.places) :
    (links.link root).Climbs p.node p.enclosing := by
  obtain ⟨node, above⟩ := p
  induction above generalizing node with
  | nil => exact .top (tree.parent?_link links hp)
  | cons step rest ih =>
    exact .up (tree.parent?_link links hp) (ih step.2 (mem_places_of_above hp rfl).1)

/-- Following the links of a node gives the nodes around its place, whatever the links were
before. -/
theorem ancestors_link (tree : root.IsTree) (links : Links) {p : Place} (hp : p ∈ root.places) :
    (links.link root).ancestors p.node = p.enclosing := by
  refine (tree.climbs_link links hp).ancestorsUpTo_eq ?_
  have := length_enclosing_lt hp
  have := tree.length_places_le links
  omega

theorem ancestors_links (tree : root.IsTree) {p : Place} (hp : p ∈ root.places) :
    root.links.ancestors p.node = p.enclosing := tree.ancestors_link ∅ hp

end Node.IsTree

/-! ## A linked tree -/

namespace Node

/-- The nodes of the preorder are the root and what stands below it. -/
theorem mem_preorder_iff {root n : Node} : n ∈ root.preorder ↔ n = root ∨ n.Inside root := by
  constructor
  · intro hn
    rw [preorder_eq, List.mem_cons, List.mem_flatMap] at hn
    rcases hn with rfl | ⟨c, hc, hn⟩
    · exact .inl rfl
    · have := sizeOf_lt_of_mem_children hc
      rcases mem_preorder_iff.mp hn with rfl | below
      · exact .inr (.child hc)
      · exact .inr (.trans below (.child hc))
  · rintro (rfl | below)
    · exact self_mem_preorder n
    · induction below with
      | child hc => exact mem_preorder_of_mem_children hc (self_mem_preorder _)
      | trans _ _ inner outer => exact mem_preorder_trans outer inner
termination_by sizeOf root

end Node

/-- The links of a tree are the way from each of its nodes to the root. -/
structure Links.Mirror (links : Links) (root : Node) : Prop where
  top : links.parent? root = none
  held : ∀ n ∈ root.walk, ∀ c ∈ n.children, links.parent? c.2 = some n
  climbs : ∀ p ∈ root.places, links.Climbs p.node p.enclosing
  ancestors : ∀ p ∈ root.places, links.ancestors p.node = p.enclosing

/-- The walk lists the root and everything below it in the order of `preorder`, every node
once and so in one place, and linking makes the links those of the tree, whatever they were
before. -/
theorem Node.IsTree.walk_mirror {root : Node} (tree : root.IsTree) (links : Links) :
    root.walk = root.preorder ∧ (root.walk.map Node.id).Nodup ∧
      (∀ n, n ∈ root.walk ↔ n = root ∨ n.Inside root) ∧
      root.places.map Place.node = root.walk ∧ (links.link root).Mirror root := by
  have walk_eq := root.walk_eq_preorder
  refine ⟨walk_eq, walk_eq ▸ tree.nodup_ids, fun n => by rw [walk_eq, mem_preorder_iff],
    walk_eq ▸ root.map_node_places, ?_⟩
  refine ⟨tree.parent?_link links (place_mem_places root), fun n hn c hc => ?_,
    fun p hp => tree.climbs_link links hp, fun p hp => tree.ancestors_link links hp⟩
  rw [walk_eq] at hn
  obtain ⟨p, hp, rfl⟩ := exists_place_of_mem_preorder hn
  exact tree.parent?_link links (child_mem_places hp hc)

/-- The name in `[, a]`. -/
def Node.nameBehindHole : Node := .mk 2 .identifier default [("name", .text "a")]

/-- The array in it. -/
def Node.arrayWithHole : Node :=
  .mk 1 .arrayExpression default [("elements", .list [.null, .node nameBehindHole])]

/-- The statement `[, a]`. -/
def Node.statementWithHole : Node :=
  .mk 0 .expressionStatement default [("expression", .node arrayWithHole)]

/-- Links that run in a circle between the statement and the name. -/
def Links.circular : Links :=
  ((∅ : Links).insert 0 Node.nameBehindHole).insert 2 Node.statementWithHole

theorem Node.statementWithHole_mirror :
    statementWithHole.IsTree ∧ statementWithHole.walk.map Node.id = [0, 1, 2] ∧
      Links.circular.parent? statementWithHole = some nameBehindHole ∧
      (Links.circular.link statementWithHole).Mirror statementWithHole ∧
      (Links.circular.link statementWithHole).ancestors nameBehindHole
        = [arrayWithHole, statementWithHole] := by
  have tree : statementWithHole.IsTree := by decide_cbv
  obtain ⟨-, -, -, -, mirror⟩ := tree.walk_mirror Links.circular
  have name : (⟨nameBehindHole, [("elements", arrayWithHole), ("expression", statementWithHole)]⟩ :
      Place) ∈ statementWithHole.places :=
    child_mem_places (c := ("elements", nameBehindHole))
      (child_mem_places (c := ("expression", arrayWithHole)) (place_mem_places statementWithHole)
        (List.mem_cons_self ..)) (List.mem_cons_self ..)
  refine ⟨tree, by cbv, ?_, mirror, mirror.ancestors _ name⟩
  simp only [Links.parent?, Links.circular, statementWithHole, id_mk, Std.HashMap.getElem?_insert]
  rfl

end FreeNames
