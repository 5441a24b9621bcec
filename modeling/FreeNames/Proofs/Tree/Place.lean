import FreeNames.Tree.Walk
import Mathlib.Data.List.Nodup

/-!
# Places in a tree

A `Place` is a node of a tree together with the way to it from the root: the enclosing nodes,
innermost first, each with the field of it that leads inwards.  What the surroundings of a node
decide is a function of its place.

* `Node.places` lists the places of a tree in the order of `Node.preorder`
  (`map_node_places`); the places around a place are places of the tree again
  (`mem_places_of_above`).
* In a tree in which no node occurs twice, a node has one place
  (`Node.IsTree.eq_of_id_eq`).
-/

namespace FreeNames

/-- A node and the nodes around it, the innermost first, each with the field that leads
inwards. -/
structure Place where
  node : Node
  above : List (String × Node)

namespace Place

/-- The field of the parent that holds the node. -/
def field (p : Place) : Option String := p.above.head?.map Prod.fst

def parent (p : Place) : Option Node := p.above.head?.map Prod.snd

/-- The enclosing nodes, from the innermost outwards. -/
def enclosing (p : Place) : List Node := p.above.map Prod.snd

/-- The place of a child in a field. -/
def child (p : Place) (c : String × Node) : Place := ⟨c.2, (c.1, p.node) :: p.above⟩

/-- The places of all children in visiting order. -/
def children (p : Place) : List Place := p.node.children.map p.child

theorem sizeOf_lt_of_mem_children {p q : Place} (h : q ∈ p.children) :
    sizeOf q.node < sizeOf p.node := by
  obtain ⟨c, hc, rfl⟩ := List.mem_map.mp h
  exact Node.sizeOf_lt_of_mem_children hc

/-- A place and all places below it, every place before those of its children. -/
def below (p : Place) : List Place :=
  p :: p.children.attach.flatMap fun q => q.1.below
termination_by sizeOf p.node
decreasing_by exact sizeOf_lt_of_mem_children q.2

theorem below_eq (p : Place) : p.below = p :: p.children.flatMap below := by
  rw [below]
  congr 1
  conv => rhs; rw [← List.attach_map_subtype_val p.children]
  rw [List.flatMap_map]

@[simp] theorem node_child (p : Place) (c : String × Node) : (p.child c).node = c.2 := rfl

@[simp] theorem above_child (p : Place) (c : String × Node) :
    (p.child c).above = (c.1, p.node) :: p.above := rfl

@[simp] theorem field_child (p : Place) (c : String × Node) : (p.child c).field = some c.1 := rfl

@[simp] theorem parent_child (p : Place) (c : String × Node) :
    (p.child c).parent = some p.node := rfl

@[simp] theorem enclosing_child (p : Place) (c : String × Node) :
    (p.child c).enclosing = p.node :: p.enclosing := rfl

theorem mem_children {p q : Place} :
    q ∈ p.children ↔ ∃ c ∈ p.node.children, p.child c = q := List.mem_map

theorem child_mem_children {p : Place} {c : String × Node} (h : c ∈ p.node.children) :
    p.child c ∈ p.children := List.mem_map_of_mem h

/-! ## Below a place -/

theorem mem_below {p q : Place} :
    q ∈ p.below ↔ q = p ∨ ∃ r ∈ p.children, q ∈ r.below := by
  rw [below_eq, List.mem_cons, List.mem_flatMap]

theorem self_mem_below (p : Place) : p ∈ p.below := mem_below.mpr (Or.inl rfl)

theorem mem_below_trans {p q r : Place} (hq : q ∈ p.below) (hr : r ∈ q.below) : r ∈ p.below := by
  rcases mem_below.mp hq with rfl | ⟨s, hs, hqs⟩
  · exact hr
  · have := sizeOf_lt_of_mem_children hs
    exact mem_below.mpr (Or.inr ⟨s, hs, mem_below_trans hqs hr⟩)
termination_by sizeOf p.node

theorem mem_below_of_mem_children {p q r : Place} (hq : q ∈ p.below) (hr : r ∈ q.children) :
    r ∈ p.below :=
  mem_below_trans hq (mem_below.mpr (Or.inr ⟨r, hr, self_mem_below r⟩))

/-- What holds at a place and passes from each place to its children holds below. -/
theorem below_induction {p : Place} {P : Place → Prop} (here : P p)
    (step : ∀ q ∈ p.below, P q → ∀ r ∈ q.children, P r) : ∀ q ∈ p.below, P q := by
  have key : ∀ n (s : Place), sizeOf s.node ≤ n → s ∈ p.below → P s → ∀ q ∈ s.below, P q := by
    intro n
    induction n with
    | zero =>
      intro s hs hsp hP q hq
      rcases mem_below.mp hq with rfl | ⟨r, hr, -⟩
      · exact hP
      · have := sizeOf_lt_of_mem_children hr
        omega
    | succ n ih =>
      intro s hs hsp hP q hq
      rcases mem_below.mp hq with rfl | ⟨r, hr, hqr⟩
      · exact hP
      · have := sizeOf_lt_of_mem_children hr
        exact ih r (by omega) (mem_below_of_mem_children hsp hr) (step s hsp hP r hr) q hqr
  exact key _ p (Nat.le_refl _) (self_mem_below p) here

theorem map_node_below (p : Place) : p.below.map node = p.node.preorder := by
  rw [below_eq, Node.preorder_eq, List.map_cons, List.map_flatMap]
  congr 1
  rw [children, List.flatMap_map]
  refine List.flatMap_congr fun c hc => ?_
  have := Node.sizeOf_lt_of_mem_children hc
  exact map_node_below (p.child c)
termination_by sizeOf p.node

end Place

namespace Node

/-- The place of the root. -/
def place (root : Node) : Place := ⟨root, []⟩

/-- All places of a tree, in the order of `preorder`. -/
def places (root : Node) : List Place := root.place.below

theorem map_node_places (root : Node) : root.places.map Place.node = root.preorder :=
  Place.map_node_below root.place

theorem place_mem_places (root : Node) : root.place ∈ root.places := Place.self_mem_below _

theorem self_mem_preorder (n : Node) : n ∈ n.preorder := by
  rw [preorder_eq]
  exact List.mem_cons_self ..

/-- What is below a child is below its node. -/
theorem mem_preorder_of_mem_children {n m : Node} {c : String × Node} (hc : c ∈ n.children)
    (hm : m ∈ c.2.preorder) : m ∈ n.preorder := by
  rw [preorder_eq]
  exact List.mem_cons_of_mem _ (List.mem_flatMap.mpr ⟨c, hc, hm⟩)

theorem node_mem_preorder {root : Node} {p : Place} (h : p ∈ root.places) :
    p.node ∈ root.preorder := by
  rw [← map_node_places]
  exact List.mem_map_of_mem h

theorem exists_place_of_mem_preorder {root n : Node} (h : n ∈ root.preorder) :
    ∃ p ∈ root.places, p.node = n := by
  rw [← map_node_places] at h
  exact List.mem_map.mp h

/-- What is below a node of a tree is a node of the tree. -/
theorem mem_preorder_trans {k m n : Node} (hm : m ∈ n.preorder) (hk : k ∈ m.preorder) :
    k ∈ n.preorder := by
  obtain ⟨p, hp, rfl⟩ := exists_place_of_mem_preorder hm
  rw [← Place.map_node_below] at hk
  obtain ⟨q, hq, rfl⟩ := List.mem_map.mp hk
  exact node_mem_preorder (Place.mem_below_trans hp hq)

theorem child_mem_places {root : Node} {p : Place} {c : String × Node} (h : p ∈ root.places)
    (hc : c ∈ p.node.children) : p.child c ∈ root.places :=
  Place.mem_below_of_mem_children h (Place.child_mem_children hc)

/-- A place is the place of the root or that of a child. -/
theorem places_cases {root : Node} {p : Place} (h : p ∈ root.places) :
    p = root.place ∨ ∃ q ∈ root.places, ∃ c ∈ q.node.children, q.child c = p := by
  refine Place.below_induction (P := fun p => p = root.place ∨
    ∃ q ∈ root.places, ∃ c ∈ q.node.children, q.child c = p) (Or.inl rfl) ?_ p h
  intro q hq _ r hr
  obtain ⟨c, hc, rfl⟩ := Place.mem_children.mp hr
  exact Or.inr ⟨q, hq, c, hc, rfl⟩

theorem eq_place_of_above_eq_nil {root : Node} {p : Place} (h : p ∈ root.places)
    (hp : p.above = []) : p = root.place := by
  rcases places_cases h with rfl | ⟨q, -, c, -, rfl⟩
  · rfl
  · cases hp

/-- A place below the root is the child of a place of the tree. -/
theorem mem_places_of_above {root : Node} {p : Place} (h : p ∈ root.places)
    {f : String} {n : Node} {rest : List (String × Node)} (hp : p.above = (f, n) :: rest) :
    (⟨n, rest⟩ : Place) ∈ root.places ∧ (f, p.node) ∈ n.children := by
  rcases places_cases h with rfl | ⟨r, hr, c, hc, rfl⟩
  · cases hp
  · obtain ⟨rfl, rfl⟩ : r.node = n ∧ r.above = rest := by
      simp only [Place.above_child, List.cons.injEq, Prod.mk.injEq] at hp
      exact ⟨hp.1.2, hp.2⟩
    obtain rfl : c.1 = f := by
      simp only [Place.above_child, List.cons.injEq, Prod.mk.injEq] at hp
      exact hp.1.1
    exact ⟨hr, hc⟩

theorem exists_of_parent {root : Node} {p : Place} (h : p ∈ root.places) {f : String} {n : Node}
    (inside : p.parent = some n) (field : p.field = some f) :
    ∃ q ∈ root.places, q.node = n ∧ (f, p.node) ∈ q.node.children ∧ q.child (f, p.node) = p := by
  obtain ⟨node, above⟩ := p
  obtain _ | ⟨⟨g, m⟩, rest⟩ := above
  · cases inside
  · obtain rfl : m = n := Option.some.inj inside
    obtain rfl : g = f := Option.some.inj field
    obtain ⟨hq, hc⟩ := mem_places_of_above h rfl
    exact ⟨⟨m, rest⟩, hq, rfl, hc, rfl⟩

/-- What stands around a place is a place of the tree, and the place is below one of its
children. -/
theorem mem_places_of_append {root : Node} {p : Place} (h : p ∈ root.places)
    {before rest : List (String × Node)} {f : String} {n : Node}
    (split : p.above = before ++ (f, n) :: rest) : (⟨n, rest⟩ : Place) ∈ root.places ∧
      ∃ c, (f, c) ∈ n.children ∧ p ∈ (Place.child ⟨n, rest⟩ (f, c)).below := by
  obtain ⟨node, above⟩ := p
  obtain rfl : above = before ++ (f, n) :: rest := split
  induction before generalizing node with
  | nil =>
    obtain ⟨hn, hc⟩ := mem_places_of_above h rfl
    exact ⟨hn, node, hc, Place.self_mem_below _⟩
  | cons step before ih =>
    obtain ⟨g, m⟩ := step
    obtain ⟨hm, hc⟩ := mem_places_of_above h rfl
    obtain ⟨hn, c, hc', below⟩ := ih m hm
    exact ⟨hn, c, hc', Place.mem_below_of_mem_children below
      (Place.child_mem_children (p := ⟨m, before ++ (f, n) :: rest⟩) hc)⟩

/-- So every node around it stands in the tree. -/
theorem exists_of_mem_above {root : Node} {p : Place} (h : p ∈ root.places) {f : String} {n : Node}
    (mem : (f, n) ∈ p.above) :
    ∃ r ∈ root.places, r.node = n ∧ ∃ c, (f, c) ∈ n.children ∧ p ∈ (r.child (f, c)).below := by
  obtain ⟨before, rest, split⟩ := List.append_of_mem mem
  obtain ⟨hn, below⟩ := mem_places_of_append h split
  exact ⟨⟨n, rest⟩, hn, rfl, below⟩

/-- Under distinct names a field is found by its name. -/
theorem lookup_eq_of_mem {fields : List (String × Value)} {name : String} {v : Value}
    (nodup : (fields.map Prod.fst).Nodup) (mem : (name, v) ∈ fields) :
    fields.lookup name = some v := by
  induction fields with
  | nil => cases mem
  | cons f fields ih =>
    rw [List.map_cons, List.nodup_cons] at nodup
    rw [List.lookup_cons]
    rcases List.mem_cons.mp mem with rfl | mem
    · simp
    · have other : name ≠ f.1 := fun h => nodup.1 (h ▸ List.mem_map_of_mem mem)
      rw [beq_eq_false_iff_ne.mpr other]
      exact ih nodup.2 mem

/-! ## Children of a field -/

section

variable {n c d : Node} {field : String}

/-- Under distinct names a child is found in the value of its field. -/
theorem exists_value_of_mem_children (nodup : (n.fields.map Prod.fst).Nodup)
    (mem : (field, c) ∈ n.children) : ∃ v, n.field? field = some v ∧ c ∈ v.nodes := by
  obtain ⟨v, hv, hc⟩ := mem_children.mp mem
  exact ⟨v, lookup_eq_of_mem nodup hv, hc⟩

/-- If a field holds a single node, it is every child in that field. -/
theorem child_eq_of_mem_children (nodup : (n.fields.map Prod.fst).Nodup)
    (mem : (field, c) ∈ n.children) (hd : n.child field = .ok d) : c = d := by
  obtain ⟨v, value, hc⟩ := exists_value_of_mem_children nodup mem
  unfold child at hd
  rw [value] at hd
  cases v with
  | node m =>
    cases hd
    simpa [Value.nodes] using hc
  | _ => cases hd

theorem child?_eq_of_mem_children (nodup : (n.fields.map Prod.fst).Nodup)
    (mem : (field, c) ∈ n.children) {o : Option Node} (ho : n.child? field = .ok o) :
    o = some c := by
  obtain ⟨v, value, hc⟩ := exists_value_of_mem_children nodup mem
  unfold child? at ho
  rw [value] at ho
  cases v with
  | node m =>
    cases ho
    rw [show c = m by simpa [Value.nodes] using hc]
  | null => simp [Value.nodes] at hc
  | _ => cases ho

theorem filterMap_node?_of_allNodes? {vs : List Value} {cs : List (Option Node)}
    (h : allNodes? vs = some cs) : vs.filterMap Value.node? = cs.filterMap fun c => c := by
  induction vs generalizing cs with
  | nil =>
    cases h
    rfl
  | cons v vs ih =>
    cases v with
    | node m =>
      obtain ⟨ds, hds, rfl⟩ := Option.map_eq_some_iff.mp h
      rw [List.filterMap_cons, List.filterMap_cons, ih hds]
      rfl
    | null =>
      obtain ⟨ds, hds, rfl⟩ := Option.map_eq_some_iff.mp h
      rw [List.filterMap_cons, List.filterMap_cons, ih hds]
      rfl
    | _ => cases h

/-- If a field holds a list of nodes, every child in that field is in the list. -/
theorem mem_items_of_field? {v : Value} (value : n.field? field = some v) (hc : c ∈ v.nodes)
    {cs : List Node} (hcs : n.items field = .ok cs) : c ∈ cs := by
  unfold items slots at hcs
  rw [value] at hcs
  cases v with
  | list vs =>
    cases hall : allNodes? vs with
    | none => simp [hall] at hcs
    | some ds =>
      simp only [hall] at hcs
      split at hcs
      · cases hcs
        have same := filterMap_node?_of_allNodes? hall
        rw [Value.nodes, same] at hc
        exact hc
      · cases hcs
  | _ => cases hcs

theorem mem_items_of_mem_children (nodup : (n.fields.map Prod.fst).Nodup)
    (mem : (field, c) ∈ n.children) {cs : List Node} (hcs : n.items field = .ok cs) : c ∈ cs := by
  obtain ⟨v, value, hc⟩ := exists_value_of_mem_children nodup mem
  exact mem_items_of_field? value hc hcs

end

/-- Every node occurs once, and no node has two fields of one name. -/
structure IsTree (root : Node) : Prop where
  nodup_ids : (root.preorder.map Node.id).Nodup
  nodup_fields : ∀ n ∈ root.preorder, (n.fields.map Prod.fst).Nodup

instance (root : Node) : Decidable root.IsTree :=
  decidable_of_iff ((root.preorder.map Node.id).Nodup ∧
      (root.preorder.all fun n => decide (n.fields.map Prod.fst).Nodup) = true)
    ⟨fun h => ⟨h.1, by simpa using h.2⟩, fun h => ⟨h.1, by simpa using h.2⟩⟩

namespace IsTree

variable {root : Node}

theorem nodup_map_places (h : root.IsTree) : (root.places.map fun p => p.node.id).Nodup := by
  have := h.nodup_ids
  rwa [← map_node_places, List.map_map] at this

theorem nodup_places (h : root.IsTree) : root.places.Nodup := .of_map _ h.nodup_map_places

/-- A node stands in one place. -/
theorem eq_of_id_eq (h : root.IsTree) {p q : Place} (hp : p ∈ root.places)
    (hq : q ∈ root.places) (hid : p.node.id = q.node.id) : p = q :=
  List.inj_on_of_nodup_map h.nodup_map_places hp hq hid

end IsTree

end Node

end FreeNames
