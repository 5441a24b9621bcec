import Mathlib.Data.List.Flatten
import FreeNames.Proofs.Tree.Built
import FreeNames.Resolution.Position

/-!
# Where names stand

`Node.points` lists the names in a tree that may be read, in the order of fields, each by the byte
at which it starts.  Names that only say what something is called are left out: these are the
ones that share their place with another name.

* `Node.points_of_inner` unrolls the list by one node; `Node.flatMap_pointsIn_sublist` takes some
  of its fields, in their order.
* Numbering a tree changes nothing (`Node.points_numbered`).
-/

namespace FreeNames

/-! ## Names that are read -/

/-- Is such a node a name that may be read, or `this`? -/
def Kind.isName (k : Kind) : Bool := k = .identifier || k = .thisExpression

/-- Are the names in such a node, if there are any, those of its children? -/
def Kind.isInner (k : Kind) : Bool := !k.isName && !k.isInert

theorem Kind.isInner_iff {k : Kind} :
    k.isInner = true ↔ k.isName = false ∧ k.isInert = false := by simp [isInner]

/-- Do the layouts of the kind list these fields in this order? -/
def Kind.lists (k : Kind) (names : List String) : Bool :=
  k.readLayouts.all fun shapes => names.isSublist (shapes.map Prod.fst)

/-- Is this field, in the layouts of the kind, the first that can hold nodes? -/
def Kind.leads (k : Kind) (field : String) : Bool :=
  k.readLayouts.all fun shapes =>
    (shapes.find? fun s => !s.2.isPlain).map Prod.fst = some field

namespace Node

variable {n : Node} {field : String}

/-- Does the name of something in another module stand in the place of the own name of the
specifier, for want of an alias? -/
def doubles (n : Node) (c : String × Node) : Bool :=
  n.kind = .importSpecifier && c.1 = "imported" &&
    n.children.any fun d => d.1 = "local" && d.2.span.start = c.2.span.start

theorem doubles_of_mem {c l : Node} (kind : n.kind = .importSpecifier)
    (own : ("local", l) ∈ n.children) (place : l.span.start = c.span.start) :
    n.doubles ("imported", c) = true := by
  have found : (n.children.any fun d => d.1 = "local" && d.2.span.start = c.span.start) = true :=
    List.any_eq_true.mpr ⟨_, own, by simp [place]⟩
  simp [doubles, kind, found]

/-- Is this a specifier of an import without an alias, with one name for two? -/
def isDouble (n : Node) : Bool := n.children.any fun c => c.2.kind = .identifier && n.doubles c

/-- Only an import has specifiers without an alias among its children. -/
def HoldsImported (n : Node) : Prop :=
  ∀ c ∈ n.children, c.2.isDouble = true → n.kind = .importDeclaration

/-- Specifiers of imports without an alias stand in imports. -/
structure DoublesImported (root : Node) : Prop where
  top : root.isDouble = false
  below : root.Everywhere HoldsImported

theorem everywhere_holdsImported (children : ∀ c ∈ n.children, c.2.DoublesImported) :
    n.Everywhere HoldsImported := by
  refine everywhere_iff.mpr ⟨fun c hc double => ?_, fun c hc => (children c hc).below⟩
  rw [(children c hc).top] at double
  cases double

theorem isDouble_of_ne (ne : n.kind ≠ .importSpecifier) : n.isDouble = false := by
  simp [isDouble, doubles, ne]

/-- Does the name only say what something is called? -/
def isCalled (n : Node) (c : String × Node) : Bool :=
  c.2.kind = .identifier && (!isReadPosition (some c.1) (some n) || n.doubles c)

/-- The starts of the names in a tree that may be read. -/
def points (n : Node) : List Nat :=
  if n.kind.isName then [n.span.start]
  else if n.kind.isInert then []
  else n.children.attach.flatMap fun c => if n.isCalled c.1 then [] else c.1.2.points
termination_by sizeOf n
decreasing_by exact sizeOf_lt_of_mem_children c.2

end Node

/-- The points of the nodes in a value. -/
def Value.points (v : Value) : List Nat := v.nodes.flatMap Node.points

namespace Node

variable {n : Node} {field : String}

/-- The points of one child. -/
def pointsOf (n : Node) (c : String × Node) : List Nat := if n.isCalled c then [] else c.2.points

theorem points_of_name (hk : n.kind.isName = true) : n.points = [n.span.start] := by
  rw [points, if_pos hk]

theorem points_of_isInert (hk : n.kind.isInert = true) : n.points = [] := by
  have notName : n.kind.isName = false := by
    cases hn : n.kind <;> rw [hn] at hk <;> first | rfl | cases hk
  rw [points, notName, if_neg Bool.false_ne_true, if_pos hk]

/-- The points of an inner node are those of its children. -/
theorem points_of_inner (hk : n.kind.isInner = true) :
    n.points = n.children.flatMap n.pointsOf := by
  obtain ⟨notName, notInert⟩ := Kind.isInner_iff.mp hk
  rw [points, notName, notInert, if_neg Bool.false_ne_true, if_neg Bool.false_ne_true]
  conv => rhs; rw [← List.attach_map_subtype_val n.children]
  rw [List.flatMap_map]
  rfl

theorem pointsOf_sublist (n : Node) (c : String × Node) : (n.pointsOf c).Sublist c.2.points := by
  unfold pointsOf
  split
  · exact List.nil_sublist _
  · exact List.Sublist.refl _

theorem pointsOf_of_ne {c : String × Node} (ne : c.2.kind ≠ .identifier) :
    n.pointsOf c = c.2.points := by
  rw [pointsOf, if_neg]
  simp [isCalled, ne]

/-- The points of a node stand in its fields, and in none of which all names are called. -/
theorem points_sublist (keep : String → Bool) (notName : n.kind.isName = false)
    (called : ∀ c ∈ n.children, keep c.1 = false → n.pointsOf c = []) :
    n.points.Sublist ((n.fields.filter fun f => keep f.1).flatMap fun f => f.2.points) := by
  cases inert : n.kind.isInert with
  | true =>
    rw [points_of_isInert inert]
    exact List.nil_sublist _
  | false =>
    rw [points_of_inner (Kind.isInner_iff.mpr ⟨notName, inert⟩)]
    unfold children at called ⊢
    rw [List.flatMap_assoc]
    generalize n.fields = fs at called ⊢
    induction fs with
    | nil => exact List.Sublist.refl _
    | cons f fs ih =>
      rw [List.flatMap_cons] at called ⊢
      have rest := ih fun c hc => called c (List.mem_append_right _ hc)
      cases kept : keep f.1 with
      | true =>
        rw [List.filter_cons_of_pos (by exact kept), List.flatMap_cons, List.flatMap_map]
        exact (List.Sublist.flatMap_right _ fun c _ => pointsOf_sublist n (f.1, c)).append rest
      | false =>
        have none : (f.2.nodes.map fun c => (f.1, c)).flatMap n.pointsOf = [] := by
          refine List.flatMap_eq_nil_iff.mpr fun c hc => called c (List.mem_append_left _ hc) ?_
          obtain ⟨d, -, rfl⟩ := List.mem_map.mp hc
          exact kept
        rw [none, List.filter_cons_of_neg (by simp [kept])]
        exact rest

/-! ## Field by field -/

/-- The points of the children in one field. -/
def pointsIn (n : Node) (field : String) : List Nat :=
  (n.under field).flatMap fun c => n.pointsOf (field, c)

/-- Some of the fields of a built node, in their order. -/
theorem flatMap_pointsIn_sublist {regular : Bool} (h : n.isBuilt regular = true)
    (hk : n.kind.isInner = true) {names : List String}
    (sub : names.Sublist (n.fields.map Prod.fst)) :
    (names.flatMap n.pointsIn).Sublist n.points := by
  obtain ⟨shapes, -, -, order, children⟩ := exists_built h
  have all : n.points = (n.fields.map Prod.fst).flatMap n.pointsIn := by
    rw [points_of_inner hk, children, order, List.flatMap_assoc, List.flatMap_map]
    refine List.flatMap_congr fun s _ => ?_
    rw [List.flatMap_map]
    rfl
  rw [all]
  exact sub.flatMap _

theorem mem_children_of_under {c : Node} (h : c ∈ n.under field) : (field, c) ∈ n.children := by
  unfold under at h
  cases hv : n.field? field with
  | none => rw [hv] at h; cases h
  | some v =>
    rw [hv] at h
    exact mem_children.mpr ⟨v, mem_fields_of_field? hv, h⟩

theorem under_of_child {c : Node} (h : n.child field = .ok c) : n.under field = [c] := by
  unfold child at h
  split at h
  · next hv => cases h; rw [under, hv]; rfl
  · cases h

theorem under_of_child? {o : Option Node} (h : n.child? field = .ok o) :
    n.under field = o.toList := by
  unfold child? at h
  split at h
  · next hv => cases h; rw [under, hv]; rfl
  · next hv => cases h; rw [under, hv]; rfl
  · cases h

theorem nodes_of_allNodes? {vs : List Value} {os : List (Option Node)}
    (h : allNodes? vs = some os) : (Value.list vs).nodes = os.flatMap Option.toList := by
  induction vs generalizing os with
  | nil =>
    cases h
    rfl
  | cons v vs ih =>
    cases v with
    | node c =>
      obtain ⟨rest, hrest, rfl⟩ := Option.map_eq_some_iff.mp h
      exact congrArg (c :: ·) (ih hrest)
    | null =>
      obtain ⟨rest, hrest, rfl⟩ := Option.map_eq_some_iff.mp h
      show (Value.list vs).nodes = rest.flatMap Option.toList
      exact ih hrest
    | _ => cases h

theorem under_of_slots {os : List (Option Node)} (h : n.slots field = .ok os) :
    n.under field = os.flatMap Option.toList := by
  unfold slots at h
  split at h
  · next hv =>
    split at h
    · next hos =>
      cases h
      rw [under, hv]
      exact nodes_of_allNodes? hos
    · cases h
  · cases h

theorem under_of_items {cs : List Node} (h : n.items field = .ok cs) : n.under field = cs := by
  unfold items at h
  split at h
  · next os hos =>
    split at h
    · cases h
      rw [under_of_slots hos, List.filterMap_eq_flatMap_toList]
    · cases h
  · cases h

/-! ## Fields that are there -/

/-- The node has the field, and it is none of a node without a rule. -/
def HasSome (n : Node) (field : String) : Prop :=
  field ≠ "children" ∧ field ∈ n.fields.map Prod.fst

theorem hasSome_of_field? {v : Value} (h : n.field? field = some v) (ne : field ≠ "children") :
    n.HasSome field := ⟨ne, List.mem_map_of_mem (mem_fields_of_field? h)⟩

theorem hasSome_of_child {c : Node} (h : n.child field = .ok c) (ne : field ≠ "children") :
    n.HasSome field := by
  unfold child at h
  split at h
  · next hv => exact hasSome_of_field? hv ne
  · cases h

theorem hasSome_of_child? {o : Option Node} (h : n.child? field = .ok o) (ne : field ≠ "children") :
    n.HasSome field := by
  unfold child? at h
  split at h
  · next hv => exact hasSome_of_field? hv ne
  · next hv => exact hasSome_of_field? hv ne
  · cases h

theorem hasSome_of_slots {os : List (Option Node)} (h : n.slots field = .ok os)
    (ne : field ≠ "children") : n.HasSome field := by
  unfold slots at h
  split at h
  · next hv => exact hasSome_of_field? hv ne
  · cases h

theorem hasSome_of_items {cs : List Node} (h : n.items field = .ok cs)
    (ne : field ≠ "children") : n.HasSome field := by
  unfold items at h
  split at h
  · next hos => exact hasSome_of_slots hos ne
  · cases h

theorem isPlain_forParse (regular : Bool) (shape : Shape) :
    (shape.forParse regular).isPlain = shape.isPlain := by
  cases regular <;> cases shape <;> rfl

theorem under_of_isPlain {shape : Shape} (h : n.HasField field shape)
    (plain : shape.isPlain = true) : n.under field = [] := by
  cases shape with
  | scalar => exact h.scalar.choose_spec.2.2
  | text => exact h.text.choose_spec.2
  | _ => cases plain

/-- A node with such a field has the fields of one of the layouts of its kind. -/
theorem exists_layout_of_hasSome {regular : Bool} (h : n.isBuilt regular = true)
    (found : n.HasSome field) : ∃ shapes ∈ n.kind.readLayouts,
      (∀ s ∈ shapes, s.2.isPlain = true → n.under s.1 = []) ∧
        n.fields.map Prod.fst = shapes.map Prod.fst ∧
          n.children = shapes.flatMap fun s => inField s.1 (n.under s.1) := by
  obtain ⟨shapes, mem, has, names, children⟩ := exists_built h
  obtain ⟨base, hb, rfl⟩ := List.mem_map.mp mem
  rw [List.map_map] at names
  rw [List.flatMap_map] at children
  have layout : base ∈ n.kind.readLayouts := by
    cases regular with
    | true => exact hb
    | false =>
      rcases List.mem_cons.mp hb with rfl | hb
      · rw [HasSome, names] at found
        exact absurd (List.mem_singleton.mp found.2) found.1
      · exact hb
  refine ⟨base, layout, fun s hs plain => ?_, names, children⟩
  have field : n.HasField s.1 (s.2.forParse regular) := has (s.1, _) (List.mem_map.mpr ⟨s, hs, rfl⟩)
  exact under_of_isPlain field (by rwa [isPlain_forParse])

/-- If the layouts of the kind list the names in this order, so does the node. -/
theorem sublist_of_lists {regular : Bool} (h : n.isBuilt regular = true) {names : List String}
    (lists : n.kind.lists names = true) (found : n.HasSome field) :
    names.Sublist (n.fields.map Prod.fst) := by
  obtain ⟨shapes, mem, -, order, -⟩ := exists_layout_of_hasSome h found
  rw [order]
  exact List.isSublist_iff_sublist.mp (List.all_eq_true.mp lists shapes mem)

/-- The children in the first field that can hold any come before the others. -/
theorem flatMap_of_leads {shapes : List (String × Shape)} (nodup : (shapes.map Prod.fst).Nodup)
    (plain : ∀ s ∈ shapes, s.2.isPlain = true → n.under s.1 = [])
    (first : (shapes.find? fun s => !s.2.isPlain).map Prod.fst = some field) :
    (shapes.flatMap fun s => inField s.1 (n.under s.1)) = inField field (n.under field) ++
      (shapes.flatMap fun s => inField s.1 (n.under s.1)).filter fun c => c.1 ≠ field := by
  induction shapes with
  | nil => cases first
  | cons s shapes ih =>
    rw [List.map_cons, List.nodup_cons] at nodup
    obtain ⟨hs, hshapes⟩ := List.forall_mem_cons.mp plain
    rw [List.flatMap_cons]
    cases isPlain : s.2.isPlain with
    | true =>
      rw [List.find?_cons_of_neg (by simp [isPlain])] at first
      rw [hs isPlain, inField_nil, List.nil_append]
      exact ih nodup.2 hshapes first
    | false =>
      rw [List.find?_cons_of_pos (by simp [isPlain])] at first
      obtain rfl : s.1 = field := Option.some.inj first
      have others : ∀ c ∈ shapes.flatMap fun t => inField t.1 (n.under t.1), c.1 ≠ s.1 := by
        rintro ⟨g, c⟩ hc rfl
        obtain ⟨t, ht, hc⟩ := List.mem_flatMap.mp hc
        exact nodup.1 ((mem_inField.mp hc).1 ▸ List.mem_map_of_mem ht)
      rw [List.filter_append, filter_inField s.1 false (by simp), if_neg Bool.false_ne_true,
        List.nil_append, List.filter_eq_self.mpr fun c hc => decide_eq_true (others c hc)]

/-- The child in such a field comes before all others. -/
theorem children_of_leads {regular : Bool} (h : n.isBuilt regular = true)
    (leads : n.kind.leads field = true) {c : Node} (hc : n.child field = .ok c)
    (ne : field ≠ "children") :
    n.children = (field, c) :: n.children.filter fun d => d.1 ≠ field := by
  obtain ⟨shapes, mem, plain, -, children⟩ := exists_layout_of_hasSome h (hasSome_of_child hc ne)
  have first := of_decide_eq_true (List.all_eq_true.mp leads shapes mem)
  rw [children]
  refine (flatMap_of_leads (Kind.nodup_of_mem_readLayouts mem) plain first).trans ?_
  rw [under_of_child hc]
  rfl

/-! ## Numbering -/

theorem Renumbered.isSet {v v' : Value} (h : Renumbered v v') : v'.isSet = v.isSet := by
  cases h with
  | node n i => rfl
  | list vs i => cases vs <;> rfl
  | same => rfl

theorem isComputed_numberFrom (n : Node) (i : Nat) :
    (numberFrom i n).1.isComputed = n.isComputed := by
  rw [isComputed, isComputed, field?, field?]
  have fields := renumbered_fields n i
  generalize n.fields = fs at fields ⊢
  generalize (numberFrom i n).1.fields = fs' at fields ⊢
  induction fields with
  | nil => rfl
  | @cons f f' _ _ same _ ih =>
    obtain ⟨name, v⟩ := f
    obtain ⟨name', v'⟩ := f'
    obtain ⟨rfl, same⟩ := same
    simp only [List.lookup_cons]
    cases "computed" == name' with
    | true => exact congrArg (fun b => (some b).getD false) same.isSet
    | false => exact ih

theorem doubles_numberFrom (n : Node) (i j : Nat) (field : String) (c : Node) :
    (numberFrom i n).1.doubles (field, (numberFrom j c).1) = n.doubles (field, c) := by
  have places : (numberFrom i n).1.children.map (fun d => (d.1, d.2.span.start)) =
      n.children.map fun d => (d.1, d.2.span.start) := by
    rw [← List.forall₂_eq_eq_eq, List.forall₂_map_left_iff, List.forall₂_map_right_iff]
    refine (children_numberFrom n i).flip.imp fun d' d ⟨name, k, numbered⟩ => ?_
    rw [name, numbered, span_numberFrom]
  have search (ds : List (String × Node)) (start : Nat) :
      (ds.any fun d => d.1 = "local" && d.2.span.start = start) =
        (ds.map fun d => (d.1, d.2.span.start)).any fun d => d.1 = "local" && d.2 = start := by
    rw [List.any_map]
    rfl
  rw [doubles, doubles, search, search, places, kind_numberFrom, span_numberFrom]

theorem isDouble_numberFrom (n : Node) (i : Nat) : (numberFrom i n).1.isDouble = n.isDouble := by
  have same (c : String × Node) (j : Nat) : (numberFrom i n).1.doubles (c.1, (numberFrom j c.2).1) =
      (numberFrom i n).1.doubles c := by simp [doubles]
  have children := forall_children_numberFrom (n := n)
    (P := fun field c => ¬(c.kind = .identifier ∧ (numberFrom i n).1.doubles (field, c) = true))
    (fun c _ j => by rw [kind_numberFrom, same c j]) i
  have single (m : Node) : m.isDouble = false ↔
      ∀ c ∈ m.children, ¬(c.2.kind = .identifier ∧ m.doubles c = true) := by simp [isDouble]
  refine Bool.eq_iff_iff.mpr (not_iff_not.mp ?_)
  rw [Bool.not_eq_true, Bool.not_eq_true, single, single]
  exact children.trans (forall₂_congr fun c _ => by rw [← same c 0, doubles_numberFrom])

theorem doublesImported_numberFrom (n : Node) (i : Nat) :
    (numberFrom i n).1.DoublesImported ↔ n.DoublesImported := by
  have below := everywhere_numberFrom (P := HoldsImported) (fun m j => ?_) n i
  · exact ⟨fun h => ⟨isDouble_numberFrom n i ▸ h.top, below.mp h.below⟩,
      fun h => ⟨(isDouble_numberFrom n i).trans h.top, below.mpr h.below⟩⟩
  · rw [HoldsImported, kind_numberFrom]
    exact forall_children_numberFrom (P := fun _ c => c.isDouble = true →
      m.kind = .importDeclaration) (fun c _ k => by rw [isDouble_numberFrom]) j

/-- A numbered tree has the same points. -/
theorem points_numberFrom (n : Node) (i : Nat) : (numberFrom i n).1.points = n.points := by
  induction hn : sizeOf n using Nat.strongRecOn generalizing n i with
  | ind size ih =>
    have kind := kind_numberFrom n i
    cases inner : n.kind.isInner with
    | true =>
      have children := (List.forall₂_and_left _ _).mpr ⟨fun c hc => hc, children_numberFrom n i⟩
      have parts : List.Forall₂ Eq (n.children.flatMap n.pointsOf)
          ((numberFrom i n).1.children.flatMap (numberFrom i n).1.pointsOf) := by
        refine List.rel_flatMap children ?_
        rintro ⟨field, c⟩ ⟨field', c'⟩ ⟨hc, name, j, numbered⟩
        replace name : field' = field := name
        replace numbered : c' = (numberFrom j c).1 := numbered
        subst name numbered
        have same := ih _ (hn ▸ sizeOf_lt_of_mem_children hc) c j rfl
        have called : (numberFrom i n).1.isCalled (field', (numberFrom j c).1)
            = n.isCalled (field', c) := by
          simp only [isCalled, isReadPosition, kind_numberFrom, isComputed_numberFrom,
            doubles_numberFrom]
        rw [pointsOf, pointsOf, called, same]
        exact List.forall₂_refl _
      rw [points_of_inner inner, points_of_inner (by rwa [kind])]
      rw [List.forall₂_eq_eq_eq] at parts
      exact parts.symm
    | false =>
      rw [points, points, kind, span_numberFrom]
      cases name : n.kind.isName with
      | true => rfl
      | false =>
        have inert : n.kind.isInert = true := by simpa [Kind.isInner, name] using inner
        rw [inert]
        rfl

theorem points_numbered (n : Node) : n.numbered.points = n.points := points_numberFrom n 0

end Node

end FreeNames
