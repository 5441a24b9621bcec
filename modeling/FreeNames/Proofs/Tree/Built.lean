import FreeNames.Proofs.Tree.Laid
import FreeNames.Tree.Walk

/-!
# What conversion builds of any parse

The layouts of `Kind.layouts` are those of parses as the grammar has them.  Of other parses
conversion builds a little more: what names a module may be anything, and where a part is
missing or misplaced a field may hold other nodes or null.

* `Kind.built` is the table; with `regular` it holds for the parses that have in place what the
  run reads, and without for all.
* `Node.Everywhere` says something of all nodes of a tree; what does not depend on numbers is left
  as it is by numbering (`everywhere_numberFrom`), so a numbered tree is built as before
  (`everywhere_isBuilt_numbered`).
-/

namespace FreeNames

/-! ## The table -/

namespace Shape

/-- The shape with nodes of all kinds, and with null in the place of any node. -/
def loose : Shape → Shape
  | .scalar => .scalar
  | .text => .text
  | .node _ | .option _ => .option Kind.isAny
  | .list _ | .slots _ => .slots Kind.isAny

/-- The shape itself in a regular parse. -/
def forParse (regular : Bool) (shape : Shape) : Shape := if regular then shape else shape.loose

variable {shape : Shape} {v : Value}

theorem isNodeOf_any {test : Kind → Bool} (h : v.isNodeOf test = true) :
    v.isNodeOf Kind.isAny = true := by
  cases v with
  | node n => rfl
  | _ => cases h

theorem isHoleOrNodeOf_any {test : Kind → Bool} (h : (v.isNull || v.isNodeOf test) = true) :
    (v.isNull || v.isNodeOf Kind.isAny) = true :=
  Bool.or_eq_true_iff.mpr ((Bool.or_eq_true_iff.mp h).imp_right isNodeOf_any)

/-- The second shape, under the same name, admits all that the first does. -/
def Covers (s t : String × Shape) : Prop :=
  s.1 = t.1 ∧ ∀ v, s.2.admits v = true → t.2.admits v = true

theorem fits_of_covers {shapes wider : List (String × Shape)} (h : List.Forall₂ Covers shapes wider)
    {fields : List (String × Value)} (fit : fits shapes fields = true) :
    fits wider fields = true := by
  induction h generalizing fields with
  | nil => exact fit
  | cons covers _ ih =>
    obtain ⟨v, rest, rfl, hv, hrest⟩ := fits_cons.mp fit
    exact fits_cons.mpr ⟨v, rest, by rw [covers.1], covers.2 v hv, ih hrest⟩

theorem admits_loose (h : shape.admits v = true) : shape.loose.admits v = true := by
  cases shape with
  | scalar => exact h
  | text => exact h
  | node test => exact Bool.or_eq_true_iff.mpr (Or.inr (isNodeOf_any h))
  | option test => exact isHoleOrNodeOf_any h
  | list test =>
    cases v with
    | list vs =>
      refine List.all_eq_true.mpr fun w hw => Bool.or_eq_true_iff.mpr (Or.inr ?_)
      exact isNodeOf_any (List.all_eq_true.mp h w hw)
    | _ => cases h
  | slots test =>
    cases v with
    | list vs =>
      exact List.all_eq_true.mpr fun w hw => isHoleOrNodeOf_any (List.all_eq_true.mp h w hw)
    | _ => cases h

theorem admits_forParse {regular : Bool} (h : shape.admits v = true) :
    (shape.forParse regular).admits v = true := by
  cases regular with
  | true => exact h
  | false => exact admits_loose h

end Shape

namespace Kind

/-- The layouts, when a module may be named by anything. -/
def readLayouts : Kind → List (List (String × Shape))
  | .importDeclaration => [[("specifiers", .list isImportSpecifier), ("source", .node isAny)]]
  | .exportNamedDeclaration =>
    [[("declaration", .node isAny), ("specifiers", .list isNone), ("source", .option isNone)],
      [("declaration", .option isNone), ("specifiers", .list (· = .exportSpecifier)),
        ("source", .option isAny)]]
  | .exportAllDeclaration => [[("exported", .option isModuleName), ("source", .option isAny)]]
  | k => k.layouts

/-- The kinds with a field that names a module. -/
def namesModule : Kind → Bool
  | .importDeclaration | .exportNamedDeclaration | .exportAllDeclaration => true
  | _ => false

theorem namesModule_of_isFunction {k : Kind} (h : k.isFunction = true) : k.namesModule = false := by
  cases k <;> first | rfl | cases h

theorem namesModule_of_isClass {k : Kind} (h : k.isClass = true) : k.namesModule = false := by
  cases k <;> first | rfl | cases h

theorem namesModule_of_isImportSpecifier {k : Kind} (h : k.isImportSpecifier = true) :
    k.namesModule = false := by
  cases k <;> first | rfl | cases h

theorem readLayouts_eq {k : Kind} (h : k.namesModule = false) : k.readLayouts = k.layouts := by
  unfold readLayouts
  split
  · cases h
  · cases h
  · cases h
  · rfl

/-- The layouts, and where nothing is known of the parse the single list of a node without a
rule. -/
def alternatives (regular : Bool) (k : Kind) : List (List (String × Shape)) :=
  if regular then k.readLayouts else [("children", .list isAny)] :: k.readLayouts

/-- What conversion builds: one of the layouts, with less in it if the parse is not regular. -/
def built (regular : Bool) (k : Kind) : List (List (String × Shape)) :=
  (k.alternatives regular).map fun shapes => shapes.map fun s => (s.1, s.2.forParse regular)

theorem mem_alternatives {regular : Bool} {k : Kind} {shapes : List (String × Shape)}
    (h : shapes ∈ k.readLayouts) : shapes ∈ k.alternatives regular := by
  cases regular with
  | true => exact h
  | false => exact List.mem_cons_of_mem _ h

/-- Every layout is one of these, or is covered by one. -/
theorem exists_wider {k : Kind} {shapes : List (String × Shape)} (h : shapes ∈ k.layouts) :
    ∃ wider ∈ k.readLayouts, List.Forall₂ Shape.Covers shapes wider := by
  have same (s : String × Shape) : Shape.Covers s s := ⟨rfl, fun _ => id⟩
  unfold readLayouts
  split
  · obtain rfl := List.mem_singleton.mp h
    exact ⟨_, .head _, .cons (same _) (.cons ⟨rfl, fun _ => Shape.isNodeOf_any⟩ .nil)⟩
  · rcases List.mem_pair.mp h with rfl | rfl
    · exact ⟨_, .head _, .cons (same _) (.cons (same _) (.cons (same _) .nil))⟩
    · exact ⟨_, .tail _ (.head _), .cons (same _) (.cons (same _)
        (.cons ⟨rfl, fun _ => Shape.isHoleOrNodeOf_any⟩ .nil))⟩
  · obtain rfl := List.mem_singleton.mp h
    exact ⟨_, .head _, .cons (same _) (.cons ⟨rfl, fun _ => Shape.isHoleOrNodeOf_any⟩ .nil)⟩
  · exact ⟨shapes, h, List.forall₂_same.mpr fun s _ => same s⟩

theorem nodup_of_mem_readLayouts {k : Kind} {shapes : List (String × Shape)}
    (h : shapes ∈ k.readLayouts) : (shapes.map Prod.fst).Nodup := by
  unfold readLayouts at h
  split at h
  · simp only [List.mem_cons, List.not_mem_nil, or_false] at h
    rw [h]
    simp
  · simp only [List.mem_cons, List.not_mem_nil, or_false] at h
    rcases h with rfl | rfl <;> simp
  · simp only [List.mem_cons, List.not_mem_nil, or_false] at h
    rw [h]
    simp
  · exact nodup_of_mem_layouts h

theorem nodup_of_mem_built {regular : Bool} {k : Kind} {shapes : List (String × Shape)}
    (h : shapes ∈ k.built regular) : (shapes.map Prod.fst).Nodup := by
  obtain ⟨base, hb, rfl⟩ := List.mem_map.mp h
  rw [List.map_map]
  cases regular with
  | true => exact nodup_of_mem_readLayouts hb
  | false =>
    rcases List.mem_cons.mp hb with rfl | hb
    · exact List.nodup_singleton _
    · exact nodup_of_mem_readLayouts hb

end Kind

namespace Node

/-- The node has the fields that conversion builds. -/
def isBuilt (regular : Bool) (n : Node) : Bool :=
  (n.kind.built regular).any fun shapes => Shape.fits shapes n.fields

/-- The fields of a built node, and its children by fields. -/
theorem exists_built {regular : Bool} {n : Node} (h : n.isBuilt regular = true) :
    ∃ shapes ∈ n.kind.built regular, (∀ s ∈ shapes, n.HasField s.1 s.2) ∧
      n.fields.map Prod.fst = shapes.map Prod.fst ∧
      n.children = shapes.flatMap fun s => (n.under s.1).map fun c => (s.1, c) := by
  obtain ⟨shapes, mem, fits⟩ := List.any_eq_true.mp h
  exact ⟨shapes, mem, fields_of_fits (Kind.nodup_of_mem_built mem) fits⟩

/-- In a regular parse a kind that names no module has its layout. -/
theorem hasLayout_of_isBuilt {n : Node} (h : n.isBuilt true = true)
    (plain : n.kind.namesModule = false) : n.hasLayout = true := by
  have same : n.kind.built true = n.kind.layouts := by
    rw [Kind.built, Kind.alternatives, Kind.readLayouts_eq plain]
    simp [Shape.forParse]
  rwa [isBuilt, same] at h

/-- The specifiers of an import in a regular parse. -/
theorem built_import {n : Node} (h : n.isBuilt true = true) (hk : n.kind = .importDeclaration) :
    ∃ specifiers, n.items "specifiers" = .ok specifiers ∧
      ∀ s ∈ specifiers, s.kind.isImportSpecifier = true := by
  obtain ⟨shapes, mem, has, -⟩ := exists_built h
  rw [hk] at mem
  obtain rfl := List.mem_singleton.mp mem
  obtain ⟨specifiers, hs, kinds, -⟩ :=
    HasField.items (has ("specifiers", .list Kind.isImportSpecifier) (List.mem_cons_self ..))
  exact ⟨specifiers, hs, kinds⟩

/-- What an export of names in a regular parse says of its module and its declaration. -/
theorem built_exportNamed {n : Node} (h : n.isBuilt true = true)
    (hk : n.kind = .exportNamedDeclaration) :
    ∃ fromModule declaration, n.given "source" = .ok fromModule ∧
      n.child? "declaration" = .ok declaration := by
  obtain ⟨shapes, mem, has, -⟩ := exists_built h
  rw [hk] at mem
  have source {test : Kind → Bool} (hs : n.HasField "source" (.option test)) :
      ∃ fromModule, n.given "source" = .ok fromModule := by
    obtain ⟨v, hv, -⟩ := hs
    exact ⟨_, by rw [given, hv]⟩
  rcases List.mem_pair.mp mem with rfl | rfl
  · obtain ⟨d, hd, -⟩ := HasField.child (has ("declaration", .node Kind.isAny) (by simp; rfl))
    obtain ⟨fromModule, hs⟩ := source (has ("source", .option Kind.isNone) (by simp; rfl))
    exact ⟨fromModule, some d, hs, child?_of_child hd⟩
  · obtain ⟨d, hd, -⟩ := HasField.child? (has ("declaration", .option Kind.isNone) (by simp; rfl))
    obtain ⟨fromModule, hs⟩ := source (has ("source", .option Kind.isAny) (by simp; rfl))
    exact ⟨fromModule, d, hs, hd⟩

/-! ## Whole trees -/

/-- The statement holds of the node and of every node below it. -/
def Everywhere (P : Node → Prop) (n : Node) : Prop := ∀ m ∈ n.preorder, P m

theorem everywhere_iff {P : Node → Prop} {n : Node} :
    n.Everywhere P ↔ P n ∧ ∀ c ∈ n.children, c.2.Everywhere P := by
  rw [Everywhere, preorder_eq]
  simp only [List.mem_cons, List.mem_flatMap, forall_eq_or_imp]
  refine and_congr_right fun _ => ⟨fun h c hc m hm => h m ⟨c, hc, hm⟩, ?_⟩
  rintro h m ⟨c, hc, hm⟩
  exact h c hc m hm

namespace Everywhere

variable {P : Node → Prop} {n c : Node} {name : String}

theorem here (h : n.Everywhere P) : P n := (everywhere_iff.mp h).1

theorem of_mem_children {p : String × Node} (h : n.Everywhere P) (hp : p ∈ n.children) :
    p.2.Everywhere P := (everywhere_iff.mp h).2 p hp

theorem of_mem_preorder {m : Node} (h : n.Everywhere P) (hm : m ∈ n.preorder) :
    m.Everywhere P := fun k hk => h k (mem_preorder_trans hm hk)

theorem of_inside {m : Node} (h : n.Everywhere P) (hm : m.Inside n) : m.Everywhere P := by
  induction hm with
  | child hc => exact h.of_mem_children hc
  | trans _ _ inner outer => exact inner (outer h)

theorem of_child (h : n.Everywhere P) (hc : n.child name = .ok c) : c.Everywhere P :=
  h.of_mem_children (mem_children_of_child hc)

theorem of_child? (h : n.Everywhere P) (hc : n.child? name = .ok (some c)) : c.Everywhere P :=
  h.of_mem_children (mem_children_of_child? hc)

theorem of_slots {cs : List (Option Node)} (h : n.Everywhere P) (hs : n.slots name = .ok cs)
    (hc : some c ∈ cs) : c.Everywhere P := h.of_mem_children (mem_children_of_slots hs hc)

theorem of_items {cs : List Node} (h : n.Everywhere P) (hs : n.items name = .ok cs)
    (hc : c ∈ cs) : c.Everywhere P := h.of_mem_children (mem_children_of_items hs hc)

end Everywhere

/-- The nodes of a tree are as conversion builds them. -/
abbrev BuiltThroughout (regular : Bool) (n : Node) : Prop :=
  n.Everywhere fun m => m.isBuilt regular = true

/-- What has its layout is as conversion builds it. -/
theorem isBuilt_of_hasLayout {n : Node} (h : n.hasLayout = true) : n.isBuilt true = true := by
  obtain ⟨shapes, mem, fits⟩ := List.any_eq_true.mp h
  obtain ⟨wider, mem, covers⟩ := Kind.exists_wider mem
  refine List.any_eq_true.mpr ⟨wider, ?_, Shape.fits_of_covers covers fits⟩
  exact List.mem_map.mpr ⟨wider, mem, List.map_id wider⟩

theorem Laid.builtThroughout {root : Node} (h : root.Laid) : root.BuiltThroughout true :=
  fun n hn => isBuilt_of_hasLayout (h.layout n hn)

/-! ## Numbering -/

/-- A value and what numbering makes of it. -/
inductive Renumbered : Value → Value → Prop
  | node (n : Node) (i : Nat) : Renumbered (.node n) (.node (numberFrom i n).1)
  | list (vs : List Value) (i : Nat) : Renumbered (.list vs) (.list (numberValues i vs).1)
  | same {v : Value} : v.isScalar = true → Renumbered v v

theorem renumbered_numberValue (v : Value) (i : Nat) : Renumbered v (numberValue i v).1 := by
  cases v with
  | node n => exact .node n i
  | list vs => exact .list vs i
  | _ => exact .same rfl

theorem renumbered_numberValues (vs : List Value) (i : Nat) :
    List.Forall₂ Renumbered vs (numberValues i vs).1 := by
  induction vs generalizing i with
  | nil => exact .nil
  | cons v vs ih => exact .cons (renumbered_numberValue v i) (ih _)

theorem renumbered_numberFields (fs : List (String × Value)) (i : Nat) :
    List.Forall₂ (fun f f' => f'.1 = f.1 ∧ Renumbered f.2 f'.2) fs (numberFields i fs).1 := by
  induction fs generalizing i with
  | nil => exact .nil
  | cons f fs ih =>
    obtain ⟨name, v⟩ := f
    exact .cons ⟨rfl, renumbered_numberValue v i⟩ (ih _)

@[simp] theorem kind_numberFrom (n : Node) (i : Nat) : (numberFrom i n).1.kind = n.kind := by
  cases n
  rfl

@[simp] theorem span_numberFrom (n : Node) (i : Nat) : (numberFrom i n).1.span = n.span := by
  cases n
  rfl

theorem renumbered_fields (n : Node) (i : Nat) :
    List.Forall₂ (fun f f' => f'.1 = f.1 ∧ Renumbered f.2 f'.2) n.fields
      (numberFrom i n).1.fields := by
  cases n with
  | mk j k s fs => exact renumbered_numberFields fs (i + 1)

namespace Renumbered

variable {v v' : Value}

theorem isNodeOf (h : Renumbered v v') (test : Kind → Bool) :
    v'.isNodeOf test = v.isNodeOf test := by
  cases h with
  | node n i => exact congrArg test (kind_numberFrom n i)
  | list vs i => rfl
  | same => rfl

theorem isNull (h : Renumbered v v') : v'.isNull = v.isNull := by cases h <;> rfl

theorem all_eq {vs vs' : List Value} (h : List.Forall₂ Renumbered vs vs') {test : Value → Bool}
    (same : ∀ v v', Renumbered v v' → test v' = test v) : vs'.all test = vs.all test := by
  induction h with
  | nil => rfl
  | cons hv _ ih => rw [List.all_cons, List.all_cons, same _ _ hv, ih]

theorem admits (h : Renumbered v v') (shape : Shape) : shape.admits v' = shape.admits v := by
  cases h with
  | node n i =>
    have kind (test : Kind → Bool) := isNodeOf (.node n i) test
    cases shape <;> simp [Shape.admits, Value.isScalar, Value.isNull, kind]
  | list vs i =>
    have items := renumbered_numberValues vs i
    cases shape with
    | list test => exact all_eq items fun v v' hv => hv.isNodeOf test
    | slots test => exact all_eq items fun v v' hv => by rw [hv.isNodeOf, hv.isNull]
    | _ => rfl
  | same => rfl

/-- The nodes of a value are numbered one by one. -/
theorem nodes (h : Renumbered v v') :
    List.Forall₂ (fun c c' => ∃ i, c' = (numberFrom i c).1) v.nodes v'.nodes := by
  cases h with
  | node n i => exact .cons ⟨i, rfl⟩ .nil
  | list vs i =>
    refine List.rel_filterMap (R := Renumbered) (fun v v' hv => ?_) (renumbered_numberValues vs i)
    cases hv with
    | node n j => exact .some ⟨j, rfl⟩
    | list ws j => exact .none
    | @same v scalar =>
      cases v with
      | node n => cases scalar
      | _ => exact .none
  | same scalar => rw [Value.nodes_of_isScalar scalar]; exact .nil

end Renumbered

theorem isBuilt_numberFrom (n : Node) (i : Nat) (regular : Bool) :
    (numberFrom i n).1.isBuilt regular = n.isBuilt regular := by
  have fits (shapes : List (String × Shape)) :
      Shape.fits shapes (numberFrom i n).1.fields = Shape.fits shapes n.fields := by
    have fields := renumbered_fields n i
    generalize n.fields = fs at fields ⊢
    generalize (numberFrom i n).1.fields = fs' at fields ⊢
    induction fields generalizing shapes with
    | nil => rfl
    | @cons f f' _ _ same _ ih =>
      obtain ⟨name, v⟩ := f
      obtain ⟨name', v'⟩ := f'
      obtain ⟨rfl, same⟩ := same
      cases shapes with
      | nil => rfl
      | cons s shapes => simp only [Shape.fits, same.admits, ih]
  rw [isBuilt, isBuilt, kind_numberFrom]
  exact congrArg _ (funext fits)

/-- The children of a node are numbered one by one. -/
theorem children_numberFrom (n : Node) (i : Nat) :
    List.Forall₂ (fun c c' => c'.1 = c.1 ∧ ∃ j, c'.2 = (numberFrom j c.2).1) n.children
      (numberFrom i n).1.children := by
  rw [children, children]
  refine List.rel_flatMap (renumbered_fields n i) fun f f' renumbered => ?_
  obtain ⟨name, same⟩ := renumbered
  rw [List.forall₂_map_left_iff, List.forall₂_map_right_iff]
  exact same.nodes.imp fun _ _ hc => ⟨name, hc⟩

/-- What is said of the children of a node, whatever their numbers. -/
theorem forall_children_numberFrom {P : String → Node → Prop} {n : Node}
    (same : ∀ c ∈ n.children, ∀ j, P c.1 (numberFrom j c.2).1 ↔ P c.1 c.2) (i : Nat) :
    (∀ c ∈ (numberFrom i n).1.children, P c.1 c.2) ↔ ∀ c ∈ n.children, P c.1 c.2 := by
  have children := children_numberFrom n i
  generalize n.children = cs at same children ⊢
  generalize (numberFrom i n).1.children = cs' at children ⊢
  induction children with
  | nil => exact Iff.rfl
  | @cons c c' _ _ renumbered _ ih =>
    obtain ⟨name, j, hj⟩ := renumbered
    obtain ⟨first, others⟩ := List.forall_mem_cons.mp same
    rw [List.forall_mem_cons, List.forall_mem_cons]
    exact and_congr (by rw [name, hj, first]) (ih others)

/-- What is said of all nodes of a tree, whatever their numbers. -/
theorem everywhere_numberFrom {P : Node → Prop} (same : ∀ m j, P (numberFrom j m).1 ↔ P m)
    (n : Node) (i : Nat) : (numberFrom i n).1.Everywhere P ↔ n.Everywhere P := by
  induction hn : sizeOf n using Nat.strongRecOn generalizing n i with
  | ind size ih =>
    have children := forall_children_numberFrom (P := fun _ c => c.Everywhere P)
      (fun c hc j => ih _ (hn ▸ sizeOf_lt_of_mem_children hc) c.2 j rfl) i
    rw [everywhere_iff, everywhere_iff, same, children]

theorem everywhere_isBuilt_numbered {regular : Bool} {n : Node}
    (h : n.Everywhere fun m => m.isBuilt regular = true) :
    n.numbered.Everywhere fun m => m.isBuilt regular = true :=
  (everywhere_numberFrom (fun m j => by rw [isBuilt_numberFrom]) n 0).mpr h

end Node

end FreeNames
