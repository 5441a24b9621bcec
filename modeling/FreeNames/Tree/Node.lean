import FreeNames.Tree.Kind
import FreeNames.Fault
import FreeNames.Decimal.Double

/-!
# Syntax nodes

A syntax node has an identity, a kind, a place in the source and an ordered list of
fields.  The order of the fields decides the order in which children are visited, and
two nodes are the same node exactly if their identities are equal.

* `Node.children` lists the child nodes: field values that are nodes, and the nodes that
  stand directly in list fields; nothing deeper counts.
* `Node.child`, `Node.items` and their relatives read a field and fault when it is missing
  or holds something else.
* A child is smaller than the node that holds it (`sizeOf_lt_of_mem_children`,
  `sizeOf_lt_of_child` and so on), which is what recursion on trees rests on.  So is all that
  stands `Inside` a node.
-/

namespace FreeNames

/-- Where a node stands: byte offsets, and the line and column of its start. -/
structure Span where
  start : Nat
  stop : Nat
  line : Nat
  column : Nat
  deriving DecidableEq, Inhabited, Repr

mutual

/-- A node of the abstract syntax. -/
inductive Node where
  | mk (id : Nat) (kind : Kind) (span : Span) (fields : List (String × Value))

/-- What a field of a node holds. -/
inductive Value where
  | null
  | bool (b : Bool)
  | text (t : Text)
  | int (z : Int)
  | float (d : Double)
  | regex (pattern flags : Text)
  | list (items : List Value)
  | node (n : Node)

end

namespace Value

/-- The node that a value is. -/
def node? : Value → Option Node
  | .node n => some n
  | _ => none

/-- The nodes directly in a value. -/
def nodes : Value → List Node
  | .node n => [n]
  | .list items => items.filterMap node?
  | _ => []

/-- Does the value count as set?  Null, `false`, zero and what is empty do not. -/
def isSet : Value → Bool
  | .null => false
  | .bool b => b
  | .text t => !t.isEmpty
  | .int z => z ≠ 0
  | .float d => !d.isZero
  | .regex _ _ => true
  | .list items => !items.isEmpty
  | .node _ => true

/-- Is the value null? -/
def isNull : Value → Bool
  | .null => true
  | _ => false

end Value

namespace Node

def id : Node → Nat
  | mk id _ _ _ => id

def kind : Node → Kind
  | mk _ kind _ _ => kind

def span : Node → Span
  | mk _ _ span _ => span

/-- The fields in their order. -/
def fields : Node → List (String × Value)
  | mk _ _ _ fields => fields

@[simp] theorem id_mk (i : Nat) (k : Kind) (s : Span) (fs : List (String × Value)) :
    (mk i k s fs).id = i := rfl

@[simp] theorem kind_mk (i : Nat) (k : Kind) (s : Span) (fs : List (String × Value)) :
    (mk i k s fs).kind = k := rfl

@[simp] theorem span_mk (i : Nat) (k : Kind) (s : Span) (fs : List (String × Value)) :
    (mk i k s fs).span = s := rfl

@[simp] theorem fields_mk (i : Nat) (k : Kind) (s : Span) (fs : List (String × Value)) :
    (mk i k s fs).fields = fs := rfl

instance : Inhabited Node := ⟨mk 0 default default []⟩

/-- The value of a field. -/
def field? (n : Node) (name : String) : Option Value := n.fields.lookup name

/-- The child nodes in visiting order, each with the name of its field. -/
def children (n : Node) : List (String × Node) :=
  n.fields.flatMap fun f => f.2.nodes.map fun c => (f.1, c)

/-- A description for messages: the kind, the name if the node has one, and the place. -/
def describe (n : Node) : Text :=
  let place := " at " ++ Text.ofNat n.span.line ++ ":" ++ Text.ofNat n.span.column ++ ">"
  let head := "<" ++ Text.ofString n.kind.name
  match n.field? "name" with
  | some (.text name) => head ++ " " ++ name.quoted ++ place
  | _ => head ++ place

/-! ## Reading fields -/

/-- The field is missing or holds something else. -/
def lacking (n : Node) (name : String) : Fault := .lacks n.kind.name name

/-- The node in a field. -/
def child (n : Node) (name : String) : Except Fault Node :=
  match n.field? name with
  | some (.node c) => .ok c
  | _ => .error (n.lacking name)

/-- The node in a field that may be null. -/
def child? (n : Node) (name : String) : Except Fault (Option Node) :=
  match n.field? name with
  | some (.node c) => .ok (some c)
  | some .null => .ok none
  | _ => .error (n.lacking name)

/-- Every value is a node or null. -/
def allNodes? : List Value → Option (List (Option Node))
  | [] => some []
  | .node c :: rest => (allNodes? rest).map (some c :: ·)
  | .null :: rest => (allNodes? rest).map (none :: ·)
  | _ :: _ => none

/-- The nodes in a list field that may have holes. -/
def slots (n : Node) (name : String) : Except Fault (List (Option Node)) :=
  match n.field? name with
  | some (.list items) =>
    match allNodes? items with
    | some cs => .ok cs
    | none => .error (n.lacking name)
  | _ => .error (n.lacking name)

/-- The nodes in a list field without holes. -/
def items (n : Node) (name : String) : Except Fault (List Node) :=
  match n.slots name with
  | .ok cs => if cs.all Option.isSome then .ok (cs.filterMap fun c => c) else .error (n.lacking name)
  | .error f => .error f

/-- The text in a field. -/
def text (n : Node) (name : String) : Except Fault Text :=
  match n.field? name with
  | some (.text t) => .ok t
  | _ => .error (n.lacking name)

/-- Whether the value of a field counts as set. -/
def flag (n : Node) (name : String) : Except Fault Bool :=
  match n.field? name with
  | some v => .ok v.isSet
  | none => .error (n.lacking name)

/-- Whether a field holds anything but null. -/
def given (n : Node) (name : String) : Except Fault Bool :=
  match n.field? name with
  | some v => .ok (!v.isNull)
  | none => .error (n.lacking name)

/-! ## Children are smaller -/

theorem sizeOf_lt_of_mem_nodes {v : Value} {c : Node} (h : c ∈ v.nodes) : sizeOf c < sizeOf v := by
  cases v with
  | node n =>
    simp only [Value.nodes, List.mem_singleton] at h
    subst h
    simp
  | list items =>
    simp only [Value.nodes, List.mem_filterMap] at h
    obtain ⟨w, hw, hc⟩ := h
    cases w with
    | node m =>
      simp only [Value.node?, Option.some.injEq] at hc
      subst hc
      have := List.sizeOf_lt_of_mem hw
      simp only [Value.node.sizeOf_spec, Value.list.sizeOf_spec] at this ⊢
      omega
    | _ => simp [Value.node?] at hc
  | _ => simp [Value.nodes] at h

theorem sizeOf_lt_of_mem_fields {n : Node} {f : String × Value} (h : f ∈ n.fields) :
    sizeOf f.2 < sizeOf n := by
  cases n with
  | mk i k s fs =>
    have := List.sizeOf_lt_of_mem h
    simp only [fields_mk] at this
    rw [mk.sizeOf_spec]
    have hp : sizeOf f.2 < sizeOf f := by
      cases f
      simp only [Prod.mk.sizeOf_spec]
      omega
    omega

theorem mem_fields_of_field? {n : Node} {name : String} {v : Value}
    (h : n.field? name = some v) : (name, v) ∈ n.fields := by
  unfold field? at h
  generalize n.fields = fs at h
  induction fs with
  | nil => simp at h
  | cons f fs ih =>
    obtain ⟨g, w⟩ := f
    simp only [List.lookup_cons] at h
    split at h
    · next heq =>
      cases h
      rw [beq_iff_eq] at heq
      subst heq
      exact List.mem_cons_self ..
    · exact List.mem_cons_of_mem _ (ih h)

theorem mem_children {n : Node} {name : String} {c : Node} :
    (name, c) ∈ n.children ↔ ∃ v, (name, v) ∈ n.fields ∧ c ∈ v.nodes := by
  simp only [children, List.mem_flatMap, List.mem_map, Prod.mk.injEq, Prod.exists]
  constructor
  · rintro ⟨g, v, hf, d, hd, rfl, rfl⟩
    exact ⟨v, hf, hd⟩
  · rintro ⟨v, hf, hc⟩
    exact ⟨name, v, hf, c, hc, rfl, rfl⟩

theorem sizeOf_lt_of_mem_children {n : Node} {p : String × Node} (h : p ∈ n.children) :
    sizeOf p.2 < sizeOf n := by
  obtain ⟨name, c⟩ := p
  obtain ⟨v, hf, hc⟩ := mem_children.mp h
  have h1 := sizeOf_lt_of_mem_nodes hc
  have h2 := sizeOf_lt_of_mem_fields hf
  exact Nat.lt_trans h1 h2

theorem mem_children_of_child {n c : Node} {name : String} (h : n.child name = .ok c) :
    (name, c) ∈ n.children := by
  unfold child at h
  split at h
  · next heq =>
    cases h
    exact mem_children.mpr ⟨_, mem_fields_of_field? heq, by simp [Value.nodes]⟩
  · cases h

theorem mem_children_of_child? {n c : Node} {name : String} (h : n.child? name = .ok (some c)) :
    (name, c) ∈ n.children := by
  unfold child? at h
  split at h
  · next heq =>
    cases h
    exact mem_children.mpr ⟨_, mem_fields_of_field? heq, by simp [Value.nodes]⟩
  · cases h
  · cases h

theorem mem_of_mem_allNodes? {vs : List Value} {cs : List (Option Node)} {c : Node}
    (h : allNodes? vs = some cs) (hc : some c ∈ cs) : Value.node c ∈ vs := by
  induction vs generalizing cs with
  | nil =>
    simp only [allNodes?, Option.some.injEq] at h
    subst h
    simp at hc
  | cons v vs ih =>
    cases v with
    | node d =>
      simp only [allNodes?, Option.map_eq_some_iff] at h
      obtain ⟨ds, hds, rfl⟩ := h
      rcases List.mem_cons.mp hc with heq | hmem
      · cases heq
        exact List.mem_cons_self ..
      · exact List.mem_cons_of_mem _ (ih hds hmem)
    | null =>
      simp only [allNodes?, Option.map_eq_some_iff] at h
      obtain ⟨ds, hds, rfl⟩ := h
      rcases List.mem_cons.mp hc with heq | hmem
      · cases heq
      · exact List.mem_cons_of_mem _ (ih hds hmem)
    | _ => simp [allNodes?] at h

theorem mem_children_of_slots {n c : Node} {name : String} {cs : List (Option Node)}
    (h : n.slots name = .ok cs) (hc : some c ∈ cs) : (name, c) ∈ n.children := by
  unfold slots at h
  split at h
  · next items heq =>
    split at h
    · next hall =>
      cases h
      refine mem_children.mpr ⟨_, mem_fields_of_field? heq, ?_⟩
      simp only [Value.nodes, List.mem_filterMap]
      exact ⟨_, mem_of_mem_allNodes? hall hc, rfl⟩
    · cases h
  · cases h

theorem mem_children_of_items {n c : Node} {name : String} {cs : List Node}
    (h : n.items name = .ok cs) (hc : c ∈ cs) : (name, c) ∈ n.children := by
  unfold items at h
  split at h
  · next ds heq =>
    split at h
    · cases h
      simp only [List.mem_filterMap] at hc
      obtain ⟨o, ho, rfl⟩ := hc
      exact mem_children_of_slots heq ho
    · cases h
  · cases h

theorem sizeOf_lt_of_child {n c : Node} {name : String} (h : n.child name = .ok c) :
    sizeOf c < sizeOf n := sizeOf_lt_of_mem_children (mem_children_of_child h)

theorem sizeOf_lt_of_child? {n c : Node} {name : String} (h : n.child? name = .ok (some c)) :
    sizeOf c < sizeOf n := sizeOf_lt_of_mem_children (mem_children_of_child? h)

theorem sizeOf_lt_of_slots {n c : Node} {name : String} {cs : List (Option Node)}
    (h : n.slots name = .ok cs) (hc : some c ∈ cs) : sizeOf c < sizeOf n :=
  sizeOf_lt_of_mem_children (mem_children_of_slots h hc)

theorem sizeOf_lt_of_items {n c : Node} {name : String} {cs : List Node}
    (h : n.items name = .ok cs) (hc : c ∈ cs) : sizeOf c < sizeOf n :=
  sizeOf_lt_of_mem_children (mem_children_of_items h hc)

/-! ## Below a node -/

/-- A node stands below another. -/
inductive Inside : Node → Node → Prop
  | child {c n : Node} {field : String} : (field, c) ∈ n.children → Inside c n
  | trans {c m n : Node} : Inside c m → Inside m n → Inside c n

namespace Inside

variable {n c : Node} {field : String}

theorem sizeOf_lt (h : c.Inside n) : sizeOf c < sizeOf n := by
  induction h with
  | child hc => exact sizeOf_lt_of_mem_children hc
  | trans _ _ inner outer => exact Nat.lt_trans inner outer

theorem of_child (h : n.child field = .ok c) : c.Inside n := .child (mem_children_of_child h)

theorem of_child? (h : n.child? field = .ok (some c)) : c.Inside n :=
  .child (mem_children_of_child? h)

theorem of_slots {cs : List (Option Node)} (h : n.slots field = .ok cs) (hc : some c ∈ cs) :
    c.Inside n := .child (mem_children_of_slots h hc)

theorem of_items {cs : List Node} (h : n.items field = .ok cs) (hc : c ∈ cs) : c.Inside n :=
  .child (mem_children_of_items h hc)

end Inside

/-! ## The sizes of all children together -/

/-- The sum of the sizes of nodes. -/
noncomputable def totalSize : List Node → Nat
  | [] => 0
  | n :: ns => sizeOf n + totalSize ns

@[simp] theorem totalSize_nil : totalSize [] = 0 := rfl

@[simp] theorem totalSize_cons (n : Node) (ns : List Node) :
    totalSize (n :: ns) = sizeOf n + totalSize ns := rfl

@[simp] theorem totalSize_append (ms ns : List Node) :
    totalSize (ms ++ ns) = totalSize ms + totalSize ns := by
  induction ms with
  | nil => simp
  | cons m ms ih => simp only [List.cons_append, totalSize_cons, ih, Nat.add_assoc]

@[simp] theorem totalSize_reverse (ns : List Node) : totalSize ns.reverse = totalSize ns := by
  induction ns with
  | nil => rfl
  | cons n ns ih =>
    simp only [List.reverse_cons, totalSize_append, totalSize_cons, totalSize_nil, ih]
    omega

theorem sizeOf_value_pos (v : Value) : 0 < sizeOf v := by
  cases v <;> simp +arith

theorem totalSize_nodes_lt (v : Value) : totalSize v.nodes < sizeOf v := by
  cases v with
  | node n => simp [Value.nodes]
  | list items =>
    have key : totalSize (items.filterMap Value.node?) < sizeOf items := by
      induction items with
      | nil => simp
      | cons w ws ih =>
        cases w with
        | node m =>
          simp only [List.filterMap_cons, Value.node?, totalSize_cons, List.cons.sizeOf_spec,
            Value.node.sizeOf_spec]
          omega
        | _ =>
          simp only [List.filterMap_cons, Value.node?, List.cons.sizeOf_spec]
          omega
    simp only [Value.nodes, Value.list.sizeOf_spec]
    omega
  | _ => exact sizeOf_value_pos _

/-- All children together are smaller than their node. -/
theorem totalSize_children_lt (n : Node) : totalSize (n.children.map Prod.snd) < sizeOf n := by
  cases n with
  | mk i k s fs =>
    have key : totalSize ((fs.flatMap fun f => f.2.nodes.map fun c => (f.1, c)).map Prod.snd)
        < sizeOf fs := by
      induction fs with
      | nil => simp
      | cons f fs ih =>
        obtain ⟨g, v⟩ := f
        have hv := totalSize_nodes_lt v
        have hmap : (v.nodes.map fun c => (g, c)).map Prod.snd = v.nodes := by
          simp [Function.comp_def]
        simp only [List.flatMap_cons, List.map_append, totalSize_append, hmap,
          List.cons.sizeOf_spec, Prod.mk.sizeOf_spec]
        omega
    simp only [children, fields_mk, mk.sizeOf_spec]
    omega

end Node

end FreeNames
