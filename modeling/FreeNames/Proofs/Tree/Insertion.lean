import FreeNames.Proofs.Scope.Declared
import FreeNames.Proofs.Scope.Likeness

/-!
# One more statement

`Node.Inserts d n n'` says that the second tree is the first one with the statement `d` inserted
somewhere in a list of statements.  The place may be at any depth below statements, but not inside
a function, class or static block.

* `Node.inserted` compares the two trees node by node: everything else stays as it is.
* `Node.Inserts.mem_hoisted`, `Node.Inserts.mem_bodyNames`: what the statement hoists is hoisted
  by every node around it.
-/

namespace FreeNames

/-- The lists of statements of programs, blocks and cases. -/
def Kind.takesStatements : Kind → String → Bool
  | .program, "body" | .blockStatement, "body" | .switchCase, "consequent" => true
  | _, _ => false

/-- Statements inside such a node belong to what is around it: it is no function, class or static
block, and nothing that an access path is made of. -/
def Kind.passesStatements (k : Kind) : Bool :=
  !(k.isFunction || k.isClass || k = .staticBlock || k = .identifier || k = .thisExpression ||
    k = .memberExpression)

namespace Node

/-- The second tree has the statement `d` besides what the first has. -/
inductive Inserts (d : Node) : Node → Node → Prop
  | here {id : Nat} {kind : Kind} {span : Span} {before after : List (String × Value)}
    {field : String} {xs ys : List Value} :
    kind.takesStatements field = true → field ∉ before.map Prod.fst →
    Inserts d (.mk id kind span (before ++ (field, .list (xs ++ ys)) :: after))
      (.mk id kind span (before ++ (field, .list (xs ++ .node d :: ys)) :: after))
  | child {id : Nat} {kind : Kind} {span : Span} {before after : List (String × Value)}
    {field : String} {n n' : Node} :
    kind.passesStatements = true → kind ≠ .program → Inserts d n n' →
    Inserts d (.mk id kind span (before ++ (field, .node n) :: after))
      (.mk id kind span (before ++ (field, .node n') :: after))
  | item {id : Nat} {kind : Kind} {span : Span} {before after : List (String × Value)}
    {field : String} {xs ys : List Value} {n n' : Node} :
    kind.passesStatements = true → (kind = .program → field = "body") →
    field ∉ before.map Prod.fst → Inserts d n n' →
    Inserts d (.mk id kind span (before ++ (field, .list (xs ++ .node n :: ys)) :: after))
      (.mk id kind span (before ++ (field, .list (xs ++ .node n' :: ys)) :: after))

end Node

theorem Kind.passesStatements_of_takes {k : Kind} {field : String}
    (h : k.takesStatements field = true) : k.passesStatements = true := by
  unfold takesStatements at h
  split at h
  · rfl
  · rfl
  · rfl
  · cases h

theorem Kind.holdsStatements_of_takes {k : Kind} {field : String}
    (h : k.takesStatements field = true) : holdsStatements field = true := by
  unfold takesStatements at h
  split at h
  · rfl
  · rfl
  · rfl
  · cases h

namespace Node

theorem field?_mk_append {id : Nat} {kind : Kind} {span : Span}
    {before after : List (String × Value)} {field : String} {v : Value}
    (first : field ∉ before.map Prod.fst) :
    (mk id kind span (before ++ (field, v) :: after)).field? field = some v := by
  have none : before.lookup field = none := by
    rw [List.lookup_eq_none_iff]
    intro f hf
    rw [bne_iff_ne]
    intro same
    apply first
    exact same ▸ List.mem_map_of_mem hf
  simp [field?, List.lookup_append, none]

namespace Inserts

variable {d n n' : Node}

theorem id_eq (h : Inserts d n n') : n'.id = n.id := by cases h <;> rfl

theorem kind_eq (h : Inserts d n n') : n'.kind = n.kind := by cases h <;> rfl

theorem passes (h : Inserts d n n') : n'.kind.passesStatements = true := by
  cases h with
  | here takes _ => exact Kind.passesStatements_of_takes takes
  | child passes _ _ => exact passes
  | item passes _ _ _ => exact passes

end Inserts

/-! ## Corresponding nodes -/

/-- The same node, possibly with the statement inserted below it. -/
def MayInsert (d n n' : Node) : Prop := n' = n ∨ Inserts d n n'

section

variable {d : Node} {kind : Kind}

theorem valueLike_same (field : String) (v : Value) :
    ValueLike (MayInsert d) (· = d) (fun t => t) kind field v v := .refl fun _ _ => Or.inl rfl

theorem itemsLike_same (More : Value → Prop) (vs : List Value) :
    Woven (ItemLike (MayInsert d)) More vs vs := .refl fun _ _ => .refl fun _ _ => Or.inl rfl

/-- Nodes that differ in one field correspond if the values there do. -/
theorem fieldsLike_replace {before after : List (String × Value)} {field : String} {v v' : Value}
    (h : ValueLike (MayInsert d) (· = d) (fun t => t) kind field v v') :
    List.Forall₂ (fun f f' => f'.1 = f.1 ∧
      ValueLike (MayInsert d) (· = d) (fun t => t) kind f.1 f.2 f'.2)
        (before ++ (field, v) :: after) (before ++ (field, v') :: after) := by
  have same : ∀ fields : List (String × Value), List.Forall₂ (fun f f' => f'.1 = f.1 ∧
      ValueLike (MayInsert d) (· = d) (fun t => t) kind f.1 f.2 f'.2) fields fields :=
    fun fields => List.forall₂_same.mpr fun f _ => ⟨rfl, valueLike_same f.1 f.2⟩
  exact List.rel_append (same before) (.cons ⟨rfl, h⟩ (same after))

end

/-- A tree and the tree with one more statement, node by node. -/
def inserted (d : Node) : Likeness where
  Like := MayInsert d
  Extra := (· = d)
  rename := fun t => t
  id_eq := by
    intro n n' like
    rcases like with rfl | inserts
    · rfl
    · exact inserts.id_eq
  kind_eq := by
    intro n n' like
    rcases like with rfl | inserts
    · rfl
    · exact inserts.kind_eq
  fields := by
    intro n n' like
    rcases like with rfl | inserts
    · exact List.forall₂_same.mpr fun f _ => ⟨rfl, valueLike_same f.1 f.2⟩
    · cases inserts with
      | here takes _ =>
        refine fieldsLike_replace (.list ((itemsLike_same _ _).append (.more ?_ (itemsLike_same _ _))))
        exact ⟨Kind.holdsStatements_of_takes takes, d, rfl, rfl⟩
      | child _ _ below => exact fieldsLike_replace (.node (Or.inr below))
      | item _ _ _ below =>
        refine fieldsLike_replace (.list ((itemsLike_same _ _).append (.both ?_ (itemsLike_same _ _))))
        exact .node (Or.inr below)

/-! ## What the statement hoists -/

namespace Inserts

variable {d n n' : Node} {x : Except Fault Binding}

/-- What the statement hoists is hoisted by the nodes around it. -/
theorem mem_hoisted (h : Inserts d n n') (hx : x ∈ d.hoisted) : x ∈ n'.hoisted := by
  have up : ∀ {n' c : Node}, n'.kind.passesStatements = true → (∃ field, (field, c) ∈ n'.children) →
      x ∈ c.hoisted → x ∈ n'.hoisted := by
    intro n' c passes below hc
    obtain ⟨field, below⟩ := below
    refine Node.mem_hoisted.mpr (Or.inr ⟨?_, _, below, hc⟩)
    simp only [Kind.passesStatements, Bool.not_eq_true', Bool.or_eq_false_iff] at passes
    simp [isVarBoundary, passes]
  induction h with
  | @here _ _ _ _ _ field _ _ takes =>
    refine up (Kind.passesStatements_of_takes takes) ⟨field, ?_⟩ hx
    exact mem_children.mpr ⟨_, List.mem_append_right _ (List.mem_cons_self ..), by
      simp [Value.nodes, Value.node?]⟩
  | @child _ _ _ _ _ field _ _ passes _ _ ih =>
    refine up passes ⟨field, ?_⟩ ih
    exact mem_children.mpr ⟨_, List.mem_append_right _ (List.mem_cons_self ..), by
      simp [Value.nodes]⟩
  | @item _ _ _ _ _ field _ _ _ _ passes _ _ _ ih =>
    refine up passes ⟨field, ?_⟩ ih
    exact mem_children.mpr ⟨_, List.mem_append_right _ (List.mem_cons_self ..), by
      simp [Value.nodes, Value.node?]⟩

/-- So it is by a program, if the statements of the program can be read. -/
theorem mem_bodyNames (h : Inserts d n n') (hk : n.kind = .program) (hx : x ∈ d.hoisted)
    {ss : List Node} (hs : n'.items "body" = .ok ss) : x ∈ bodyNames n'.statements := by
  have hoists : ∀ c ∈ ss, x ∈ c.hoisted → x ∈ bodyNames n'.statements := by
    intro c hc hx
    apply List.mem_append_left
    exact (Readings.mem_declaring_ofList hs).mpr ⟨c, hc, hx⟩
  cases h with
  | @here id kind span before after field xs ys takes first =>
    obtain rfl : kind = .program := hk
    have body : field = "body" := by
      unfold Kind.takesStatements at takes
      split at takes <;> simp_all
    subst body
    exact hoists d (mem_items_of_field? (field?_mk_append first)
      (by simp [Value.nodes, Value.node?]) hs) hx
  | child _ other _ => exact absurd hk other
  | item _ body first below =>
    obtain rfl := body hk
    exact hoists _ (mem_items_of_field? (field?_mk_append first)
      (by simp [Value.nodes, Value.node?]) hs) (below.mem_hoisted hx)

end Inserts

end Node

end FreeNames
