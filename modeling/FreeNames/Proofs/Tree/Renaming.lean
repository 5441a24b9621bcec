import FreeNames.Proofs.Scope.Likeness

/-!
# Renamed trees

`Node.rename` applies a map to the name of every identifier of a tree and leaves everything else
as it is.  A tree corresponds to the renamed tree (`Node.renamed`), and what its nodes declare to
the renamed declarations (`Node.naming_renamed`), as long as what stands for a name without being
an identifier keeps its name (`Node.KeepsOtherNames`).
-/

namespace FreeNames

mutual

/-- Apply a map to the names of all identifiers. -/
def Node.rename (r : Text → Text) : Node → Node
  | .mk id kind span fields => .mk id kind span (Node.renameFields r kind fields)

def Node.renameFields (r : Text → Text) (kind : Kind) :
    List (String × Value) → List (String × Value)
  | [] => []
  | (name, v) :: rest => (name, v.rename r (isOwnName kind name)) :: Node.renameFields r kind rest

/-- Apply a map below a value, and to the value if it is the name of an identifier itself. -/
def Value.rename (r : Text → Text) (own : Bool) : Value → Value
  | .text t => .text (if own then r t else t)
  | .node n => .node (n.rename r)
  | .list items => .list (Value.renameItems r items)
  | .null => .null
  | .bool b => .bool b
  | .int z => .int z
  | .float d => .float d
  | .regex pattern flags => .regex pattern flags

def Value.renameItems (r : Text → Text) : List Value → List Value
  | [] => []
  | v :: rest => v.rename r false :: Value.renameItems r rest

end

namespace Node

variable {r : Text → Text} {n : Node}

/-- What names a function, a class or an import without being an identifier keeps its name. -/
def KeepsOtherNames (r : Text → Text) (root : Node) : Prop :=
  ∀ m ∈ root.preorder, ∀ i ∈ m.namers, i.kind ≠ .identifier →
    ∀ t ∈ (i.text "name").toOption, r t = t

/-- This can be read off the nodes one after the other. -/
theorem keepsOtherNames_iff {root : Node} : root.KeepsOtherNames r ↔
    (root.preorder.all fun m => m.namers.all fun i =>
      decide (i.kind = .identifier) || (i.text "name").toOption.all fun t => r t = t) = true := by
  simp [KeepsOtherNames, Decidable.or_iff_not_imp_left, Option.all_eq_true]

theorem KeepsOtherNames.child (h : n.KeepsOtherNames r) {c : String × Node}
    (hc : c ∈ n.children) : c.2.KeepsOtherNames r :=
  fun m hm => h m (mem_preorder_of_mem_children hc hm)

/-! ## Corresponding nodes -/

/-- The second node is the first one renamed. -/
def IsRenamed (r : Text → Text) (n n' : Node) : Prop := n' = n.rename r ∧ n.KeepsOtherNames r

theorem itemLike_rename {v : Value} (below : ∀ c, v = .node c → c.KeepsOtherNames r) :
    ItemLike (IsRenamed r) v (v.rename r false) := by
  cases v with
  | node c =>
    rw [Value.rename]
    exact .node ⟨rfl, below c rfl⟩
  | _ =>
    rw [Value.rename]
    exact .other rfl rfl rfl

theorem itemsLike_rename {items : List Value}
    (below : ∀ c, .node c ∈ items → c.KeepsOtherNames r) :
    List.Forall₂ (ItemLike (IsRenamed r)) items (Value.renameItems r items) := by
  induction items with
  | nil =>
    rw [Value.renameItems]
    exact .nil
  | cons v items ih =>
    rw [Value.renameItems]
    refine .cons (itemLike_rename ?_) (ih fun c hc => below c (List.mem_cons_of_mem _ hc))
    rintro c rfl
    exact below c (List.mem_cons_self ..)

theorem valueLike_rename {kind : Kind} {field : String} {v : Value}
    (below : ∀ c ∈ v.nodes, c.KeepsOtherNames r) :
    ValueLike (IsRenamed r) (fun _ => False) r kind field v
      (v.rename r (isOwnName kind field)) := by
  cases v with
  | node c =>
    rw [Value.rename]
    exact .node ⟨rfl, below c (List.mem_singleton_self c)⟩
  | text t =>
    rw [Value.rename]
    exact .text t
  | list items =>
    rw [Value.rename]
    refine .list (.of_forall₂ (itemsLike_rename fun c hc => below c ?_))
    exact List.mem_filterMap.mpr ⟨_, hc, rfl⟩
  | null => rw [Value.rename]; exact .null
  | bool b => rw [Value.rename]; exact .bool b
  | int z => rw [Value.rename]; exact .int z
  | float d => rw [Value.rename]; exact .float d
  | regex pattern flags => rw [Value.rename]; exact .regex pattern flags

theorem fieldsLike_rename {kind : Kind} {fields : List (String × Value)}
    (below : ∀ f ∈ fields, ∀ c ∈ f.2.nodes, c.KeepsOtherNames r) :
    List.Forall₂ (fun f f' => f'.1 = f.1 ∧
      ValueLike (IsRenamed r) (fun _ => False) r kind f.1 f.2 f'.2) fields
        (renameFields r kind fields) := by
  induction fields with
  | nil =>
    rw [renameFields]
    exact .nil
  | cons f fields ih =>
    rw [renameFields]
    refine .cons ⟨rfl, valueLike_rename (below f (List.mem_cons_self ..))⟩ (ih fun g hg => ?_)
    exact below g (List.mem_cons_of_mem _ hg)

@[simp] theorem id_rename (n : Node) : (n.rename r).id = n.id := by
  cases n
  rw [rename]
  rfl

@[simp] theorem kind_rename (n : Node) : (n.rename r).kind = n.kind := by
  cases n
  rw [rename]
  rfl

theorem fields_rename (n : Node) : (n.rename r).fields = renameFields r n.kind n.fields := by
  cases n
  rw [rename]
  rfl

/-- A tree and the renamed tree, node by node. -/
def renamed (r : Text → Text) : Likeness where
  Like := IsRenamed r
  Extra := fun _ => False
  rename := r
  id_eq := by
    rintro n _ ⟨rfl, -⟩
    exact n.id_rename
  kind_eq := by
    rintro n _ ⟨rfl, -⟩
    exact n.kind_rename
  fields := by
    rintro n _ ⟨rfl, keeps⟩
    rw [fields_rename]
    refine fieldsLike_rename fun f hf c hc => ?_
    exact keeps.child (mem_children.mpr ⟨f.2, hf, hc⟩)

/-- What corresponding nodes declare is renamed. -/
theorem naming_renamed (args : r "arguments" = "arguments") :
    (renamed r).Naming fun _ => False where
  named := by
    intro n n' i i' like named likeName
    by_cases hk : i.kind = .identifier
    · exact (renamed r).text_name likeName hk
    · have same : i'.text "name" = i.text "name" :=
        (renamed r).text_eq likeName (by simp [isOwnName, hk])
      rw [same]
      cases ht : i.text "name" with
      | error f => rfl
      | ok t =>
        have fixed : r t = t := like.2 n n.self_mem_preorder i named hk t (by simp [ht, Except.toOption])
        exact congrArg Except.ok fixed.symm
  extra_hoisted := fun no => no.elim
  extra_lexical := fun no => no.elim
  arguments := args

end Node

/-! ## Renamed bindings -/

/-- The same binding under another name. -/
def Binding.rename (r : Text → Text) (b : Binding) : Binding :=
  ⟨r b.name, b.kind, b.node.map (Node.rename r)⟩

/-- In renamed trees options correspond if the second is the first renamed. -/
theorem Node.eq_map_rename {r : Text → Text} {o o' : Option Node}
    (h : Option.Rel (Node.renamed r).Like o o') : o' = o.map (Node.rename r) := by
  cases h with
  | none => rfl
  | some hn => exact congrArg some hn.1

theorem Node.eq_map_rename_of_forall₂ {r : Text → Text} {ns ns' : List Node}
    (h : List.Forall₂ (Node.renamed r).Like ns ns') : ns' = ns.map (Node.rename r) := by
  induction h with
  | nil => rfl
  | cons hn _ ih => rw [hn.1, ih, List.map_cons]

theorem Binding.eq_rename {r : Text → Text} {b b' : Binding}
    (h : (Node.renamed r).BindingLike b b') : b' = b.rename r := by
  obtain ⟨name', kind', node'⟩ := b'
  rw [Binding.rename, Binding.mk.injEq]
  exact ⟨h.name, h.kind, Node.eq_map_rename h.node⟩

/-- All names of a scope renamed, in the same order. -/
def Bindings.rename (r : Text → Text) (b : Bindings) : Bindings := ⟨b.entries.map (Binding.rename r)⟩

namespace Bindings

variable {r : Text → Text} (inj : Function.Injective r)
include inj

theorem declares_rename (b : Bindings) (name : Text) :
    (b.rename r).declares (r name) = b.declares name := by
  unfold declares find? rename
  rw [List.find?_map, Option.isSome_map]
  congr 2
  funext x
  simp [Binding.rename, inj.eq_iff]

theorem declare_rename (b : Bindings) (x : Binding) :
    ((b.rename r).declare (x.rename r)).2 = (b.declare x).2.rename r := by
  have same : (b.rename r).declares (x.rename r).name = b.declares x.name :=
    declares_rename inj b x.name
  rw [declare_snd, declare_snd, same]
  split
  · rfl
  · simp [rename]

theorem declareAll_rename (b : Bindings) (xs : List Binding) :
    (b.rename r).declareAll (xs.map (Binding.rename r)) = (b.declareAll xs).rename r := by
  induction xs generalizing b with
  | nil => rfl
  | cons x xs ih =>
    simp only [declareAll, List.map_cons, List.foldl_cons, declare_rename inj] at ih ⊢
    exact ih _

end Bindings

/-- The names that corresponding nodes bind are renamed, and keep their order. -/
theorem Declared.bindings_of_renamed {r : Text → Text} (inj : Function.Injective r)
    {ds ds' : Declared} (h : (Node.renamed r).DeclaredLike (fun _ => False) ds ds') :
    ds'.bindings = ds.bindings.rename r := by
  refine Eq.trans (congrArg (Bindings.declareAll .empty) ?_)
    (Bindings.declareAll_rename inj .empty _)
  induction h with
  | nil => rfl
  | both hx _ ih =>
    cases hx with
    | error f => simpa using ih
    | @ok b b' hb =>
      simpa [Binding.eq_rename hb] using ih
  | more hx => obtain ⟨b, -, no⟩ := hx; exact no.elim

end FreeNames
