import FreeNames.Resolution.Position
import Mathlib.Data.List.Forall2

/-!
# Trees node by node

Two trees are compared by a relation between their nodes: corresponding nodes have the same
identity and kind and, field by field, corresponding values.  A `Likeness` is such a relation,
with a map that is applied to the names of identifiers, and with statements that the second tree
may have in its statement lists besides those of the first.

* `Agree` relates the results of two readings, `Woven` two lists of which the second may have
  more.
* What a reader of fields finds in corresponding nodes agrees (`Likeness.child`,
  `Likeness.items`, `Likeness.text` and so on).
* `Likeness.children`: so do the children, except that the second node may have more.
-/

namespace FreeNames

/-! ## Readings and lists -/

/-- Both readings give results, which are related, or both meet the same fault. -/
inductive Agree {α β : Type} (R : α → β → Prop) : Except Fault α → Except Fault β → Prop
  | ok {a : α} {b : β} : R a b → Agree R (.ok a) (.ok b)
  | error (f : Fault) : Agree R (.error f) (.error f)

namespace Agree

variable {α β γ δ : Type} {R : α → β → Prop} {S : γ → δ → Prop} {x : Except Fault α}
  {y : Except Fault β}

theorem imp {R' : α → β → Prop} (h : Agree R x y) (next : ∀ a b, R a b → R' a b) :
    Agree R' x y := by
  cases h with
  | ok h => exact .ok (next _ _ h)
  | error f => exact .error f

theorem eq_map {f : α → β} (h : Agree (fun a b => b = f a) x y) : y = x.map f := by
  cases h with
  | ok h => exact congrArg Except.ok h
  | error f => rfl

theorem map {f : α → γ} {g : β → δ} (h : Agree R x y) (next : ∀ a b, R a b → S (f a) (g b)) :
    Agree S (x.map f) (y.map g) := by
  cases h with
  | ok h => exact .ok (next _ _ h)
  | error f => exact .error f

theorem bind {f : α → Except Fault γ} {g : β → Except Fault δ} (h : Agree R x y)
    (next : ∀ a b, R a b → Agree S (f a) (g b)) : Agree S (x >>= f) (y >>= g) := by
  cases h with
  | ok h => exact next _ _ h
  | error f => exact .error f

end Agree

/-- Related elements in order; between them the second list may have more. -/
inductive Woven {α β : Type} (R : α → β → Prop) (More : β → Prop) : List α → List β → Prop
  | nil : Woven R More [] []
  | both {a : α} {b : β} {as : List α} {bs : List β} : R a b → Woven R More as bs →
    Woven R More (a :: as) (b :: bs)
  | more {b : β} {as : List α} {bs : List β} : More b → Woven R More as bs →
    Woven R More as (b :: bs)

namespace Woven

variable {α β γ δ : Type} {R : α → β → Prop} {More : β → Prop} {S : γ → δ → Prop}
  {M : δ → Prop} {as as' : List α} {bs bs' : List β}

theorem append (h : Woven R More as bs) (h' : Woven R More as' bs') :
    Woven R More (as ++ as') (bs ++ bs') := by
  induction h with
  | nil => exact h'
  | both hab _ ih => exact .both hab ih
  | more hb _ ih => exact .more hb ih

theorem all_more (h : ∀ b ∈ bs, More b) : Woven R More [] bs := by
  induction bs with
  | nil => exact .nil
  | cons b bs ih => exact .more (h b (List.mem_cons_self ..)) (ih fun c hc =>
      h c (List.mem_cons_of_mem _ hc))

theorem one {a : α} {b : β} (h : R a b) : Woven R More [a] [b] := .both h .nil

theorem of_forall₂ (h : List.Forall₂ R as bs) : Woven R More as bs := by
  induction h with
  | nil => exact .nil
  | cons hab _ ih => exact .both hab ih

/-- Lists that correspond element by element, as lists of which the second has nothing more. -/
theorem of_exact (h : List.Forall₂ R as bs) : Woven R (fun _ => False) as bs := of_forall₂ h

theorem forall₂ (h : Woven R More as bs) (none : ∀ b ∈ bs, ¬ More b) : List.Forall₂ R as bs := by
  induction h with
  | nil => exact .nil
  | both hab _ ih => exact .cons hab (ih fun b hb => none b (List.mem_cons_of_mem _ hb))
  | more hb => exact absurd hb (none _ (List.mem_cons_self ..))

theorem refl {R : α → α → Prop} {More : α → Prop} (h : ∀ a ∈ as, R a a) : Woven R More as as :=
  of_forall₂ (List.forall₂_same.mpr h)

theorem flatMap {f : α → List γ} {g : β → List δ} (h : Woven R More as bs)
    (each : ∀ a b, a ∈ as → b ∈ bs → R a b → Woven S M (f a) (g b))
    (rest : ∀ b ∈ bs, More b → ∀ d ∈ g b, M d) :
    Woven S M (as.flatMap f) (bs.flatMap g) := by
  induction h with
  | nil => exact .nil
  | both hab _ ih =>
    rw [List.flatMap_cons, List.flatMap_cons]
    refine append (each _ _ (List.mem_cons_self ..) (List.mem_cons_self ..) hab) (ih ?_ ?_)
    · exact fun a b ha hb => each a b (List.mem_cons_of_mem _ ha) (List.mem_cons_of_mem _ hb)
    · exact fun b hb => rest b (List.mem_cons_of_mem _ hb)
  | @more b as bs hb _ ih =>
    rw [List.flatMap_cons, ← List.nil_append (as.flatMap f)]
    refine append (all_more (rest b (List.mem_cons_self ..) hb)) (ih ?_ ?_)
    · exact fun a b ha hb => each a b ha (List.mem_cons_of_mem _ hb)
    · exact fun b hb => rest b (List.mem_cons_of_mem _ hb)

theorem map {f : α → γ} {g : β → δ} (h : Woven R More as bs)
    (each : ∀ a b, R a b → S (f a) (g b)) (rest : ∀ b, More b → M (g b)) :
    Woven S M (as.map f) (bs.map g) := by
  induction h with
  | nil => exact .nil
  | both hab _ ih => exact .both (each _ _ hab) ih
  | more hb _ ih => exact .more (rest _ hb) ih

theorem filter {f : α → Bool} {g : β → Bool} (h : Woven R More as bs)
    (same : ∀ a b, R a b → g b = f a) : Woven R More (as.filter f) (bs.filter g) := by
  induction h with
  | nil => exact .nil
  | @both a b _ _ hab _ ih =>
    rw [List.filter_cons, List.filter_cons, same a b hab]
    split
    · exact .both hab ih
    · exact ih
  | @more b _ _ hb _ ih =>
    rw [List.filter_cons]
    split
    · exact .more hb ih
    · exact ih

theorem reverse (h : Woven R More as bs) : Woven R More as.reverse bs.reverse := by
  induction h with
  | nil => exact .nil
  | both hab _ ih =>
    rw [List.reverse_cons, List.reverse_cons]
    exact append ih (one hab)
  | more hb _ ih =>
    rw [List.reverse_cons, ← List.append_nil (List.reverse _)]
    exact append ih (.more hb .nil)

end Woven

/-! ## Values -/

/-- The fields that hold lists of statements. -/
def holdsStatements (field : String) : Bool := field = "body" || field = "consequent"

section

variable (Like : Node → Node → Prop) (Extra : Node → Prop) (rename : Text → Text)

/-- Elements of lists that correspond. -/
inductive ItemLike : Value → Value → Prop
  | node {n n' : Node} : Like n n' → ItemLike (.node n) (.node n')
  | other {v v' : Value} : v.node? = none → v'.node? = none → v'.isNull = v.isNull → ItemLike v v'

/-- Is this the field for the name of an identifier? -/
def isOwnName (kind : Kind) (field : String) : Bool := kind = .identifier && field = "name"

/-- Values that correspond, in a field of nodes of this kind. -/
inductive ValueLike (kind : Kind) (field : String) : Value → Value → Prop
  | node {n n' : Node} : Like n n' → ValueLike kind field (.node n) (.node n')
  | list {items items' : List Value} :
    Woven (ItemLike Like) (fun v => holdsStatements field = true ∧ ∃ d, v = .node d ∧ Extra d)
      items items' → ValueLike kind field (.list items) (.list items')
  | text (t : Text) : ValueLike kind field (.text t)
      (.text (if isOwnName kind field then rename t else t))
  | null : ValueLike kind field .null .null
  | bool (b : Bool) : ValueLike kind field (.bool b) (.bool b)
  | int (z : Int) : ValueLike kind field (.int z) (.int z)
  | float (d : Double) : ValueLike kind field (.float d) (.float d)
  | regex (pattern flags : Text) : ValueLike kind field (.regex pattern flags) (.regex pattern flags)

end

/-- A way to compare two trees node by node. -/
structure Likeness where
  /-- The second node stands where the first one stands in its tree. -/
  Like : Node → Node → Prop
  /-- The node is one more statement of the second tree. -/
  Extra : Node → Prop
  /-- What happens to the names of identifiers. -/
  rename : Text → Text
  id_eq : ∀ {n n'}, Like n n' → n'.id = n.id
  kind_eq : ∀ {n n'}, Like n n' → n'.kind = n.kind
  fields : ∀ {n n'}, Like n n' → List.Forall₂ (fun f f' => f'.1 = f.1 ∧
    ValueLike Like Extra rename n.kind f.1 f.2 f'.2) n.fields n'.fields

theorem ItemLike.refl {Like : Node → Node → Prop} {v : Value} (h : ∀ n ∈ v.node?, Like n n) :
    ItemLike Like v v := by
  cases v with
  | node n => exact .node (h n rfl)
  | _ => exact .other rfl rfl rfl

/-- A value corresponds to itself if its nodes do and no name is changed. -/
theorem ValueLike.refl {Like : Node → Node → Prop} {Extra : Node → Prop} {kind : Kind}
    {field : String} {v : Value} (h : ∀ n ∈ v.nodes, Like n n) :
    ValueLike Like Extra id kind field v v := by
  cases v with
  | node n => exact .node (h n (List.mem_singleton_self n))
  | list items =>
    exact .list (Woven.refl fun w hw => .refl fun n hn => h n (List.mem_filterMap.mpr ⟨w, hw, hn⟩))
  | text t =>
    have same : t = if isOwnName kind field then id t else t := by split <;> rfl
    conv => rhs; rw [same]
    exact .text t
  | null => exact .null
  | bool b => exact .bool b
  | int z => exact .int z
  | float d => exact .float d
  | regex pattern flags => exact .regex pattern flags

namespace Likeness

variable (L : Likeness) {n n' : Node} {field : String}

/-! ## Fields -/

/-- Values of a field that correspond. -/
abbrev Values (kind : Kind) (field : String) : Value → Value → Prop :=
  ValueLike L.Like L.Extra L.rename kind field

variable {L}

theorem field? (h : L.Like n n') (field : String) :
    Option.Rel (L.Values n.kind field) (n.field? field) (n'.field? field) := by
  have fields := L.fields h
  unfold Node.field?
  generalize n.fields = fs, n'.fields = fs' at fields
  induction fields with
  | nil => exact .none
  | @cons f f' fs fs' hf _ ih =>
    obtain ⟨name, v⟩ := f
    obtain ⟨name', v'⟩ := f'
    obtain ⟨same, hv⟩ := hf
    obtain rfl : name' = name := same
    rw [List.lookup_cons, List.lookup_cons]
    by_cases hn : field = name'
    · subst hn
      simp only [BEq.rfl]
      exact .some hv
    · rw [beq_false_of_ne hn]
      exact ih

theorem lacking (h : L.Like n n') (field : String) : n'.lacking field = n.lacking field := by
  rw [Node.lacking, Node.lacking, L.kind_eq h]

theorem child (h : L.Like n n') (field : String) :
    Agree L.Like (n.child field) (n'.child field) := by
  unfold Node.child
  rw [L.lacking h]
  have values := L.field? h field
  generalize n.field? field = x, n'.field? field = x' at values ⊢
  cases values with
  | none => exact .error _
  | some hv =>
    cases hv with
    | node hn => exact .ok hn
    | _ => exact .error _

theorem child? (h : L.Like n n') (field : String) :
    Agree (Option.Rel L.Like) (n.child? field) (n'.child? field) := by
  unfold Node.child?
  rw [L.lacking h]
  have values := L.field? h field
  generalize n.field? field = x, n'.field? field = x' at values ⊢
  cases values with
  | none => exact .error _
  | some hv =>
    cases hv with
    | node hn => exact .ok (.some hn)
    | null => exact .ok .none
    | _ => exact .error _

/-- Nodes in a list of the second tree that have no counterpart. -/
def IsMore (L : Likeness) (field : String) (o : Option Node) : Prop :=
  holdsStatements field = true ∧ ∃ d, o = some d ∧ L.Extra d

theorem allNodes? {items items' : List Value}
    (h : Woven (ItemLike L.Like) (fun v => holdsStatements field = true ∧
      ∃ d, v = .node d ∧ L.Extra d) items items') :
    Option.Rel (Woven (Option.Rel L.Like) (L.IsMore field)) (Node.allNodes? items)
      (Node.allNodes? items') := by
  induction h with
  | nil => exact .some .nil
  | @both v v' items items' hv _ ih =>
    cases hv with
    | node hn =>
      simp only [Node.allNodes?]
      generalize Node.allNodes? items = x, Node.allNodes? items' = x' at ih ⊢
      cases ih with
      | none => exact .none
      | some ih => exact .some (.both (.some hn) ih)
    | other hv hv' null =>
      cases v with
      | node n => cases hv
      | null =>
        cases v' with
        | null =>
          simp only [Node.allNodes?]
          generalize Node.allNodes? items = x, Node.allNodes? items' = x' at ih ⊢
          cases ih with
          | none => exact .none
          | some ih => exact .some (.both .none ih)
        | node n => cases hv'
        | _ => cases null
      | _ =>
        cases v' with
        | node n => cases hv'
        | null => cases null
        | _ => exact .none
  | @more _ items items' hv _ ih =>
    obtain ⟨hf, d, rfl, hd⟩ := hv
    simp only [Node.allNodes?]
    generalize Node.allNodes? items = x, Node.allNodes? items' = x' at ih ⊢
    cases ih with
    | none => exact .none
    | some ih => exact .some (.more ⟨hf, d, rfl, hd⟩ ih)

theorem slots (h : L.Like n n') (field : String) :
    Agree (Woven (Option.Rel L.Like) (L.IsMore field)) (n.slots field) (n'.slots field) := by
  unfold Node.slots
  rw [L.lacking h]
  have values := L.field? h field
  generalize n.field? field = x, n'.field? field = x' at values ⊢
  cases values with
  | none => exact .error _
  | some hv =>
    cases hv with
    | @list items items' hitems =>
      have nodes := L.allNodes? hitems
      simp only
      generalize Node.allNodes? items = x, Node.allNodes? items' = x' at nodes ⊢
      cases nodes with
      | none => exact .error _
      | some hs => exact .ok hs
    | _ => exact .error _

/-- The lists in a field have holes at the same places. -/
theorem all_isSome {os os' : List (Option Node)}
    (h : Woven (Option.Rel L.Like) (L.IsMore field) os os') :
    os'.all Option.isSome = os.all Option.isSome := by
  induction h with
  | nil => rfl
  | both ho _ ih => cases ho <;> simp [ih]
  | more ho _ ih =>
    obtain ⟨-, d, rfl, -⟩ := ho
    simp [ih]

theorem items (h : L.Like n n') (field : String) :
    Agree (Woven L.Like fun d => holdsStatements field = true ∧ L.Extra d) (n.items field)
      (n'.items field) := by
  unfold Node.items
  rw [L.lacking h]
  have slots := L.slots h field
  generalize n.slots field = x, n'.slots field = x' at slots ⊢
  cases slots with
  | error f => exact .error f
  | @ok os os' hs =>
    simp only
    rw [L.all_isSome hs]
    split
    · refine .ok ?_
      rw [List.filterMap_eq_flatMap_toList, List.filterMap_eq_flatMap_toList]
      refine hs.flatMap (fun o o' _ _ ho => ?_) fun o' _ ho d hd => ?_
      · cases ho with
        | none => exact .nil
        | some hn => exact .one hn
      · obtain ⟨hf, d', rfl, hd'⟩ := ho
        rw [List.mem_singleton.mp hd]
        exact ⟨hf, hd'⟩
    · exact .error _

/-- Lists that are not of statements correspond element by element. -/
theorem items_forall₂ (h : L.Like n n') (other : holdsStatements field = false) :
    Agree (List.Forall₂ L.Like) (n.items field) (n'.items field) := by
  have items := L.items h field
  generalize n.items field = x, n'.items field = x' at items ⊢
  cases items with
  | error f => exact .error f
  | ok hs => exact .ok (hs.forall₂ fun d _ hd => by simp [other] at hd)

theorem slots_forall₂ (h : L.Like n n') (other : holdsStatements field = false) :
    Agree (List.Forall₂ (Option.Rel L.Like)) (n.slots field) (n'.slots field) := by
  have slots := L.slots h field
  generalize n.slots field = x, n'.slots field = x' at slots ⊢
  cases slots with
  | error f => exact .error f
  | ok hs => exact .ok (hs.forall₂ fun d _ hd => by simp [other, IsMore] at hd)

theorem text (h : L.Like n n') (field : String) : n'.text field =
    (n.text field).map fun t => if isOwnName n.kind field then L.rename t else t := by
  unfold Node.text
  rw [L.lacking h]
  have values := L.field? h field
  generalize n.field? field = x, n'.field? field = x' at values ⊢
  cases values with
  | none => rfl
  | some hv =>
    cases hv with
    | _ => rfl

/-- Only the names of identifiers are changed. -/
theorem text_eq (h : L.Like n n') (other : isOwnName n.kind field = false) :
    n'.text field = n.text field := by
  rw [L.text h, other]
  cases n.text field <;> rfl

/-! ## Flags -/

theorem isSet_eq {kind : Kind} {v v' : Value} (h : L.Values kind field v v')
    (other : holdsStatements field = false) (noName : isOwnName kind field = false) :
    v'.isSet = v.isSet := by
  cases h with
  | @list items items' hitems =>
    have same := hitems.forall₂ fun v _ hv => by simp [other] at hv
    cases same <;> rfl
  | text t => rw [noName]; rfl
  | _ => rfl

theorem flag (h : L.Like n n') (other : holdsStatements field = false)
    (noName : isOwnName n.kind field = false) : n'.flag field = n.flag field := by
  unfold Node.flag
  rw [L.lacking h]
  have values := L.field? h field
  generalize n.field? field = x, n'.field? field = x' at values ⊢
  cases values with
  | none => rfl
  | some hv => exact congrArg Except.ok (L.isSet_eq hv other noName)

theorem given (h : L.Like n n') (field : String) : n'.given field = n.given field := by
  unfold Node.given
  rw [L.lacking h]
  have values := L.field? h field
  generalize n.field? field = x, n'.field? field = x' at values ⊢
  cases values with
  | none => rfl
  | some hv => cases hv <;> rfl

theorem isOwnName_eq_false {kind : Kind} (h : field ≠ "name") : isOwnName kind field = false := by
  simp [isOwnName, h]

theorem isComputed (h : L.Like n n') : n'.isComputed = n.isComputed := by
  unfold Node.isComputed
  have values := L.field? h "computed"
  generalize n.field? "computed" = x, n'.field? "computed" = x' at values ⊢
  cases values with
  | none => rfl
  | some hv => simp [L.isSet_eq hv rfl (isOwnName_eq_false (by decide))]

/-! ## Children -/

theorem nodes {kind : Kind} {v v' : Value} (h : L.Values kind field v v') :
    Woven L.Like (fun d => holdsStatements field = true ∧ L.Extra d) v.nodes v'.nodes := by
  cases h with
  | node hn => exact .one hn
  | list hitems =>
    simp only [Value.nodes, List.filterMap_eq_flatMap_toList]
    refine hitems.flatMap (fun v v' _ _ hv => ?_) fun v' _ hv d hd => ?_
    · cases hv with
      | node hn => exact .one hn
      | other none none' =>
        rw [none, none']
        exact .nil
    · obtain ⟨hf, d', rfl, hd'⟩ := hv
      rw [List.mem_singleton.mp hd]
      exact ⟨hf, hd'⟩
  | _ => exact .nil

/-- Children in the same field. -/
def ChildLike (L : Likeness) (c c' : String × Node) : Prop := c'.1 = c.1 ∧ L.Like c.2 c'.2

/-- One more statement. -/
def ExtraChild (L : Likeness) (c : String × Node) : Prop :=
  holdsStatements c.1 = true ∧ L.Extra c.2

theorem children (h : L.Like n n') : Woven L.ChildLike L.ExtraChild n.children n'.children := by
  have fields := Woven.of_exact (L.fields h)
  refine fields.flatMap (fun f f' _ _ hf => ?_) fun _ _ no => no.elim
  obtain ⟨name, hv⟩ := hf
  rw [name]
  exact (L.nodes hv).map (fun c c' hc => ⟨rfl, hc⟩) fun d hd => hd

end Likeness

end FreeNames
