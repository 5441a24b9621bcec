import FreeNames.Proofs.Scope.Declared
import FreeNames.Proofs.Tree.Likeness

/-!
# What corresponding nodes declare

Where two trees correspond, what a node of the second declares is what its counterpart declares,
name by name in the same order, and besides that what its further statements hoist.

* `Likeness.Naming` is what this takes: the nodes that name functions, classes and imports are
  renamed like identifiers, and a further statement hoists bindings of a known kind only.
* `Likeness.Naming.declared` is the result; `Likeness.Naming.faults_declared` and
  `Likeness.Naming.declares_declared` read off it what is missing and which names are bound.
-/

namespace FreeNames

namespace Node

/-- Only identifiers are names of patterns. -/
theorem kind_of_mem_patternNames {n i : Node} (h : .ok i ∈ n.patternNames) :
    i.kind = .identifier := by
  rw [patternNames_eq] at h
  split at h
  · next hk =>
    cases List.mem_singleton.mp h
    exact hk
  · obtain ⟨r, hr, hi⟩ := List.mem_flatMap.mp h
    cases r with
    | error f => cases List.mem_singleton.mp hi
    | ok c =>
      have := sizeOf_lt_of_mem_subpatterns hr
      exact kind_of_mem_patternNames hi
termination_by sizeOf n

theorem kind_of_mem_namesIn {n i : Node} {field : String} (h : .ok i ∈ n.namesIn field) :
    i.kind = .identifier := by
  obtain ⟨r, -, hi⟩ := List.mem_flatMap.mp h
  cases r with
  | error f => cases List.mem_singleton.mp hi
  | ok c => exact kind_of_mem_patternNames hi

/-- Does a node of this kind declare its own name, which is in its `id`? -/
def namesItself (n : Node) : Bool :=
  n.kind = .functionDeclaration || n.kind = .functionExpression || n.kind.isClass

/-- What names a function, a class or an import. -/
def namers (n : Node) : List Node :=
  (if n.namesItself then ((n.child? "id").toOption.bind fun o => o).toList else []) ++
    if n.kind.isImportSpecifier then (n.child "local").toOption.toList else []

theorem mem_namers_of_id {n i : Node} (hk : n.namesItself = true)
    (hi : n.child? "id" = .ok (some i)) : i ∈ n.namers := by
  simp [namers, hk, hi, Except.toOption]

theorem mem_namers_of_local {n i : Node} (hk : n.kind.isImportSpecifier = true)
    (hi : n.child "local" = .ok i) : i ∈ n.namers := by
  simp [namers, hk, hi, Except.toOption]

end Node

namespace Likeness

variable (L : Likeness)

/-- Bindings that correspond. -/
structure BindingLike (b b' : Binding) : Prop where
  name : b'.name = L.rename b.name
  kind : b'.kind = b.kind
  node : Option.Rel L.Like b.node b'.node

/-- Declarations that correspond: the second list may have more bindings. -/
abbrev DeclaredLike (More : Binding → Prop) : Declared → Declared → Prop :=
  Woven (Agree L.BindingLike) fun x => ∃ b, x = .ok b ∧ More b

/-- Readings that correspond. -/
abbrev ReadingsLike : Readings → Readings → Prop := List.Forall₂ (Agree L.Like)

/-- What carries a comparison of trees over to what they declare. -/
structure Naming (More : Binding → Prop) : Prop where
  named : ∀ {n n' i i'}, L.Like n n' → i ∈ n.namers → L.Like i i' →
    i'.text "name" = (i.text "name").map L.rename
  extra_hoisted : ∀ {d}, L.Extra d → ∀ x ∈ d.hoisted, ∃ b, x = .ok b ∧ More b
  extra_lexical : ∀ {d}, L.Extra d → d.lexical = []
  arguments : L.rename "arguments" = "arguments"

variable {L} {More : Binding → Prop} {n n' : Node} {kind : BindingKind}

/-! ## Readings -/

theorem ofOption {x x' : Except Fault (Option Node)} (h : Agree (Option.Rel L.Like) x x') :
    L.ReadingsLike (.ofOption x) (.ofOption x') := by
  cases h with
  | error f => exact .cons (.error f) .nil
  | ok h =>
    cases h with
    | none => exact .nil
    | some hn => exact .cons (.ok hn) .nil

theorem ofList {E : Node → Prop} {x x' : Except Fault (List Node)}
    (h : Agree (Woven L.Like E) x x') :
    Woven (Agree L.Like) (fun r => ∃ d, r = .ok d ∧ E d) (Readings.ofList x)
      (Readings.ofList x') := by
  cases h with
  | error f => exact .one (.error f)
  | ok h => exact h.map (fun a b hab => .ok hab) fun d hd => ⟨d, rfl, hd⟩

theorem ofList_forall₂ {x x' : Except Fault (List Node)}
    (h : Agree (List.Forall₂ L.Like) x x') : L.ReadingsLike (.ofList x) (.ofList x') := by
  have woven : Agree (Woven L.Like fun _ => False) x x' := by
    cases h with
    | error f => exact .error f
    | ok h => exact .ok (.of_forall₂ h)
  exact (L.ofList woven).forall₂ fun r _ hr => by simp at hr

theorem ofSlots {x x' : Except Fault (List (Option Node))}
    (h : Agree (List.Forall₂ (Option.Rel L.Like)) x x') :
    L.ReadingsLike (.ofSlots x) (.ofSlots x') := by
  cases h with
  | error f => exact .cons (.error f) .nil
  | ok h =>
    refine List.rel_filterMap (fun o o' ho => ?_) h
    cases ho with
    | none => exact .none
    | some hn => exact .some (.ok hn)

/-- Going on from readings with something that gives readings. -/
theorem ReadingsLike.flatMap {rs rs' : Readings} {k k' : Except Fault Node → Readings}
    (h : L.ReadingsLike rs rs')
    (next : ∀ r r', r ∈ rs → Agree L.Like r r' → L.ReadingsLike (k r) (k' r')) :
    L.ReadingsLike (rs.flatMap k) (rs'.flatMap k') := by
  have woven : Woven (Agree L.Like) (fun _ => False) (rs.flatMap k) (rs'.flatMap k') := by
    refine (Woven.of_exact h).flatMap (fun r r' hr _ like => ?_)
      fun _ _ no => no.elim
    exact .of_forall₂ (next r r' hr like)
  exact woven.forall₂ fun _ _ no => no

/-! ## Patterns -/

theorem propertyPatterns (h : L.Like n n') :
    L.ReadingsLike n.propertyPatterns n'.propertyPatterns := by
  unfold Node.propertyPatterns
  rw [L.kind_eq h]
  split
  · exact L.ofOption (L.child? h _)
  · exact .cons (.ok h) .nil

theorem subpatterns (h : L.Like n n') : L.ReadingsLike n.subpatterns n'.subpatterns := by
  unfold Node.subpatterns
  rw [L.kind_eq h]
  split
  · refine ReadingsLike.flatMap (L.ofList_forall₂ (L.items_forall₂ h rfl)) fun r r' _ hr => ?_
    cases hr with
    | error f => exact .cons (.error f) .nil
    | ok hp => exact L.propertyPatterns hp
  · exact L.ofSlots (L.slots_forall₂ h rfl)
  · exact L.ofOption (L.child? h _)
  · exact L.ofOption (L.child? h _)
  · exact .nil

theorem patternNames {n n' : Node} (h : L.Like n n') :
    L.ReadingsLike n.patternNames n'.patternNames := by
  rw [Node.patternNames_eq, Node.patternNames_eq n', L.kind_eq h]
  split
  · exact .cons (.ok h) .nil
  · refine ReadingsLike.flatMap (L.subpatterns h) fun r r' hr hrr => ?_
    cases hrr with
    | error f => exact .cons (.error f) .nil
    | ok hc =>
      have := Node.sizeOf_lt_of_mem_subpatterns hr
      exact patternNames hc
termination_by sizeOf n

theorem namesIn (h : L.Like n n') (field : String) :
    L.ReadingsLike (n.namesIn field) (n'.namesIn field) := by
  refine ReadingsLike.flatMap (L.ofOption (L.child? h field)) fun r r' _ hr => ?_
  cases hr with
  | error f => exact .cons (.error f) .nil
  | ok hp => exact L.patternNames hp

/-! ## Bindings -/

theorem bindAs {rs rs' : Readings} (h : L.ReadingsLike rs rs') (word : BindingKind)
    (named : ∀ i i', .ok i ∈ rs → L.Like i i' → i'.text "name" = (i.text "name").map L.rename) :
    L.DeclaredLike More (rs.bindAs word) (rs'.bindAs word) := by
  have woven := Woven.of_exact h
  unfold Readings.bindAs
  rw [List.map_eq_flatMap, List.map_eq_flatMap]
  refine woven.flatMap (fun r r' hr _ like => .one ?_) fun _ _ no => no.elim
  cases like with
  | error f => exact .error f
  | ok hi =>
    simp only [named _ _ hr hi]
    cases Node.text _ "name" with
    | error f => exact .error f
    | ok t => exact .ok ⟨rfl, rfl, .some hi⟩

/-- Going on from readings with something that declares; what the second tree has more declares
bindings of the known kind only. -/
theorem declaring {E : Node → Prop} {rs rs' : Readings} {k k' : Node → Declared}
    (h : Woven (Agree L.Like) (fun r => ∃ d, r = .ok d ∧ E d) rs rs')
    (next : ∀ m m', .ok m ∈ rs → L.Like m m' → L.DeclaredLike More (k m) (k' m'))
    (more : ∀ d, E d → ∀ x ∈ k' d, ∃ b, x = .ok b ∧ More b) :
    L.DeclaredLike More (rs.declaring k) (rs'.declaring k') := by
  refine h.flatMap (fun r r' hr _ like => ?_) fun r' _ hr x hx => ?_
  · cases like with
    | error f => exact .one (.error f)
    | ok hm => exact next _ _ hr hm
  · obtain ⟨d, rfl, hd⟩ := hr
    exact more d hd x hx

theorem declaring_of_forall₂ {rs rs' : Readings} {k k' : Node → Declared}
    (h : L.ReadingsLike rs rs')
    (next : ∀ m m', .ok m ∈ rs → L.Like m m' → L.DeclaredLike More (k m) (k' m')) :
    L.DeclaredLike More (rs.declaring k) (rs'.declaring k') := by
  have woven : Woven (Agree L.Like) (fun r => ∃ d, r = .ok d ∧ False) rs rs' := .of_forall₂ h
  exact declaring woven next fun _ no => no.elim

/-- Names of identifiers are renamed. -/
theorem text_name (h : L.Like n n') (hk : n.kind = .identifier) :
    n'.text "name" = (n.text "name").map L.rename := by
  rw [L.text h, hk]
  rfl

theorem namesIn_bindAs (h : L.Like n n') (field : String) (word : BindingKind) :
    L.DeclaredLike More ((n.namesIn field).bindAs word) ((n'.namesIn field).bindAs word) :=
  L.bindAs (L.namesIn h field) word fun _ _ hi like =>
    L.text_name like (Node.kind_of_mem_namesIn hi)

theorem declarators (h : L.Like n n') (word : Text) :
    L.DeclaredLike More (n.declarators word) (n'.declarators word) :=
  declaring_of_forall₂ (L.ofList_forall₂ (L.items_forall₂ h rfl)) fun _ _ _ hd =>
    L.namesIn_bindAs hd _ _

theorem exported (h : L.Like n n') : Agree L.Like n.exported n'.exported := by
  unfold Node.exported
  rw [L.kind_eq h]
  split
  · refine (L.child? h _).map fun o o' ho => ?_
    cases ho with
    | none => exact h
    | some hd => exact hd
  · exact .ok h

/-- The scan enters corresponding nodes, and the further statements. -/
theorem scanned (h : L.Like n n') : Woven L.Like L.Extra n.scanned n'.scanned := by
  unfold Node.scanned Node.isVarBoundary
  rw [L.kind_eq h]
  split
  · exact .nil
  · exact ((L.children h).map (fun c c' hc => hc.2) fun d hd => hd.2).reverse

namespace Naming

variable (N : L.Naming More)
include N

theorem ownName (h : L.Like n n') (hk : n.namesItself = true) (word : BindingKind) :
    L.DeclaredLike More (n.ownName word) (n'.ownName word) := by
  refine L.bindAs (L.ofOption (L.child? h _)) word fun i i' hi like => ?_
  exact N.named h (Node.mem_namers_of_id hk (Readings.ok_mem_ofOption.mp hi)) like

theorem hoistedHere (h : L.Like n n') :
    L.DeclaredLike More n.hoistedHere n'.hoistedHere := by
  unfold Node.hoistedHere
  rw [L.kind_eq h]
  split
  · next hk => exact N.ownName h (by simp [Node.namesItself, hk]) _
  · rw [L.text_eq h (isOwnName_eq_false (by decide))]
    split
    · split
      · exact L.declarators h _
      · exact .nil
    · exact .one (.error _)
  · exact .nil

theorem hoisted {n n' : Node} (h : L.Like n n') : L.DeclaredLike More n.hoisted n'.hoisted := by
  rw [Node.hoisted_eq, Node.hoisted_eq n']
  refine (N.hoistedHere h).append ((L.scanned h).flatMap (fun c c' hc _ like => ?_) ?_)
  · have : sizeOf c < sizeOf n := by
      obtain ⟨-, field, hc⟩ := Node.mem_scanned.mp hc
      exact Node.sizeOf_lt_of_mem_children hc
    exact hoisted like
  · exact fun d _ hd => N.extra_hoisted hd
termination_by sizeOf n

theorem lexicalHere (h : L.Like n n') :
    L.DeclaredLike More n.lexicalHere n'.lexicalHere := by
  unfold Node.lexicalHere
  rw [L.kind_eq h]
  split
  · rw [L.text_eq h (isOwnName_eq_false (by decide))]
    split
    · split
      · exact .nil
      · exact L.declarators h _
    · exact .one (.error _)
  · next hk => exact N.ownName h (by simp [Node.namesItself, hk, Kind.isClass]) _
  · refine declaring_of_forall₂ (L.ofList_forall₂ (L.items_forall₂ h rfl)) fun s s' _ hs => ?_
    rw [L.kind_eq hs]
    split
    · next hk =>
      refine L.bindAs (.cons (L.child hs _) .nil) _ fun i i' hi like => ?_
      exact N.named hs (Node.mem_namers_of_local hk (List.mem_singleton.mp hi).symm) like
    · exact .nil
  · exact .nil

theorem lexical (h : L.Like n n') : L.DeclaredLike More n.lexical n'.lexical := by
  unfold Node.lexical
  have same := L.exported h
  generalize n.exported = x, n'.exported = x' at same ⊢
  cases same with
  | error f => exact .one (.error f)
  | ok hd => exact N.lexicalHere hd

/-! ## Constructs -/

/-- The further statements of a list declare nothing with block scope. -/
theorem declaring_lexical {rs rs' : Readings} {field : String}
    (h : Woven (Agree L.Like)
      (fun r => ∃ d, r = .ok d ∧ holdsStatements field = true ∧ L.Extra d) rs rs') :
    L.DeclaredLike More (rs.declaring Node.lexical) (rs'.declaring Node.lexical) := by
  refine declaring h (fun m m' _ hm => N.lexical hm) fun d hd x hx => ?_
  rw [N.extra_lexical hd.2] at hx
  cases hx

theorem bodyNames (h : L.Like n n') :
    L.DeclaredLike More (Node.bodyNames n.statements) (Node.bodyNames n'.statements) := by
  have statements := L.ofList (L.items h "body")
  refine (declaring statements (fun m m' _ hm => N.hoisted hm) fun d hd => ?_).append
    (N.declaring_lexical statements)
  exact N.extra_hoisted hd.2

theorem functionNames (report : Bool) (h : L.Like n n') :
    L.DeclaredLike More (n.functionNames report) (n'.functionNames report) := by
  unfold Node.functionNames
  rw [L.kind_eq h]
  refine (Woven.append (Woven.append ?_ ?_) ?_).append ?_
  · split
    · next hk => exact N.ownName h (by simp [Node.namesItself, hk]) _
    · exact .nil
  · split
    · exact .nil
    · exact .one (.ok ⟨N.arguments.symm, rfl, .none⟩)
  · refine declaring_of_forall₂ (L.ofList_forall₂ (L.items_forall₂ h rfl)) fun p p' _ hp => ?_
    exact L.bindAs (L.patternNames hp) _ fun i i' hi like =>
      L.text_name like (Node.kind_of_mem_patternNames hi)
  · have body := L.child h "body"
    generalize n.child "body" = x, n'.child "body" = x' at body ⊢
    cases body with
    | error f => exact .one (.error f)
    | ok hb =>
      simp only [L.kind_eq hb]
      split
      · exact N.bodyNames hb
      · exact .nil

/-- Corresponding nodes declare corresponding names in the same order. -/
theorem declared (report : Bool) (h : L.Like n n') :
    L.DeclaredLike More (n.declared report) (n'.declared report) := by
  have cls : n.kind.isClass = true →
      L.DeclaredLike More (n.ownName .className) (n'.ownName .className) :=
    fun hk => N.ownName h (by simp [Node.namesItself, hk]) _
  have head : L.DeclaredLike More (Node.declared.lexicalHead n)
      (Node.declared.lexicalHead n') := by
    unfold Node.declared.lexicalHead
    have left := L.child h "left"
    generalize n.child "left" = x, n'.child "left" = x' at left ⊢
    cases left with
    | error f => exact .one (.error f)
    | ok hl => exact N.lexical hl
  unfold Node.declared
  rw [L.kind_eq h]
  split <;> rename_i hk
  · exact N.bodyNames h
  · exact N.bodyNames h
  · exact N.functionNames report h
  · exact N.functionNames report h
  · exact N.functionNames report h
  · exact cls (by simp [hk, Kind.isClass])
  · exact cls (by simp [hk, Kind.isClass])
  · exact L.namesIn_bindAs h _ _
  · exact N.declaring_lexical (L.ofList (L.items h "body"))
  · refine declaring_of_forall₂ (L.ofList_forall₂ (L.items_forall₂ h rfl)) fun c c' _ hc => ?_
    exact N.declaring_lexical (L.ofList (L.items hc "consequent"))
  · exact declaring_of_forall₂ (L.ofOption (L.child? h _)) fun i i' _ hi => N.lexical hi
  · exact head
  · exact head
  · exact .nil

end Naming

/-! ## Bindings and faults of corresponding declarations -/

/-- Nothing more is missing in the second tree. -/
theorem faults_eq {ds ds' : Declared} (h : L.DeclaredLike More ds ds') : ds'.faults = ds.faults := by
  unfold Declared.faults
  induction h with
  | nil => rfl
  | both hx _ ih =>
    cases hx with
    | error f => simp [ih]
    | ok hb => simpa using ih
  | more hx _ ih =>
    obtain ⟨b, rfl, -⟩ := hx
    simpa using ih

/-- A name is bound where its counterpart is, unless what the second tree has more binds it. -/
theorem declares_eq {ds ds' : Declared} (h : L.DeclaredLike More ds ds')
    (inj : Function.Injective L.rename) {name : Text}
    (other : ∀ b, More b → b.name ≠ L.rename name) :
    ds'.bindings.declares (L.rename name) = ds.bindings.declares name := by
  rw [Bool.eq_iff_iff, Declared.declares_iff, Declared.declares_iff]
  induction h with
  | nil => simp
  | @both x x' ds ds' hx _ ih =>
    simp only [List.mem_cons]
    cases hx with
    | error f => simpa using ih
    | @ok b b' hb =>
      simp only [Except.ok.injEq, or_and_right, exists_or, exists_eq_left, hb.name, inj.eq_iff, ih]
  | more hx _ ih =>
    obtain ⟨b, rfl, hb⟩ := hx
    simpa [other b hb] using ih

end Likeness

end FreeNames
