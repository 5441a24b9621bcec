import FreeNames.Proofs.Scope.Pattern
import FreeNames.Proofs.Tree.Built

/-!
# What scopes bind

In the tree of a regular parse the names of a scope can be read in full, and each of them comes
from an identifier in the construct that opens the scope.

* `DeclaredIn` says so of one binding, `Node.BuiltThroughout.declaredIn` of all that a construct
  declares; laid out trees are a case of this.
* `Node.mem_hoisted` unrolls the scan for hoisted names by one node.
-/

namespace FreeNames

open Node

/-- A binding that was read, of the name of an identifier below the place, or the one that
functions have by themselves. -/
def DeclaredIn (p : Place) (x : Except Fault Binding) : Prop :=
  ∃ b, x = .ok b ∧ (b = argumentsBinding ∨ ∃ q ∈ p.below, b.node = some q.node ∧
    q.node.kind = .identifier ∧ q.node.text "name" = .ok b.name)

theorem DeclaredIn.mono {p q : Place} {x : Except Fault Binding} (h : DeclaredIn q x)
    (hq : q ∈ p.below) : DeclaredIn p x := by
  obtain ⟨b, rfl, h⟩ := h
  refine ⟨b, rfl, h.imp id ?_⟩
  rintro ⟨r, hr, rest⟩
  exact ⟨r, Place.mem_below_trans hq hr, rest⟩

theorem DeclaredIn.child {p : Place} {c : String × Node} {x : Except Fault Binding}
    (hc : c ∈ p.node.children) (h : DeclaredIn (p.child c) x) : DeclaredIn p x :=
  h.mono (Place.mem_below_of_mem_children (Place.self_mem_below p) (Place.child_mem_children hc))

/-! ## Membership -/

theorem Readings.mem_declaring {rs : Readings} {k : Node → Declared} {x : Except Fault Binding} :
    x ∈ rs.declaring k ↔ (∃ n, .ok n ∈ rs ∧ x ∈ k n) ∨ ∃ f, .error f ∈ rs ∧ x = .error f := by
  unfold Readings.declaring
  rw [List.mem_flatMap]
  constructor
  · rintro ⟨_ | n, hr, hx⟩
    · exact Or.inr ⟨_, hr, List.mem_singleton.mp hx⟩
    · exact Or.inl ⟨n, hr, hx⟩
  · rintro (⟨n, hr, hx⟩ | ⟨f, hr, hx⟩)
    · exact ⟨_, hr, hx⟩
    · exact ⟨_, hr, List.mem_singleton.mpr hx⟩

theorem Readings.mem_declaring_ofList {ns : List Node} {x : Except Fault (List Node)}
    (hx : x = .ok ns) {k : Node → Declared} {y : Except Fault Binding} :
    y ∈ (Readings.ofList x).declaring k ↔ ∃ n ∈ ns, y ∈ k n := by
  subst hx
  simp [Readings.mem_declaring, Readings.ofList]

theorem Readings.mem_declaring_ofOption {o : Option Node} {x : Except Fault (Option Node)}
    (hx : x = .ok o) {k : Node → Declared} {y : Except Fault Binding} :
    y ∈ (Readings.ofOption x).declaring k ↔ ∃ n ∈ o, y ∈ k n := by
  subst hx
  cases o <;> simp [Readings.mem_declaring, Readings.ofOption]

/-- What the nodes in a list declare is declared where the list is. -/
theorem DeclaredIn.of_items {root : Node} {p : Place} {field : String} {cs : List Node}
    {k : Node → Declared} {x : Except Fault Binding} (items : p.node.items field = .ok cs)
    (hp : p ∈ root.places)
    (each : ∀ c ∈ cs, p.child (field, c) ∈ root.places → x ∈ k c → DeclaredIn (p.child (field, c)) x)
    (hx : x ∈ (Readings.ofList (p.node.items field)).declaring k) : DeclaredIn p x := by
  obtain ⟨c, hc, hx⟩ := (Readings.mem_declaring_ofList items).mp hx
  have child := mem_children_of_items items hc
  exact .child child (each c hc (child_mem_places hp child) hx)

theorem Readings.mem_bindAs {rs : Readings} {kind : BindingKind} {x : Except Fault Binding} :
    x ∈ rs.bindAs kind ↔ (∃ n, .ok n ∈ rs ∧ x = (n.text "name").map fun name => ⟨name, kind, some n⟩)
      ∨ ∃ f, .error f ∈ rs ∧ x = .error f := by
  unfold Readings.bindAs
  rw [List.mem_map]
  constructor
  · rintro ⟨_ | n, hr, hx⟩
    · exact Or.inr ⟨_, hr, hx.symm⟩
    · exact Or.inl ⟨n, hr, hx.symm⟩
  · rintro (⟨n, hr, hx⟩ | ⟨f, hr, hx⟩)
    · exact ⟨_, hr, hx.symm⟩
    · exact ⟨_, hr, hx.symm⟩

/-- The names bound are those of the bindings that were read. -/
theorem Declared.declares_iff {ds : Declared} {name : Text} :
    ds.bindings.declares name = true ↔ ∃ b, .ok b ∈ ds ∧ b.name = name := by
  rw [bindings, Bindings.ofList, Bindings.declares_declareAll, Bindings.declares_empty,
    Bool.false_or, List.any_eq_true]
  simp only [List.mem_filterMap, decide_eq_true_eq]
  constructor
  · rintro ⟨b, ⟨x, hx, hb⟩, name⟩
    cases x with
    | error f => cases hb
    | ok c =>
      cases hb
      exact ⟨b, hx, name⟩
  · rintro ⟨b, hb, name⟩
    exact ⟨b, ⟨_, hb, rfl⟩, name⟩

namespace Node

/-! ## Hoisted names -/

theorem hoistedFrom_append (ms ns : List Node) :
    hoistedFrom (ms ++ ns) = hoistedFrom ms ++ hoistedFrom ns := by
  fun_induction hoistedFrom ms with
  | case1 => rfl
  | case2 n pending ih =>
    rw [List.cons_append, hoistedFrom, ← List.append_assoc, ih, List.append_assoc]

/-- The scan of a node gives its own names and those of the nodes that it enters from there. -/
theorem hoisted_eq (n : Node) : n.hoisted = n.hoistedHere ++ n.scanned.flatMap hoisted := by
  have key : ∀ ns : List Node, hoistedFrom ns = ns.flatMap hoisted := by
    intro ns
    induction ns with
    | nil => simp [hoistedFrom]
    | cons m ns ih => rw [← List.singleton_append, hoistedFrom_append, ih]; rfl
  rw [hoisted, hoistedFrom, List.append_nil, key]

theorem mem_scanned {n c : Node} :
    c ∈ n.scanned ↔ n.isVarBoundary = false ∧ ∃ field, (field, c) ∈ n.children := by
  unfold scanned
  split
  · next h => simp [h]
  · next h => simp [Bool.eq_false_iff.mpr h]

theorem mem_hoisted {n : Node} {x : Except Fault Binding} :
    x ∈ n.hoisted ↔ x ∈ n.hoistedHere ∨ (n.isVarBoundary = false ∧
      ∃ c ∈ n.children, x ∈ c.2.hoisted) := by
  rw [hoisted_eq, List.mem_append, List.mem_flatMap]
  refine or_congr Iff.rfl ⟨?_, ?_⟩
  · rintro ⟨c, hc, hx⟩
    obtain ⟨boundary, field, hc⟩ := mem_scanned.mp hc
    exact ⟨boundary, _, hc, hx⟩
  · rintro ⟨boundary, ⟨field, c⟩, hc, hx⟩
    exact ⟨c, mem_scanned.mpr ⟨boundary, field, hc⟩, hx⟩

namespace BuiltThroughout

variable {root : Node} {p : Place} {x : Except Fault Binding} {kind : BindingKind}

/-- Places of kinds that name no module have their layout. -/
theorem hasLayout (h : root.BuiltThroughout true) (hp : p ∈ root.places)
    (plain : p.node.kind.namesModule = false) : p.node.hasLayout = true :=
  hasLayout_of_isBuilt (h _ (node_mem_preorder hp)) plain

/-! ## Names of patterns -/

theorem clean_subpatterns (h : root.BuiltThroughout true) (hp : p ∈ root.places) (f : Fault) :
    .error f ∉ p.node.subpatterns := by
  have layout := h.hasLayout hp
  unfold subpatterns
  split
  · next hk =>
    obtain ⟨ps, hps, children⟩ := laid_objectPattern (layout (hk ▸ rfl)) hk
    rw [hps]
    intro hf
    obtain ⟨r, hr, hf⟩ := List.mem_flatMap.mp hf
    obtain ⟨q, hq, rfl⟩ := List.mem_map.mp hr
    replace hf : .error f ∈ q.propertyPatterns := hf
    unfold propertyPatterns at hf
    split at hf
    · next hprop =>
      have hc : ("properties", q) ∈ p.node.children := children ▸ mem_inField.mpr ⟨rfl, hq⟩
      obtain ⟨key, value, -, -, hvalue, -⟩ := laid_property
        (h.hasLayout (child_mem_places hp hc) (hprop ▸ rfl)) hprop
      replace hvalue : q.child "value" = .ok value := hvalue
      rw [child?_of_child hvalue] at hf
      simp [Readings.ofOption] at hf
    · simp at hf
  · next hk =>
    obtain ⟨es, hes, -⟩ := laid_arrayPattern (layout (hk ▸ rfl)) hk
    simp [hes, Readings.ofSlots]
  · next hk =>
    obtain ⟨a, ha, -⟩ := laid_restElement (layout (hk ▸ rfl)) hk
    simp [child?_of_child ha, Readings.ofOption]
  · next hk =>
    obtain ⟨l, r, hl, -⟩ := laid_assignmentPattern (layout (hk ▸ rfl)) hk
    simp [child?_of_child hl, Readings.ofOption]
  · simp

theorem clean_patternNames (h : root.BuiltThroughout true) (hp : p ∈ root.places) (f : Fault) :
    .error f ∉ p.node.patternNames := by
  induction size : sizeOf p.node using Nat.strongRecOn generalizing p with | ind k ih => ?_
  rw [patternNames_eq]
  split
  · simp
  · intro hf
    obtain ⟨r, hr, hf⟩ := List.mem_flatMap.mp hf
    cases r with
    | error g => exact h.clean_subpatterns hp g hr
    | ok c =>
      replace hf : .error f ∈ c.patternNames := hf
      obtain ⟨q, hq, rfl, -⟩ := Place.exists_of_mem_subpatterns hr
      have smaller := sizeOf_lt_of_mem_subpatterns hr
      exact ih _ (size ▸ smaller) (Place.mem_below_trans hp hq) rfl hf

/-- An identifier at a place of the tree is a binding of its name. -/
theorem declaredIn_identifier (h : root.BuiltThroughout true) (hp : p ∈ root.places)
    (hk : p.node.kind = .identifier) :
    DeclaredIn p ((p.node.text "name").map fun name => ⟨name, kind, some p.node⟩) := by
  obtain ⟨name, hname⟩ := laid_name (h.hasLayout hp (hk ▸ rfl)) (Or.inl hk)
  exact ⟨⟨name, kind, some p.node⟩, by rw [hname]; rfl,
    Or.inr ⟨p, Place.self_mem_below p, rfl, hk, hname⟩⟩

theorem declaredIn_pattern (h : root.BuiltThroughout true) (hp : p ∈ root.places)
    (hx : x ∈ p.node.patternNames.bindAs kind) : DeclaredIn p x := by
  rcases Readings.mem_bindAs.mp hx with ⟨i, hi, rfl⟩ | ⟨f, hf, rfl⟩
  · obtain ⟨q, hq, rfl, hk, -⟩ := Place.exists_of_mem_patternNames hi
    exact (h.declaredIn_identifier (Place.mem_below_trans hp hq) hk).mono hq
  · exact absurd hf (h.clean_patternNames hp f)

theorem declaredIn_namesIn (h : root.BuiltThroughout true) (hp : p ∈ root.places) {field : String}
    {o : Option Node} (ho : p.node.child? field = .ok o)
    (hx : x ∈ (p.node.namesIn field).bindAs kind) : DeclaredIn p x := by
  unfold namesIn at hx
  rw [ho] at hx
  cases o with
  | none => simp [Readings.ofOption, Readings.bindAs] at hx
  | some c =>
    have hc := mem_children_of_child? ho
    have named : x ∈ Readings.bindAs kind (p.child (field, c)).node.patternNames := by
      simpa [Readings.ofOption] using hx
    exact DeclaredIn.child hc (h.declaredIn_pattern (child_mem_places hp hc) named)

/-! ## Names of declarations -/

/-- The own name of a function or class is an identifier in it. -/
theorem declaredIn_ownName (h : root.BuiltThroughout true) (hp : p ∈ root.places)
    (hk : p.node.kind.isFunction = true ∨ p.node.kind.isClass = true)
    (hx : x ∈ p.node.ownName kind) : DeclaredIn p x := by
  have key : ∃ name, p.node.child? "id" = .ok name ∧ ∀ i ∈ name, i.kind = .identifier := by
    rcases hk with hk | hk
    · obtain ⟨name, -, -, hname, kinds, -⟩ := laid_function
        (h.hasLayout hp (Kind.namesModule_of_isFunction hk)) hk
      exact ⟨name, hname, fun i hi => (kinds i hi).1⟩
    · obtain ⟨-, name, -, -, -, hname, kinds, -⟩ := laid_class
        (h.hasLayout hp (Kind.namesModule_of_isClass hk)) hk
      exact ⟨name, hname, kinds⟩
  obtain ⟨name, hname, kinds⟩ := key
  unfold ownName at hx
  rw [hname] at hx
  cases name with
  | none => simp [Readings.ofOption, Readings.bindAs] at hx
  | some i =>
    have hi := mem_children_of_child? hname
    simp only [Readings.ofOption, Readings.bindAs, List.map_cons, List.map_nil,
      List.mem_singleton] at hx
    subst hx
    exact DeclaredIn.child hi (h.declaredIn_identifier (child_mem_places hp hi) (kinds i rfl))

theorem declaredIn_declarators (h : root.BuiltThroughout true) (hp : p ∈ root.places)
    (hk : p.node.kind = .variableDeclaration) {word : Text}
    (hx : x ∈ p.node.declarators word) : DeclaredIn p x := by
  obtain ⟨-, ds, -, hds, kinds, -⟩ := laid_variableDeclaration (h.hasLayout hp (hk ▸ rfl)) hk
  refine .of_items hds hp (fun d hd hq hx => ?_) hx
  obtain ⟨pattern, -, hid, -⟩ := laid_declarator (h.hasLayout hq (kinds d hd ▸ rfl)) (kinds d hd)
  exact h.declaredIn_namesIn hq (child?_of_child hid) hx

theorem declaredIn_hoistedHere (h : root.BuiltThroughout true) (hp : p ∈ root.places)
    (hx : x ∈ p.node.hoistedHere) : DeclaredIn p x := by
  unfold hoistedHere at hx
  split at hx
  · next hk => exact h.declaredIn_ownName hp (Or.inl (by rw [hk]; rfl)) hx
  · next hk =>
    obtain ⟨word, -, hword, -⟩ := laid_variableDeclaration (h.hasLayout hp (hk ▸ rfl)) hk
    simp only [hword] at hx
    split at hx
    · exact h.declaredIn_declarators hp hk hx
    · simp at hx
  · simp at hx

theorem declaredIn_hoisted (h : root.BuiltThroughout true) (hp : p ∈ root.places)
    (hx : x ∈ p.node.hoisted) : DeclaredIn p x := by
  induction size : sizeOf p.node using Nat.strongRecOn generalizing p with | ind k ih => ?_
  rcases mem_hoisted.mp hx with hx | ⟨-, c, hc, hx⟩
  · exact h.declaredIn_hoistedHere hp hx
  · have smaller := sizeOf_lt_of_mem_children hc
    exact DeclaredIn.child hc (ih _ (size ▸ smaller) (child_mem_places hp hc) hx rfl)

theorem declaredIn_lexicalHere (h : root.BuiltThroughout true) (hp : p ∈ root.places)
    (hx : x ∈ p.node.lexicalHere) : DeclaredIn p x := by
  unfold lexicalHere at hx
  split at hx
  · next hk =>
    obtain ⟨word, -, hword, -⟩ := laid_variableDeclaration (h.hasLayout hp (hk ▸ rfl)) hk
    simp only [hword] at hx
    split at hx
    · simp at hx
    · exact h.declaredIn_declarators hp hk hx
  · next hk => exact h.declaredIn_ownName hp (Or.inr (by rw [hk]; rfl)) hx
  · next hk =>
    obtain ⟨ss, hss, kinds⟩ := built_import (h _ (node_mem_preorder hp)) hk
    refine .of_items hss hp (fun s hs hq hx => ?_) hx
    obtain ⟨i, hi, hname, -⟩ := laid_importSpecifier
      (h.hasLayout hq (Kind.namesModule_of_isImportSpecifier (kinds s hs))) (kinds s hs)
    have hi' := mem_children_of_child hi
    rw [if_pos (kinds s hs), Readings.bindAs, List.map_singleton, List.mem_singleton] at hx
    replace hi : s.child "local" = .ok i := hi
    rw [hi] at hx
    subst hx
    exact DeclaredIn.child hi' (h.declaredIn_identifier (child_mem_places hq hi') hname)
  · simp at hx

/-- The declaration that an export exports, if there is one, can be read. -/
theorem exists_declaration (h : root.BuiltThroughout true) (hp : p ∈ root.places)
    (hk : p.node.kind.isExport = true) : ∃ o, p.node.child? "declaration" = .ok o := by
  cases hn : p.node.kind <;> rw [hn] at hk <;> cases hk
  · obtain ⟨-, d, -, hd⟩ := built_exportNamed (h _ (node_mem_preorder hp)) hn
    exact ⟨d, hd⟩
  · obtain ⟨d, hd⟩ := laid_exportDefault (h.hasLayout hp (hn ▸ rfl)) hn
    exact ⟨some d, hd⟩

/-- So can the statement that counts for an export. -/
theorem exists_exported (h : root.BuiltThroughout true) (hp : p ∈ root.places) :
    p.node.exported = .ok p.node ∨ (p.node.kind.isExport = true ∧
      ∃ d, p.node.exported = .ok d ∧ ("declaration", d) ∈ p.node.children) := by
  unfold exported
  split
  · next hk =>
    obtain ⟨_ | d, hd⟩ := h.exists_declaration hp hk
    · exact Or.inl (by rw [hd]; rfl)
    · exact Or.inr ⟨hk, d, by rw [hd]; rfl, mem_children_of_child? hd⟩
  · exact Or.inl rfl

theorem declaredIn_lexical (h : root.BuiltThroughout true) (hp : p ∈ root.places)
    (hx : x ∈ p.node.lexical) : DeclaredIn p x := by
  unfold lexical at hx
  rcases h.exists_exported hp with hd | ⟨-, d, hd, hc⟩
  · rw [hd] at hx
    exact h.declaredIn_lexicalHere hp hx
  · rw [hd] at hx
    exact DeclaredIn.child hc (h.declaredIn_lexicalHere (child_mem_places hp hc) hx)

/-! ## Constructs -/

theorem declaredIn_bodyNames (h : root.BuiltThroughout true) (hp : p ∈ root.places) {body : List Node}
    (hbody : p.node.items "body" = .ok body) (hx : x ∈ bodyNames p.node.statements) :
    DeclaredIn p x := by
  rcases List.mem_append.mp hx with hx | hx
  · exact .of_items hbody hp (fun _ _ hq => h.declaredIn_hoisted hq) hx
  · exact .of_items hbody hp (fun _ _ hq => h.declaredIn_lexical hq) hx

theorem declaredIn_functionNames (h : root.BuiltThroughout true) (hp : p ∈ root.places)
    (hk : p.node.kind.isFunction = true) {report : Bool}
    (hx : x ∈ p.node.functionNames report) : DeclaredIn p x := by
  obtain ⟨-, params, body, -, -, hparams, hbody, -⟩ := laid_function
        (h.hasLayout hp (Kind.namesModule_of_isFunction hk)) hk
  unfold functionNames at hx
  rw [List.mem_append, List.mem_append, List.mem_append] at hx
  rcases hx with ((hx | hx) | hx) | hx
  · split at hx
    · exact h.declaredIn_ownName hp (Or.inl hk) hx
    · simp at hx
  · split at hx
    · simp at hx
    · exact ⟨argumentsBinding, List.mem_singleton.mp hx, Or.inl rfl⟩
  · exact .of_items hparams hp (fun _ _ hq => h.declaredIn_pattern hq) hx
  · rw [hbody] at hx
    replace hx : x ∈ if body.kind = .blockStatement then bodyNames body.statements else [] := hx
    split at hx
    · next hblock =>
      have hc := mem_children_of_child hbody
      have hq := child_mem_places hp hc
      obtain ⟨statements, hs, -⟩ := laid_block (h.hasLayout hq (hblock ▸ rfl)) (Or.inl hblock)
      exact DeclaredIn.child hc (h.declaredIn_bodyNames hq hs hx)
    · simp at hx

theorem declaredIn_lexicalHead (h : root.BuiltThroughout true) (hp : p ∈ root.places)
    (hk : p.node.kind = .forInStatement ∨ p.node.kind = .forOfStatement)
    (hx : x ∈ declared.lexicalHead p.node) : DeclaredIn p x := by
  obtain ⟨left, hleft⟩ := laid_forEach (h.hasLayout hp (by rcases hk with hk | hk <;> rw [hk] <;> rfl)) hk
  unfold declared.lexicalHead at hx
  rw [hleft] at hx
  have hc := mem_children_of_child hleft
  exact DeclaredIn.child hc (h.declaredIn_lexical (child_mem_places hp hc) hx)

/-- Everything that a construct declares is the name of an identifier in it, `arguments`
apart. -/
theorem declaredIn (h : root.BuiltThroughout true) (hp : p ∈ root.places) {report : Bool}
    (hx : x ∈ p.node.declared report) : DeclaredIn p x := by
  have layout := h.hasLayout hp
  unfold declared at hx
  split at hx
  · next hk =>
    obtain ⟨body, hbody, -⟩ := laid_program (layout (hk ▸ rfl)) hk
    exact h.declaredIn_bodyNames hp hbody hx
  · next hk =>
    obtain ⟨body, hbody, -⟩ := laid_block (layout (hk ▸ rfl)) (Or.inr (Or.inl hk))
    exact h.declaredIn_bodyNames hp hbody hx
  · next hk => exact h.declaredIn_functionNames hp (by rw [hk]; rfl) hx
  · next hk => exact h.declaredIn_functionNames hp (by rw [hk]; rfl) hx
  · next hk => exact h.declaredIn_functionNames hp (by rw [hk]; rfl) hx
  · next hk => exact h.declaredIn_ownName hp (Or.inr (by rw [hk]; rfl)) hx
  · next hk => exact h.declaredIn_ownName hp (Or.inr (by rw [hk]; rfl)) hx
  · next hk =>
    obtain ⟨param, -, hparam, -⟩ := laid_catch (layout (hk ▸ rfl)) hk
    exact h.declaredIn_namesIn hp hparam hx
  · next hk =>
    obtain ⟨body, hbody, -⟩ := laid_block (layout (hk ▸ rfl)) (Or.inl hk)
    exact .of_items hbody hp (fun _ _ hq => h.declaredIn_lexical hq) hx
  · next hk =>
    obtain ⟨-, cs, -, hcs, kinds, -⟩ := laid_switch (layout (hk ▸ rfl)) hk
    refine .of_items hcs hp (fun c hc hq hx => ?_) hx
    obtain ⟨-, body, -, hbody, -⟩ := laid_switchCase (h.hasLayout hq (kinds c hc ▸ rfl)) (kinds c hc)
    exact .of_items hbody hq (fun _ _ hq => h.declaredIn_lexical hq) hx
  · next hk =>
    obtain ⟨init, hinit⟩ := laid_for (layout (hk ▸ rfl)) hk
    obtain ⟨i, hi, hx⟩ := (Readings.mem_declaring_ofOption hinit).mp hx
    have hc := mem_children_of_child? (hi ▸ hinit)
    exact DeclaredIn.child hc (h.declaredIn_lexical (child_mem_places hp hc) hx)
  · next hk => exact h.declaredIn_lexicalHead hp (Or.inl hk) hx
  · next hk => exact h.declaredIn_lexicalHead hp (Or.inr hk) hx
  · simp at hx

/-- So all that it declares can be read. -/
theorem faults_eq_nil (h : root.BuiltThroughout true) (hp : p ∈ root.places) (report : Bool) :
    (p.node.declared report).faults = [] := by
  refine List.filterMap_eq_nil_iff.mpr fun x hx => ?_
  obtain ⟨b, rfl, -⟩ := h.declaredIn hp hx
  rfl

end BuiltThroughout

end Node

end FreeNames
