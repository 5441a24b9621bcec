import Mathlib
import FreeNames.Proofs.Scope.Built
import FreeNames.Proofs.Scope.Declared
import FreeNames.Proofs.Tree.Points

/-!
# Groups of names in a scope

What a scope binds is put together from groups: the own name of the construct, `arguments`, the
parameters, the hoisted and the lexical names of the statements.  Here the groups are read off the
tree by plain recursion from the top down, without the pending nodes that the scan for hoisted
names keeps, and a part that is missing is left out.

* `Node.hoistedNames` and `Node.lexicalNames` are those of a statement, and `Node.groups` those of
  a construct in their order.  `Node.isVarBoundary_iff` says what hoisted names do not come out of.
* `Bindings.Join` says how a scope is put together from groups.
* `Builder.enter_joins`: the scope that a node opens is put together from the groups of the node.
-/

namespace FreeNames

/-! ## Bindings put together from groups -/

namespace Bindings

theorem find?_declareAll (b : Bindings) (xs : List Binding) (name : Text) :
    (b.declareAll xs).find? name = (b.find? name).or (xs.find? fun x => x.name = name) := by
  induction xs generalizing b with
  | nil => exact (Option.or_none ..).symm
  | cons x xs ih =>
    rw [declareAll, List.foldl_cons]
    refine (ih (b.declare x).2).trans ?_
    rw [find?_declare, Option.or_assoc, List.find?_cons]
    by_cases same : x.name = name
    · simp [same]
    · simp [same]

theorem find?_ofList (xs : List Binding) (name : Text) :
    (ofList xs).find? name = xs.find? fun x => x.name = name := by
  rw [ofList, find?_declareAll, find?_empty, Option.none_or]

theorem declares_iff_mem_names {b : Bindings} {name : Text} :
    b.declares name = true ↔ name ∈ b.names := by
  simp [declares, find?, names]

theorem nodup_names_declare {b : Bindings} (h : b.names.Nodup) (x : Binding) :
    (b.declare x).2.names.Nodup := by
  rw [declare_snd]
  split
  · exact h
  · next fresh =>
    rw [declares_iff_mem_names] at fresh
    rw [names, List.map_append, List.map_singleton]
    exact List.nodup_append.mpr ⟨h, List.nodup_singleton _, fun y hy z hz same =>
      fresh (List.mem_singleton.mp hz ▸ same ▸ hy)⟩

theorem nodup_names_ofList (xs : List Binding) : (ofList xs).names.Nodup :=
  List.foldlRecOn (motive := fun b : Bindings => b.names.Nodup) xs _ List.nodup_nil
    fun _ nodup x _ => nodup_names_declare nodup x

/-- Bindings that are put together from groups. -/
structure Join (groups : List (List Binding)) (b : Bindings) : Prop where
  /-- The names are those of the groups. -/
  names : ∀ name, b.declares name = true ↔ ∃ g ∈ groups, ∃ x ∈ g, x.name = name
  /-- Every name is bound once. -/
  once : b.names.Nodup
  /-- A name of several groups is bound as the first of them binds it. -/
  first : ∀ before g after, groups = before ++ g :: after → ∀ y ∈ g,
    (∀ earlier ∈ before, ∀ x ∈ earlier, x.name ≠ y.name) → ∃ x ∈ g, b.find? y.name = some x

end Bindings

namespace Declared

variable {ds es : Declared} {g : List Binding} {name : Text} {x : Binding}

/-- The bindings that were read are those of the group, in whatever order. -/
def Reads (ds : Declared) (g : List Binding) : Prop := ∀ x, .ok x ∈ ds ↔ x ∈ g

theorem Reads.nil : Reads [] [] := fun _ => by simp

/-- The binding of a name is the first that was read. -/
theorem find?_bindings_append (ds es : Declared) (name : Text) :
    (ds ++ es).bindings.find? name = (ds.bindings.find? name).or (es.bindings.find? name) := by
  simp only [bindings, Bindings.find?_ofList, List.filterMap_append, List.find?_append]

theorem find?_bindings_eq_none (other : ∀ x, .ok x ∈ ds → x.name ≠ name) :
    ds.bindings.find? name = none := by
  have unbound : ¬ ds.bindings.declares name = true := by
    rw [declares_iff]
    rintro ⟨x, hx, same⟩
    exact other x hx same
  simpa [Bindings.declares] using unbound

theorem exists_find?_bindings (hx : .ok x ∈ ds) :
    ∃ y, .ok y ∈ ds ∧ ds.bindings.find? x.name = some y := by
  have bound : ds.bindings.declares x.name = true := declares_iff.mpr ⟨x, hx, rfl⟩
  obtain ⟨y, hy⟩ := Option.isSome_iff_exists.mp bound
  rw [bindings, Bindings.find?_ofList] at hy ⊢
  obtain ⟨_ | z, hz, same⟩ := List.mem_filterMap.mp (List.mem_of_find?_eq_some hy)
  · cases same
  · cases same
    exact ⟨y, hz, hy⟩

variable {pieces : List Declared} {groups : List (List Binding)}

theorem ok_mem_flatten (reads : List.Forall₂ Reads pieces groups) :
    .ok x ∈ pieces.flatten ↔ ∃ g ∈ groups, x ∈ g := by
  induction reads with
  | nil => simp
  | cons head _ ih =>
    rw [List.flatten_cons, List.mem_append, ih, head x]
    simp only [List.mem_cons, exists_eq_or_imp]

/-- What is read group by group is put together from the groups. -/
theorem join_bindings (reads : List.Forall₂ Reads pieces groups) :
    (Declared.bindings pieces.flatten).Join groups where
  names := by
    intro name
    rw [declares_iff]
    constructor
    · rintro ⟨x, hx, same⟩
      obtain ⟨g, hg, mem⟩ := (ok_mem_flatten reads).mp hx
      exact ⟨g, hg, x, mem, same⟩
    · rintro ⟨g, hg, x, mem, same⟩
      exact ⟨x, (ok_mem_flatten reads).mpr ⟨g, hg, mem⟩, same⟩
  once := Bindings.nodup_names_ofList _
  first := by
    intro before g after shape y hy fresh
    induction before generalizing pieces groups with
    | nil =>
      subst shape
      cases reads with
      | cons head _ =>
        obtain ⟨x, hx, found⟩ := exists_find?_bindings ((head y).mpr hy)
        exact ⟨x, (head x).mp hx, by rw [List.flatten_cons, find?_bindings_append, found]; rfl⟩
    | cons earlier before ih =>
      subst shape
      cases reads with
      | cons head tail =>
        obtain ⟨x, hx, found⟩ := ih tail rfl fun e he => fresh e (List.mem_cons_of_mem _ he)
        refine ⟨x, hx, ?_⟩
        rw [List.flatten_cons, find?_bindings_append, find?_bindings_eq_none, Option.none_or, found]
        exact fun z hz => fresh earlier (List.mem_cons_self ..) z ((head z).mp hz)

end Declared

namespace Node

/-! ## Names of statements and constructs -/

/-- Bind the names of these identifiers. -/
def bindingsOf (kind : BindingKind) (ids : List Node) : List Binding :=
  ids.filterMap fun i => (i.text "name").toOption.map fun name => ⟨name, kind, some i⟩

/-- The identifiers that a pattern binds. -/
def patternIdentifiers (p : Node) : List Node := p.patternNames.filterMap Except.toOption

/-- The names of the declarators of a variable declaration. -/
def declaratorNames (word : Text) (n : Node) : List Binding :=
  (n.under "declarations").flatMap fun d =>
    bindingsOf (.keyword word) ((d.under "id").flatMap patternIdentifiers)

/-- The hoisted names of a declaration itself. -/
def hoistedOwn (n : Node) : List Binding :=
  match n.kind with
  | .functionDeclaration => bindingsOf .function (n.under "id")
  | .variableDeclaration => if n.text "kind" = .ok varWord then n.declaratorNames varWord else []
  | _ => []

/-- The names of `var` declarations and function declarations anywhere below, but not in nested
functions, classes and static blocks. -/
def hoistedNames (n : Node) : List Binding :=
  n.hoistedOwn ++
    if n.isVarBoundary then [] else n.children.attach.flatMap fun c => c.1.2.hoistedNames
termination_by sizeOf n
decreasing_by exact sizeOf_lt_of_mem_children c.2

/-- What hoisted names do not come out of. -/
theorem isVarBoundary_iff {n : Node} : n.isVarBoundary = true ↔
    n.kind ∈ [Kind.functionDeclaration, .functionExpression, .arrowFunctionExpression,
      .classDeclaration, .classExpression, .staticBlock] := by
  unfold isVarBoundary
  cases n.kind <;> simp [Kind.isFunction, Kind.isClass]

/-- The names of a `let`, `const`, class or import declaration. -/
def lexicalOwn (n : Node) : List Binding :=
  match n.kind with
  | .variableDeclaration =>
    match n.text "kind" with
    | .ok word => if word = varWord then [] else n.declaratorNames word
    | .error _ => []
  | .classDeclaration => bindingsOf .className (n.under "id")
  | .importDeclaration =>
    (n.under "specifiers").flatMap fun s => bindingsOf .imported (s.under "local")
  | _ => []

/-- Such names of a statement, or of the declaration that it exports. -/
def lexicalNames (n : Node) : List Binding :=
  if n.kind.isExport then (n.under "declaration").flatMap lexicalOwn else n.lexicalOwn

/-- The hoisted and the lexical names of a list of statements. -/
def bodyGroups (statements : List Node) : List (List Binding) :=
  [statements.flatMap hoistedNames, statements.flatMap lexicalNames]

/-- The statements of a function whose body stands in braces. -/
def blockStatements (n : Node) : List Node :=
  (n.under "body").flatMap fun body => if body.kind = .blockStatement then body.under "body" else []

/-- The own name if it is an expression, `arguments` unless it is an arrow and such uses are
reported, the parameters, and the names of the body. -/
def functionGroups (report : Bool) (n : Node) : List (List Binding) :=
  [if n.kind = .functionExpression then bindingsOf .function (n.under "id") else [],
    if n.kind = .arrowFunctionExpression && report then [] else [argumentsBinding],
    (n.under "params").flatMap fun q => bindingsOf .parameter q.patternIdentifiers] ++
      bodyGroups n.blockStatements

/-- The groups of names that the scope of a node is put together from. -/
def groups (report : Bool) (n : Node) : List (List Binding) :=
  match n.kind with
  | .program | .staticBlock => bodyGroups (n.under "body")
  | .functionDeclaration | .functionExpression | .arrowFunctionExpression => n.functionGroups report
  | .classDeclaration | .classExpression => [bindingsOf .className (n.under "id")]
  | .catchClause => [bindingsOf .caught ((n.under "param").flatMap patternIdentifiers)]
  | .blockStatement => [(n.under "body").flatMap lexicalNames]
  | .switchStatement =>
    [(n.under "cases").flatMap fun c => (c.under "consequent").flatMap lexicalNames]
  | .forStatement => [(n.under "init").flatMap lexicalNames]
  | .forInStatement | .forOfStatement => [(n.under "left").flatMap lexicalNames]
  | _ => []

theorem hoistedNames_eq (n : Node) : n.hoistedNames = n.hoistedOwn ++
    if n.isVarBoundary then [] else n.children.flatMap fun c => c.2.hoistedNames := by
  rw [hoistedNames, List.flatMap_subtype (g := fun c => c.2.hoistedNames) fun _ _ => rfl,
    List.unattach_attach]

theorem ok_mem_patternNames {p i : Node} : .ok i ∈ p.patternNames ↔ i ∈ p.patternIdentifiers := by
  rw [patternIdentifiers, List.mem_filterMap]
  constructor
  · exact fun h => ⟨_, h, rfl⟩
  · rintro ⟨_ | j, hj, same⟩
    · cases same
    · cases same
      exact hj

/-! ## Reading the groups -/

section

variable {n : Node} {field : String} {kind : BindingKind} {k : Node → Declared}
  {g : Node → List Binding}

theorem reads_bindAs {rs : Readings} {ids : List Node} (same : ∀ i, .ok i ∈ rs ↔ i ∈ ids) :
    (rs.bindAs kind).Reads (bindingsOf kind ids) := by
  intro x
  rw [Readings.mem_bindAs, bindingsOf, List.mem_filterMap]
  constructor
  · rintro (⟨i, hi, hx⟩ | ⟨f, -, hx⟩)
    · refine ⟨i, (same i).mp hi, ?_⟩
      cases hname : i.text "name" <;> rw [hname] at hx <;> cases hx
      rfl
    · cases hx
  · rintro ⟨i, hi, hx⟩
    refine Or.inl ⟨i, (same i).mpr hi, ?_⟩
    cases hname : i.text "name" <;> rw [hname] at hx <;> cases hx
    rfl

theorem reads_items {cs : List Node} (hcs : n.items field = .ok cs)
    (each : ∀ c ∈ cs, (k c).Reads (g c)) :
    ((Readings.ofList (n.items field)).declaring k).Reads ((n.under field).flatMap g) := by
  intro x
  rw [Readings.mem_declaring_ofList hcs, under_of_items hcs, List.mem_flatMap]
  exact exists_congr fun c => and_congr_right fun hc => each c hc x

theorem reads_option {o : Option Node} (ho : n.child? field = .ok o)
    (each : ∀ c ∈ o, (k c).Reads (g c)) :
    ((Readings.ofOption (n.child? field)).declaring k).Reads ((n.under field).flatMap g) := by
  intro x
  rw [Readings.mem_declaring_ofOption ho, under_of_child? ho, List.mem_flatMap]
  simp only [Option.mem_toList]
  exact exists_congr fun c => and_congr_right fun hc => each c hc x

theorem reads_namesIn {o : Option Node} (ho : n.child? field = .ok o) :
    ((n.namesIn field).bindAs kind).Reads
      (bindingsOf kind ((n.under field).flatMap patternIdentifiers)) := by
  refine reads_bindAs fun i => ?_
  rw [namesIn, ho, under_of_child? ho]
  cases o with
  | none => simp [Readings.ofOption]
  | some p => simpa [Readings.ofOption] using ok_mem_patternNames

theorem reads_ownName {o : Option Node} (ho : n.child? "id" = .ok o) :
    (n.ownName kind).Reads (bindingsOf kind (n.under "id")) := by
  refine reads_bindAs fun i => ?_
  rw [ho, under_of_child? ho, Readings.ok_mem_ofOption, Except.ok.injEq, Option.mem_toList]

end

namespace BuiltThroughout

variable {root : Node} {p : Place} {report : Bool}

theorem reads_declarators (h : root.BuiltThroughout true) (hp : p ∈ root.places)
    (hk : p.node.kind = .variableDeclaration) (word : Text) :
    (p.node.declarators word).Reads (p.node.declaratorNames word) := by
  obtain ⟨-, ds, -, hds, kinds, -⟩ := laid_variableDeclaration (h.hasLayout hp (hk ▸ rfl)) hk
  refine reads_items hds fun d hd => ?_
  have hq := child_mem_places hp (mem_children_of_items hds hd)
  obtain ⟨pattern, -, hid, -⟩ := laid_declarator (h.hasLayout hq (kinds d hd ▸ rfl)) (kinds d hd)
  exact reads_namesIn (child?_of_child hid)

/-- The own name of a function or class can be read. -/
theorem reads_ownName (h : root.BuiltThroughout true) (hp : p ∈ root.places)
    (hk : p.node.kind.isFunction = true ∨ p.node.kind.isClass = true) (kind : BindingKind) :
    (p.node.ownName kind).Reads (bindingsOf kind (p.node.under "id")) := by
  rcases hk with hk | hk
  · obtain ⟨name, -, -, hname, -⟩ := laid_function
      (h.hasLayout hp (Kind.namesModule_of_isFunction hk)) hk
    exact Node.reads_ownName hname
  · obtain ⟨-, name, -, -, -, hname, -⟩ := laid_class
      (h.hasLayout hp (Kind.namesModule_of_isClass hk)) hk
    exact Node.reads_ownName hname

theorem reads_hoistedHere (h : root.BuiltThroughout true) (hp : p ∈ root.places) :
    p.node.hoistedHere.Reads p.node.hoistedOwn := by
  unfold hoistedHere
  split
  · next hk =>
    rw [hoistedOwn, hk]
    exact h.reads_ownName hp (Or.inl (by rw [hk]; rfl)) _
  · next hk =>
    obtain ⟨word, -, hword, -⟩ := laid_variableDeclaration (h.hasLayout hp (hk ▸ rfl)) hk
    rw [hoistedOwn, hk]
    simp only [hword, Except.ok.injEq]
    split
    · next same =>
      subst same
      exact h.reads_declarators hp hk _
    · exact .nil
  · simp_all only [hoistedOwn]
    exact .nil

/-- The scan finds the hoisted names of a node and of everything below it. -/
theorem reads_hoisted (h : root.BuiltThroughout true) (hp : p ∈ root.places) :
    p.node.hoisted.Reads p.node.hoistedNames := by
  induction size : sizeOf p.node using Nat.strongRecOn generalizing p with | ind k ih => ?_
  intro x
  have below : ∀ c ∈ p.node.children, c.2.hoisted.Reads c.2.hoistedNames := fun c hc =>
    ih _ (size ▸ sizeOf_lt_of_mem_children hc) (child_mem_places hp hc) rfl
  rw [mem_hoisted, hoistedNames_eq, List.mem_append, h.reads_hoistedHere hp x]
  refine or_congr Iff.rfl ?_
  split
  · next boundary => simp [boundary]
  · next open_ =>
    rw [List.mem_flatMap]
    constructor
    · rintro ⟨-, c, hc, hx⟩
      exact ⟨c, hc, (below c hc x).mp hx⟩
    · rintro ⟨c, hc, hx⟩
      exact ⟨Bool.eq_false_iff.mpr open_, c, hc, (below c hc x).mpr hx⟩

theorem reads_lexicalHere (h : root.BuiltThroughout true) (hp : p ∈ root.places) :
    p.node.lexicalHere.Reads p.node.lexicalOwn := by
  unfold lexicalHere
  split
  · next hk =>
    obtain ⟨word, -, hword, -⟩ := laid_variableDeclaration (h.hasLayout hp (hk ▸ rfl)) hk
    rw [lexicalOwn, hk]
    simp only [hword]
    split
    · exact .nil
    · exact h.reads_declarators hp hk word
  · next hk =>
    rw [lexicalOwn, hk]
    exact h.reads_ownName hp (Or.inr (by rw [hk]; rfl)) _
  · next hk =>
    obtain ⟨ss, hss, kinds⟩ := built_import (h _ (node_mem_preorder hp)) hk
    rw [lexicalOwn, hk]
    refine reads_items hss fun s hs => ?_
    have hq := child_mem_places hp (mem_children_of_items hss hs)
    obtain ⟨i, hi, -⟩ := laid_importSpecifier
      (h.hasLayout hq (Kind.namesModule_of_isImportSpecifier (kinds s hs))) (kinds s hs)
    replace hi : s.child "local" = .ok i := hi
    rw [if_pos (kinds s hs), hi, under_of_child hi]
    exact reads_bindAs fun j => by simp [eq_comm]
  · simp_all only [lexicalOwn]
    exact .nil

/-- Also where they are below an export. -/
theorem reads_lexical (h : root.BuiltThroughout true) (hp : p ∈ root.places) :
    p.node.lexical.Reads p.node.lexicalNames := by
  rw [lexical, lexicalNames, exported]
  by_cases hk : p.node.kind.isExport = true
  · obtain ⟨o, ho⟩ := h.exists_declaration hp hk
    rw [if_pos hk, if_pos hk, ho, under_of_child? ho]
    cases o with
    | none =>
      have nothing : p.node.lexicalHere = [] := by
        cases hn : p.node.kind <;> rw [hn] at hk <;> cases hk <;> rw [lexicalHere, hn]
      show p.node.lexicalHere.Reads []
      rw [nothing]
      exact .nil
    | some d =>
      have declaration := h.reads_lexicalHere (child_mem_places hp (mem_children_of_child? ho))
      rw [Option.toList_some, List.flatMap_singleton]
      exact declaration
  · rw [if_neg hk, if_neg hk]
    exact h.reads_lexicalHere hp

/-- So it is for the left side of a loop over a collection. -/
theorem reads_lexicalHead (h : root.BuiltThroughout true) (hp : p ∈ root.places)
    (hk : p.node.kind = .forInStatement ∨ p.node.kind = .forOfStatement) :
    (declared.lexicalHead p.node).Reads ((p.node.under "left").flatMap lexicalNames) := by
  obtain ⟨left, hleft⟩ :=
    laid_forEach (h.hasLayout hp (by rcases hk with hk | hk <;> rw [hk] <;> rfl)) hk
  rw [declared.lexicalHead, hleft, under_of_child hleft, List.flatMap_singleton]
  exact h.reads_lexical (child_mem_places hp (mem_children_of_child hleft))

/-- The hoisted and the lexical names of the statements in a field are read in turn. -/
theorem forall₂_bodyNames (h : root.BuiltThroughout true) (hp : p ∈ root.places) {body : List Node}
    (hbody : p.node.items "body" = .ok body) :
    List.Forall₂ Declared.Reads [p.node.statements.declaring hoisted,
      p.node.statements.declaring lexical] (bodyGroups (p.node.under "body")) :=
  have inside : ∀ s ∈ body, p.child ("body", s) ∈ root.places := fun _ hs =>
    child_mem_places hp (mem_children_of_items hbody hs)
  .cons (reads_items hbody fun s hs => h.reads_hoisted (inside s hs))
    (.cons (reads_items hbody fun s hs => h.reads_lexical (inside s hs)) .nil)

/-- So are the groups of a function. -/
theorem exists_functionPieces (h : root.BuiltThroughout true) (hp : p ∈ root.places)
    (hk : p.node.kind.isFunction = true) (report : Bool) : ∃ pieces,
      p.node.functionNames report = pieces.flatten ∧
        List.Forall₂ Declared.Reads pieces (p.node.functionGroups report) := by
  obtain ⟨-, params, body, -, -, hparams, hbody, -⟩ := laid_function
    (h.hasLayout hp (Kind.namesModule_of_isFunction hk)) hk
  have hq := child_mem_places hp (mem_children_of_child hbody)
  have inner : ∃ pieces, (if body.kind = .blockStatement then bodyNames body.statements else []) =
      pieces.flatten ∧ List.Forall₂ Declared.Reads pieces (bodyGroups p.node.blockStatements) := by
    rw [blockStatements, under_of_child hbody, List.flatMap_singleton]
    split
    · next block =>
      obtain ⟨statements, hs, -⟩ := laid_block (h.hasLayout hq (block ▸ rfl)) (Or.inl block)
      exact ⟨_, by simp [bodyNames], h.forall₂_bodyNames hq hs⟩
    · exact ⟨[[], []], rfl, .cons .nil (.cons .nil .nil)⟩
  obtain ⟨pieces, flat, reads⟩ := inner
  have own : Declared.Reads
      (if p.node.kind = .functionExpression then p.node.ownName .function else [])
      (if p.node.kind = .functionExpression then bindingsOf .function (p.node.under "id")
        else []) := by
    split
    · exact h.reads_ownName hp (Or.inl hk) _
    · exact .nil
  have implicit : Declared.Reads
      (if p.node.kind = .arrowFunctionExpression && report then [] else [.ok argumentsBinding])
      (if p.node.kind = .arrowFunctionExpression && report then [] else [argumentsBinding]) := by
    split
    · exact .nil
    · exact fun x => by simp
  have parameters : Declared.Reads
      ((Readings.ofList (p.node.items "params")).declaring fun q =>
        q.patternNames.bindAs .parameter)
      ((p.node.under "params").flatMap fun q => bindingsOf .parameter q.patternIdentifiers) :=
    reads_items hparams fun q _ => reads_bindAs fun _ => ok_mem_patternNames
  refine ⟨_ :: _ :: _ :: pieces, ?_, .cons own (.cons implicit (.cons parameters reads))⟩
  rw [functionNames, hbody, List.flatten_cons, List.flatten_cons, List.flatten_cons, ← flat]
  simp only [List.append_assoc]

/-- What one statement after the other declares by lexical declarations is one group. -/
theorem reads_lexicals (h : root.BuiltThroughout true) (hp : p ∈ root.places) {field : String}
    {statements : List Node} (hs : p.node.items field = .ok statements) :
    ((Readings.ofList (p.node.items field)).declaring lexical).Reads
      ((p.node.under field).flatMap lexicalNames) :=
  reads_items hs fun _ hs' => h.reads_lexical (child_mem_places hp (mem_children_of_items hs hs'))

/-- So it is for the cases of a switch, with all their statements together. -/
theorem reads_caseLexicals (h : root.BuiltThroughout true) (hp : p ∈ root.places)
    (hk : p.node.kind = .switchStatement) :
    ((Readings.ofList (p.node.items "cases")).declaring fun c =>
        (Readings.ofList (c.items "consequent")).declaring lexical).Reads
      ((p.node.under "cases").flatMap fun c => (c.under "consequent").flatMap lexicalNames) := by
  obtain ⟨-, cs, -, hcs, kinds, -⟩ := laid_switch (h.hasLayout hp (hk ▸ rfl)) hk
  refine reads_items hcs fun c hc => ?_
  have hq := child_mem_places hp (mem_children_of_items hcs hc)
  obtain ⟨-, statements, -, hs, -⟩ :=
    laid_switchCase (h.hasLayout hq (kinds c hc ▸ rfl)) (kinds c hc)
  exact h.reads_lexicals hq hs

theorem exists_bodyPieces (h : root.BuiltThroughout true) (hp : p ∈ root.places)
    {statements : List Node} (hs : p.node.items "body" = .ok statements) :
    ∃ pieces : List Declared, bodyNames p.node.statements = pieces.flatten ∧
      List.Forall₂ Declared.Reads pieces (bodyGroups (p.node.under "body")) :=
  ⟨_, by simp [bodyNames], h.forall₂_bodyNames hp hs⟩

/-- All that a construct declares is read group by group. -/
theorem exists_pieces (h : root.BuiltThroughout true) (hp : p ∈ root.places) (report : Bool) :
    ∃ pieces, p.node.declared report = pieces.flatten ∧
      List.Forall₂ Declared.Reads pieces (p.node.groups report) := by
  have layout := h.hasLayout hp
  have single {ds : Declared} {g : List Binding} (reads : ds.Reads g) : ∃ pieces : List Declared,
      ds = pieces.flatten ∧ List.Forall₂ Declared.Reads pieces [g] :=
    ⟨[ds], by simp, .cons reads .nil⟩
  unfold declared
  split
  · next hk =>
    obtain ⟨statements, hs, -⟩ := laid_program (layout (hk ▸ rfl)) hk
    rw [groups, hk]
    exact h.exists_bodyPieces hp hs
  · next hk =>
    obtain ⟨statements, hs, -⟩ := laid_block (layout (hk ▸ rfl)) (Or.inr (Or.inl hk))
    rw [groups, hk]
    exact h.exists_bodyPieces hp hs
  · next hk =>
    rw [groups, hk]
    exact h.exists_functionPieces hp (by rw [hk]; rfl) report
  · next hk =>
    rw [groups, hk]
    exact h.exists_functionPieces hp (by rw [hk]; rfl) report
  · next hk =>
    rw [groups, hk]
    exact h.exists_functionPieces hp (by rw [hk]; rfl) report
  · next hk =>
    rw [groups, hk]
    exact single (h.reads_ownName hp (Or.inr (by rw [hk]; rfl)) _)
  · next hk =>
    rw [groups, hk]
    exact single (h.reads_ownName hp (Or.inr (by rw [hk]; rfl)) _)
  · next hk =>
    obtain ⟨param, -, hparam, -⟩ := laid_catch (layout (hk ▸ rfl)) hk
    rw [groups, hk]
    exact single (reads_namesIn hparam)
  · next hk =>
    obtain ⟨statements, hs, -⟩ := laid_block (layout (hk ▸ rfl)) (Or.inl hk)
    rw [groups, hk]
    exact single (h.reads_lexicals hp hs)
  · next hk =>
    rw [groups, hk]
    exact single (h.reads_caseLexicals hp hk)
  · next hk =>
    obtain ⟨init, hinit⟩ := laid_for (layout (hk ▸ rfl)) hk
    rw [groups, hk]
    exact single (reads_option hinit fun i hi =>
      h.reads_lexical (child_mem_places hp (mem_children_of_child? (hi ▸ hinit))))
  · next hk =>
    rw [groups, hk]
    exact single (h.reads_lexicalHead hp (Or.inl hk))
  · next hk =>
    rw [groups, hk]
    exact single (h.reads_lexicalHead hp (Or.inr hk))
  · simp_all only [groups]
    exact ⟨[], rfl, .nil⟩

end BuiltThroughout

end Node

/-! ## The scope that a node opens -/

namespace Builder

variable {n : Node} {parent : Option Nat}

/-- A node that was entered has its newest scope. -/
theorem scopeOf?_enter_self (b : Builder) (n : Node) (parent : Option Nat) :
    (b.enter n parent).scopeOf? n = some b.forest.size := by
  unfold scopeOf?
  show Option.map _ (List.find? _ (remember b.entered n b.forest.size)) = _
  unfold remember
  split
  · next seen =>
    obtain ⟨e, he⟩ := Option.isSome_iff_exists.mp (List.find?_isSome.mpr (List.any_eq_true.mp seen))
    have same : e.1.id = n.id := by simpa using List.find?_some he
    have keeps : (fun e : Node × Nat => decide (e.1.id = n.id)) ∘
        (fun e => if e.1.id = n.id then (e.1, b.forest.size) else e) =
          fun e => decide (e.1.id = n.id) := by
      funext e
      by_cases own : e.1.id = n.id
      · simp [own]
      · simp [own]
    rw [List.find?_map, keeps, he, Option.map_some, if_pos same]
    rfl
  · next fresh =>
    have unseen : b.entered.find? (fun e => e.1.id = n.id) = none := by simpa using fresh
    rw [List.find?_append, unseen]
    simp

/-- Whatever scopes are open, a node of a tree in the layout can be entered, and what its new
scope binds is put together from the groups of the node. -/
theorem enter_joins {root : Node} (built : root.BuiltThroughout true) (mem : n ∈ root.preorder)
    (b : Builder) (parent : Option Nat) :
    (n.declared b.reportArrowArguments).faults = [] ∧
      ∃ s, (b.enter n parent).scopeOf? n = some b.forest.size ∧
        (b.enter n parent).forest.get? b.forest.size = some s ∧ s.node = some n ∧
        s.bindings.Join (n.groups b.reportArrowArguments) := by
  obtain ⟨p, hp, rfl⟩ := Node.exists_place_of_mem_preorder mem
  obtain ⟨pieces, flat, reads⟩ := built.exists_pieces hp b.reportArrowArguments
  have join : (p.node.declared b.reportArrowArguments).bindings.Join
      (p.node.groups b.reportArrowArguments) := flat ▸ Declared.join_bindings reads
  exact ⟨built.faults_eq_nil hp _, _, b.scopeOf?_enter_self p.node parent,
    (Forest.get?_openScope _).trans (if_pos rfl), rfl, join⟩

/-- The function `function f(a) { { var b, f, arguments } const a, c }`. -/
def ownAndHoisted : Node :=
  .mk 0 .functionExpression default
    [("id", .node (name 1 "f")), ("params", .list [.node (name 2 "a")]), ("body", .node body),
      ("generator", .bool false), ("async_", .bool false)]
where
  name (id : Nat) (word : String) : Node :=
    .mk id .identifier default [("name", .text (Text.ofString word))]
  declarator (id : Nat) (word : String) : Value := .node (.mk id .variableDeclarator default
    [("id", .node (name (id + 1) word)), ("init", .null)])
  /-- The braces of the function, with a block in them. -/
  body : Node := .mk 3 .blockStatement default [("body", .list
    [.node (.mk 4 .blockStatement default [("body", .list [.node (.mk 5 .variableDeclaration default
        [("kind", .text "var"), ("declarations", .list
          [declarator 6 "b", declarator 8 "f", declarator 10 "arguments"])])])]),
      .node (.mk 12 .variableDeclaration default [("kind", .text "const"), ("declarations", .list
        [declarator 13 "a", declarator 15 "c"])])])]

/-- Its own name, `arguments` and the parameter stay what they are, whatever the body declares. -/
theorem ownAndHoisted_joins : ownAndHoisted.BuiltThroughout true ∧
    ownAndHoisted ∈ ownAndHoisted.preorder ∧
    (((new true).enter ownAndHoisted none).forest.get? 0).map
        (fun s => s.bindings.entries.map fun x => (x.name, x.kind)) =
      some [(Text.ofString "f", .function), (Text.ofString "arguments", .implicit),
        (Text.ofString "a", .parameter), (Text.ofString "b", .keyword "var"),
        (Text.ofString "c", .keyword "const")] ∧
    ∃ s, ((new true).enter ownAndHoisted none).forest.get? 0 = some s ∧
      s.bindings.Join (ownAndHoisted.groups true) := by
  have all : (ownAndHoisted.preorder.all fun m => m.isBuilt true) = true := by cbv
  have built : ownAndHoisted.BuiltThroughout true := List.all_eq_true.mp all
  have mem : ownAndHoisted ∈ ownAndHoisted.preorder := Node.self_mem_preorder _
  obtain ⟨-, s, -, hs, -, join⟩ := enter_joins built mem (new true) none
  exact ⟨built, mem, by cbv, s, hs, join⟩

end Builder

end FreeNames
