import FreeNames.Proofs.Tree.Layout

/-!
# Reading laid out nodes

What the table of layouts says of the kinds that have a rule of their own: the fields that the
rule reads hold what it expects, and the children are those in these fields, in order.
-/

namespace FreeNames

/-- Is there nothing below nodes of the kind? -/
def Kind.isLeaf : Kind → Bool
  | .identifier | .privateIdentifier | .thisExpression | .super | .literal | .templateElement
  | .emptyStatement | .debuggerStatement => true
  | _ => false

/-- Can no node stand in the field? -/
def Shape.isPlain : Shape → Bool
  | .scalar | .text => true
  | _ => false

theorem Kind.isPlain_of_isLeaf {k : Kind} (hk : k.isLeaf = true) :
    (k.layouts.all fun shapes => shapes.all fun s => s.2.isPlain) = true := by
  cases k <;> first | rfl | cases hk

namespace Node

variable {n : Node} {k : Kind}

/-- The children in one field. -/
def inField (field : String) (cs : List Node) : List (String × Node) := cs.map fun c => (field, c)

@[simp] theorem inField_nil (field : String) : inField field [] = [] := rfl

@[simp] theorem inField_cons (field : String) (c : Node) (cs : List Node) :
    inField field (c :: cs) = (field, c) :: inField field cs := rfl

@[simp] theorem mem_inField {field g : String} {c : Node} {cs : List Node} :
    (g, c) ∈ inField field cs ↔ g = field ∧ c ∈ cs := by
  simp only [inField, List.mem_map, Prod.mk.injEq]
  constructor
  · rintro ⟨d, hd, rfl, rfl⟩
    exact ⟨rfl, hd⟩
  · rintro ⟨rfl, hc⟩
    exact ⟨c, hc, rfl, rfl⟩

/-- Children in one field are kept or dropped together. -/
theorem filter_inField (field : String) {keep : String × Node → Bool} (b : Bool)
    (h : ∀ c, keep (field, c) = b) (cs : List Node) :
    (inField field cs).filter keep = if b then inField field cs else [] := by
  unfold inField
  rw [List.filter_map]
  cases b <;> simp [Function.comp_def, h]

theorem child?_of_child {c : Node} {field : String} (h : n.child field = .ok c) :
    n.child? field = .ok (some c) := by
  unfold child at h
  unfold child?
  split at h
  · next heq =>
    cases h
    rw [heq]
  · cases h

theorem children_of_isLeaf (h : n.hasLayout = true) (hk : n.kind.isLeaf = true) :
    n.children = [] := by
  obtain ⟨shapes, mem, has, -, children⟩ := exists_shapes h
  rw [children, List.flatMap_eq_nil_iff]
  intro s hs
  have plain := List.all_eq_true.mp (List.all_eq_true.mp (Kind.isPlain_of_isLeaf hk) shapes mem) s hs
  obtain ⟨field, shape⟩ := s
  cases shape with
  | scalar =>
    obtain ⟨-, -, -, empty⟩ := (has _ hs).scalar
    rw [empty, List.map_nil]
  | text =>
    obtain ⟨-, -, empty⟩ := (has _ hs).text
    rw [empty, List.map_nil]
  | _ => cases plain

/-- The fields of a kind that has one layout. -/
theorem exists_shapes_of_kind (h : n.hasLayout = true) (hk : n.kind = k)
    {shapes : List (String × Shape)} (only : k.layouts = [shapes]) :
    (∀ s ∈ shapes, n.HasField s.1 s.2) ∧
      n.children = shapes.flatMap fun s => inField s.1 (n.under s.1) := by
  obtain ⟨shapes', mem, has, -, children⟩ := exists_shapes h
  rw [hk, only, List.mem_singleton] at mem
  subst mem
  exact ⟨has, children⟩

theorem laid_name (h : n.hasLayout = true) (hk : n.kind = .identifier ∨ n.kind = .privateIdentifier) :
    ∃ name, n.text "name" = .ok name := by
  have only : n.kind.layouts = [[("name", .text)]] := by
    rcases hk with hk | hk <;> rw [hk] <;> rfl
  obtain ⟨has, -⟩ := exists_shapes_of_kind h rfl only
  obtain ⟨name, hname, -⟩ := (has ("name", .text) (by simp)).text
  exact ⟨name, hname⟩

/-! ## Statements -/

theorem laid_program (h : n.hasLayout = true) (hk : n.kind = .program) :
    ∃ body, n.items "body" = .ok body ∧ n.children = inField "body" body := by
  obtain ⟨has, children⟩ := exists_shapes_of_kind h hk rfl
  obtain ⟨body, hbody, -, under_body⟩ := (has ("body", .list Kind.isAny) (by simp)).items
  obtain ⟨-, -, -, under_type⟩ := (has ("sourceType", .scalar) (by simp)).scalar
  exact ⟨body, hbody, by simp [children, under_body, under_type]⟩

theorem laid_block (h : n.hasLayout = true)
    (hk : n.kind = .blockStatement ∨ n.kind = .staticBlock ∨ n.kind = .classBody) :
    ∃ body, n.items "body" = .ok body ∧ n.children = inField "body" body := by
  have only : n.kind.layouts = [[("body", .list Kind.isAny)]] := by
    rcases hk with hk | hk | hk <;> rw [hk] <;> rfl
  obtain ⟨has, children⟩ := exists_shapes_of_kind h rfl only
  obtain ⟨body, hbody, -, under_body⟩ := (has ("body", .list Kind.isAny) (by simp)).items
  exact ⟨body, hbody, by simp [children, under_body]⟩

theorem laid_variableDeclaration (h : n.hasLayout = true) (hk : n.kind = .variableDeclaration) :
    ∃ word ds, n.text "kind" = .ok word ∧ n.items "declarations" = .ok ds ∧
      (∀ d ∈ ds, d.kind = .variableDeclarator) ∧ n.children = inField "declarations" ds := by
  obtain ⟨has, children⟩ := exists_shapes_of_kind h hk rfl
  obtain ⟨word, hword, under_kind⟩ := (has ("kind", .text) (by simp)).text
  obtain ⟨ds, hds, kinds, under_ds⟩ := (has ("declarations", .list _) (by simp; rfl)).items
  exact ⟨word, ds, hword, hds, by simpa using kinds, by simp [children, under_kind, under_ds]⟩

theorem laid_declarator (h : n.hasLayout = true) (hk : n.kind = .variableDeclarator) :
    ∃ pattern init, n.child "id" = .ok pattern ∧ n.child? "init" = .ok init ∧
      n.children = ("id", pattern) :: inField "init" init.toList := by
  obtain ⟨has, children⟩ := exists_shapes_of_kind h hk rfl
  obtain ⟨pattern, hid, -, under_id⟩ := (has ("id", .node Kind.isAny) (by simp)).child
  obtain ⟨init, hinit, -, under_init⟩ := (has ("init", .option Kind.isAny) (by simp)).child?
  exact ⟨pattern, init, hid, hinit, by simp [children, under_id, under_init]⟩

theorem laid_switch (h : n.hasLayout = true) (hk : n.kind = .switchStatement) :
    ∃ d cases, n.child "discriminant" = .ok d ∧ n.items "cases" = .ok cases ∧
      (∀ c ∈ cases, c.kind = .switchCase) ∧
      n.children = ("discriminant", d) :: inField "cases" cases := by
  obtain ⟨has, children⟩ := exists_shapes_of_kind h hk rfl
  obtain ⟨d, hd, -, under_d⟩ := (has ("discriminant", .node Kind.isAny) (by simp)).child
  obtain ⟨cs, hcs, kinds, under_cs⟩ := (has ("cases", .list _) (by simp; rfl)).items
  exact ⟨d, cs, hd, hcs, by simpa using kinds, by simp [children, under_d, under_cs]⟩

theorem laid_switchCase (h : n.hasLayout = true) (hk : n.kind = .switchCase) :
    ∃ test body, n.child? "test" = .ok test ∧ n.items "consequent" = .ok body ∧
      n.children = inField "test" test.toList ++ inField "consequent" body := by
  obtain ⟨has, children⟩ := exists_shapes_of_kind h hk rfl
  obtain ⟨test, htest, -, under_test⟩ := (has ("test", .option Kind.isAny) (by simp)).child?
  obtain ⟨body, hbody, -, under_body⟩ := (has ("consequent", .list Kind.isAny) (by simp)).items
  exact ⟨test, body, htest, hbody, by simp [children, under_test, under_body]⟩

theorem laid_catch (h : n.hasLayout = true) (hk : n.kind = .catchClause) :
    ∃ param body, n.child? "param" = .ok param ∧ n.child "body" = .ok body ∧
      n.children = inField "param" param.toList ++ [("body", body)] := by
  obtain ⟨has, children⟩ := exists_shapes_of_kind h hk rfl
  obtain ⟨param, hparam, -, under_param⟩ := (has ("param", .option Kind.isAny) (by simp)).child?
  obtain ⟨body, hbody, -, under_body⟩ := (has ("body", .node Kind.isAny) (by simp)).child
  exact ⟨param, body, hparam, hbody, by simp [children, under_param, under_body]⟩

theorem laid_for (h : n.hasLayout = true) (hk : n.kind = .forStatement) :
    ∃ init, n.child? "init" = .ok init := by
  obtain ⟨has, -⟩ := exists_shapes_of_kind h hk rfl
  obtain ⟨init, hinit, -⟩ := (has ("init", .option Kind.isAny) (by simp)).child?
  exact ⟨init, hinit⟩

theorem laid_forEach (h : n.hasLayout = true)
    (hk : n.kind = .forInStatement ∨ n.kind = .forOfStatement) :
    ∃ left, n.child "left" = .ok left := by
  rcases hk with hk | hk
  · obtain ⟨has, -⟩ := exists_shapes_of_kind h hk rfl
    obtain ⟨left, hleft, -⟩ := (has ("left", .node Kind.isAny) (by simp)).child
    exact ⟨left, hleft⟩
  · obtain ⟨has, -⟩ := exists_shapes_of_kind h hk rfl
    obtain ⟨left, hleft, -⟩ := (has ("left", .node Kind.isAny) (by simp)).child
    exact ⟨left, hleft⟩

/-! ## Imports and exports -/

theorem laid_import (h : n.hasLayout = true) (hk : n.kind = .importDeclaration) :
    ∃ specifiers source, n.items "specifiers" = .ok specifiers ∧
      (∀ s ∈ specifiers, s.kind.isImportSpecifier = true) ∧ source.kind = .literal ∧
      n.children = inField "specifiers" specifiers ++ [("source", source)] := by
  obtain ⟨has, children⟩ := exists_shapes_of_kind h hk rfl
  obtain ⟨specifiers, hs, kinds, under_s⟩ :=
    (has ("specifiers", .list Kind.isImportSpecifier) (by simp)).items
  obtain ⟨source, -, literal, under_source⟩ :=
    (has ("source", .node Kind.isLiteral) (by simp)).child
  exact ⟨specifiers, source, hs, kinds, by simpa [Kind.isLiteral] using literal,
    by simp [children, under_s, under_source]⟩

theorem laid_importSpecifier (h : n.hasLayout = true) (hk : n.kind.isImportSpecifier = true) :
    ∃ i, n.child "local" = .ok i ∧ i.kind = .identifier ∧
      ∀ c ∈ n.children, c.2.kind.isModuleName = true := by
  cases hn : n.kind <;> rw [hn] at hk <;> cases hk
  case importSpecifier =>
    obtain ⟨has, children⟩ := exists_shapes_of_kind h hn rfl
    obtain ⟨m, -, hm, under_m⟩ := (has ("imported", .node Kind.isModuleName) (by simp)).child
    obtain ⟨i, hi, name, under_i⟩ := (has ("local", .node Kind.isIdentifier) (by simp)).child
    refine ⟨i, hi, by simpa [Kind.isIdentifier] using name, ?_⟩
    have hi : i.kind.isModuleName = true := by rw [Kind.isModuleName, name, Bool.true_or]
    simp [children, under_m, under_i, hm, hi]
  all_goals
    obtain ⟨has, children⟩ := exists_shapes_of_kind h hn rfl
    obtain ⟨i, hi, name, under_i⟩ := (has ("local", .node Kind.isIdentifier) (by simp)).child
    refine ⟨i, hi, by simpa [Kind.isIdentifier] using name, ?_⟩
    simp [children, under_i, Kind.isModuleName, name]

/-- An export of names has a declaration and no source, or no declaration. -/
theorem laid_exportNamed (h : n.hasLayout = true) (hk : n.kind = .exportNamedDeclaration) :
    ∃ fromModule declaration, n.given "source" = .ok fromModule ∧
      n.child? "declaration" = .ok declaration ∧
      ∀ c ∈ n.children, (c.1 = "declaration" ∧ fromModule = false) ∨
        c.2.kind = .exportSpecifier ∨ c.2.kind = .literal := by
  obtain ⟨shapes, mem, has, -, children⟩ := exists_shapes h
  simp only [hk, Kind.layouts, List.mem_cons, List.not_mem_nil, or_false] at mem
  rcases mem with rfl | rfl
  · obtain ⟨d, hd, -, under_d⟩ := (has ("declaration", .node Kind.isAny) (by simp)).child
    obtain ⟨ss, -, none, under_ss⟩ := (has ("specifiers", .list Kind.isNone) (by simp)).items
    obtain ⟨v, hv, hadmits⟩ := has ("source", .option Kind.isNone) (by simp)
    obtain ⟨_ | c, rfl, hc⟩ := Shape.admits_option.mp hadmits
    · refine ⟨false, some d, by rw [given, hv]; rfl, child?_of_child hd, ?_⟩
      obtain rfl : ss = [] := List.eq_nil_iff_forall_not_mem.mpr fun s hs => by
        simpa [Kind.isNone] using none s hs
      have under_source : n.under "source" = [] := by rw [under, hv]; rfl
      simp [children, under_d, under_ss, under_source]
    · simpa [Kind.isNone] using hc c rfl
  · obtain ⟨d, hd, none, under_d⟩ := (has ("declaration", .option Kind.isNone) (by simp)).child?
    obtain ⟨ss, -, kinds, under_ss⟩ := (has ("specifiers", .list _) (by simp; rfl)).items
    obtain ⟨v, hv, hadmits⟩ := has ("source", .option Kind.isLiteral) (by simp)
    obtain ⟨o, rfl, hc⟩ := Shape.admits_option.mp hadmits
    obtain rfl : d = Option.none := Option.eq_none_iff_forall_not_mem.mpr fun c hc => by
      simpa [Kind.isNone] using none c hc
    refine ⟨_, _, by rw [given, hv], hd, ?_⟩
    have under_source : n.under "source" = o.toList := by rw [under, hv]; simp
    simp only [children, List.flatMap_cons, List.flatMap_nil, under_d, under_ss, under_source,
      Option.toList_none, List.map_nil, List.nil_append, List.append_nil, List.mem_append,
      List.mem_map, Option.mem_toList]
    rintro c (⟨s, hs, rfl⟩ | ⟨s, hs, rfl⟩)
    · exact Or.inr (Or.inl (by simpa using kinds s hs))
    · exact Or.inr (Or.inr (by simpa [Kind.isLiteral] using hc s hs))

theorem laid_exportDefault (h : n.hasLayout = true) (hk : n.kind = .exportDefaultDeclaration) :
    ∃ d, n.child? "declaration" = .ok (some d) := by
  obtain ⟨has, -⟩ := exists_shapes_of_kind h hk rfl
  obtain ⟨d, hd, -⟩ := (has ("declaration", .node Kind.isAny) (by simp)).child
  exact ⟨d, child?_of_child hd⟩

/-- What names imports and exports, and the parts of a meta property, are names and literals. -/
theorem laid_moduleNames (h : n.hasLayout = true) (hk : n.kind = .exportAllDeclaration ∨
    n.kind = .exportSpecifier ∨ n.kind = .metaProperty) :
    ∀ c ∈ n.children, c.2.kind.isModuleName = true := by
  rcases hk with hk | hk | hk
  · obtain ⟨has, children⟩ := exists_shapes_of_kind h hk rfl
    obtain ⟨e, -, he, under_e⟩ := (has ("exported", .option Kind.isModuleName) (by simp)).child?
    obtain ⟨s, -, hs, under_s⟩ := (has ("source", .option Kind.isLiteral) (by simp)).child?
    simp only [children, List.flatMap_cons, List.flatMap_nil, under_e, under_s, List.append_nil,
      List.mem_append]
    rintro ⟨f, c⟩ (hc | hc)
    · exact he c (by simpa using (mem_inField.mp hc).2)
    · have := hs c (by simpa using (mem_inField.mp hc).2)
      simp [Kind.isModuleName, this]
  · obtain ⟨has, children⟩ := exists_shapes_of_kind h hk rfl
    obtain ⟨l, -, hl, under_l⟩ := (has ("local", .node Kind.isModuleName) (by simp)).child
    obtain ⟨e, -, he, under_e⟩ := (has ("exported", .node Kind.isModuleName) (by simp)).child
    simp [children, under_l, under_e, hl, he]
  · obtain ⟨has, children⟩ := exists_shapes_of_kind h hk rfl
    obtain ⟨m, -, hm, under_m⟩ := (has ("meta", .node Kind.isIdentifier) (by simp)).child
    obtain ⟨p, -, hp, under_p⟩ := (has ("property", .node Kind.isIdentifier) (by simp)).child
    simp [children, under_m, under_p, Kind.isModuleName, hm, hp]

/-! ## Functions and classes -/

theorem laid_function (h : n.hasLayout = true) (hk : n.kind.isFunction = true) :
    ∃ name params body, n.child? "id" = .ok name ∧
      (∀ i ∈ name, i.kind = .identifier ∧ n.kind ≠ .arrowFunctionExpression) ∧
      n.items "params" = .ok params ∧ n.child "body" = .ok body ∧
      n.children = inField "id" name.toList ++ inField "params" params ++ [("body", body)] := by
  have key : ∃ test, (∀ i, test i = true → i = .identifier ∧ n.kind ≠ .arrowFunctionExpression) ∧
      n.HasField "id" (.option test) ∧ n.HasField "params" (.list Kind.isAny) ∧
      n.HasField "body" (.node Kind.isAny) ∧
      n.children = inField "id" (n.under "id") ++ inField "params" (n.under "params") ++
        inField "body" (n.under "body") := by
    cases hn : n.kind <;> rw [hn] at hk <;> cases hk
    case arrowFunctionExpression =>
      obtain ⟨has, children⟩ := exists_shapes_of_kind h hn rfl
      obtain ⟨-, -, -, under_e⟩ := (has ("expression", .scalar) (by simp)).scalar
      obtain ⟨-, -, -, under_g⟩ := (has ("generator", .scalar) (by simp)).scalar
      obtain ⟨-, -, -, under_a⟩ := (has ("async_", .scalar) (by simp)).scalar
      exact ⟨Kind.isNone, by simp [Kind.isNone], has ("id", _) (by simp),
        has ("params", _) (by simp), has ("body", _) (by simp),
        by simp [children, under_e, under_g, under_a]⟩
    all_goals
      obtain ⟨has, children⟩ := exists_shapes_of_kind h hn rfl
      obtain ⟨-, -, -, under_g⟩ := (has ("generator", .scalar) (by simp [Kind.functionLayout])).scalar
      obtain ⟨-, -, -, under_a⟩ := (has ("async_", .scalar) (by simp [Kind.functionLayout])).scalar
      exact ⟨Kind.isIdentifier, by simp [Kind.isIdentifier],
        has ("id", _) (by simp [Kind.functionLayout]),
        has ("params", _) (by simp [Kind.functionLayout]),
        has ("body", _) (by simp [Kind.functionLayout]),
        by simp [children, Kind.functionLayout, under_g, under_a]⟩
  obtain ⟨test, names, hid, hparams, hbody, children⟩ := key
  obtain ⟨name, hname, test_name, under_id⟩ := hid.child?
  obtain ⟨params, hitems, -, under_params⟩ := hparams.items
  obtain ⟨body, hchild, -, under_body⟩ := hbody.child
  refine ⟨name, params, body, hname, fun i hi => names _ (test_name i hi), hitems, hchild, ?_⟩
  rw [children, under_id, under_params, under_body]
  rfl

theorem laid_class (h : n.hasLayout = true) (hk : n.kind.isClass = true) :
    ∃ decorators name heritage body, n.items "decorators" = .ok decorators ∧
      n.child? "id" = .ok name ∧ (∀ i ∈ name, i.kind = .identifier) ∧
      n.child? "superClass" = .ok heritage ∧ n.child "body" = .ok body ∧
      n.children = inField "decorators" decorators ++ inField "id" name.toList ++
        inField "superClass" heritage.toList ++ [("body", body)] := by
  have only : n.kind.layouts = [Kind.classLayout] := by
    cases hn : n.kind <;> rw [hn] at hk <;> simp only [Kind.isClass, Bool.false_eq_true] at hk <;>
      rfl
  obtain ⟨has, children⟩ := exists_shapes_of_kind h rfl only
  obtain ⟨ds, hds, -, under_ds⟩ :=
    (has ("decorators", .list Kind.isAny) (by simp [Kind.classLayout])).items
  obtain ⟨name, hname, names, under_id⟩ :=
    (has ("id", .option Kind.isIdentifier) (by simp [Kind.classLayout])).child?
  obtain ⟨heritage, hh, -, under_h⟩ :=
    (has ("superClass", .option Kind.isAny) (by simp [Kind.classLayout])).child?
  obtain ⟨body, hbody, -, under_body⟩ :=
    (has ("body", .node Kind.isAny) (by simp [Kind.classLayout])).child
  exact ⟨ds, name, heritage, body, hds, hname, by simpa [Kind.isIdentifier] using names, hh, hbody,
    by simp [children, Kind.classLayout, under_ds, under_id, under_h, under_body]⟩

/-! ## Patterns -/

theorem laid_objectPattern (h : n.hasLayout = true) (hk : n.kind = .objectPattern) :
    ∃ ps, n.items "properties" = .ok ps ∧ n.children = inField "properties" ps := by
  obtain ⟨has, children⟩ := exists_shapes_of_kind h hk rfl
  obtain ⟨ps, hps, -, under_ps⟩ := (has ("properties", .list Kind.isAny) (by simp)).items
  exact ⟨ps, hps, by simp [children, under_ps]⟩

theorem laid_arrayPattern (h : n.hasLayout = true) (hk : n.kind = .arrayPattern) :
    ∃ es, n.slots "elements" = .ok es ∧
      n.children = inField "elements" (es.flatMap Option.toList) := by
  obtain ⟨has, children⟩ := exists_shapes_of_kind h hk rfl
  obtain ⟨es, hes, -, under_es⟩ := (has ("elements", .slots Kind.isAny) (by simp)).slots
  exact ⟨es, hes, by simp [children, under_es]⟩

theorem laid_restElement (h : n.hasLayout = true) (hk : n.kind = .restElement) :
    ∃ a, n.child "argument" = .ok a ∧ n.children = [("argument", a)] := by
  obtain ⟨has, children⟩ := exists_shapes_of_kind h hk rfl
  obtain ⟨a, ha, -, under_a⟩ := (has ("argument", .node Kind.isAny) (by simp)).child
  exact ⟨a, ha, by simp [children, under_a]⟩

theorem laid_assignmentPattern (h : n.hasLayout = true) (hk : n.kind = .assignmentPattern) :
    ∃ l r, n.child "left" = .ok l ∧ n.child "right" = .ok r ∧
      n.children = [("left", l), ("right", r)] := by
  obtain ⟨has, children⟩ := exists_shapes_of_kind h hk rfl
  obtain ⟨l, hl, -, under_l⟩ := (has ("left", .node Kind.isAny) (by simp)).child
  obtain ⟨r, hr, -, under_r⟩ := (has ("right", .node Kind.isAny) (by simp)).child
  exact ⟨l, r, hl, hr, by simp [children, under_l, under_r]⟩

theorem flag_eq_isComputed {v : Value} (h : n.field? "computed" = some v) :
    n.flag "computed" = .ok n.isComputed := by
  rw [flag, isComputed, h]
  rfl

theorem laid_property (h : n.hasLayout = true) (hk : n.kind = .property) :
    ∃ key value, n.flag "computed" = .ok n.isComputed ∧ n.child "key" = .ok key ∧
      n.child "value" = .ok value ∧ n.children = [("key", key), ("value", value)] := by
  obtain ⟨shapes, mem, has, -, children⟩ := exists_shapes h
  simp only [hk, Kind.layouts, List.mem_cons, List.not_mem_nil, or_false] at mem
  rcases mem with rfl | rfl
  all_goals
    obtain ⟨key, hkey, -, under_key⟩ := (has ("key", .node Kind.isAny) (by simp)).child
    obtain ⟨value, hvalue, -, under_value⟩ := (has ("value", .node Kind.isAny) (by simp)).child
    obtain ⟨v, hv, -, under_c⟩ := (has ("computed", .scalar) (by simp)).scalar
    obtain ⟨-, -, -, under_k⟩ := (has ("kind", .scalar) (by simp)).scalar
    obtain ⟨-, -, -, under_m⟩ := (has ("method", .scalar) (by simp)).scalar
    obtain ⟨-, -, -, under_s⟩ := (has ("shorthand", .scalar) (by simp)).scalar
    exact ⟨key, value, flag_eq_isComputed hv, hkey, hvalue,
      by simp [children, under_key, under_value, under_c, under_k, under_m, under_s]⟩

/-! ## Chains -/

theorem laid_member (h : n.hasLayout = true) (hk : n.kind = .memberExpression) :
    ∃ object property, n.child "object" = .ok object ∧ n.child "property" = .ok property ∧
      n.flag "computed" = .ok n.isComputed ∧
      n.children = [("object", object), ("property", property)] := by
  obtain ⟨has, children⟩ := exists_shapes_of_kind h hk rfl
  obtain ⟨o, ho, -, under_o⟩ := (has ("object", .node Kind.isAny) (by simp)).child
  obtain ⟨p, hp, -, under_p⟩ := (has ("property", .node Kind.isAny) (by simp)).child
  obtain ⟨v, hv, -, under_c⟩ := (has ("computed", .scalar) (by simp)).scalar
  obtain ⟨-, -, -, under_t⟩ := (has ("optional", .scalar) (by simp)).scalar
  exact ⟨o, p, ho, hp, flag_eq_isComputed hv, by simp [children, under_o, under_p, under_c, under_t]⟩

theorem laid_literal (h : n.hasLayout = true) (hk : n.kind = .literal) :
    ∃ v raw, n.field? "value" = some v ∧ n.text "raw" = .ok raw := by
  obtain ⟨shapes, mem, has, -⟩ := exists_shapes h
  simp only [hk, Kind.layouts, List.mem_cons, List.not_mem_nil, or_false] at mem
  rcases mem with rfl | rfl
  all_goals
    obtain ⟨v, hv, -⟩ := (has ("value", .scalar) (by simp)).scalar
    obtain ⟨raw, hraw, -⟩ := (has ("raw", .text) (by simp)).text
    exact ⟨v, raw, hv, hraw⟩

/-- The operand of a link comes first and is alone in its field. -/
theorem laid_link (h : n.hasLayout = true) (hk : n.kind.isChainLink = true) :
    ∃ field operand rest, n.kind.operandField? = some field ∧ n.child field = .ok operand ∧
      n.children = (field, operand) :: rest ∧ ∀ c ∈ rest, c.1 ≠ field := by
  have key : ∃ (field : String) (others : List String), n.kind.operandField? = some field ∧
      n.HasField field (.node Kind.isAny) ∧ (∀ g ∈ others, g ≠ field) ∧
      n.children = inField field (n.under field) ++
        others.flatMap fun g => inField g (n.under g) := by
    cases hn : n.kind <;> rw [hn] at hk <;> cases hk
    case memberExpression =>
      obtain ⟨has, children⟩ := exists_shapes_of_kind h hn rfl
      exact ⟨"object", ["property", "computed", "optional"], rfl, has ("object", _) (by simp),
        by simp, by simp [children]⟩
    case callExpression =>
      obtain ⟨has, children⟩ := exists_shapes_of_kind h hn rfl
      exact ⟨"callee", ["arguments", "optional"], rfl, has ("callee", _) (by simp),
        by simp, by simp [children]⟩
    case taggedTemplateExpression =>
      obtain ⟨has, children⟩ := exists_shapes_of_kind h hn rfl
      exact ⟨"tag", ["quasi"], rfl, has ("tag", _) (by simp), by simp, by simp [children]⟩
    all_goals
      obtain ⟨has, children⟩ := exists_shapes_of_kind h hn rfl
      obtain ⟨-, -, -, under_o⟩ := (has ("operator", .scalar) (by simp [Kind.operationLayout])).scalar
      exact ⟨"left", ["right"], rfl, has ("left", _) (by simp [Kind.operationLayout]), by simp,
        by simp [children, Kind.operationLayout, under_o]⟩
  obtain ⟨field, others, hfield, has, differ, children⟩ := key
  obtain ⟨operand, hchild, -, under_f⟩ := has.child
  refine ⟨field, operand, _, hfield, hchild, by rw [children, under_f]; rfl, ?_⟩
  intro c hc
  obtain ⟨g, hg, hc⟩ := List.mem_flatMap.mp hc
  rw [(mem_inField.mp (show (c.1, c.2) ∈ _ from hc)).1]
  exact differ g hg

/-! ## Trees -/

/-- The kinds of keys that are not computed. -/
def plainKeys : List Kind := [.identifier, .privateIdentifier, .literal]

/-- A tree with the layout throughout, in which every node occurs once, keys that are not
computed are names or literals, declarators stand in variable declarations, and the root is
the only program. -/
structure Laid (root : Node) : Prop where
  nodup_ids : (root.preorder.map Node.id).Nodup
  layout : ∀ n ∈ root.preorder, n.hasLayout = true
  keys : ∀ n ∈ root.preorder, ∀ c ∈ n.children, (n.kind, c.1) ∈ keyPositions →
    n.isComputed = false → c.2.kind ∈ plainKeys
  declarators : ∀ n ∈ root.preorder, ∀ c ∈ n.children, c.2.kind = .variableDeclarator →
    n.kind = .variableDeclaration
  program : root.kind = .program
  inner : ∀ n ∈ root.preorder, ∀ c ∈ n.children, c.2.kind ≠ .program

instance (root : Node) : Decidable root.Laid :=
  decidable_of_iff ((root.preorder.map Node.id).Nodup ∧ root.kind = .program ∧
      (root.preorder.all fun n => n.hasLayout && n.children.all fun c =>
        (!decide ((n.kind, c.1) ∈ keyPositions) || n.isComputed || decide (c.2.kind ∈ plainKeys)) &&
          (!decide (c.2.kind = .variableDeclarator) || decide (n.kind = .variableDeclaration)) &&
          !decide (c.2.kind = .program)) = true)
    (by
      simp only [List.all_eq_true, Bool.and_eq_true, Bool.or_eq_true, Bool.not_eq_true',
        decide_eq_false_iff_not, decide_eq_true_eq]
      constructor
      · rintro ⟨ids, program, all⟩
        refine ⟨ids, fun n hn => (all n hn).1, fun n hn c hc key fixed => ?_,
          fun n hn c hc hd => ?_, program, fun n hn c hc => ((all n hn).2 c hc).2⟩
        · rcases ((all n hn).2 c hc).1.1 with (h | h) | h
          · exact absurd key h
          · rw [h] at fixed
            cases fixed
          · exact h
        · exact ((all n hn).2 c hc).1.2.resolve_left fun h => h hd
      · rintro ⟨ids, layout, keys, declarators, program, inner⟩
        refine ⟨ids, program, fun n hn => ⟨layout n hn, fun c hc => ⟨⟨?_, ?_⟩, inner n hn c hc⟩⟩⟩
        · by_cases key : (n.kind, c.1) ∈ keyPositions
          · cases fixed : n.isComputed with
            | true => exact Or.inl (Or.inr rfl)
            | false => exact Or.inr (keys n hn c hc key fixed)
          · exact Or.inl (Or.inl key)
        · by_cases hd : c.2.kind = .variableDeclarator
          · exact Or.inr (declarators n hn c hc hd)
          · exact Or.inl hd)

namespace Laid

variable {root : Node} {p : Place}

theorem isTree (h : root.Laid) : root.IsTree where
  nodup_ids := h.nodup_ids
  nodup_fields := by
    intro n hn
    obtain ⟨shapes, mem, -, names, -⟩ := exists_shapes (h.layout n hn)
    rw [names]
    exact Kind.nodup_of_mem_layouts mem

theorem hasLayout (h : root.Laid) (hp : p ∈ root.places) : p.node.hasLayout = true :=
  h.layout _ (node_mem_preorder hp)

end Laid

end Node

end FreeNames
