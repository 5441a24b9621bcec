import FreeNames.Proofs.Resolution.ScopeTree

/-!
# Exactness of a report

The references of a report are exactly the free references of the tree: those that the final
scopes do not declare.

* `Grouped` says how occurrences are ordered by name; recording one more keeps it
  (`Grouped.record`).
* `Place.IsUndeclared` is what a free reference is, in terms of the tree and of the scopes that
  the run has left, with `isReadPosition_eq_false_iff` for where a name is not read;
  `Node.Laid.isFree_iff` compares it with what the traversal looks at.
* `Report.exact_ofTree` is the result for a whole run.
-/

namespace FreeNames

/-! ## Groups -/

/-- The references group these occurrences: names as they come first, and the occurrences of each
name as they come. -/
structure Grouped (xs : List (Text × Occurrence)) (refs : List Reference) : Prop where
  nodup : (refs.map Reference.name).Nodup
  names : refs.map Reference.name = (xs.map Prod.fst).eraseDups
  occurrences : ∀ r ∈ refs, r.occurrences = (xs.filter fun x => x.1 = r.name).map Prod.snd

theorem map_name_recordOccurrence (name : Text) (o : Occurrence) (refs : List Reference) :
    (recordOccurrence name o refs).map Reference.name =
      if name ∈ refs.map Reference.name then refs.map Reference.name
      else refs.map Reference.name ++ [name] := by
  induction refs with
  | nil => rfl
  | cons r refs ih =>
    unfold recordOccurrence
    split
    · next same => simp [same]
    · next other =>
      rw [List.map_cons, ih, List.map_cons]
      by_cases mem : name ∈ refs.map Reference.name
      · rw [if_pos mem, if_pos (List.mem_cons_of_mem _ mem)]
      · have fresh : name ∉ r.name :: refs.map Reference.name := by
          rw [List.mem_cons, not_or]
          exact ⟨fun same => other same.symm, mem⟩
        rw [if_neg mem, if_neg fresh, List.cons_append]

/-- Recording an occurrence changes the reference of its name only. -/
theorem mem_recordOccurrence {name : Text} {o : Occurrence} {refs : List Reference} {r : Reference}
    (nodup : (refs.map Reference.name).Nodup) (hr : r ∈ recordOccurrence name o refs) :
    (r ∈ refs ∧ r.name ≠ name) ∨
      (r.name = name ∧ ((∃ old ∈ refs, old.name = name ∧ r.occurrences = old.occurrences ++ [o]) ∨
        (name ∉ refs.map Reference.name ∧ r.occurrences = [o]))) := by
  induction refs with
  | nil =>
    obtain rfl := List.mem_singleton.mp hr
    exact Or.inr ⟨rfl, Or.inr ⟨by simp, rfl⟩⟩
  | cons s refs ih =>
    rw [List.map_cons, List.nodup_cons] at nodup
    unfold recordOccurrence at hr
    split at hr
    · next same =>
      rcases List.mem_cons.mp hr with rfl | hr
      · exact Or.inr ⟨same, Or.inl ⟨s, List.mem_cons_self .., same, rfl⟩⟩
      · refine Or.inl ⟨List.mem_cons_of_mem _ hr, fun also => nodup.1 ?_⟩
        rw [same, ← also]
        exact List.mem_map_of_mem hr
    · next other =>
      rcases List.mem_cons.mp hr with rfl | hr
      · exact Or.inl ⟨List.mem_cons_self .., other⟩
      · rcases ih nodup.2 hr with ⟨mem, differs⟩ | ⟨named, ⟨old, mem, rest⟩ | ⟨fresh, rest⟩⟩
        · exact Or.inl ⟨List.mem_cons_of_mem _ mem, differs⟩
        · exact Or.inr ⟨named, Or.inl ⟨old, List.mem_cons_of_mem _ mem, rest⟩⟩
        · refine Or.inr ⟨named, Or.inr ⟨?_, rest⟩⟩
          rw [List.map_cons, List.mem_cons, not_or]
          exact ⟨fun same => other same.symm, fresh⟩

namespace Grouped

variable {xs : List (Text × Occurrence)} {refs : List Reference}

theorem nil : Grouped [] [] := ⟨List.nodup_nil, rfl, by simp⟩

theorem mem_names (h : Grouped xs refs) {name : Text} :
    name ∈ refs.map Reference.name ↔ name ∈ xs.map Prod.fst := by
  rw [h.names, List.mem_eraseDups]

theorem record (h : Grouped xs refs) (name : Text) (o : Occurrence) :
    Grouped (xs ++ [(name, o)]) (recordOccurrence name o refs) where
  nodup := by
    rw [map_name_recordOccurrence]
    split
    · exact h.nodup
    · next fresh => exact h.nodup.append (List.nodup_singleton _) (by simpa using fresh)
  names := by
    have last : [name].removeAll (xs.map Prod.fst) =
        if name ∈ xs.map Prod.fst then [] else [name] := by
      unfold List.removeAll
      rw [List.filter_singleton]
      by_cases mem : name ∈ xs.map Prod.fst <;> simp [mem]
    rw [map_name_recordOccurrence, List.map_append, List.eraseDups_append, ← h.names]
    show _ = _ ++ ([name].removeAll _).eraseDups
    rw [last]
    by_cases mem : name ∈ refs.map Reference.name
    · rw [if_pos mem, if_pos (h.mem_names.mp mem), List.eraseDups_nil, List.append_nil]
    · rw [if_neg mem, if_neg fun hm => mem (h.mem_names.mpr hm)]
      rfl
  occurrences := by
    intro r hr
    rw [List.filter_append, List.map_append]
    rcases mem_recordOccurrence h.nodup hr with ⟨mem, differs⟩ | ⟨named, old | ⟨fresh, only⟩⟩
    · rw [h.occurrences r mem, List.filter_singleton]
      simp [Ne.symm differs]
    · obtain ⟨old, mem, same, longer⟩ := old
      rw [longer, h.occurrences old mem, same, named, List.filter_singleton]
      simp
    · have none : (xs.filter fun x => x.1 = r.name) = [] := by
        rw [List.filter_eq_nil_iff]
        intro x hx
        rw [decide_eq_true_eq, named]
        exact fun same => fresh (h.mem_names.mpr (same ▸ List.mem_map_of_mem hx))
      rw [none, only, named, List.filter_singleton]
      simp

end Grouped

/-- Reading and recording free references groups them. -/
theorem exists_grouped {xs : List (Text × Place)} {ys : List (Text × Occurrence)}
    {refs refs' : List Reference} (grouped : Grouped ys refs)
    (run : xs.foldlM (fun refs x => Report.record refs (.at x)) refs = .ok refs') :
    ∃ zs, Grouped (ys ++ zs) refs' ∧
      zs.map (fun z => (z.1, z.2.node)) = xs.map fun x => (x.1, x.2.node) := by
  induction xs generalizing ys refs with
  | nil =>
    cases run
    exact ⟨[], by rwa [List.append_nil], rfl⟩
  | cons x xs ih =>
    rw [List.foldlM_cons] at run
    cases hread : Occurrence.read x.2.node x.2.enclosing with
    | error f => simp [Report.record, Freed.at, hread, Except.map, bind, Except.bind] at run
    | ok o =>
      simp only [Report.record, Freed.at, hread, Except.map, bind, Except.bind] at run
      obtain ⟨zs, hzs, nodes⟩ := ih (grouped.record x.1 o) run
      refine ⟨(x.1, o) :: zs, ?_, ?_⟩
      · rwa [List.append_assoc] at hzs
      · rw [List.map_cons, List.map_cons, nodes, (Occurrence.node_of_read hread).1]

/-! ## Undeclared names -/

/-- The node at a place is a free reference of this name: it is not a part of an import, of an
export from another module or of a meta property, and it is `this` or an identifier that is read
and that no scope around it declares. -/
structure Place.IsUndeclared (root : Node) (b : Builder) (p : Place) (name : Text) : Prop where
  outside : ∀ n ∈ p.enclosing, n.kind ∉ [Kind.importDeclaration, .exportAllDeclaration,
    .metaProperty] ∧ n.isReexport = false
  reads : (p.node.kind = .thisExpression ∧ name = Visit.thisName) ∨
    (p.node.kind = .identifier ∧ p.node.text "name" = .ok name ∧
      isReadPosition p.field p.parent = true ∧
      (∀ n ∈ root.preorder, ∀ d ∈ n.children, n.declaresIn d.1 = true →
        .ok p.node ∉ d.2.patternNames) ∧
      ∀ step ∈ p.above, step.2.isOutside step.1 = false → ∀ i, b.scopeOf? step.2 = some i →
        b.forest.declares i name = false)

/-- An identifier is read unless it is a label, the name of a function, class or declarator, the
name of an export, a part of a meta property, or a key that is not computed. -/
theorem isReadPosition_eq_false_iff {field : Option String} {parent : Option Node} :
    isReadPosition field parent = false ↔ ∃ n f, parent = some n ∧ field = some f ∧
      (n.kind ∈ [Kind.labeledStatement, .breakStatement, .continueStatement] ∧ f = "label" ∨
        n.kind ∈ [Kind.functionDeclaration, .functionExpression, .classDeclaration,
          .classExpression, .variableDeclarator] ∧ f = "id" ∨
        n.kind ∈ [Kind.exportSpecifier, .exportAllDeclaration] ∧ f = "exported" ∨
        n.kind = .metaProperty ∧ f ∈ ["meta", "property"] ∨
        n.isComputed = false ∧ (n.kind = .memberExpression ∧ f = "property" ∨
          n.kind ∈ [Kind.property, .methodDefinition, .propertyDefinition] ∧ f = "key")) := by
  cases parent with
  | none => simp [isReadPosition]
  | some n =>
    cases field with
    | none => simp [isReadPosition]
    | some f =>
      simp only [isReadPosition, namingPositions, keyPositions, Option.some.injEq,
        exists_and_left, exists_eq_left']
      cases n.kind <;> simp [and_comm, or_iff_not_imp_left]

namespace Node.Laid

variable {root : Node} {report : Bool} {b : Builder} {p : Place} {name : Text}

/-- A node around another one is no leaf. -/
theorem isLeaf_of_mem_enclosing (h : root.Laid) (hp : p ∈ root.places) {n : Node}
    (hn : n ∈ p.enclosing) : n.kind.isLeaf = false := by
  obtain ⟨⟨field, n⟩, mem, rfl⟩ := List.mem_map.mp hn
  obtain ⟨r, hr, rfl, c, hc, -⟩ := exists_of_mem_above hp mem
  rw [Bool.eq_false_iff]
  intro leaf
  rw [children_of_isLeaf (h.hasLayout hr) leaf] at hc
  cases hc

theorem isSealed_eq_false_iff {n : Node} (inner : n.kind.isLeaf = false) : n.isSealed = false ↔
    n.kind ∉ [Kind.importDeclaration, .exportAllDeclaration, .metaProperty] ∧
      n.isReexport = false := by
  unfold isSealed
  rw [Bool.or_eq_false_iff]
  refine and_congr_left fun _ => ?_
  cases hn : n.kind <;> rw [hn] at inner <;> simp_all [Kind.isLeaf, Kind.isInert]

theorem isActive_iff (h : root.Laid) (hp : p ∈ root.places) : p.isActive = true ↔
    ∀ n ∈ p.enclosing, n.kind ∉ [Kind.importDeclaration, .exportAllDeclaration, .metaProperty] ∧
      n.isReexport = false := by
  rw [Place.isActive, List.all_eq_true]
  refine forall_congr' fun n => forall_congr' fun hn => ?_
  rw [Bool.not_eq_true', isSealed_eq_false_iff (h.isLeaf_of_mem_enclosing hp hn)]

theorem binds_eq_false_iff (h : root.Laid) (hp : p ∈ root.places) (hk : p.node.kind = .identifier) :
    p.binds = false ↔ ∀ n ∈ root.preorder, ∀ d ∈ n.children, n.declaresIn d.1 = true →
      .ok p.node ∉ d.2.patternNames := by
  rw [Bool.eq_false_iff, Ne, h.binds_iff hp hk]
  constructor
  · exact fun none n hn d hd declares mem => none ⟨n, hn, d, hd, declares, mem⟩
  · rintro none ⟨n, hn, d, hd, declares, mem⟩
    exact none n hn d hd declares mem

/-- The scopes in force at a place are the final scopes of the nodes around it that do not have
it outside. -/
theorem isBound_eq_false_iff (h : root.Laid) (built : Built report root.place.entries b)
    (hp : p ∈ root.places) : isBound (p.frames report) name = false ↔
      ∀ step ∈ p.above, step.2.isOutside step.1 = false → ∀ i, b.scopeOf? step.2 = some i →
        b.forest.declares i name = false := by
  have scope : ∀ q ∈ root.places, ∀ i, b.scopeOf? q.node = some i → q.opens = true ∧
      b.forest.declares i name = (Frame.of report q.node).bindings.declares name := by
    intro q hq i hi
    have entered := (h.scopeOf?_iff built hq).mp hi
    refine ⟨(h.mem_entered_iff built hq).mp ⟨i, entered⟩, ?_⟩
    obtain ⟨r, hr, same⟩ := built.mem_entered.mp entered
    obtain ⟨s, hs, -, -, bindings, -⟩ := built.scope i r hr
    unfold Forest.declares Forest.find?
    rw [hs, Option.bind_some, bindings, same]
    rfl
  rw [isBound, Place.frames, List.any_eq_false]
  constructor
  · rintro none ⟨field, n⟩ mem inside i hi
    obtain ⟨before, rest, split⟩ := List.append_of_mem mem
    have around := (mem_places_of_append hp split).1
    obtain ⟨opens, declares⟩ := scope ⟨n, rest⟩ around i hi
    have holds : (⟨n, rest⟩ : Place) ∈ p.holders :=
      Place.mem_holders.mpr ⟨opens, before, field, split, inside⟩
    rw [declares]
    exact Bool.eq_false_iff.mpr (none _ (List.mem_map_of_mem holds))
  · intro none frame hframe
    obtain ⟨q, hq, rfl⟩ := List.mem_map.mp hframe
    obtain ⟨opens, before, field, split, inside⟩ := Place.mem_holders.mp hq
    have mem := (Place.of_mem_holders hp hq).1
    obtain ⟨i, hi⟩ := (h.mem_entered_iff built mem).mpr opens
    have number := (h.scopeOf?_iff built mem).mpr hi
    have := none (field, q.node) (by simp [split]) inside i number
    rw [(scope q mem i number).2] at this
    exact Bool.eq_false_iff.mp this

/-- What the traversal finds free is what is undeclared. -/
theorem isFree_iff (h : root.Laid) (built : Built report root.place.entries b)
    (hp : p ∈ root.places) : p.IsFree report name ↔ p.IsUndeclared root b name := by
  have reads : p.node.kind = .identifier → ((p.reads = true ∧ isBound (p.frames report) name = false)
      ↔ isReadPosition p.field p.parent = true ∧
        (∀ n ∈ root.preorder, ∀ d ∈ n.children, n.declaresIn d.1 = true →
          .ok p.node ∉ d.2.patternNames) ∧
        ∀ step ∈ p.above, step.2.isOutside step.1 = false → ∀ i, b.scopeOf? step.2 = some i →
          b.forest.declares i name = false) := by
    intro hk
    rw [Place.reads, Bool.and_eq_true, Bool.not_eq_true', h.binds_eq_false_iff hp hk,
      h.isBound_eq_false_iff built hp, and_assoc]
  constructor
  · rintro ⟨active, free⟩
    refine ⟨(h.isActive_iff hp).mp active, free.imp_right ?_⟩
    rintro ⟨hk, hname, free⟩
    exact ⟨hk, hname, (reads hk).mp free⟩
  · rintro ⟨outside, free⟩
    refine ⟨(h.isActive_iff hp).mpr outside, free.imp_right ?_⟩
    rintro ⟨hk, hname, free⟩
    exact ⟨hk, hname, (reads hk).mpr free⟩

end Node.Laid

/-! ## Reports -/

namespace Report

/-- The references of the report are these free references: names as they come first, and the
nodes of each name in the order of the tree. -/
structure IsExact (root : Node) (r : Report) (frees : List (Text × Place)) : Prop where
  /-- They stand at different places, in the order of the tree. -/
  order : (frees.map Prod.snd).Sublist root.places
  mem_iff : ∀ p ∈ root.places, ∀ name, (name, p) ∈ frees ↔ p.IsUndeclared root r.scopes name
  names : r.references.map Reference.name = (frees.map Prod.fst).eraseDups
  nodes : ∀ ref ∈ r.references, ref.occurrences.map Occurrence.node =
    (frees.filter fun x => x.1 = ref.name).map fun x => x.2.node
  /-- No node is recorded twice. -/
  once : (r.occurrences.map fun o => o.node.id).Nodup

theorem order_frees (report : Bool) (ps : List Place) :
    ((ps.flatMap (Place.frees report)).map Prod.snd).Sublist ps := by
  have one : ∀ p : Place, ((p.frees report).map Prod.snd).Sublist [p] := by
    intro p
    unfold Place.frees
    split
    · unfold Place.own
      split
      · exact .refl _
      · split
        · split
          · exact .refl _
          · exact List.nil_sublist _
        · exact List.nil_sublist _
      · exact List.nil_sublist _
    · exact List.nil_sublist _
  induction ps with
  | nil => exact .refl _
  | cons p ps ih =>
    rw [List.flatMap_cons, List.map_append]
    exact (one p).append ih

/-- Grouping by name does not repeat anything. -/
theorem nodup_occurrences {xs : List (Text × Occurrence)} {refs : List Reference}
    (grouped : Grouped xs refs) (nodup : (xs.map fun x => x.2.node.id).Nodup) :
    ((refs.flatMap Reference.occurrences).map fun o => o.node.id).Nodup := by
  have ids : ∀ r ∈ refs, r.occurrences.map (fun o => o.node.id) =
      (xs.filter fun x => x.1 = r.name).map fun x => x.2.node.id := by
    intro r hr
    rw [grouped.occurrences r hr, List.map_map]
    rfl
  rw [List.map_flatMap, List.nodup_flatMap]
  refine ⟨fun r hr => ?_, ?_⟩
  · rw [ids r hr]
    exact nodup.sublist (List.filter_sublist.map _)
  · refine (List.pairwise_map.mp grouped.nodup).imp_of_mem fun hr hs differ => ?_
    intro id hid hid'
    beta_reduce at hid hid'
    rw [ids _ hr] at hid
    rw [ids _ hs] at hid'
    obtain ⟨x, hx, rfl⟩ := List.mem_map.mp hid
    obtain ⟨y, hy, same⟩ := List.mem_map.mp hid'
    rw [List.mem_filter, decide_eq_true_eq] at hx hy
    obtain rfl := List.inj_on_of_nodup_map nodup hy.1 hx.1 same
    exact differ (hx.2.symm.trans hy.2)

/-- The report of a laid out tree is exact.  A run gives a report exactly if all keys can be
written. -/
theorem exact_ofTree {root : Node} {report : Bool} (h : root.Laid) :
    ((∃ r, ofTree report root = .ok r) ↔ root.KeysWritable report) ∧
    ∀ r, ofTree report root = .ok r → ∃ frees, r.IsExact root frees := by
  refine ⟨h.ofTree_writtenIff.exists_ok_iff, fun r run => ?_⟩
  have built := h.built_ofTree run
  rw [h.ofTree_eq] at run
  cases hrefs : (root.places.flatMap (Place.frees report)).foldlM
      (fun refs x => Report.record refs (.at x)) [] with
  | error f => rw [hrefs] at run; cases run
  | ok refs =>
    rw [hrefs] at run
    cases run
    obtain ⟨zs, grouped, nodes⟩ := exists_grouped Grouped.nil hrefs
    rw [List.nil_append] at grouped
    have order := order_frees report root.places
    have names : zs.map Prod.fst = (root.places.flatMap (Place.frees report)).map Prod.fst := by
      have := congrArg (List.map Prod.fst) nodes
      rwa [List.map_map, List.map_map] at this
    have ids : (zs.map fun z => z.2.node.id) =
        ((root.places.flatMap (Place.frees report)).map Prod.snd).map fun p => p.node.id := by
      have := congrArg (List.map fun x => x.2.id) nodes
      rw [List.map_map, List.map_map] at this
      rw [List.map_map]
      exact this
    refine ⟨root.places.flatMap (Place.frees report), order, fun p hp name => ?_, ?_,
      fun ref href => ?_, ?_⟩
    · rw [← h.isFree_iff built hp, List.mem_flatMap]
      constructor
      · rintro ⟨q, -, mem⟩
        obtain ⟨rfl, free⟩ := Place.mem_frees.mp mem
        exact free
      · exact fun free => ⟨p, hp, Place.mem_frees.mpr ⟨rfl, free⟩⟩
    · rw [← names]
      exact grouped.names
    · have filtered : ((zs.map fun z => (z.1, z.2.node)).filter fun x => x.1 = ref.name) =
          (((root.places.flatMap (Place.frees report)).map fun x => (x.1, x.2.node)).filter
            fun x => x.1 = ref.name) := by rw [nodes]
      rw [List.filter_map, List.filter_map] at filtered
      have := congrArg (List.map Prod.snd) filtered
      rw [List.map_map, List.map_map] at this
      rw [grouped.occurrences ref href, List.map_map]
      exact this
    · refine nodup_occurrences grouped ?_
      rw [ids]
      exact h.isTree.nodup_map_places.sublist (order.map _)

end Report

/-- The program `(x = y) => x(y)`. -/
def defaultOfParameter : Node :=
  .mk 0 .program default [("body", .list [.node (.mk 1 .expressionStatement default
    [("expression", .node (.mk 2 .arrowFunctionExpression default
      [("id", .null), ("params", .list [.node (.mk 3 .assignmentPattern default
        [("left", .node (.mk 4 .identifier default [("name", .text "x")])),
          ("right", .node (.mk 5 .identifier default [("name", .text "y")]))])]),
        ("body", .node (.mk 6 .callExpression default
          [("callee", .node (.mk 7 .identifier default [("name", .text "x")])),
            ("arguments", .list [.node (.mk 8 .identifier default [("name", .text "y")])]),
            ("optional", .bool false)])),
        ("expression", .bool true), ("generator", .bool false), ("async_", .bool false)]))])]),
    ("sourceType", .text "module")]

theorem defaultOfParameter_exact : defaultOfParameter.Laid ∧
    ∃ r, Report.ofTree true defaultOfParameter = .ok r ∧
      (∃ frees, r.IsExact defaultOfParameter frees) ∧
      r.references.map (fun x => (x.name, x.occurrences.map fun o => o.node.id)) =
        [(Text.ofString "y", [5, 8])] := by
  have laid : defaultOfParameter.Laid := by decide_cbv
  have run : (Report.ofTree true defaultOfParameter).map (fun r =>
      r.references.map fun x => (x.name, x.occurrences.map fun o => o.node.id)) =
        .ok [(Text.ofString "y", [5, 8])] := by cbv
  cases h : Report.ofTree true defaultOfParameter with
  | error f => rw [h] at run; cases run
  | ok r =>
    rw [h] at run
    exact ⟨laid, r, rfl, (Report.exact_ofTree laid).2 r h, Except.ok.inj run⟩

end FreeNames
