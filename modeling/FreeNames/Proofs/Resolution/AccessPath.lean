import Mathlib
import FreeNames.Proofs.Resolution.Stack
import FreeNames.Proofs.Tree.Links
import FreeNames.Resolution.Report

/-!
# Access paths and the links of a tree

The run finds the access path of a reference on its stack of enclosing nodes.  In a linked
tree the same path can be read off the links, and it is the chain of member accesses whose
innermost object is the reference.

* `Report.recorded_of_follows` replays the events of a run: every occurrence was read at a
  place of the tree, from the nodes around it.
* `Recorded.followsLinks` turns this into a statement about the links alone.
* `Report.followsLinks_ofTree` is the result for a whole run.
-/

namespace FreeNames

/-! ## Segments -/

/-- The node adds to an access path. -/
def Node.HasSegment (n : Node) : Prop := ∃ t, n.segment = .ok (some t)

theorem extension_eq_ok {nodes path : List Node} (h : extension nodes = .ok path) :
    ∃ rest, nodes = path ++ rest ∧ (∀ n ∈ path, n.HasSegment) ∧
      ∀ n ∈ rest.head?, n.segment = .ok none := by
  induction nodes generalizing path with
  | nil =>
    cases h
    exact ⟨[], rfl, by simp, by simp⟩
  | cons n nodes ih =>
    unfold extension at h
    cases hn : n.segment with
    | error f => rw [hn] at h; cases h
    | ok segment =>
      rw [hn] at h
      cases segment with
      | none =>
        cases h
        refine ⟨n :: nodes, rfl, by simp, fun m hm => ?_⟩
        rw [List.head?_cons, Option.mem_some_iff] at hm
        exact hm ▸ hn
      | some t =>
        cases hp : extension nodes with
        | error f => simp [hp, bind, Except.bind] at h
        | ok inner =>
          simp only [hp, bind, Except.bind, pure, Except.pure, Except.ok.injEq] at h
          subst h
          obtain ⟨rest, split, all, stop⟩ := ih hp
          refine ⟨rest, by rw [split, List.cons_append], fun m hm => ?_, stop⟩
          rcases List.mem_cons.mp hm with rfl | hm
          · exact ⟨t, hn⟩
          · exact all m hm

/-- Where every node has a segment, every node gives one. -/
theorem exists_segments {path : List Node} (all : ∀ n ∈ path, n.HasSegment) :
    ∃ ts, segments path = .ok ts ∧ ts.length = path.length := by
  induction path with
  | nil => exact ⟨[], rfl, rfl⟩
  | cons n path ih =>
    obtain ⟨t, hn⟩ := all n (List.mem_cons_self ..)
    obtain ⟨ts, hts, length⟩ := ih fun m hm => all m (List.mem_cons_of_mem _ hm)
    refine ⟨t :: ts, ?_, by rw [List.length_cons, List.length_cons, length]⟩
    rw [segments, hn]
    simp only [hts, bind, Except.bind, pure, Except.pure]

/-- Past the first node without a segment nothing is read. -/
theorem segments_append {path rest : List Node} (all : ∀ n ∈ path, n.HasSegment)
    (stop : ∀ n ∈ rest.head?, n.segment = .ok none) :
    segments (path ++ rest) = segments path := by
  induction path with
  | nil =>
    cases rest with
    | nil => rfl
    | cons n rest =>
      have hn : n.segment = .ok none := stop n (by simp)
      simp only [List.nil_append, segments, hn]
      rfl
  | cons n path ih =>
    rw [List.cons_append, segments, segments, ih fun m hm => all m (List.mem_cons_of_mem _ hm)]

/-! ## What a run records -/

namespace Report

/-- All free references of a report. -/
def occurrences (r : Report) : List Occurrence := r.references.flatMap Reference.occurrences

end Report

theorem mem_occurrences_recordOccurrence {name : Text} {o x : Occurrence}
    {refs : List Reference} :
    x ∈ (recordOccurrence name o refs).flatMap Reference.occurrences ↔
      x = o ∨ x ∈ refs.flatMap Reference.occurrences := by
  induction refs with
  | nil => simp [recordOccurrence]
  | cons r refs ih =>
    unfold recordOccurrence
    split
    · simp only [List.flatMap_cons, List.mem_append, List.mem_singleton]
      tauto
    · rw [List.flatMap_cons, List.flatMap_cons, List.mem_append, List.mem_append, ih]
      tauto

/-- An occurrence was read at a place of the tree, from the nodes around it. -/
structure Recorded (root : Node) (p : Place) (o : Occurrence) : Prop where
  mem : p ∈ root.places
  node : o.node = p.node
  read : Occurrence.read p.node p.enclosing = .ok o
  hold : ∀ n ∈ p.enclosing, n.CanHold
  reads : p.node.kind = .thisExpression ∨
    (p.node.kind = .identifier ∧ isReadPosition p.field p.parent = true)

theorem Occurrence.node_of_read {n : Node} {enclosing : List Node} {o : Occurrence}
    (h : Occurrence.read n enclosing = .ok o) :
    o.node = n ∧ extension enclosing = .ok o.path ∧ qualifiedName n o.path = .ok o.qualified := by
  unfold Occurrence.read at h
  cases hp : extension enclosing with
  | error f => simp [hp, bind, Except.bind] at h
  | ok path =>
    cases hq : qualifiedName n path with
    | error f => simp [hp, hq, bind, Except.bind] at h
    | ok qualified =>
      simp only [hp, hq, bind, Except.bind, pure, Except.pure, Except.ok.injEq] at h
      subst h
      exact ⟨rfl, rfl, hq⟩

variable {report : Bool} {root : Node} {stack : List Node}

/-- The replay of events that fit the points they are met at: the stack is that of the points,
and every occurrence was read at a place. -/
theorem Report.recorded_of_follows {events : List Event} {s : Point} {r r' : Report}
    (follows : Follows report root stack s (events.map .emit))
    (replay : events.foldlM Report.add r = .ok r') (same : r.enclosing = s.enclosing)
    (before : ∀ o ∈ r.occurrences, ∃ p, Recorded root p o) :
    r'.enclosing = stack ∧ ∀ o ∈ r'.occurrences, ∃ p, Recorded root p o := by
  induction events generalizing s r with
  | nil =>
    cases replay
    exact ⟨same.trans follows, before⟩
  | cons e events ih =>
    rw [List.foldlM_cons] at replay
    cases e with
    | stuck f => cases replay
    | enter n outer => exact ih follows.2 replay same before
    | push n => exact ih follows.2 replay (congrArg (n :: ·) same) before
    | pop => exact ih follows.2 replay (congrArg List.tail same) before
    | free name n =>
      obtain ⟨⟨p, around, rfl, reads⟩, follows⟩ := follows
      cases hread : Occurrence.read p.node r.enclosing with
      | error f => simp [Report.add, hread, bind, Except.bind, Except.map] at replay
      | ok o =>
        simp only [Report.add, hread, bind, Except.bind, Except.map] at replay
        refine ih follows replay same fun x hx => ?_
        rcases mem_occurrences_recordOccurrence.mp hx with rfl | hx
        · refine ⟨p, around.mem, (Occurrence.node_of_read hread).1, ?_, ?_, ?_⟩
          · rwa [around.enclosing, ← same]
          · rw [around.enclosing]
            exact around.hold
          · exact reads.imp And.left fun h => ⟨h.1, h.2.2⟩
        · exact before x hx

/-! ## Chains of member accesses -/

namespace Node

/-- What access paths rely on: member accesses hold nodes in their object and their property
only, and no name and no `this` stands for a declarator. -/
structure PlainAccesses (root : Node) : Prop where
  members : ∀ n ∈ root.preorder, n.kind = .memberExpression → ∀ c ∈ n.children,
    c.1 = "object" ∨ c.1 = "property"
  declarators : ∀ n ∈ root.preorder, n.kind = .variableDeclaration → ∀ c ∈ n.children,
    c.1 = "declarations" → c.2.kind ≠ .identifier ∧ c.2.kind ≠ .thisExpression

instance (root : Node) : Decidable root.PlainAccesses :=
  decidable_of_iff
    ((root.preorder.all fun n => !decide (n.kind = .memberExpression) ||
        n.children.all fun c => c.1 = "object" || c.1 = "property") = true ∧
      (root.preorder.all fun n => !decide (n.kind = .variableDeclaration) ||
        n.children.all fun c => !decide (c.1 = "declarations") ||
          (c.2.kind ≠ .identifier && c.2.kind ≠ .thisExpression)) = true)
    (by
      simp only [List.all_eq_true, Bool.or_eq_true, Bool.not_eq_true', Bool.and_eq_true,
        decide_eq_false_iff_not, decide_eq_true_eq, ← Decidable.imp_iff_not_or]
      exact ⟨fun ⟨members, declarators⟩ => ⟨members, declarators⟩,
        fun ⟨members, declarators⟩ => ⟨members, declarators⟩⟩)

theorem PlainAccesses.declaratorsHold (plain : root.PlainAccesses) : root.DeclaratorsHold := by
  intro n hn hk d hd i hi
  obtain ⟨noName, noThis⟩ := plain.declarators n hn hk _ hd rfl
  refine ⟨noName, noThis, fun hm => ?_⟩
  obtain ⟨p, hp, rfl⟩ := exists_place_of_mem_preorder hn
  have mem : d ∈ root.preorder := node_mem_preorder (child_mem_places hp hd)
  rcases plain.members d mem hm _ (mem_children_of_child hi) with h | h <;> simp at h

/-- The node is the object of the member access, and not its property. -/
def IsObjectOf (inner outer : Node) : Prop :=
  outer.child "object" = .ok inner ∧ ∀ q, outer.child "property" = .ok q → q.id ≠ inner.id

theorem isObjectOf_of_mem_children (tree : root.IsTree) {p : Place} (hp : p ∈ root.places)
    {c : Node} (hc : ("object", c) ∈ p.node.children)
    (hold : ∃ o, p.node.child "object" = .ok o) : c.IsObjectOf p.node := by
  obtain ⟨o, ho⟩ := hold
  refine ⟨child_eq_of_mem_children (tree.nodup_fields _ (node_mem_preorder hp)) hc ho ▸ ho, ?_⟩
  intro q hq same
  have := tree.eq_of_id_eq (child_mem_places hp (mem_children_of_child hq))
    (child_mem_places hp hc) same
  simp [Place.child] at this

/-- A member access with a key that the source fixes has a literal, a private name or a name
that is not read as its property. -/
theorem HasSegment.property {m c : Node} (nodup : (m.fields.map Prod.fst).Nodup)
    (hk : m.kind = .memberExpression) (h : m.HasSegment)
    (hc : ("property", c) ∈ m.children) :
    c.kind = .literal ∨ c.kind = .privateIdentifier ∨
      (c.kind = .identifier ∧ m.isComputed = false) := by
  obtain ⟨t, ht⟩ := h
  unfold segment at ht
  rw [hk] at ht
  simp only [staticKey] at ht
  cases hprop : m.child "property" with
  | error f => simp [hprop, bind, Except.bind] at ht
  | ok q =>
    obtain rfl := child_eq_of_mem_children nodup hc hprop
    unfold isComputed
    unfold flag at ht
    cases hf : m.field? "computed" with
    | none => simp [hprop, hf, bind, Except.bind] at ht
    | some v =>
      simp only [hprop, hf, bind, Except.bind] at ht
      split at ht
      · unfold literalKey at ht
        split at ht
        · next hl => exact Or.inl hl
        · cases ht
      · next hv =>
        unfold plainKey at ht
        split at ht
        · next hi => exact Or.inr (Or.inr ⟨hi, by simpa using hv⟩)
        · next hi => exact Or.inr (Or.inl hi)
        · cases ht

end Node

theorem Node.CanHold.kind_of_hasSegment {n : Node} (hold : n.CanHold) (h : n.HasSegment) :
    n.kind = .memberExpression := by
  obtain ⟨t, ht⟩ := h
  obtain ⟨noName, noThis, -⟩ := hold
  unfold Node.segment at ht
  split at ht
  · next hk => exact absurd hk noName
  · next hk => exact absurd hk noThis
  · next hk => exact hk
  · cases ht

/-- From a node inwards that is no key of the access around it, the enclosing nodes that have
a segment are member accesses, each the object of the next. -/
theorem Place.isChain_path (tree : root.IsTree) (plain : root.PlainAccesses) {path : List Node}
    {p : Place} (hp : p ∈ root.places) (front : path <+: p.enclosing)
    (hold : ∀ n ∈ path, n.CanHold) (all : ∀ n ∈ path, n.HasSegment)
    (noKey : p.node.kind ≠ .literal ∧ p.node.kind ≠ .privateIdentifier ∧
      (p.node.kind = .identifier → isReadPosition p.field p.parent = true)) :
    List.IsChain Node.IsObjectOf (p.node :: path) := by
  induction path generalizing p with
  | nil => exact List.IsChain.singleton _
  | cons m path ih =>
    obtain ⟨node, above⟩ := p
    obtain _ | ⟨⟨field, outer⟩, rest⟩ := above
    · simp [Place.enclosing] at front
    · obtain ⟨rfl, front⟩ : m = outer ∧ path <+: (Place.mk outer rest).enclosing :=
        List.cons_prefix_cons.mp front
      obtain ⟨hm, hc⟩ := Node.mem_places_of_above hp rfl
      have kind := (hold m (List.mem_cons_self ..)).kind_of_hasSegment
        (all m (List.mem_cons_self ..))
      have isObject : field = "object" := by
        rcases plain.members m (Node.node_mem_preorder hm) kind _ hc with h | h
        · exact h
        · exfalso
          obtain rfl : field = "property" := h
          rcases Node.HasSegment.property (tree.nodup_fields _ (Node.node_mem_preorder hm)) kind
            (all m (List.mem_cons_self ..)) hc with h | h | ⟨h, fixed⟩
          · exact noKey.1 h
          · exact noKey.2.1 h
          · have := noKey.2.2 h
            simp [isReadPosition, Place.field, Place.parent, kind, namingPositions,
              keyPositions, fixed] at this
      refine List.isChain_cons_cons.mpr ⟨?_, ?_⟩
      · exact Node.isObjectOf_of_mem_children tree hm (isObject ▸ hc)
          ((hold m (List.mem_cons_self ..)).2.2 kind)
      · exact ih hm front (fun n hn => hold n (List.mem_cons_of_mem _ hn))
          (fun n hn => all n (List.mem_cons_of_mem _ hn)) (by simp [kind])

/-! ## Occurrences and links -/

/-- An occurrence as the links of its tree have it. -/
structure Occurrence.FollowsLinks (root : Node) (o : Occurrence) : Prop where
  /-- The path is the longest front part of the enclosing nodes that have a segment. -/
  longest : ∃ rest, root.links.ancestors o.node = o.path ++ rest ∧
    (∀ n ∈ o.path, n.HasSegment) ∧ ∀ n ∈ rest.head?, n.segment = .ok none
  members : ∀ n ∈ o.path, n.kind = .memberExpression
  /-- The reference is the object of the first, and each one that of the next. -/
  objects : List.IsChain Node.IsObjectOf (o.node :: o.path)
  qualified : qualifiedName o.node (root.links.ancestors o.node) = .ok o.qualified
  count : ∃ ts, segments (o.node :: root.links.ancestors o.node) = .ok ts ∧
    ts.length = 1 + o.path.length

theorem Recorded.hasSegment {p : Place} {o : Occurrence} (h : Recorded root p o) :
    p.node.HasSegment := by
  obtain ⟨-, -, hq⟩ := Occurrence.node_of_read h.read
  unfold Node.HasSegment
  rcases h.reads with hk | ⟨hk, -⟩
  · exact ⟨"this", by rw [Node.segment, hk]⟩
  · unfold qualifiedName segments at hq
    have hseg : p.node.segment = (p.node.text "name").map some := by rw [Node.segment, hk]
    cases hname : p.node.text "name" with
    | error f => simp [hseg, hname, bind, Except.bind, Except.map] at hq
    | ok t => exact ⟨t, by rw [hseg, hname]; rfl⟩

theorem Recorded.followsLinks (tree : root.IsTree) (plain : root.PlainAccesses) {p : Place}
    {o : Occurrence} (h : Recorded root p o) : o.FollowsLinks root := by
  obtain ⟨-, hpath, hqualified⟩ := Occurrence.node_of_read h.read
  obtain ⟨rest, split, all, stop⟩ := extension_eq_ok hpath
  have ancestors : root.links.ancestors o.node = p.enclosing := by
    rw [h.node, tree.ancestors_links h.mem]
  have hold : ∀ n ∈ o.path, n.CanHold := fun n hn =>
    h.hold n (split ▸ List.mem_append_left _ hn)
  have allCons : ∀ n ∈ o.node :: o.path, n.HasSegment := by
    intro n hn
    rcases List.mem_cons.mp hn with rfl | hn
    · exact h.node ▸ h.hasSegment
    · exact all n hn
  have noKey : p.node.kind ≠ .literal ∧ p.node.kind ≠ .privateIdentifier ∧
      (p.node.kind = .identifier → isReadPosition p.field p.parent = true) := by
    rcases h.reads with hk | ⟨hk, hread⟩
    · simp [hk]
    · simp [hk, hread]
  have full : o.node :: p.enclosing = (o.node :: o.path) ++ rest := by
    rw [split, List.cons_append]
  refine ⟨⟨rest, ancestors.trans split, all, stop⟩, fun n hn => ?_, ?_, ?_, ?_⟩
  · exact (hold n hn).kind_of_hasSegment (all n hn)
  · exact h.node ▸ Place.isChain_path tree plain h.mem ⟨rest, split.symm⟩ hold all noKey
  · rw [← h.node] at hqualified
    rw [← hqualified, ancestors, qualifiedName, qualifiedName, full,
      segments_append allCons stop]
  · rw [ancestors, full, segments_append allCons stop, Nat.add_comm]
    exact exists_segments allCons

/-- In a linked tree every occurrence that a run records has the chain of member accesses
around it as its path, as the links have it; and the stack is empty when the run is over. -/
theorem Report.followsLinks_ofTree {r : Report} (tree : root.IsTree)
    (plain : root.PlainAccesses) (run : Report.ofTree report root = .ok r) :
    r.enclosing = [] ∧ ∀ o ∈ r.occurrences, o.FollowsLinks root := by
  have follows : Follows report root [] .start ((root.events report).map .emit) :=
    Node.follows_events plain.declaratorsHold
  obtain ⟨empty, recorded⟩ := Report.recorded_of_follows follows run rfl (by simp [occurrences,
    Report.empty])
  refine ⟨empty, fun o ho => ?_⟩
  obtain ⟨p, h⟩ := recorded o ho
  exact h.followsLinks tree plain

/-- The program `a.b`. -/
def memberAccess : Node :=
  .mk 0 .program default [("body", .list [.node (.mk 1 .expressionStatement default
    [("expression", .node (.mk 2 .memberExpression default
      [("object", .node (.mk 3 .identifier default [("name", .text "a")])),
        ("property", .node (.mk 4 .identifier default [("name", .text "b")])),
        ("computed", .bool false), ("optional", .bool false)]))])])]

theorem memberAccess_followsLinks : memberAccess.IsTree ∧ memberAccess.PlainAccesses ∧
    ∃ r, Report.ofTree true memberAccess = .ok r ∧ r.occurrences.map Occurrence.qualified = ["a.b"] ∧
      r.enclosing = [] ∧ ∀ o ∈ r.occurrences, o.FollowsLinks memberAccess := by
  have tree : memberAccess.IsTree := by decide_cbv
  have plain : memberAccess.PlainAccesses := by decide_cbv
  have run : (Report.ofTree true memberAccess).map
      (fun r => r.occurrences.map Occurrence.qualified) = .ok ["a.b"] := by cbv
  cases h : Report.ofTree true memberAccess with
  | error f => rw [h] at run; cases run
  | ok r =>
    rw [h] at run
    exact ⟨tree, plain, r, rfl, Except.ok.inj run, Report.followsLinks_ofTree tree plain h⟩

/-- A program that declares a name which has a pattern and an initial value of its own. -/
def namedDeclarator : Node :=
  .mk 0 .program default [("body", .list [.node (.mk 1 .variableDeclaration default
    [("kind", .text "var"), ("declarations", .list [.node (.mk 2 .identifier default
      [("name", .text "x"), ("id", .node (.mk 3 .identifier default [("name", .text "y")])),
        ("init", .node (.mk 4 .identifier default [("name", .text "z")]))])])])])]

/-- Without a word on declarators a path need not be made of member accesses. -/
theorem namedDeclarator_not_followsLinks : namedDeclarator.IsTree ∧
    (∀ n ∈ namedDeclarator.preorder, n.kind ≠ .memberExpression) ∧
    ∃ r, Report.ofTree true namedDeclarator = .ok r ∧
      ∃ o ∈ r.occurrences, o.qualified = "z.x" ∧ ∃ n ∈ o.path, n.kind ≠ .memberExpression := by
  have tree : namedDeclarator.IsTree := by decide_cbv
  have kinds : (namedDeclarator.preorder.all fun n => decide (n.kind ≠ .memberExpression)) = true := by
    cbv
  have run : (Report.ofTree true namedDeclarator).map (fun r => r.occurrences.map fun o =>
      (o.qualified, o.path.map Node.kind)) = .ok [("z.x", [.identifier])] := by cbv
  refine ⟨tree, by simpa using kinds, ?_⟩
  cases h : Report.ofTree true namedDeclarator with
  | error f => rw [h] at run; cases run
  | ok r =>
    rw [h] at run
    obtain ⟨o, occurrences, recorded⟩ := List.map_eq_singleton_iff.mp (Except.ok.inj run)
    obtain ⟨qualified, path⟩ := Prod.mk.inj recorded
    obtain ⟨n, hpath, hn⟩ := List.map_eq_singleton_iff.mp path
    exact ⟨r, rfl, o, by simp [occurrences], qualified, n, by simp [hpath], by simp [hn]⟩

end FreeNames
