import FreeNames.Proofs.Resolution.Comparison
import FreeNames.Proofs.Tree.Insertion

/-!
# Declaring one more variable

Inserting `var x` into a program takes the references of `x` out of its report and changes nothing
else, wherever the statement stands: before or after the uses of `x`, and at any depth of blocks,
branches, loops, cases and labels.

* `varStatement` is the statement; the scan for hoisted names finds it, and the traversal passes
  it without a trace (`idle_varStatement`).
* The scope of the program stays in force throughout and binds `x`, so it is carried along the two
  runs (`insertedRun`).
* `Report.references_of_inserts` is the result.
-/

namespace FreeNames

/-! ## The statement -/

/-- The statement `var x`; it, its declarator and the identifier have these identities and
places. -/
def varStatement (x : Text) (d c i : Nat × Span) : Node :=
  .mk d.1 .variableDeclaration d.2 [("kind", .text Node.varWord), ("declarations", .list [.node
    (.mk c.1 .variableDeclarator c.2
      [("id", .node (.mk i.1 .identifier i.2 [("name", .text x)])), ("init", .null)])])]

/-- What it binds. -/
def varBinding (x : Text) (i : Nat × Span) : Binding :=
  ⟨x, .keyword Node.varWord, some (.mk i.1 .identifier i.2 [("name", .text x)])⟩

section

variable (x : Text) (d c i : Nat × Span)

theorem hoisted_varStatement : (varStatement x d c i).hoisted = [.ok (varBinding x i)] := by
  cbv

theorem lexical_varStatement : (varStatement x d c i).lexical = [] := by
  cbv

/-- The traversal finds nothing to report in the statement. -/
theorem idle_varStatement (report : Bool) (field : Option String) (parent : Option Node)
    (scopes : List Frame) :
    Idle report [.go ⟨.read, varStatement x d c i, field, parent, scopes⟩] := by
  intro r
  have events : Visit.events report ⟨.read, varStatement x d c i, field, parent, scopes⟩ =
      [.push (varStatement x d c i), .push (.mk c.1 .variableDeclarator c.2
        [("id", .node (.mk i.1 .identifier i.2 [("name", .text x)])), ("init", .null)]),
        .pop, .pop] := by cbv
  rw [List.flatMap_singleton, Step.events, events]
  rfl

/-- The statement is all that the second tree declares in addition. -/
theorem naming_inserted :
    (Node.inserted (varStatement x d c i)).Naming fun b => b.name = x where
  named := by
    intro n n' j j' _ _ like
    rw [Likeness.text like "name"]
    congr 1
    funext t
    exact ite_self t
  extra_hoisted := by
    intro e extra y hy
    obtain rfl : e = varStatement x d c i := extra
    rw [hoisted_varStatement, List.mem_singleton] at hy
    exact ⟨_, hy, rfl⟩
  extra_lexical := by
    intro e extra
    obtain rfl : e = varStatement x d c i := extra
    exact lexical_varStatement x d c i
  arguments := rfl

end

/-! ## The scope of the program -/

/-- A run that ends well can read what a program declares. -/
theorem Report.faults_eq_nil_of_ofTree {root : Node} {report : Bool} {r : Report}
    (hk : root.kind = .program) (run : Report.ofTree report root = .ok r) :
    (root.declared report).faults = [] := by
  apply List.eq_nil_iff_forall_not_mem.mpr
  intro f hf
  apply Report.clean_of_foldlM run f
  have stuck : .emit (.stuck f) ∈ root.visit.steps report := by
    rw [Node.steps_program report hk]
    simp [within, entering, hf]
  unfold Node.events
  rw [Visit.events_eq]
  exact List.mem_flatMap.mpr ⟨_, stuck, List.mem_singleton_self _⟩

theorem Node.exists_items_of_faults {n : Node} {report : Bool} (hk : n.kind = .program)
    (none : (n.declared report).faults = []) : ∃ ss, n.items "body" = .ok ss := by
  cases hs : n.items "body" with
  | ok ss => exact ⟨ss, rfl⟩
  | error f =>
    have faults : f ∈ (n.declared report).faults := by
      simp [declared, hk, bodyNames, statements, hs, Readings.ofList, Readings.declaring,
        Declared.faults]
    rw [none] at faults
    cases faults

/-- With the statement in it, the program binds the variable. -/
theorem Node.Inserts.declares {x : Text} {d c i : Nat × Span} {root root' : Node} {report : Bool}
    (h : Inserts (varStatement x d c i) root root') (hk : root.kind = .program)
    (none : (root.declared report).faults = []) :
    (Frame.of report root').bindings.declares x = true := by
  obtain ⟨ss, hs⟩ := exists_items_of_faults hk none
  have items := (inserted (varStatement x d c i)).items (Or.inr h) "body"
  rw [hs] at items
  generalize hs' : root'.items "body" = items' at items
  cases items with
  | ok _ =>
    have hoists : .ok (varBinding x i) ∈ (varStatement x d c i).hoisted := by
      rw [hoisted_varStatement]
      exact List.mem_singleton_self _
    have binds : .ok (varBinding x i) ∈ root'.declared report := by
      rw [declared, h.kind_eq, hk]
      exact h.mem_bodyNames hk hoists hs'
    exact Declared.declares_iff.mpr ⟨_, binds, rfl⟩

/-- Nothing is inserted below what adds to an access path. -/
theorem Node.eq_of_hasSegment {d n n' : Node} (like : MayInsert d n n') (h : n.HasSegment) :
    n' = n := by
  rcases like with same | inserts
  · exact same
  · have passes := inserts.passes
    rw [inserts.kind_eq] at passes
    obtain ⟨t, ht⟩ := h
    unfold segment at ht
    split at ht <;> simp_all [Kind.passesStatements]

/-! ## Two runs -/

/-- The runs of a tree and of the tree with the statement; `global` is the program of the
second. -/
def insertedRun {x : Text} (other : x ≠ Visit.thisName) (d c i : Nat × Span) (report : Bool)
    {global : Node} (binds : (Frame.of report global).bindings.declares x = true) :
    RunLikeness where
  toLikeness := Node.inserted (varStatement x d c i)
  first := report
  second := report
  Scopes := fun _ s s' => (Node.inserted (varStatement x d c i)).FramesLike report s s' ∧
    Frame.of report global ∈ s'
  Bound := fun _ name => name = x
  Bare := fun _ => True
  outer := fun hs => hs.1.outer
  push := fun hs _ => hs
  opened := fun hs hn => ⟨.cons ⟨_, _, hn, rfl, rfl⟩ hs.1, List.mem_cons_of_mem _ hs.2⟩
  bare := fun _ => trivial
  bare_declarator := fun _ _ _ => trivial
  faults := fun hn => Likeness.faults_eq ((naming_inserted x d c i).declared report hn)
  lookup := by
    intro _ s s' name hs
    by_cases same : name = x
    · have bound : isBound s' x = true := List.any_eq_true.mpr ⟨_, hs.2, binds⟩
      simp [same, Node.inserted, bound]
    · have unchanged := hs.1.isBound_eq (naming_inserted x d c i) (fun _ _ => id)
        fun b hb h => same (h.symm.trans hb)
      rw [or_iff_left same]
      exact unchanged ▸ Iff.rfl
  this := rfl
  this_free := fun _ no => other no.symm
  extra := by
    intro e field parent scopes extra
    obtain rfl : e = varStatement x d c i := extra
    exact idle_varStatement x d c i report _ _ _

theorem keeps_insertedRun {x : Text} (other : x ≠ Visit.thisName) (d c i : Nat × Span)
    (report : Bool) {global : Node} (binds : (Frame.of report global).bindings.declares x = true) :
    (insertedRun other d c i report binds).Keeps (fun _ => True) fun _ refs _ refs' _ =>
      refs' = refs.filter fun g => g.name ≠ x where
  free := by
    intro _ refs _ refs' _ stack name n o o' same _ free named read like
    have unchanged : o' = o := like.eq (fun _ => rfl)
      (fun hm segment => Node.eq_of_hasSegment hm segment)
      (Occurrence.hasSegment_of_read read ⟨name, named⟩)
    rw [unchanged, same]
    exact (filter_recordOccurrence_of_ne free).symm
  bound := by
    intro _ refs _ refs' _ stack name n o same _ bound _
    obtain rfl : name = x := bound
    rw [same, filter_recordOccurrence_self]
  enter := fun same _ _ => same

/-- Inserting `var x` into a program gives the report without the references of `x`. -/
theorem Report.references_of_inserts {root root' : Node} {x : Text} {d c i : Nat × Span}
    {report : Bool} {r : Report} (inserts : Node.Inserts (varStatement x d c i) root root')
    (hk : root.kind = .program) (other : x ≠ "this") (run : Report.ofTree report root = .ok r) :
    ∃ r', Report.ofTree report root' = .ok r' ∧
      r'.references = r.references.filter fun g => g.name ≠ x := by
  have binds := inserts.declares hk (Report.faults_eq_nil_of_ofTree hk run)
  have events := (insertedRun other d c i report binds).events_program (Or.inr inserts) hk
    ⟨.cons ⟨_, _, Or.inr inserts, rfl, rfl⟩ .nil, List.mem_singleton_self _⟩
  have start : (insertedRun other d c i report binds).ReportLike (fun _ refs _ refs' _ =>
      refs' = refs.filter fun g => g.name ≠ x) [] [] (.empty report) (.empty report) :=
    ⟨rfl, .nil, rfl⟩
  have replayed := Beside.replay (keeps_insertedRun other d c i report binds) events
    (fun _ _ => trivial) start
  change Agree _ (Report.ofTree report root) (Report.ofTree report root') ∨
    ∃ f, Report.ofTree report root = .error f ∧ _ at replayed
  rw [run] at replayed
  rcases replayed with same | ⟨f, failed, -⟩
  · generalize Report.ofTree report root' = result at same ⊢
    cases same with
    | @ok _ r' like => exact ⟨r', rfl, like.inv⟩
  · cases failed

/-- The program `x; if (c) { .. }` with these statements in the block. -/
def useAndBranch (body : List Value) : Node :=
  .mk 0 .program default [("body", .list [statement 1 (name 2 "x"), .node (.mk 3 .ifStatement default
    [("test", .node (name 4 "c")), ("consequent", .node (.mk 5 .blockStatement default
      [("body", .list body)])), ("alternate", .null)])])]
where
  name (id : Nat) (t : Text) : Node := .mk id .identifier default [("name", .text t)]
  statement (id : Nat) (n : Node) : Value :=
    .node (.mk id .expressionStatement default [("expression", .node n)])

/-- In the program `x; if (c) { x.y; a; }` a declaration in the block binds both uses of `x`. -/
theorem useAndBranch_inserted :
    let v := varStatement "x" (13, default) (14, default) (15, default)
    let first := useAndBranch.statement 6 (.mk 7 .memberExpression default
      [("object", .node (useAndBranch.name 8 "x")), ("property", .node (useAndBranch.name 9 "y")),
        ("computed", .bool false), ("optional", .bool false)])
    let last := useAndBranch.statement 10 (useAndBranch.name 11 "a")
    Node.Inserts v (useAndBranch [first, last]) (useAndBranch [first, .node v, last]) ∧
    ∃ r r', Report.ofTree true (useAndBranch [first, last]) = .ok r ∧
      r.references.map Reference.name = ["x", "c", "a"] ∧
      Report.ofTree true (useAndBranch [first, .node v, last]) = .ok r' ∧
      r'.references = r.references.filter fun g => g.name ≠ ("x" : Text) := by
  intro v first last
  have block : Node.Inserts v (.mk 5 .blockStatement default [("body", .list [first, last])])
      (.mk 5 .blockStatement default [("body", .list [first, .node v, last])]) :=
    @Node.Inserts.here v 5 .blockStatement default [] [] "body" [first] [last] rfl (by simp)
  have branch := @Node.Inserts.child v 3 .ifStatement default
    [("test", .node (useAndBranch.name 4 "c"))] [("alternate", .null)] "consequent" _ _ rfl
    (by decide) block
  have inserts : Node.Inserts v (useAndBranch [first, last])
      (useAndBranch [first, .node v, last]) :=
    @Node.Inserts.item v 0 .program default [] [] "body"
      [useAndBranch.statement 1 (useAndBranch.name 2 "x")] [] _ _ rfl (fun _ => rfl) (by simp) branch
  have names : (Report.ofTree true (useAndBranch [first, last])).map
      (fun r => r.references.map Reference.name) = .ok ["x", "c", "a"] := by cbv
  refine ⟨inserts, ?_⟩
  cases run : Report.ofTree true (useAndBranch [first, last]) with
  | error f => rw [run] at names; cases names
  | ok r =>
    rw [run] at names
    obtain ⟨r', run', references⟩ := Report.references_of_inserts inserts rfl (by decide) run
    exact ⟨r, r', rfl, Except.ok.inj names, run', references⟩

end FreeNames
