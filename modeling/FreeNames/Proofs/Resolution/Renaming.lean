import FreeNames.Proofs.Resolution.Comparison
import FreeNames.Proofs.Tree.Renaming
import Mathlib.Logic.Equiv.Basic

/-!
# Resolution commutes with renaming

Names matter to resolution only as far as they are equal or not: applying an injective map to the
names of all identifiers gives the same report with the names mapped, provided that the map leaves
alone the two names that no identifier introduces, `arguments` and `this`.

* `Report.rename` says what the map does to a report: names of groups, nodes, identifiers in
  access paths, and bindings.
* `Report.ofTree_rename` is the result, faults included.
-/

namespace FreeNames

section

variable (r : Text → Text)

/-- An occurrence at the renamed node; in its path the segments that are identifiers are
renamed. -/
def Occurrence.rename (o : Occurrence) : Occurrence :=
  ⟨o.node.rename r, o.path.map (Node.rename r),
    Text.join "." (Node.renamedSegments r (o.node :: o.path))⟩

def Reference.rename (x : Reference) : Reference :=
  ⟨r x.name, x.occurrences.map (Occurrence.rename r)⟩

def Scope.rename (s : Scope) : Scope :=
  { s with node := s.node.map (Node.rename r), bindings := s.bindings.rename r }

def Forest.rename (f : Forest) : Forest := ⟨f.scopes.map (Scope.rename r)⟩

def Builder.rename (b : Builder) : Builder :=
  { b with
    forest := b.forest.rename r
    entered := b.entered.map fun e => (e.1.rename r, e.2) }

def Report.rename (report : Report) : Report :=
  ⟨report.references.map (Reference.rename r), report.scopes.rename r,
    report.enclosing.map (Node.rename r)⟩

end

variable {r : Text → Text}

/-! ## Recording -/

theorem Occurrence.eq_rename {o o' : Occurrence} (h : (Node.renamed r).OccurrenceLike o o') :
    o' = o.rename r := by
  obtain ⟨node', path', qualified'⟩ := o'
  obtain ⟨⟨node, -⟩, path, -, -, -, qualified⟩ := h
  rw [Occurrence.rename, Occurrence.mk.injEq]
  exact ⟨node, Node.eq_map_rename_of_forall₂ path, qualified⟩

theorem recordOccurrence_rename (inj : Function.Injective r) (name : Text) (o : Occurrence)
    (refs : List Reference) :
    recordOccurrence (r name) (o.rename r) (refs.map (Reference.rename r)) =
      (recordOccurrence name o refs).map (Reference.rename r) := by
  induction refs with
  | nil => rfl
  | cons x refs ih =>
    simp only [recordOccurrence, List.map_cons]
    have same : (x.rename r).name = r name ↔ x.name = name := inj.eq_iff
    by_cases h : x.name = name
    · rw [if_pos h, if_pos (same.mpr h)]
      simp [Reference.rename]
    · rw [if_neg h, if_neg (mt same.mp h), ih]
      rfl

/-! ## Scopes -/

namespace Forest

theorem get?_rename (f : Forest) (i : Nat) : (f.rename r).get? i = (f.get? i).map (Scope.rename r) :=
  Array.getElem?_map

theorem size_rename (f : Forest) : (f.rename r).size = f.size := Array.size_map

theorem openScope_rename (f : Forest) (kind : ScopeKind) (n : Node) (parent : Option Nat)
    (b : Bindings) : (f.rename r).openScope kind (n.rename r) parent (b.rename r) =
      (f.openScope kind n parent b).rename r := by
  have each : ∀ i, ((f.rename r).openScope kind (n.rename r) parent (b.rename r)).get? i =
      ((f.openScope kind n parent b).rename r).get? i := by
    intro i
    simp only [get?_openScope, get?_rename, size_rename]
    split
    · rfl
    · cases f.get? i with
      | none => rfl
      | some s =>
        simp only [Option.map_some]
        split <;> rfl
  exact congrArg Forest.mk (Array.ext_getElem? each)

end Forest

namespace Builder

theorem scopeOf?_rename (b : Builder) (n : Node) :
    (b.rename r).scopeOf? (n.rename r) = b.scopeOf? n := by
  unfold scopeOf? rename
  simp [List.find?_map, Function.comp_def]

theorem remember_rename (entered : List (Node × Nat)) (n : Node) (s : Nat) :
    remember (entered.map fun e => (e.1.rename r, e.2)) (n.rename r) s =
      (remember entered n s).map fun e => (e.1.rename r, e.2) := by
  unfold remember
  simp only [List.any_map, Function.comp_def, Node.id_rename]
  split
  · simp only [List.map_map]
    refine List.map_congr_left fun e _ => ?_
    simp only [Function.comp_apply, Node.id_rename]
    split <;> rfl
  · simp

theorem enterIn_rename (inj : Function.Injective r) (args : r "arguments" = "arguments")
    (b : Builder) {n n' : Node} {o o' : Option Node} (hn : (Node.renamed r).Like n n')
    (ho : Option.Rel (Node.renamed r).Like o o') :
    (b.rename r).enterIn (n', o') = (b.enterIn (n, o)).rename r := by
  have bindings := Declared.bindings_of_renamed inj
    ((Node.naming_renamed args).declared b.reportArrowArguments hn)
  obtain ⟨rfl, -⟩ := hn
  obtain rfl := Node.eq_map_rename ho
  have outer : (o.map (Node.rename r)).bind (b.rename r).scopeOf? = o.bind b.scopeOf? := by
    cases o with
    | none => rfl
    | some m => exact b.scopeOf?_rename m
  have scopeKind : (n.rename r).scopeKind = n.scopeKind := by simp [Node.scopeKind]
  have size : (b.rename r).forest.size = b.forest.size := b.forest.size_rename
  unfold enterIn enter
  simp only [outer, scopeKind, size, Node.kind_rename]
  rw [Builder.rename, Builder.mk.injEq]
  refine ⟨rfl, ?_, remember_rename b.entered n b.forest.size, rfl⟩
  exact (congrArg (Forest.openScope _ _ _ _) bindings).trans
    (b.forest.openScope_rename n.scopeKind n _ _)

theorem rename_new (report : Bool) : (Builder.new report).rename r = .new report := by
  simp [rename, new, Forest.rename, Forest.empty]

end Builder

/-! ## Runs -/

/-- The runs of a tree and of the renamed tree. -/
def renamedRun (inj : Function.Injective r) (args : r "arguments" = "arguments")
    (this : r Visit.thisName = Visit.thisName) (report : Bool) : RunLikeness where
  toLikeness := Node.renamed r
  first := report
  second := report
  Scopes := fun _ s s' => (Node.renamed r).FramesLike report s s'
  Bound := fun _ _ => False
  Bare := fun _ => True
  outer := fun hs => hs.outer
  push := fun hs _ => hs
  opened := fun hs hn => .cons ⟨_, _, hn, rfl, rfl⟩ hs
  bare := fun _ => trivial
  bare_declarator := fun _ _ _ => trivial
  faults := fun hn => (Node.renamed r).faults_eq ((Node.naming_renamed args).declared report hn)
  lookup := by
    intro _ s s' name hs
    rw [hs.isBound_eq (Node.naming_renamed args) inj fun _ no => no.elim, or_false]
  this := this
  this_free := fun _ no => no
  extra := fun no => no.elim

theorem keeps_renamedRun (inj : Function.Injective r) (args : r "arguments" = "arguments")
    (this : r Visit.thisName = Visit.thisName) (report : Bool) :
    (renamedRun inj args this report).Keeps (fun _ => True) fun _ refs b refs' b' =>
      refs' = refs.map (Reference.rename r) ∧ b' = b.rename r where
  free := by
    rintro _ refs b _ _ _ name _ o o' ⟨rfl, rfl⟩ - - - - like
    refine ⟨?_, rfl⟩
    rw [Occurrence.eq_rename like]
    exact recordOccurrence_rename inj name o refs
  bound := fun _ _ no => no.elim
  enter := by
    rintro _ refs b _ _ n n' o o' ⟨rfl, rfl⟩ hn ho
    exact ⟨rfl, Builder.enterIn_rename inj args b hn ho⟩

/-- Renaming a tree by an injective map that leaves `arguments` and `this` alone renames its report,
where what stands for a name without being an identifier keeps its name. -/
theorem Report.ofTree_rename (inj : Function.Injective r) (args : r "arguments" = "arguments")
    (this : r "this" = "this") {root : Node} (keeps : root.KeepsOtherNames r) (report : Bool) :
    Report.ofTree report (root.rename r) = (Report.ofTree report root).map (Report.rename r) := by
  have visits : (renamedRun inj args this report).VisitLike [] root.visit (root.rename r).visit :=
    ⟨rfl, ⟨rfl, keeps⟩, rfl, .none, .nil⟩
  have start : (renamedRun inj args this report).ReportLike (fun _ refs b refs' b' =>
      refs' = refs.map (Reference.rename r) ∧ b' = b.rename r) [] [] (.empty report)
        (.empty report) := ⟨rfl, .nil, rfl, (Builder.rename_new report).symm⟩
  rcases Beside.replay (keeps_renamedRun inj args this report)
    ((renamedRun inj args this report).events _ visits) (fun _ _ => trivial) start with same | failed
  · refine (same.imp fun s s' like => ?_).eq_map
    obtain ⟨-, enclosing, references, scopes⟩ := like
    rw [Report.rename, ← references, ← scopes, ← Node.eq_map_rename_of_forall₂ enclosing]
  · obtain ⟨_, _, _, _, _, no, _⟩ := failed
    exact no.elim

/-! ## Two programs -/

/-- The map that exchanges the names `x` and `y`. -/
def exchange : Text → Text := Equiv.swap ("x" : Text) "y"

theorem exchange_injective : Function.Injective exchange := (Equiv.swap _ _).injective

/-- The program `y.x; (function x(a) { arguments; x; a; this.x; })`. -/
def namedFunction : Node :=
  .mk 0 .program default [("body", .list [
    .node (.mk 1 .expressionStatement default [("expression", .node (.mk 2 .memberExpression default
      [("object", .node (name 3 "y")), ("property", .node (name 4 "x")),
        ("computed", .bool false), ("optional", .bool false)]))]),
    .node (.mk 5 .expressionStatement default [("expression", .node
      (.mk 6 .functionExpression default [("id", .node (name 7 "x")),
        ("params", .list [.node (name 8 "a")]), ("body", .node (.mk 9 .blockStatement default
          [("body", .list [statement 10 (name 11 "arguments"), statement 12 (name 13 "x"),
            statement 14 (name 15 "a"), statement 16 (.mk 17 .memberExpression default
              [("object", .node (.mk 18 .thisExpression default [])),
                ("property", .node (name 19 "x")), ("computed", .bool false),
                ("optional", .bool false)])])])),
        ("generator", .bool false), ("async", .bool false)]))])])]
where
  name (id : Nat) (t : Text) : Node := .mk id .identifier default [("name", .text t)]
  statement (id : Nat) (n : Node) : Value :=
    .node (.mk id .expressionStatement default [("expression", .node n)])

/-- Only names are exchanged: `this`, `arguments` and the places of everything stay. -/
theorem namedFunction_renamed : Function.Injective exchange ∧ exchange "arguments" = "arguments" ∧
    exchange "this" = "this" ∧ namedFunction.KeepsOtherNames exchange ∧
    Report.ofTree true (namedFunction.rename exchange) =
      (Report.ofTree true namedFunction).map (Report.rename exchange) ∧
    (Report.ofTree true namedFunction).map
      (fun r => r.occurrences.map Occurrence.qualified) = .ok ["y.x", "this.x"] ∧
    (Report.ofTree true (namedFunction.rename exchange)).map
      (fun r => r.occurrences.map Occurrence.qualified) = .ok ["x.y", "this.y"] := by
  have args : exchange "arguments" = "arguments" := by decide
  have this : exchange "this" = "this" := by decide
  have keeps : namedFunction.KeepsOtherNames exchange := Node.keepsOtherNames_iff.mpr (by cbv)
  refine ⟨exchange_injective, args, this, keeps, ?_, ?_, ?_⟩
  · exact Report.ofTree_rename exchange_injective args this keeps true
  · cbv
  · cbv

/-- The program `(function #x() { x; })`: a private name stands for the name of the function. -/
def privateName : Node :=
  .mk 0 .program default [("body", .list [.node (.mk 1 .expressionStatement default
    [("expression", .node (.mk 2 .functionExpression default
      [("id", .node (.mk 3 .privateIdentifier default [("name", .text "x")])), ("params", .list []),
        ("body", .node (.mk 4 .blockStatement default [("body", .list [
          .node (.mk 5 .expressionStatement default [("expression", .node
            (.mk 6 .identifier default [("name", .text "x")]))])])])),
        ("generator", .bool false), ("async", .bool false)]))])])]

/-- Where a private name stands for the name of a function, the function does not follow its
identifiers: `x` is bound, and `y` in its place is free. -/
theorem privateName_not_renamed : ¬ ∀ (r : Text → Text) (root : Node) (report : Bool),
    Function.Injective r → r "arguments" = "arguments" → r "this" = "this" →
      Report.ofTree report (root.rename r) = (Report.ofTree report root).map (Report.rename r) := by
  intro always
  have same := always exchange privateName true exchange_injective (by decide) (by decide)
  have before : (Report.ofTree true privateName).map
      (fun r => r.references.map Reference.name) = .ok [] := by cbv
  have after : (Report.ofTree true (privateName.rename exchange)).map
      (fun r => r.references.map Reference.name) = .ok ["y"] := by cbv
  rw [same] at after
  cases run : Report.ofTree true privateName with
  | error f => rw [run] at before; cases before
  | ok r =>
    rw [run] at before after
    have none : r.references.map Reference.name = [] := Except.ok.inj before
    have one : (r.rename exchange).references.map Reference.name = ["y"] := Except.ok.inj after
    rw [Report.rename, List.map_map] at one
    rw [List.map_eq_nil_iff] at none
    rw [none] at one
    cases one

end FreeNames
