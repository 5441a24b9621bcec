import FreeNames.Proofs.Resolution.Comparison
import FreeNames.Proofs.Resolution.Exactness
import FreeNames.Proofs.Scope.ArrowArguments

/-!
# Reporting `arguments` in arrow functions

Whether uses of `arguments` in arrow functions are reported decides about these uses and nothing
else.  Without them the report has the same groups of all other names in the same order, and
`arguments` with the remaining uses; only the place of that group among the others follows from the
first use that remains.

* In the run that does not report them `arguments` is bound exactly where an arrow function is on
  the stack (`settingsRun`).
* `Report.exists_withoutArrowArguments` compares the two reports of a tree.
-/

namespace FreeNames

/-- Does the node stand inside an arrow function? -/
def Node.isInArrow (root n : Node) : Bool := (root.links.ancestors n).any Node.isArrow

/-! ## Groups -/

/-- All occurrences of a name. -/
def occurrencesOf (refs : List Reference) (name : Text) : List Occurrence :=
  (refs.filter fun g => g.name = name).flatMap Reference.occurrences

theorem occurrencesOf_eq_of_forall {refs : List Reference} {name : Text} {os : List Occurrence}
    (nodup : (refs.map Reference.name).Nodup)
    (each : ∀ g ∈ refs, g.name = name → g.occurrences = os)
    (absent : name ∉ refs.map Reference.name → os = []) : occurrencesOf refs name = os := by
  induction refs with
  | nil => exact (absent (by simp)).symm
  | cons g refs ih =>
    obtain ⟨fresh, nodup⟩ := List.nodup_cons.mp nodup
    unfold occurrencesOf
    by_cases same : g.name = name
    · have rest : refs.filter (fun g => g.name = name) = [] := by
        rw [List.filter_eq_nil_iff]
        intro g' hg' same'
        apply fresh
        exact same.trans (of_decide_eq_true same').symm ▸ List.mem_map_of_mem hg'
      rw [List.filter_cons_of_pos (by simpa using same), rest, List.flatMap_cons,
        List.flatMap_nil, List.append_nil]
      exact each g (List.mem_cons_self ..) same
    · rw [List.filter_cons_of_neg (by simpa using same)]
      refine ih nodup (fun g' hg' => each g' (List.mem_cons_of_mem _ hg')) fun none => absent ?_
      rw [List.map_cons, List.mem_cons, not_or]
      exact ⟨fun h => same h.symm, none⟩

namespace Grouped

variable {xs : List (Text × Occurrence)} {refs : List Reference}

theorem occurrences_ne_nil (h : Grouped xs refs) {g : Reference} (hg : g ∈ refs) :
    g.occurrences ≠ [] := by
  obtain ⟨x, hx, same⟩ := List.mem_map.mp (h.mem_names.mp (List.mem_map_of_mem hg))
  have mem : x ∈ xs.filter fun x => x.1 = g.name := List.mem_filter.mpr ⟨hx, decide_eq_true same⟩
  rw [h.occurrences g hg]
  exact List.ne_nil_of_mem (List.mem_map_of_mem mem)

theorem occurrencesOf_eq (h : Grouped xs refs) (name : Text) :
    occurrencesOf refs name = (xs.filter fun x => x.1 = name).map Prod.snd := by
  refine occurrencesOf_eq_of_forall h.nodup (fun g hg same => ?_) fun none => ?_
  · rw [h.occurrences g hg, same]
  · rw [List.map_eq_nil_iff, List.filter_eq_nil_iff]
    intro x hx same
    apply none
    rw [h.mem_names]
    exact of_decide_eq_true same ▸ List.mem_map_of_mem hx

end Grouped

/-! ## Places of free references -/

/-- In a run that does not get stuck every free reference is met inside the nodes around it. -/
theorem ancestors_of_mem_freed {root : Node} {report : Bool} {stack : List Node}
    (tree : root.IsTree) {events : List Event} {s : Point}
    (follows : Follows report root stack s (events.map .emit))
    (clean : ∀ f, .stuck f ∉ events) :
    ∀ x ∈ freed s.enclosing events, root.links.ancestors x.node = x.enclosing := by
  induction events generalizing s with
  | nil =>
    intro x hx
    cases hx
  | cons e events ih =>
    have rest : ∀ f, .stuck f ∉ events := fun f hf => clean f (List.mem_cons_of_mem _ hf)
    cases e with
    | stuck f => exact absurd (List.mem_cons_self ..) (clean f)
    | enter n outer => exact ih (s := s.after (.enter n outer)) follows.2 rest
    | push n => exact ih (s := s.after (.push n)) follows.2 rest
    | pop => exact ih (s := s.after .pop) follows.2 rest
    | free name n =>
      intro x hx
      rcases List.mem_cons.mp hx with rfl | hx
      · obtain ⟨⟨p, around, rfl, -⟩, -⟩ := follows
        exact (tree.ancestors_links around.mem).trans around.enclosing
      · exact ih follows.2 rest x hx

/-! ## Two settings -/

theorem Node.PlainDeclarators.child {n : Node} (h : n.PlainDeclarators) {c : String × Node}
    (hc : c ∈ n.children) : c.2.PlainDeclarators :=
  fun m hm => h m (mem_preorder_of_mem_children hc hm)

/-- A tree and itself. -/
def Node.unchanged : Likeness where
  Like := fun n n' => n' = n ∧ n.PlainDeclarators
  Extra := fun _ => False
  rename := fun t => t
  id_eq := by
    intro n n' like
    rw [like.1]
  kind_eq := by
    intro n n' like
    rw [like.1]
  fields := by
    intro n n' ⟨same, plain⟩
    subst same
    refine List.forall₂_same.mpr fun f hf => ⟨rfl, .refl fun c hc => ⟨rfl, ?_⟩⟩
    exact plain.child (mem_children.mpr ⟨f.2, hf, hc⟩)

/-- The name is `arguments`, and there is an arrow function on the stack. -/
def BoundInArrow (stack : List Node) (name : Text) : Prop :=
  name = "arguments" ∧ stack.any Node.isArrow = true

/-- The runs of a tree with and without reporting. -/
def settingsRun : RunLikeness where
  toLikeness := Node.unchanged
  first := true
  second := false
  Scopes := fun stack s s' =>
    List.Forall₂ (fun f f' => Node.unchanged.Like f.node f'.node) s s' ∧
      ∀ name, isBound s' name = true ↔ isBound s name = true ∨ BoundInArrow stack name
  Bound := BoundInArrow
  Bare := fun n => n.isArrow = false
  outer := by
    intro stack s s' ⟨nodes, _⟩
    cases nodes with
    | nil => exact .none
    | cons hn _ => exact .some hn
  push := by
    intro stack s s' n ⟨nodes, bound⟩ bare
    refine ⟨nodes, fun name => ?_⟩
    rw [bound, BoundInArrow, BoundInArrow, List.any_cons, bare, Bool.false_or]
  opened := by
    intro stack s s' n n' ⟨nodes, bound⟩ hn
    refine ⟨.cons hn nodes, fun name => ?_⟩
    obtain rfl := hn.1
    have here := n'.declares_iff_of_settings name
    simp only [isBound, List.any_cons, Bool.or_eq_true, Frame.of, BoundInArrow] at bound ⊢
    rw [here, bound]
    tauto
  bare := by
    intro n other
    simpa [Node.isArrow] using other
  bare_declarator := by
    intro n n' d hn hk hd
    have plain := hn.2 n n.self_mem_preorder hk d hd
    simp [Node.isArrow, plain]
  faults := by
    intro n n' hn
    rw [hn.1]
    exact n.faults_declared
  lookup := fun name hs => hs.2 name
  this := rfl
  this_free := by
    intro stack bound
    exact absurd bound.1 (by decide)
  extra := fun no => no.elim

/-- Is the free reference reported in both settings? -/
def Node.keepsReference (root : Node) (x : Text × Occurrence) : Bool :=
  x.1 ≠ ("arguments" : Text) || !root.isInArrow x.2.node

/-- What has been recorded with and without reporting, when these free references were met. -/
structure RecordedBut (root : Node) (seen : List Freed) (refs : List Reference) (b : Builder)
    (refs' : List Reference) (b' : Builder) : Prop where
  others : refs'.filter (fun g => g.name ≠ ("arguments" : Text)) =
    refs.filter fun g => g.name ≠ ("arguments" : Text)
  order : ∃ xs, xs.map (fun x => (x.1, x.2.node)) = seen.map (fun x => (x.name, x.node)) ∧
    Grouped xs refs ∧ Grouped (xs.filter root.keepsReference) refs'
  scopes : b.LikeBut b'

theorem keeps_settingsRun (root : Node) : settingsRun.Keeps
    (fun x => root.links.ancestors x.node = x.enclosing) (RecordedBut root) where
  free := by
    intro seen refs b refs' b' stack name n o o' recorded located free named read like
    obtain ⟨others, ⟨xs, nodes, before, after⟩, scopes⟩ := recorded
    have node := (Occurrence.node_of_read read).1
    have unchanged : o' = o := like.eq (fun _ => rfl) (fun hm _ => hm.1)
      (Occurrence.hasSegment_of_read read ⟨name, named⟩)
    have kept : root.keepsReference (name, o) = true := by
      by_cases same : name = "arguments"
      · have noArrow : stack.any Node.isArrow = false :=
          Bool.eq_false_iff.mpr fun arrow => free ⟨same, arrow⟩
        simp [Node.keepsReference, Node.isInArrow, node, located, noArrow]
      · exact Bool.or_eq_true_iff.mpr (Or.inl (decide_eq_true same))
    rw [unchanged]
    refine ⟨?_, ⟨xs ++ [(name, o)], ?_, before.record name o, ?_⟩, scopes⟩
    · by_cases same : name = "arguments"
      · subst same
        exact filter_recordOccurrence_self.trans (others.trans filter_recordOccurrence_self.symm)
      · refine (filter_recordOccurrence_of_ne same).trans ?_
        rw [others]
        exact (filter_recordOccurrence_of_ne same).symm
    · rw [List.map_append, List.map_append, nodes, List.map_singleton, List.map_singleton, node]
    · rw [List.filter_append, List.filter_singleton, kept]
      exact after.record name o
  bound := by
    intro seen refs b refs' b' stack name n o recorded located bound read
    obtain ⟨others, ⟨xs, nodes, before, after⟩, scopes⟩ := recorded
    obtain ⟨rfl, arrow⟩ := bound
    have node := (Occurrence.node_of_read read).1
    have dropped : root.keepsReference ("arguments", o) = false := by
      simp [Node.keepsReference, Node.isInArrow, node, located, arrow]
    refine ⟨others.trans filter_recordOccurrence_self.symm,
      ⟨xs ++ [(_, o)], ?_, before.record _ o, ?_⟩, scopes⟩
    · rw [List.map_append, List.map_append, nodes, List.map_singleton, List.map_singleton, node]
    · rw [List.filter_append, List.filter_singleton, dropped, cond_false, List.append_nil]
      exact after
  enter := by
    intro seen refs b refs' b' n n' o o' recorded hn ho
    obtain ⟨others, order, scopes⟩ := recorded
    obtain rfl := hn.1
    have same : o' = o := by
      cases ho with
      | none => rfl
      | some hm => rw [hm.1]
    rw [same]
    exact ⟨others, order, scopes.enterIn (n', o)⟩

/-! ## Two reports -/

/-- The second report is the first without the uses of `arguments` in arrow functions. -/
structure Report.WithoutArrowArguments (root : Node) (r r' : Report) : Prop where
  /-- The groups of all other names are the same, in the same order. -/
  others : r'.references.filter (fun g => g.name ≠ ("arguments" : Text)) =
    r.references.filter fun g => g.name ≠ ("arguments" : Text)
  /-- The uses of `arguments` outside arrow functions remain, in the same order. -/
  arguments : occurrencesOf r'.references "arguments" =
    (occurrencesOf r.references "arguments").filter fun o => !root.isInArrow o.node
  /-- No group is left empty. -/
  nonempty : ∀ g ∈ r'.references, g.occurrences ≠ []
  /-- Both reports group the free references of the first run in the order in which it meets them,
  the second one those that it keeps. -/
  order : ∃ xs, xs.map (fun x => (x.1, x.2.node)) =
      (freed [] (root.events true)).map (fun x => (x.name, x.node)) ∧
    Grouped xs r.references ∧ Grouped (xs.filter root.keepsReference) r'.references
  /-- The scopes are the same but for the bindings of `arguments` in arrow functions. -/
  scopes : r.scopes.LikeBut r'.scopes

/-- If uses of `arguments` in arrow functions are not reported, the report is what it would be
otherwise without these uses. -/
theorem Report.exists_withoutArrowArguments {root : Node} {r : Report} (tree : root.IsTree)
    (plain : root.PlainDeclarators) (run : Report.ofTree true root = .ok r) :
    ∃ r', Report.ofTree false root = .ok r' ∧ r.WithoutArrowArguments root r' := by
  have visits : settingsRun.VisitLike [] root.visit root.visit :=
    ⟨rfl, ⟨rfl, plain⟩, rfl, .none, .nil, fun name => by simp [Node.visit, isBound, BoundInArrow]⟩
  have start : settingsRun.ReportLike (RecordedBut root) [] [] (.empty true) (.empty false) :=
    ⟨rfl, .nil, rfl, ⟨[], rfl, .nil, .nil⟩, .new⟩
  have follows : Follows true root [] .start ((root.events true).map .emit) :=
    Node.follows_events plain.declaratorsHold
  have located := ancestors_of_mem_freed tree follows (Report.clean_of_foldlM run)
  have replayed := Beside.replay (keeps_settingsRun root) (settingsRun.events _ visits) located start
  change Agree _ (Report.ofTree true root) (Report.ofTree false root) ∨
    ∃ f, Report.ofTree true root = .error f ∧ _ at replayed
  rw [run] at replayed
  rcases replayed with same | ⟨f, failed, -⟩
  · generalize Report.ofTree false root = result at same ⊢
    cases same with
    | @ok _ r' like =>
      obtain ⟨others, ⟨xs, nodes, before, after⟩, scopes⟩ := like.inv
      refine ⟨r', rfl, others, ?_, fun g hg => after.occurrences_ne_nil hg,
        ⟨xs, nodes, before, after⟩, scopes⟩
      rw [before.occurrencesOf_eq, after.occurrencesOf_eq, List.filter_map, List.filter_filter,
        List.filter_filter]
      congr 2
      funext x
      by_cases same : x.1 = "arguments" <;> simp [Node.keepsReference, same]
  · cases failed

/-- The program `() => arguments; foo; arguments;`. -/
def arrowThenUse : Node :=
  .mk 0 .program default [("body", .list [
    statement 1 (.mk 2 .arrowFunctionExpression default [("params", .list []),
      ("body", .node (name 3 "arguments")), ("async", .bool false), ("expression", .bool true)]),
    statement 4 (name 5 "foo"), statement 6 (name 7 "arguments")])]
where
  name (id : Nat) (t : Text) : Node := .mk id .identifier default [("name", .text t)]
  statement (id : Nat) (n : Node) : Value :=
    .node (.mk id .expressionStatement default [("expression", .node n)])

/-- Here the first use of `arguments` is dropped, and with it the place of the group. -/
theorem arrowThenUse_withoutArrowArguments : arrowThenUse.IsTree ∧ arrowThenUse.PlainDeclarators ∧
    ∃ r r', Report.ofTree true arrowThenUse = .ok r ∧
      r.references.map Reference.name = ["arguments", "foo"] ∧
      Report.ofTree false arrowThenUse = .ok r' ∧ r.WithoutArrowArguments arrowThenUse r' := by
  have tree : arrowThenUse.IsTree := by decide_cbv
  have kinds : (arrowThenUse.preorder.all fun n => decide (n.kind ≠ .variableDeclaration)) = true := by
    cbv
  have plain : arrowThenUse.PlainDeclarators := by
    intro n hn hk
    exact absurd hk (of_decide_eq_true (List.all_eq_true.mp kinds n hn))
  have names : (Report.ofTree true arrowThenUse).map (fun r => r.references.map Reference.name) =
      .ok ["arguments", "foo"] := by cbv
  refine ⟨tree, plain, ?_⟩
  cases run : Report.ofTree true arrowThenUse with
  | error f => rw [run] at names; cases names
  | ok r =>
    rw [run] at names
    obtain ⟨r', run', without⟩ := Report.exists_withoutArrowArguments tree plain run
    exact ⟨r, r', rfl, Except.ok.inj names, run', without⟩

/-- Take the uses of `arguments` in arrow functions out of their group and leave the group where it
is, if it is not empty then. -/
def Node.deleteArrowArguments (root : Node) (refs : List Reference) : List Reference :=
  (refs.map fun g =>
    if g.name = ("arguments" : Text) then
      { g with occurrences := g.occurrences.filter fun o => !root.isInArrow o.node }
    else g).filter fun g => !g.occurrences.isEmpty

theorem Node.deleteArrowArguments_sublist (root : Node) (refs : List Reference) :
    ((root.deleteArrowArguments refs).map Reference.name).Sublist (refs.map Reference.name) := by
  have names : (refs.map fun g =>
      if g.name = ("arguments" : Text) then
        { g with occurrences := g.occurrences.filter fun o => !root.isInArrow o.node }
      else g).map Reference.name = refs.map Reference.name := by
    rw [List.map_map]
    apply List.map_congr_left
    intro g _
    rw [Function.comp_apply]
    split <;> rfl
  rw [← names]
  exact List.filter_sublist.map _

/-- The group of `arguments` does not always stay where it is. -/
theorem arrowThenUse_moves_arguments : arrowThenUse.IsTree ∧
    ∃ r r', Report.ofTree true arrowThenUse = .ok r ∧ Report.ofTree false arrowThenUse = .ok r' ∧
      r'.references ≠ arrowThenUse.deleteArrowArguments r.references := by
  have tree : arrowThenUse.IsTree := by decide_cbv
  have reported : (Report.ofTree true arrowThenUse).map
      (fun r => r.references.map Reference.name) = .ok ["arguments", "foo"] := by cbv
  have dropped : (Report.ofTree false arrowThenUse).map
      (fun r => r.references.map Reference.name) = .ok ["foo", "arguments"] := by cbv
  refine ⟨tree, ?_⟩
  cases run : Report.ofTree true arrowThenUse with
  | error f => rw [run] at reported; cases reported
  | ok r =>
    cases run' : Report.ofTree false arrowThenUse with
    | error f => rw [run'] at dropped; cases dropped
    | ok r' =>
      rw [run] at reported
      rw [run'] at dropped
      refine ⟨r, r', rfl, rfl, fun same => ?_⟩
      have before : r.references.map Reference.name = ["arguments", "foo"] :=
        Except.ok.inj reported
      have after : r'.references.map Reference.name = ["foo", "arguments"] := Except.ok.inj dropped
      have sublist := arrowThenUse.deleteArrowArguments_sublist r.references
      rw [← same, before, after] at sublist
      exact absurd sublist (by decide)

end FreeNames
