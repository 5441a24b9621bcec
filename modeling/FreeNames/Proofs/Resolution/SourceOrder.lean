import FreeNames.Proofs.Conversion.Built
import FreeNames.Proofs.Conversion.InOrder
import FreeNames.Proofs.Conversion.Specifiers
import FreeNames.Proofs.Resolution.AccessPath
import FreeNames.Proofs.Resolution.FieldOrder
import FreeNames.Proofs.Resolution.Replay

/-!
# Reports follow the source

The tree of an ordered parse has its names in the order of the source, and if the specifiers of
imports stand in imports, a run meets them in that order.  So the occurrences of each name are recorded in the order of the source, no place is
recorded twice, and the groups stand in the order of their first occurrences.

* `RecordedBefore` is what each recording keeps (`recordedBefore_recordOccurrence`), and
  `exists_recordedBefore_of_foldlM` is the replay.
* A specifier of an import that stands outside of imports, which no source gives, has both its
  names read in one place (`straySpecifier_read_twice`).
-/

namespace FreeNames

/-! ## Groups in the order of the source -/

/-- Where the node of an occurrence starts. -/
def Occurrence.start (o : Occurrence) : Nat := o.node.span.start

/-- The occurrences of each name stand in the order of the source, and the names in the order of
their first occurrences. -/
structure FollowSource (rs : List Reference) : Prop where
  occurrences : ∀ r ∈ rs, r.occurrences.Pairwise fun o o' => o.start < o'.start
  names : rs.Pairwise fun r r' =>
    ∃ o ∈ r.occurrences.head?, ∃ o' ∈ r'.occurrences.head?, o.start < o'.start

/-- All that is recorded starts before this position, and no name is without an occurrence. -/
structure RecordedBefore (p : Nat) (rs : List Reference) : Prop where
  follow : FollowSource rs
  first : ∀ r ∈ rs, ∃ o, o ∈ r.occurrences.head?
  before : ∀ r ∈ rs, ∀ o ∈ r.occurrences, o.start < p

namespace RecordedBefore

variable {p : Nat} {r : Reference} {rs : List Reference} {name : Text} {o : Occurrence}

theorem nil : RecordedBefore p [] :=
  ⟨⟨List.forall_mem_nil _, .nil⟩, List.forall_mem_nil _, List.forall_mem_nil _⟩

theorem tail (h : RecordedBefore p (r :: rs)) : RecordedBefore p rs where
  follow := ⟨(List.forall_mem_cons.mp h.follow.occurrences).2, h.follow.names.tail⟩
  first := (List.forall_mem_cons.mp h.first).2
  before := (List.forall_mem_cons.mp h.before).2

theorem mono {p' : Nat} (h : RecordedBefore p rs) (le : p ≤ p') : RecordedBefore p' rs where
  follow := h.follow
  first := h.first
  before r hr o ho := Nat.lt_of_lt_of_le (h.before r hr o ho) le

/-- What a name is first seen at stays, and a new name is first seen at the new occurrence. -/
theorem head?_of_mem_recordOccurrence (first : ∀ r ∈ rs, ∃ o, o ∈ r.occurrences.head?)
    (hr : r ∈ recordOccurrence name o rs) :
    (∃ r' ∈ rs, r.occurrences.head? = r'.occurrences.head?) ∨ r.occurrences.head? = some o := by
  induction rs with
  | nil =>
    rw [recordOccurrence, List.mem_singleton] at hr
    subst hr
    exact Or.inr rfl
  | cons s rs ih =>
    obtain ⟨⟨o', ho'⟩, first⟩ := List.forall_mem_cons.mp first
    unfold recordOccurrence at hr
    split at hr
    · rcases List.mem_cons.mp hr with rfl | hr
      · refine Or.inl ⟨s, List.mem_cons_self, ?_⟩
        rw [List.head?_append, ho', Option.some_or]
      · exact Or.inl ⟨r, List.mem_cons_of_mem _ hr, rfl⟩
    · rcases List.mem_cons.mp hr with rfl | hr
      · exact Or.inl ⟨r, List.mem_cons_self, rfl⟩
      · rcases ih first hr with ⟨r', hr', same⟩ | new
        · exact Or.inl ⟨r', List.mem_cons_of_mem _ hr', same⟩
        · exact Or.inr new

/-- One recording, of an occurrence that starts behind all others. -/
theorem recordOccurrence (h : RecordedBefore o.start rs) (ho : o.start < p) (name : Text) :
    RecordedBefore p (recordOccurrence name o rs) := by
  induction rs with
  | nil =>
    refine ⟨⟨?_, List.pairwise_singleton _ _⟩, ?_, ?_⟩ <;> refine List.forall_mem_singleton.mpr ?_
    · exact List.pairwise_singleton _ _
    · exact ⟨o, rfl⟩
    · exact List.forall_mem_singleton.mpr ho
  | cons r rs ih =>
    obtain ⟨increasing, others⟩ := List.forall_mem_cons.mp h.follow.occurrences
    obtain ⟨behind, names⟩ := List.pairwise_cons.mp h.follow.names
    obtain ⟨⟨o₁, ho₁⟩, first⟩ := List.forall_mem_cons.mp h.first
    obtain ⟨below, before⟩ := List.forall_mem_cons.mp h.before
    unfold FreeNames.recordOccurrence
    split
    · -- the name is known: its first occurrence stays the first
      have head : (r.occurrences ++ [o]).head? = some o₁ := by
        rw [List.head?_append, ho₁, Option.some_or]
      refine ⟨⟨List.forall_mem_cons.mpr ⟨?_, others⟩, .cons (fun r' hr' => ?_) names⟩,
        List.forall_mem_cons.mpr ⟨⟨o₁, head⟩, first⟩, List.forall_mem_cons.mpr ⟨?_, ?_⟩⟩
      · refine List.pairwise_append.mpr ⟨increasing, List.pairwise_singleton _ _, ?_⟩
        exact fun o' ho' => List.forall_mem_singleton.mpr (below o' ho')
      · obtain ⟨o', mem, rest⟩ := behind r' hr'
        cases ho₁.symm.trans mem
        exact ⟨o₁, head, rest⟩
      · refine List.forall_mem_append.mpr ⟨fun o' ho' => ?_, List.forall_mem_singleton.mpr ho⟩
        exact Nat.lt_trans (below o' ho') ho
      · exact fun r' hr' o' ho' => Nat.lt_trans (before r' hr' o' ho') ho
    · -- the name stands later or is new: either way behind the first occurrence of this one
      have rest := ih h.tail
      refine ⟨⟨List.forall_mem_cons.mpr ⟨increasing, rest.follow.occurrences⟩,
          .cons (fun r' hr' => ?_) rest.follow.names⟩,
        List.forall_mem_cons.mpr ⟨⟨o₁, ho₁⟩, rest.first⟩,
        List.forall_mem_cons.mpr ⟨fun o' ho' => Nat.lt_trans (below o' ho') ho, rest.before⟩⟩
      rcases head?_of_mem_recordOccurrence first hr' with ⟨r'', hr'', same⟩ | new
      · rw [same]
        exact behind r'' hr''
      · exact ⟨o₁, ho₁, o, new, below o₁ (List.mem_of_mem_head? ho₁)⟩

end RecordedBefore

/-! ## Replays -/

/-- Where the node of a free reference starts. -/
def Freed.start (x : Freed) : Nat := x.node.span.start

theorem map_start_freed (stack : List Node) (events : List Event) :
    (freed stack events).map Freed.start = events.flatMap Event.points := by
  induction events generalizing stack with
  | nil => rfl
  | cons e events ih =>
    cases e with
    | free name n => exact congrArg (n.span.start :: ·) (ih stack)
    | _ => exact ih _

/-- A replay that meets free references in the order of the source records them in this order. -/
theorem exists_recordedBefore_of_foldlM {p : Nat} {xs : List Freed} {rs rs' : List Reference}
    (h : RecordedBefore p rs) (above : ∀ x ∈ xs, p ≤ x.start)
    (increasing : xs.Pairwise fun x y => x.start < y.start)
    (run : xs.foldlM Report.record rs = .ok rs') : ∃ p', RecordedBefore p' rs' := by
  induction xs generalizing p rs with
  | nil =>
    cases run
    exact ⟨p, h⟩
  | cons x xs ih =>
    obtain ⟨hx, above⟩ := List.forall_mem_cons.mp above
    obtain ⟨first, increasing⟩ := List.pairwise_cons.mp increasing
    rw [List.foldlM_cons] at run
    cases read : Occurrence.read x.node x.enclosing with
    | error f =>
      rw [Report.record, read] at run
      cases run
    | ok o =>
      rw [Report.record, read] at run
      have start : o.start = x.start := by
        rw [Occurrence.start, (Occurrence.node_of_read read).1, Freed.start]
      have recorded : RecordedBefore (x.start + 1) (recordOccurrence x.name o rs) :=
        (h.mono (start ▸ hx)).recordOccurrence (by omega) x.name
      exact ih recorded (fun y hy => first y hy) increasing run

/-- The report of an ordered parse with its specifiers in imports follows the source. -/
theorem Parsed.followSource_of_toTree {src : Source} {root : Parsed} {tree : Node}
    {reportArrowArguments : Bool} {r : Report} (ordered : root.IsOrdered)
    (imported : root.SpecifiersImported) (read : root.toTree src = .ok tree)
    (run : Report.ofTree reportArrowArguments tree = .ok r) : FollowSource r.references := by
  have readable : tree.IsReadable :=
    ⟨builtThroughout_of_toTree (fun no => by cases no) read,
      doublesImported_of_toTree imported ordered read⟩
  have clean := Report.clean_of_foldlM run
  have met := (risingIn_points_of_toTree ordered read).increasing.sublist
    (Node.points_events readable clean)
  rw [Report.ofTree, Report.ofEvents, Report.foldlM_add_eq clean] at run
  cases replay : (freed (Report.empty reportArrowArguments).enclosing
      (tree.events reportArrowArguments)).foldlM Report.record
        (Report.empty reportArrowArguments).references with
  | error f => rw [replay] at run; cases run
  | ok rs =>
    rw [replay] at run
    cases run
    rw [← map_start_freed (Report.empty reportArrowArguments).enclosing, List.pairwise_map] at met
    obtain ⟨p, recorded⟩ := exists_recordedBefore_of_foldlM (p := 0) .nil
      (fun _ _ => Nat.zero_le _) met replay
    exact recorded.follow

namespace Parsed

/-- The parse of `import {a} from "m"; do f(x); while (x);`, without the tokens. -/
def importThenLoop : Parsed :=
  .mk .program true false false ⟨0, 40, 1, 0⟩ none
    [.mk .importStatement true false false ⟨0, 20, 1, 0⟩ none
      [.mk .importClause true false false ⟨7, 10, 1, 7⟩ none
        [.mk .namedImports true false false ⟨7, 10, 1, 7⟩ none
          [.mk .importSpecifier true false false ⟨8, 9, 1, 8⟩ none
            [.mk .identifier true false false ⟨8, 9, 1, 8⟩ (some "name") []]]],
        .mk .string true false false ⟨16, 19, 1, 16⟩ (some "source") []],
      .mk .doStatement true false false ⟨21, 40, 1, 21⟩ none
        [.mk .expressionStatement true false false ⟨24, 29, 1, 24⟩ (some "body")
          [.mk .callExpression true false false ⟨24, 28, 1, 24⟩ none
            [.mk .identifier true false false ⟨24, 25, 1, 24⟩ (some "function") [],
              .mk (.other "arguments") true false false ⟨25, 28, 1, 25⟩ (some "arguments")
                [.mk .identifier true false false ⟨26, 27, 1, 26⟩ none []]]],
          .mk .parenthesizedExpression true false false ⟨36, 39, 1, 36⟩ (some "condition")
            [.mk .identifier true false false ⟨37, 38, 1, 37⟩ none []]]]

theorem isOrdered_importThenLoop : importThenLoop.IsOrdered := isOrdered_of_all (by cbv)

theorem specifiersImported_importThenLoop : importThenLoop.SpecifiersImported :=
  specifiersImported_of_all rfl (by cbv)

theorem report_of_importThenLoop :
    (importThenLoop.toTree (.ofString "import {a} from \"m\"; do f(x); while (x);")).toOption.any
      fun tree => (Report.ofTree true tree).toOption.isSome := by
  cbv

/-- The body of a loop comes before its condition, and `x` is met in both. -/
theorem importThenLoop_followSource : importThenLoop.IsOrdered ∧
    importThenLoop.SpecifiersImported ∧ ∃ tree r,
      importThenLoop.toTree (.ofString "import {a} from \"m\"; do f(x); while (x);") = .ok tree ∧
        Report.ofTree true tree = .ok r ∧ FollowSource r.references := by
  refine ⟨isOrdered_importThenLoop, specifiersImported_importThenLoop, ?_⟩
  have report := report_of_importThenLoop
  cases read : importThenLoop.toTree (.ofString "import {a} from \"m\"; do f(x); while (x);") with
  | error f => rw [read] at report; cases report
  | ok tree =>
    rw [read] at report
    have done : (Report.ofTree true tree).toOption.isSome = true := report
    cases run : Report.ofTree true tree with
    | error f => rw [run] at done; cases done
    | ok r =>
      exact ⟨tree, r, rfl, run, followSource_of_toTree isOrdered_importThenLoop
        specifiersImported_importThenLoop read run⟩

/-- The parse of a specifier of an import that stands in no import. -/
def straySpecifier : Parsed :=
  .mk .program true false false ⟨0, 1, 1, 0⟩ none
    [.mk .importSpecifier true false false ⟨0, 1, 1, 0⟩ none
      [.mk .identifier true false false ⟨0, 1, 1, 0⟩ (some "name") []]]

theorem isOrdered_straySpecifier : straySpecifier.IsOrdered := isOrdered_of_all (by cbv)

theorem starts_of_straySpecifier :
    ((straySpecifier.toTree (.ofString "a")).bind fun tree => (Report.ofTree true tree).map fun r =>
      r.references.map fun g => g.occurrences.map Occurrence.start) = .ok [[0, 0]] := by
  cbv

/-- Both names of a specifier outside of imports are read, and without an alias they are one. -/
theorem straySpecifier_read_twice :
    ¬ ∀ (src : Source) (root : Parsed) (tree : Node) (reportArrowArguments : Bool) (r : Report),
      root.IsOrdered → root.toTree src = .ok tree →
        Report.ofTree reportArrowArguments tree = .ok r → FollowSource r.references := by
  intro follows
  have starts := starts_of_straySpecifier
  cases read : straySpecifier.toTree (.ofString "a") with
  | error f => rw [read] at starts; cases starts
  | ok tree =>
    rw [read, Except.bind] at starts
    cases run : Report.ofTree true tree with
    | error f => rw [run] at starts; cases starts
    | ok r =>
      rw [run] at starts
      have starts : (r.references.map fun g => g.occurrences.map Occurrence.start) = [[0, 0]] :=
        Except.ok.inj starts
      obtain ⟨g, rest, hr, hg, -⟩ := List.map_eq_cons_iff.mp starts
      have increasing := (follows _ _ _ _ _ isOrdered_straySpecifier read run).occurrences g
        (hr ▸ List.mem_cons_self)
      rw [← List.pairwise_map (f := Occurrence.start) (R := (· < ·)), hg] at increasing
      exact absurd increasing (by decide)

end Parsed

end FreeNames
