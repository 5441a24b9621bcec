import FreeNames.CommandLine.Scan
import FreeNames.Proofs.Files.Spelling
import FreeNames.Proofs.Resolution.Exactness

/-!
# Results of a scan

What a scan reports of each file depends on that file alone, and every file is reported once, in the
place where it is first found.

* `FileTree.detection?` is what detection finds in a file by itself, and `FileTree.Fails` says that
  the file does not parse or is nested too deep; `Plan.analyze_cases` is what a scan makes of the
  file then.
* `resultsOf_findings`: the results are those of the distinct files, in order.
* `IsShownOf` is what is shown of the references of a file; `Plan.isShownOf_arrange` is the
  filtering and sorting.
-/

namespace FreeNames

/-! ## One file -/

namespace FileTree

variable {tree : FileTree} {p : Path}

/-- What detection finds in a file, if there is something to be read, parsed and analyzed. -/
def detection? (tree : FileTree) (reportArrowArguments : Bool) (p : Path) :
    Option (List Reference) := do
  let file ← tree.read? p
  let parsed ← file.parsed?
  let root ← (file.source.toTree parsed (some p.toString)).toOption
  let report ← (Report.ofTree reportArrowArguments root).toOption
  return report.references

/-- The file is nested too deep, or it does not parse. -/
def Fails (tree : FileTree) (p : Path) : Prop :=
  ∃ file, tree.read? p = some file ∧ ∀ parsed, file.parsed? = some parsed →
    ∃ e, file.source.toTree parsed (some p.toString) = .error (.parse e)

end FileTree

namespace Plan

variable {plan : Plan} {tree : FileTree} {p : Path}

/-- A file fails, or nothing is detected in it for another reason, or what is detected in it makes
its references. -/
theorem analyze_cases (plan : Plan) (tree : FileTree) (p : Path) :
    (tree.Fails p ∧ tree.detection? plan.reportArrowArguments p = none ∧
      (plan.analyze tree p = .tooDeep ∨ ∃ e, plan.analyze tree p = .broken e)) ∨
    (¬ tree.Fails p ∧ tree.detection? plan.reportArrowArguments p = none ∧
      (plan.analyze tree p = .unreadable ∨ ∃ f, plan.analyze tree p = .fault f)) ∨
    ¬ tree.Fails p ∧ ∃ found, tree.detection? plan.reportArrowArguments p = some found ∧
      plan.analyze tree p = .references (plan.arrange found) := by
  unfold analyze FileTree.detection? FileTree.Fails
  cases tree.read? p with
  | none => exact .inr (.inl ⟨nofun, rfl, .inl rfl⟩)
  | some file =>
    obtain ⟨source, parsed?⟩ := file
    cases parsed? with
    | none => exact .inl ⟨⟨_, rfl, nofun⟩, rfl, .inl rfl⟩
    | some parsed =>
      cases read : source.toTree parsed (some p.toString) with
      | error e =>
        cases e with
        | parse e =>
          refine .inl ⟨⟨_, rfl, ?_⟩, ?_, .inr ⟨e, ?_⟩⟩ <;> simp [read, Except.toOption]
        | fault f =>
          refine .inr (.inl ⟨?_, ?_, .inr ⟨f, ?_⟩⟩) <;> simp [read, Except.toOption]
      | ok root =>
        cases run : Report.ofTree plan.reportArrowArguments root with
        | error f =>
          refine .inr (.inl ⟨?_, ?_, .inr ⟨f, ?_⟩⟩) <;> simp [read, run, Except.toOption]
        | ok report =>
          refine .inr (.inr ⟨?_, report.references, ?_, ?_⟩) <;>
            simp [read, run, Except.toOption]

theorem references?_analyze :
    (plan.analyze tree p).references? =
      (tree.detection? plan.reportArrowArguments p).map plan.arrange := by
  obtain ⟨-, none, found | ⟨e, found⟩⟩ | ⟨-, none, found | ⟨f, found⟩⟩ | ⟨-, found, some, shown⟩ :=
    plan.analyze_cases tree p
  · rw [none, found]; rfl
  · rw [none, found]; rfl
  · rw [none, found]; rfl
  · rw [none, found]; rfl
  · rw [some, shown]; rfl

theorem isFailure_analyze : (plan.analyze tree p).isFailure ↔ tree.Fails p := by
  obtain ⟨fails, -, found | ⟨e, found⟩⟩ | ⟨not, -, found | ⟨f, found⟩⟩ | ⟨not, found, -, shown⟩ :=
    plan.analyze_cases tree p
  · rw [found]; exact iff_of_true rfl fails
  · rw [found]; exact iff_of_true rfl fails
  · rw [found]; exact iff_of_false nofun not
  · rw [found]; exact iff_of_false nofun not
  · rw [shown]; exact iff_of_false nofun not

/-- A file that fails makes no fault, nor does one in which something is detected. -/
theorem fault?_analyze
    (h : tree.Fails p ∨ (tree.detection? plan.reportArrowArguments p).isSome) :
    (plan.analyze tree p).fault? = none := by
  obtain ⟨-, -, found | ⟨e, found⟩⟩ | ⟨not, none, -⟩ | ⟨-, found, -, shown⟩ :=
    plan.analyze_cases tree p
  · rw [found]; rfl
  · rw [found]; rfl
  · rw [none] at h
    exact absurd h (not_or.mpr ⟨not, nofun⟩)
  · rw [shown]; rfl

end Plan

/-! ## All files -/

section Results

variable {path : Path} {rs : List Reference} {results : List FileResult}

theorem recordResult_of_fresh (fresh : ∀ r ∈ results, r.1 ≠ path) :
    recordResult path rs results = results ++ [(path, rs)] := by
  induction results with
  | nil => rfl
  | cons r rest ih =>
    obtain ⟨hr, fresh⟩ := List.forall_mem_cons.mp fresh
    rw [recordResult, if_neg hr, ih fresh, List.cons_append]

/-- Recording for a file what is there for it already changes nothing. -/
theorem recordResult_of_mem (known : ∃ r ∈ results, r.1 = path)
    (same : ∀ r ∈ results, r.1 = path → r.2 = rs) : recordResult path rs results = results := by
  induction results with
  | nil =>
    obtain ⟨r, mem, -⟩ := known
    cases mem
  | cons r rest ih =>
    obtain ⟨hr, same⟩ := List.forall_mem_cons.mp same
    rw [recordResult]
    split
    · next here => rw [← here, ← hr here]
    · next elsewhere =>
      obtain ⟨s, mem, hs⟩ := known
      rcases List.mem_cons.mp mem with rfl | mem
      · exact absurd hs elsewhere
      · rw [ih ⟨s, mem, hs⟩ same]

/-- The result that a file gives, if it is analyzed. -/
def Finding.result? (path : Path) (f : Finding) : Option FileResult :=
  f.references?.map fun rs => (path, rs)

/-- The results are those of the distinct files, in the order in which they are first found. -/
theorem resultsOf_findings (finding : Path → Finding) (files : List Path) :
    resultsOf (files.map fun p => (p, finding p)) =
      files.eraseDups.filterMap fun p => (finding p).result? p := by
  induction files using List.reverseRecOn with
  | nil => rfl
  | append_singleton files p ih =>
    have step : resultsOf ((files ++ [p]).map fun p => (p, finding p)) =
        (finding p).references?.elim (files.eraseDups.filterMap fun p => (finding p).result? p)
          fun rs => recordResult p rs (files.eraseDups.filterMap fun p => (finding p).result? p) := by
      rw [List.map_append, resultsOf, List.foldl_append, ← ih, List.map_singleton,
        List.foldl_cons, List.foldl_nil]
      cases (finding p).references? <;> rfl
    have own : ∀ r ∈ files.eraseDups.filterMap (fun p => (finding p).result? p),
        r.1 ∈ files ∧ (finding r.1).references? = some r.2 := by
      intro r mem
      obtain ⟨q, hq, found⟩ := List.mem_filterMap.mp mem
      obtain ⟨rs, hrs, rfl⟩ := Option.map_eq_some_iff.mp found
      exact ⟨List.mem_eraseDups.mp hq, hrs⟩
    rw [step, eraseDups_concat]
    by_cases mem : p ∈ files
    · -- the file was found before, and what it gave then is recorded
      rw [if_pos mem]
      cases found : (finding p).references? with
      | none => rfl
      | some rs =>
        refine recordResult_of_mem ⟨(p, rs), ?_, rfl⟩ fun r hr here => ?_
        · exact List.mem_filterMap.mpr
            ⟨p, List.mem_eraseDups.mpr mem, by rw [Finding.result?, found]; rfl⟩
        · have := (own r hr).2
          rw [here, found] at this
          exact (Option.some.inj this).symm
    · have fresh : ∀ r ∈ files.eraseDups.filterMap (fun p => (finding p).result? p), r.1 ≠ p := by
        rintro r hr rfl
        exact mem (own r hr).1
      have last : [p].filterMap (fun p => (finding p).result? p) =
          ((finding p).result? p).toList := by
        cases found : (finding p).result? p <;> simp [found]
      rw [if_neg mem, List.filterMap_append, last, Finding.result?]
      cases (finding p).references? with
      | none => exact (List.append_nil _).symm
      | some rs => exact recordResult_of_fresh fresh

end Results

/-! ## References that are shown -/

namespace Report

/-- A replay never records a name twice. -/
theorem nodup_names_of_foldlM {events : List Event} {r r' : Report}
    (nodup : (r.references.map Reference.name).Nodup) (run : events.foldlM add r = .ok r') :
    (r'.references.map Reference.name).Nodup := by
  induction events generalizing r with
  | nil => cases run; exact nodup
  | cons e events ih =>
    rw [List.foldlM_cons] at run
    cases added : r.add e with
    | error f => rw [added] at run; cases run
    | ok r₁ =>
      rw [added] at run
      refine ih ?_ run
      cases e with
      | free name n =>
        rw [add] at added
        cases read : Occurrence.read n r.enclosing with
        | error f => rw [read] at added; cases added
        | ok o =>
          rw [read] at added
          cases added
          show ((recordOccurrence name o r.references).map Reference.name).Nodup
          rw [map_name_recordOccurrence]
          split
          · exact nodup
          · next fresh => exact nodup.append (List.nodup_singleton _) (by simpa using fresh)
      | stuck f => cases added
      | _ => cases added; exact nodup

theorem nodup_names {root : Node} {reportArrowArguments : Bool} {r : Report}
    (run : ofTree reportArrowArguments root = .ok r) : (r.references.map Reference.name).Nodup :=
  nodup_names_of_foldlM (r := empty reportArrowArguments) List.nodup_nil run

end Report

theorem FileTree.nodup_names_of_detection? {tree : FileTree} {reportArrowArguments : Bool} {p : Path}
    {rs : List Reference} (h : tree.detection? reportArrowArguments p = some rs) :
    (rs.map Reference.name).Nodup := by
  simp only [detection?, Option.bind_eq_bind, Option.bind_eq_some_iff] at h
  obtain ⟨file, -, parsed, -, root, -, report, run, shown⟩ := h
  cases shown
  cases ran : Report.ofTree reportArrowArguments root with
  | error f => rw [ran] at run; cases run
  | ok r =>
    rw [ran] at run
    cases run
    exact Report.nodup_names ran

/-- What is shown of the references that are found: all but those with an ignored name, as they
are or in the order of their names. -/
structure IsShownOf (ignored : List Text) (sorts : Bool) (found shown : List Reference) : Prop where
  asFound : sorts = false → shown = found.filter fun r => r.name ∉ ignored
  sorted : sorts = true → shown.Perm (found.filter fun r => r.name ∉ ignored) ∧
    shown.Pairwise fun r s => r.name.Before s.name

theorem sortReferences_sorted {rs : List Reference} (nodup : (rs.map Reference.name).Nodup) :
    (sortReferences rs).Pairwise fun r s => r.name.Before s.name := by
  have perm : (sortReferences rs).Perm rs := List.mergeSort_perm _ _
  have weak : (sortReferences rs).Pairwise fun r s => r.name.le s.name = true := by
    refine List.pairwise_mergeSort (fun a b c hab hbc => ?_) (fun a b => ?_) rs
    · exact Text.le_trans hab hbc
    · rw [Bool.or_eq_true]
      exact Text.le_total a.name b.name
  have apart : (sortReferences rs).Pairwise fun r s => r.name ≠ s.name :=
    List.pairwise_map.mp ((perm.map Reference.name).nodup_iff.mpr nodup)
  refine (weak.and apart).imp fun ⟨le, ne⟩ => ?_
  exact (Text.le_iff.mp le).resolve_left ne

theorem Plan.isShownOf_arrange (plan : Plan) {found : List Reference}
    (nodup : (found.map Reference.name).Nodup) :
    IsShownOf plan.ignored plan.sorts found (plan.arrange found) := by
  have kept : found.filter (fun r => !plan.ignored.contains r.name) =
      found.filter fun r => r.name ∉ plan.ignored :=
    List.filter_congr fun r _ => by simp
  constructor
  · intro asFound
    rw [arrange, asFound, kept]
    rfl
  · intro sorts
    rw [arrange, sorts, kept]
    refine ⟨List.mergeSort_perm _ _, sortReferences_sorted ?_⟩
    exact nodup.sublist (List.filter_sublist.map _)

end FreeNames
