import FreeNames.Proofs.CommandLine.Formats
import FreeNames.Proofs.CommandLine.Results
import FreeNames.Proofs.Output.TableIcons

/-!
# Whole scans

What a scan reports and the code it exits with, for all settings, paths and options.

* `Request.Reports` is what the results are, file by file, and `Request.results_filter_ne` says that
  no file has a part in the results of the others.
* `Request.exists_run_iff`: a scan that goes ahead has an outcome unless a source cannot be analyzed
  or the output does not take what the format writes.
* `Outcome.Shows` is how an outcome shows results, and `Request.Alarms` when it exits with 1.
* `Request.scan_exact` puts them together.

UTF-8 has no form for an access path with half of a surrogate pair, which a source has from the
escapes in a key, and other encodings lack more.  JSON escapes all that is not ASCII, but plain text
ends the scan in an error.
-/

namespace FreeNames

namespace Request

section Definitions

variable (request : Request) (env : Environment) (tree : FileTree)

/-- What the request does under the settings of an environment. -/
def plan : Plan := .make env.settings request

/-- The files that are scanned, as often as they are found. -/
def files : List Path := tree.sources (request.paths.map Path.ofString)

/-- What comes of the files. -/
def findings : List (Path × Finding) :=
  (request.files tree).map fun p => (p, (request.plan env).analyze tree p)

/-- What is reported of the files. -/
def results : List FileResult := resultsOf (request.findings env tree)

/-- What detection finds in a file. -/
def detection? (p : Path) : Option (List Reference) :=
  tree.detection? (request.plan env).reportArrowArguments p

/-- A scan goes ahead if the settings are valid and all paths exist. -/
structure GoesAhead : Prop where
  valid : env.validate = .ok ()
  paths : ∀ word ∈ request.paths, (tree.get? (Path.ofString word)).isSome

/-- Every source that is parsed can be analyzed. -/
def HasNoFault : Prop :=
  ∀ p ∈ request.files tree, ((request.plan env).analyze tree p).fault? = none

/-- The results are those of the files that are analyzed, each once and in the place where it is
first found.  Names to ignore are left out, and the others sorted if that is asked for. -/
structure Reports (results : List FileResult) : Prop where
  files : results.map (fun r => r.1.toString) =
    (((request.files tree).filter fun p => (request.detection? env tree p).isSome).map
      Path.toString).eraseDups
  shown : ∀ r ∈ results, r.1 ∈ request.files tree ∧
    ∃ found, request.detection? env tree r.1 = some found ∧
      IsShownOf (env.ignored ++ request.ignored.map Text.ofString)
        (request.sort?.getD env.sorts) found r.2

/-- A file fails, or a name is reported and the request is strict. -/
def Alarms : Prop :=
  (∃ p ∈ request.files tree, tree.Fails p) ∨
    request.has .strict ∧ ∃ r ∈ request.results env tree, r.2 ≠ []

end Definitions

variable {request : Request} {env : Environment} {out : Output} {tree : FileTree}

/-! ## Results -/

theorem results_eq : request.results env tree =
    (request.files tree).eraseDups.filterMap fun p =>
      (request.detection? env tree p).map fun found => (p, (request.plan env).arrange found) := by
  rw [results, findings, resultsOf_findings]
  refine congrArg (List.filterMap · _) (funext fun p => ?_)
  rw [Finding.result?, Plan.references?_analyze, Option.map_map]
  rfl

theorem mem_results {r : FileResult} (h : r ∈ request.results env tree) :
    r.1 ∈ request.files tree ∧
      ∃ found, request.detection? env tree r.1 = some found ∧
        r.2 = (request.plan env).arrange found := by
  rw [results_eq] at h
  obtain ⟨p, mem, shown⟩ := List.mem_filterMap.mp h
  obtain ⟨found, detected, rfl⟩ := Option.map_eq_some_iff.mp shown
  exact ⟨List.mem_eraseDups.mp mem, found, detected, rfl⟩

theorem files_of_results : (request.results env tree).map Prod.fst =
    ((request.files tree).filter fun p => (request.detection? env tree p).isSome).eraseDups := by
  rw [results_eq, List.map_filterMap, eraseDups_filter]
  induction (request.files tree).eraseDups with
  | nil => rfl
  | cons p rest ih =>
    rw [List.filter_cons, List.filterMap_cons, ih]
    cases request.detection? env tree p <;> rfl

/-- Where everything in the tree has a name, the results are as they should be. -/
theorem reports_results (named : tree.IsNamed) :
    request.Reports env tree (request.results env tree) where
  files := by
    have paths : (request.results env tree).map (fun r => r.1.toString) =
        ((request.results env tree).map Prod.fst).map Path.toString := by
      rw [List.map_map]
      rfl
    rw [paths, files_of_results]
    refine (eraseDups_map fun p hp q hq same => ?_).symm
    have plain : ∀ p ∈ (request.files tree).filter fun p => (request.detection? env tree p).isSome,
        p.IsPlain := fun p hp => FileTree.isPlain_of_mem_sources named (List.mem_filter.mp hp).1
    exact Path.toString_injOn (plain p hp) (plain q hq) same
  shown := by
    intro r mem
    obtain ⟨file, found, detected, shown⟩ := mem_results mem
    refine ⟨file, found, detected, ?_⟩
    rw [shown]
    exact (request.plan env).isShownOf_arrange (FileTree.nodup_names_of_detection? detected)

/-- Whatever happens to a file, and also without it, the results of the other files stay. -/
theorem results_filter_ne {p : Path} {tree' : FileTree}
    (files : (request.files tree').filter (· ≠ p) = (request.files tree).filter (· ≠ p))
    (others : ∀ q ≠ p, tree'.read? q = tree.read? q) :
    (request.results env tree').filter (·.1 ≠ p) =
      (request.results env tree).filter (·.1 ≠ p) := by
  have own (t : FileTree) : (request.results env t).filter (·.1 ≠ p) =
      ((request.files t).filter (· ≠ p)).eraseDups.filterMap fun q =>
        (request.detection? env t q).map fun found => (q, (request.plan env).arrange found) := by
    rw [results_eq, eraseDups_filter, List.filter_filterMap, List.filterMap_filter]
    refine congrArg (List.filterMap · _) (funext fun q => ?_)
    by_cases same : q = p <;> cases request.detection? env t q <;> simp [same]
  rw [own, own, files]
  refine List.filterMap_congr fun q mem => ?_
  have other : q ≠ p := by simpa using (List.mem_filter.mp (List.mem_eraseDups.mp mem)).2
  have detected : request.detection? env tree' q = request.detection? env tree q := by
    rw [detection?, detection?, FileTree.detection?, FileTree.detection?, others q other]
  rw [detected]

/-! ## Runs -/

theorem hasNoFault_iff : request.HasNoFault env tree ↔
    (request.findings env tree).findSome? (fun f => f.2.fault?) = none := by
  rw [List.findSome?_eq_none_iff, findings, List.forall_mem_map, HasNoFault]

theorem run_of_goesAhead (ahead : request.GoesAhead env tree) :
    request.run env out tree =
      match (request.findings env tree).findSome? fun f => f.2.fault? with
      | some f => .error (.fault f)
      | none => (request.plan env).outcome out (request.findings env tree) := by
  have found : ((request.paths.map Path.ofString).filter fun p => (tree.get? p).isNone) = [] := by
    rw [List.filter_eq_nil_iff, List.forall_mem_map]
    intro word mem
    rw [Option.isNone_iff_eq_none, ← Option.not_isSome_iff_eq_none, not_not]
    exact ahead.paths word mem
  rw [run, ahead.valid]
  simp only [found, List.isEmpty_nil, if_true]
  rfl

/-- A scan that does not go ahead ends with messages only. -/
theorem run_of_not_goesAhead (stays : ¬ request.GoesAhead env tree) (out : Output) :
    ∃ messages, request.run env out tree = .ok (.failed messages) := by
  rw [run]
  cases valid : env.validate with
  | error e => exact ⟨_, rfl⟩
  | ok _ =>
    simp only
    split
    · next found =>
      refine absurd ⟨valid, fun word mem => ?_⟩ stays
      rw [List.isEmpty_iff, List.filter_eq_nil_iff, List.forall_mem_map] at found
      exact Option.ne_none_iff_isSome.mp (Option.isNone_iff_eq_none.not.mp (found word mem))
    · exact ⟨_, rfl⟩

theorem run_eq_outcome (ahead : request.GoesAhead env tree) (sound : request.HasNoFault env tree) :
    request.run env out tree =
      (request.plan env).outcome out (request.findings env tree) := by
  rw [run_of_goesAhead ahead, hasNoFault_iff.mp sound]

theorem hasNoFault_of_run (ahead : request.GoesAhead env tree) {o : Outcome}
    (run : request.run env out tree = .ok o) : request.HasNoFault env tree := by
  rw [run_of_goesAhead ahead] at run
  rw [hasNoFault_iff]
  cases fault : (request.findings env tree).findSome? fun f => f.2.fault? with
  | none => rfl
  | some f =>
    rw [fault] at run
    cases run

end Request

/-! ## Outcomes -/

/-- The outcome shows the results: in a JSON text that is read as the results, in plain text with an
item for every occurrence, or in a table for every file. -/
def Outcome.Shows (o : Outcome) (terminal : Terminal) (plan : Plan) (results : List FileResult) :
    Prop :=
  match plan.format with
  | .json => o.console = [] ∧
      (Document.read? o.written).bind Document.results? = some (results.map resultView)
  | .plain => o.console = [] ∧
      o.written = .ofLines ((sightings results).map (plan.item terminal))
  | .table => o.written = .empty ∧ ∃ items totals, o.console = items ++ [.markup totals] ∧
      List.Forall₂ (IsShownAs terminal) results items

/-- The output takes what the plan writes of the results: every item of plain text can be encoded,
and everything that is printed around tables can be drawn.  JSON is always taken. -/
def Output.Takes (out : Output) (plan : Plan) (results : List FileResult) : Prop :=
  match plan.format with
  | .json => True
  | .plain => ∀ s ∈ sightings results, out.encodes (plan.item out.terminal s) = true
  | .table => ∀ item ∈ tables out.terminal plan results, out.draws item = true

namespace Plan

variable {plan : Plan} {out : Output} {findings : List (Path × Finding)} {o : Outcome}

theorem find?_not_eq_none_iff {α : Type} {taken : α → Bool} {xs : List α} :
    (xs.find? fun x => !taken x) = none ↔ ∀ x ∈ xs, taken x = true := by
  simp [List.find?_eq_none]

theorem exists_outcome_iff : (∃ o, plan.outcome out findings = .ok o) ↔
    out.Takes plan (resultsOf findings) := by
  rw [outcome, Output.Takes]
  cases plan.format with
  | json =>
    simp only [out.encodes_of_isAscii _ (isAscii_jsonText _), if_true]
    exact iff_of_true ⟨_, rfl⟩ trivial
  | plain =>
    simp only [occurrenceLines_eq]
    rw [← List.forall_mem_map (P := fun line => out.encodes line = true),
      ← find?_not_eq_none_iff]
    split
    · next taken => exact iff_of_true ⟨_, rfl⟩ taken
    · next line found => exact iff_of_false nofun (by rw [found]; exact nofun)
  | table =>
    simp only
    rw [← find?_not_eq_none_iff]
    split
    · next taken => exact iff_of_true ⟨_, rfl⟩ taken
    · next item found => exact iff_of_false nofun (by rw [found]; exact nofun)

/-- An outcome shows the results, and exits with 1 after a failure, or for a strict plan if a name
is found. -/
theorem shows_of_outcome (h : plan.outcome out findings = .ok o) :
    o.Shows out.terminal plan (resultsOf findings) ∧ o.exitCode =
      if findings.any (·.2.isFailure) || (plan.strict && foundCount (resultsOf findings) ≠ 0)
      then 1 else 0 := by
  rw [outcome] at h
  rw [Outcome.Shows]
  cases format : plan.format with
  | json =>
    rw [format] at h
    simp only [out.encodes_of_isAscii _ (isAscii_jsonText _), if_true] at h
    cases h
    exact ⟨⟨rfl, results?_jsonText _⟩, rfl⟩
  | plain =>
    rw [format] at h
    simp only at h
    split at h
    · cases h
      exact ⟨⟨rfl, by rw [occurrenceLines_eq, closedLines_eq]⟩, rfl⟩
    · cases h
  | table =>
    rw [format] at h
    simp only at h
    split at h
    · cases h
      exact ⟨⟨rfl, tables_eq out.terminal plan _⟩, rfl⟩
    · cases h

/-- Where plain text breaks off, everything up to the first item that cannot be encoded is written. -/
theorem breaksOff_of_outcome (format : plan.format = .plain) {written line : Text}
    (h : plan.outcome out findings = .error (.unwritable written line)) :
    ∃ before s after, sightings (resultsOf findings) = before ++ s :: after ∧
      (∀ b ∈ before, out.encodes (plan.item out.terminal b) = true) ∧
      out.encodes (plan.item out.terminal s) = false ∧
      written = .ofLines (before.map (plan.item out.terminal)) ∧
      line = plan.item out.terminal s := by
  rw [outcome, format] at h
  simp only at h
  split at h
  · cases h
  · next found =>
    rw [occurrenceLines_eq] at found h
    obtain ⟨refused, taken, rest, split, all⟩ := List.find?_eq_some_iff_append.mp found
    obtain ⟨before, others, sights, rfl, more⟩ := List.map_eq_append_iff.mp split
    obtain ⟨s, after, rfl, item, rfl⟩ := List.map_eq_cons_iff.mp more
    have all : ∀ b ∈ before, out.encodes (plan.item out.terminal b) = true := fun b mem => by
      simpa using all _ (List.mem_map_of_mem mem)
    have stops : ((sightings (resultsOf findings)).map (plan.item out.terminal)).takeWhile
        out.encodes = before.map (plan.item out.terminal) := by
      rw [split, List.takeWhile_append_of_pos (List.forall_mem_map.mpr all),
        List.takeWhile_cons_of_neg (by simpa using refused), List.append_nil]
    rw [stops, closedLines_eq] at h
    cases h
    exact ⟨before, s, after, sights, all, by rw [item]; simpa using refused, rfl, item.symm⟩

end Plan

theorem foundCount_eq_zero_iff {results : List FileResult} :
    foundCount results = 0 ↔ ∀ r ∈ results, r.2 = [] := by
  have count (n : Nat) : results.foldl (fun n r => n + r.2.length) n = 0 ↔
      n = 0 ∧ ∀ r ∈ results, r.2 = [] := by
    induction results generalizing n with
    | nil => simp
    | cons r rest ih =>
      rw [List.foldl_cons, ih, Nat.add_eq_zero_iff, List.length_eq_zero_iff, List.forall_mem_cons,
        and_assoc]
  rw [foundCount, count, and_iff_right rfl]

namespace Request

variable {request : Request} {env : Environment} {out : Output} {tree : FileTree}

theorem alarms_iff : request.Alarms env tree ↔
    ((request.findings env tree).any (·.2.isFailure) ||
      ((request.plan env).strict && foundCount (request.results env tree) ≠ 0)) = true := by
  have fails : (request.findings env tree).any (·.2.isFailure) ↔
      ∃ p ∈ request.files tree, tree.Fails p := by
    rw [findings, List.any_map, List.any_eq_true]
    exact exists_congr fun p => and_congr_right fun _ => Plan.isFailure_analyze
  have found : foundCount (request.results env tree) ≠ 0 ↔
      ∃ r ∈ request.results env tree, r.2 ≠ [] := by
    rw [Ne, foundCount_eq_zero_iff]
    simp only [not_forall, exists_prop, ne_eq]
  rw [Alarms, Bool.or_eq_true, Bool.and_eq_true, fails, decide_eq_true_eq, found]
  rfl

/-- A scan that goes ahead has an outcome unless there is a source that cannot be analyzed, or the
output does not take the results. -/
theorem exists_run_iff (ahead : request.GoesAhead env tree) :
    (∃ o, request.run env out tree = .ok o) ↔ request.HasNoFault env tree ∧
      out.Takes (request.plan env) (request.results env tree) := by
  constructor
  · rintro ⟨o, run⟩
    have sound := hasNoFault_of_run ahead run
    rw [run_eq_outcome ahead sound] at run
    exact ⟨sound, Plan.exists_outcome_iff.mp ⟨o, run⟩⟩
  · rintro ⟨sound, takes⟩
    rw [run_eq_outcome ahead sound]
    exact Plan.exists_outcome_iff.mpr takes

end Request

/-- A terminal in UTF-8 on which everything can be drawn. -/
def Output.lossless : Output := .utf8 .utf8 fun _ => true

/-- A file with the source `a["b\nc"];`, where the key has a line feed, and a file that is nested
too deep. -/
def FileTree.keyAndDeep : FileTree where
  entries := [("deep.js", .file ⟨.ofString "", none⟩),
    ("x.js", .file ⟨.ofString "a[\"b\\nc\"];", some (Parsed.keyAccess 4)⟩)]
  working := []

/-- A scan of the two files, one of them twice, that shows access paths in plain text or JSON. -/
def Request.ofKeyAndDeep (plain : Bool) : Request :=
  ⟨["x.js", "deep.js", "./x.js"], [if plain then .plain else .json, .qualified], []⟩

theorem names_of_keyAndDeep : (FileTree.keyAndDeep.detection? true (.ofString "x.js")).map (fun rs =>
    rs.map fun r => (r.name, r.occurrences.map (·.qualified))) =
      some [(Text.ofString "a", [Text.ofString "a.b\nc"])] := by cbv

theorem Request.goesAhead_ofKeyAndDeep (plain : Bool) :
    (ofKeyAndDeep plain).GoesAhead .empty .keyAndDeep := ⟨rfl, by simp only [ofKeyAndDeep]; decide⟩

theorem Request.files_ofKeyAndDeep (plain : Bool) : (ofKeyAndDeep plain).files .keyAndDeep =
    [.ofString "x.js", .ofString "deep.js", .ofString "x.js"] := by
  show FileTree.keyAndDeep.sources (["x.js", "deep.js", "./x.js"].map Path.ofString) = _
  decide

theorem fails_keyAndDeep : FileTree.keyAndDeep.Fails (.ofString "deep.js") := by
  have read : FileTree.keyAndDeep.read? (.ofString "deep.js") = some ⟨.ofString "", none⟩ := by cbv
  refine ⟨_, read, fun _ parsed => ?_⟩
  cases parsed

theorem Request.hasNoFault_ofKeyAndDeep (plain : Bool) :
    (ofKeyAndDeep plain).HasNoFault .empty .keyAndDeep := by
  have key : (((ofKeyAndDeep plain).plan .empty).analyze .keyAndDeep (.ofString "x.js")).fault? =
      none := by
    refine Plan.fault?_analyze (.inr ?_)
    have arrow : ((ofKeyAndDeep plain).plan .empty).reportArrowArguments = true := by
      cases plain <;> rfl
    rw [arrow, ← Option.isSome_map, names_of_keyAndDeep]
    rfl
  rw [HasNoFault, files_ofKeyAndDeep]
  simp only [List.forall_mem_cons, List.not_mem_nil, false_implies, implies_true, and_true]
  exact ⟨key, Plan.fault?_analyze (.inl fails_keyAndDeep), key⟩

/-- Only the file that can be parsed is reported, and only once. -/
theorem Request.results_ofKeyAndDeep (plain : Bool) :
    ∃ found, FileTree.keyAndDeep.detection? true (.ofString "x.js") = some found ∧
      (ofKeyAndDeep plain).results .empty .keyAndDeep = [(.ofString "x.js", found)] := by
  have names := names_of_keyAndDeep
  cases detected : FileTree.keyAndDeep.detection? true (.ofString "x.js") with
  | none => rw [detected] at names; cases names
  | some found =>
    have undetected : FileTree.keyAndDeep.detection? true (.ofString "deep.js") = none := by cbv
    have arrow : ((ofKeyAndDeep plain).plan .empty).reportArrowArguments = true := by
      cases plain <;> rfl
    have sorts : ((ofKeyAndDeep plain).plan .empty).sorts = false := by cases plain <;> rfl
    have ignored : ((ofKeyAndDeep plain).plan .empty).ignored = [] := by cases plain <;> decide
    have all : ((ofKeyAndDeep plain).plan .empty).arrange found = found := by
      rw [Plan.arrange, sorts, ignored]
      exact List.filter_eq_self.mpr fun r _ => rfl
    have files : [Path.ofString "x.js", .ofString "deep.js", .ofString "x.js"].eraseDups =
        [.ofString "x.js", .ofString "deep.js"] := by decide
    refine ⟨found, rfl, ?_⟩
    rw [results_eq, files_ofKeyAndDeep, files]
    simp only [detection?, arrow, List.filterMap_cons, detected, undetected, Option.map_some,
      Option.map_none, all, List.filterMap_nil]

end FreeNames
