import FreeNames.Proofs.CommandLine.Scan

/-!
# Lines of plain text

Plain text is to have one line for every occurrence.  It does if no name that it shows has a line
feed, and otherwise it has one more line for every line feed in a name.

* `Request.plainLines` says so for all scans with plain text.
* Access paths may have line feeds, since they hold the keys of a source with their escapes decoded
  (`keyAndDeep_breaksLine`).
-/

namespace FreeNames

namespace Request

variable {request : Request} {env : Environment} {tree : FileTree}

theorem path_mem_files {s : Sighting} (h : s ∈ sightings (request.results env tree)) :
    s.path ∈ request.files tree := by
  obtain ⟨r, mem, inner⟩ := List.mem_flatMap.mp h
  obtain ⟨reference, -, inner⟩ := List.mem_flatMap.mp inner
  obtain ⟨o, -, rfl⟩ := List.mem_map.mp inner
  exact (mem_results mem).1

/-- A scan with plain text of files without line feeds in their paths.

It has an outcome unless a source cannot be analyzed or an item cannot be encoded.  If it goes ahead,
the lines are exactly the items of the occurrences, in order and with nothing behind them, if and
only if no name has a line feed; and in any case there is one more for every line feed in a name.
If it does not go ahead, nothing is written.  If an item cannot be encoded, the items before it are
written. -/
theorem plainLines (format : (request.plan env).format = .plain)
    (paths : ∀ p ∈ request.files tree, '\n' ∉ p.toString.toList) (out : Output) :
    ((∃ o, request.run env out tree = .ok o) ↔ (request.GoesAhead env tree →
      request.HasNoFault env tree ∧ ∀ s ∈ sightings (request.results env tree),
        out.encodes ((request.plan env).item out.terminal s) = true)) ∧
    (∀ o, request.run env out tree = .ok o →
      (request.GoesAhead env tree →
        (o.written.lines = (sightings (request.results env tree)).map
            ((request.plan env).item out.terminal) ++ [.empty] ↔
          ∀ s ∈ sightings (request.results env tree),
            Text.lineFeed ∉ ((request.plan env).shownName s).points) ∧
        o.written.lines.length = (sightings (request.results env tree)).length +
          ((sightings (request.results env tree)).flatMap fun s =>
            ((request.plan env).shownName s).points).count Text.lineFeed + 1) ∧
      (¬ request.GoesAhead env tree → o.written = .empty)) ∧
    ∀ written line, request.run env out tree = .error (.unwritable written line) →
      ∃ before s after, sightings (request.results env tree) = before ++ s :: after ∧
        (∀ b ∈ before, out.encodes ((request.plan env).item out.terminal b) = true) ∧
        out.encodes ((request.plan env).item out.terminal s) = false ∧
        written = .ofLines (before.map ((request.plan env).item out.terminal)) ∧
        line = (request.plan env).item out.terminal s := by
  refine ⟨?_, fun o run => ⟨fun ahead => ?_, fun stays => ?_⟩, fun written line run => ?_⟩
  · by_cases ahead : request.GoesAhead env tree
    · rw [exists_run_iff ahead, imp_iff_right ahead, Output.Takes, format]
    · obtain ⟨messages, run⟩ := run_of_not_goesAhead ahead out
      exact iff_of_true ⟨_, run⟩ fun also => absurd also ahead
  · have sound := hasNoFault_of_run ahead run
    rw [run_eq_outcome ahead sound] at run
    have shows : o.Shows out.terminal (request.plan env) (request.results env tree) :=
      (Plan.shows_of_outcome run).1
    rw [Outcome.Shows, format] at shows
    have feeds : ∀ s ∈ sightings (request.results env tree),
        ((request.plan env).item out.terminal s).points.count Text.lineFeed =
          ((request.plan env).shownName s).points.count Text.lineFeed :=
      fun s mem => count_item _ _ (paths _ (path_mem_files mem))
    rw [shows.2]
    constructor
    · rw [Text.lines_ofLines_eq_iff, List.forall_mem_map]
      refine forall₂_congr fun s mem => ?_
      rw [← List.count_eq_zero, feeds s mem, List.count_eq_zero]
    · rw [Text.length_lines_ofLines, List.length_map, List.flatMap_map, List.count_flatMap,
        List.count_flatMap]
      exact congrArg (_ + List.sum · + 1) (List.map_congr_left feeds)
  · obtain ⟨messages, failed⟩ := run_of_not_goesAhead stays out
    rw [run] at failed
    cases failed
    rfl
  · by_cases ahead : request.GoesAhead env tree
    · rw [run_of_goesAhead ahead] at run
      split at run
      · cases run
      · exact Plan.breaksOff_of_outcome format run
    · obtain ⟨messages, failed⟩ := run_of_not_goesAhead ahead out
      rw [run] at failed
      cases failed

end Request

theorem shownNames_of_keyAndDeep :
    (sightings ((Request.ofKeyAndDeep true).results .empty .keyAndDeep)).map
      ((Request.ofKeyAndDeep true).plan .empty).shownName = [Text.ofString "a.b\nc"] := by
  obtain ⟨found, detected, results⟩ := Request.results_ofKeyAndDeep true
  have qualified : ((Request.ofKeyAndDeep true).plan .empty).qualified = true := rfl
  have names := names_of_keyAndDeep
  rw [detected] at names
  obtain ⟨r, rest, rfl, hr, none⟩ := List.map_eq_cons_iff.mp (Option.some.inj names)
  obtain rfl := List.map_eq_nil_iff.mp none
  have paths : r.occurrences.map (·.qualified) = [Text.ofString "a.b\nc"] := (Prod.mk.inj hr).2
  simpa [results, sightings, Plan.shownName, qualified] using paths

/-- The line feed in the key of `a["b\nc"]` breaks the only line. -/
theorem keyAndDeep_breaksLine :
    ((Request.ofKeyAndDeep true).plan .empty).format = .plain ∧
    (∀ p ∈ (Request.ofKeyAndDeep true).files .keyAndDeep, '\n' ∉ p.toString.toList) ∧
    (sightings ((Request.ofKeyAndDeep true).results .empty .keyAndDeep)).length = 1 ∧
    ∃ o, (Request.ofKeyAndDeep true).run .empty .lossless .keyAndDeep = .ok o ∧
      o.written.lines.length = 3 := by
  have format : ((Request.ofKeyAndDeep true).plan .empty).format = .plain := rfl
  have paths : ∀ p ∈ (Request.ofKeyAndDeep true).files .keyAndDeep, '\n' ∉ p.toString.toList := by
    rw [Request.files_ofKeyAndDeep]
    decide
  have shown := shownNames_of_keyAndDeep
  have one : (sightings ((Request.ofKeyAndDeep true).results .empty .keyAndDeep)).length = 1 := by
    rw [← List.length_map, shown]
    rfl
  obtain ⟨exists_iff, outcome, -⟩ := Request.plainLines format paths .lossless
  have writable : ∀ t ∈ (sightings ((Request.ofKeyAndDeep true).results .empty .keyAndDeep)).map
      ((Request.ofKeyAndDeep true).plan .empty).shownName, t.hasSurrogate = false := by
    rw [shown]
    decide
  obtain ⟨o, run⟩ := exists_iff.mpr fun _ => by
    refine ⟨Request.hasNoFault_ofKeyAndDeep true, fun s mem => ?_⟩
    exact (Output.utf8_encodes_item .utf8 _ _ s).trans
      (by rw [List.forall_mem_map.mp writable s mem]; rfl)
  refine ⟨format, paths, one, o, run, ?_⟩
  rw [((outcome o run).1 (Request.goesAhead_ofKeyAndDeep true)).2, one]
  have feeds := congrArg (fun ts => (ts.flatMap Text.points).count Text.lineFeed) shown
  simp only [List.flatMap_map] at feeds
  exact congrArg (1 + · + 1) feeds

end FreeNames
