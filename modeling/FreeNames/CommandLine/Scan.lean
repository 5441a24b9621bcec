import FreeNames.CommandLine.Arguments
import FreeNames.Conversion.Table
import FreeNames.Files.Discovery
import FreeNames.Output.Document
import FreeNames.Output.Table
import FreeNames.Resolution.Report
import FreeNames.Settings.Environment
import FreeNames.Terminal.Console

/-!
# Scanning

A run checks the settings, then the paths, then analyzes one file after the other and
writes what it found in one of three formats.

* Each file has a `Finding`.  Files that do not parse or are nested too deep are failures,
  files that cannot be read are passed over.
* A source that cannot be analyzed for another reason ends the run, and so does something that
  the `Output` does not take; there is no outcome then but a `RunError`.
* A file that is found twice is analyzed twice and reported once.
* The exit code is 1 after a failure, and for strict runs if a name was found.
-/

namespace FreeNames

/-- What comes of a file. -/
inductive Finding where
  | unreadable
  | broken (e : ParseError)
  | tooDeep
  | fault (f : Fault)
  | references (rs : List Reference)

/-- What a run gives: its exit code, what it writes, and what it puts on its two consoles. -/
structure Outcome where
  exitCode : Nat
  written : Text
  console : List (Printable Table)
  errors : List (Printable Table)

namespace Outcome

/-- Nothing but an exit code. -/
def silent (exitCode : Nat) : Outcome := ⟨exitCode, .empty, [], []⟩

/-- A run that fails with messages. -/
def failed (messages : List Text) : Outcome := ⟨1, .empty, [], messages.map .markup⟩

end Outcome

/-- Where a run writes: the terminal, what its encoding has a form for, and what can be drawn
on it.  How tables are drawn is up to the console. -/
structure Output where
  terminal : Terminal
  encodes : Text → Bool
  /-- Every encoding has a form for ASCII. -/
  encodes_of_isAscii : ∀ t, t.IsAscii → encodes t = true
  draws : Printable Table → Bool

namespace Output

theorem hasSurrogate_of_isAscii {t : Text} (h : t.IsAscii) : t.hasSurrogate = false := by
  rw [Text.hasSurrogate, List.any_eq_false]
  intro c mem half
  have := h c mem
  simp only [Text.isSurrogate, Bool.and_eq_true, decide_eq_true_eq] at half
  omega

/-- An output in UTF-8, which has no form for halves of surrogate pairs. -/
def utf8 (terminal : Terminal) (draws : Printable Table → Bool) : Output where
  terminal := terminal
  encodes t := !t.hasSurrogate
  encodes_of_isAscii t ascii := by rw [hasSurrogate_of_isAscii ascii]; rfl
  draws := draws

end Output

/-- Why a run ends without an outcome. -/
inductive RunError where
  /-- A source cannot be analyzed. -/
  | fault (f : Fault)
  /-- After what is written already, there is a line that cannot be encoded. -/
  | unwritable (written line : Text)
  /-- After what is drawn already, there is something that cannot be drawn. -/
  | undrawable (drawn : List (Printable Table)) (item : Printable Table)
  deriving DecidableEq, Repr

def RunError.message : RunError → Text
  | .fault f => f.message
  | .unwritable _ line => "cannot write " ++ line.quoted
  | .undrawable _ _ => "cannot draw a table"

/-- What a run does in particular. -/
structure Plan where
  format : OutputFormat
  qualified : Bool
  sorts : Bool
  reportArrowArguments : Bool
  ignored : List Text
  strict : Bool
  deriving DecidableEq, Repr

namespace Plan

/-- Options have the last word over settings, except that both may ignore `arguments` in arrow
functions and both may leave out names. -/
def make (settings : Settings) (request : Request) : Plan where
  format :=
    if request.has .json then .json
    else if request.has .plain then .plain
    else (OutputFormat.ofName? settings.format).getD .table
  qualified := request.has .qualified
  sorts := request.sort?.getD settings.sorts
  reportArrowArguments := settings.reportArrowArguments && !request.has .ignoreArrowArguments
  ignored := settings.ignored ++ request.ignored.map Text.ofString
  strict := request.has .strict

/-- Leave out names and put the others in order. -/
def arrange (plan : Plan) (rs : List Reference) : List Reference :=
  let kept := rs.filter fun r => !plan.ignored.contains r.name
  if plan.sorts then sortReferences kept else kept

/-- Analyze the file at a path. -/
def analyze (plan : Plan) (tree : FileTree) (path : Path) : Finding :=
  match tree.read? path with
  | none => .unreadable
  | some ⟨_, none⟩ => .tooDeep
  | some ⟨source, some parsed⟩ =>
    match source.toTree parsed (some path.toString) with
    | .error (.parse e) => .broken e
    | .error (.fault f) => .fault f
    | .ok root =>
      match Report.ofTree plan.reportArrowArguments root with
      | .error f => .fault f
      | .ok report => .references (plan.arrange report.references)

end Plan

namespace Finding

def fault? : Finding → Option Fault
  | fault f => some f
  | _ => none

def isFailure : Finding → Bool
  | broken _ | tooDeep => true
  | _ => false

/-- The message about a file, if there is one. -/
def message? (path : Path) : Finding → Option Text
  | unreadable =>
    some ("[yellow]⚠ Skipped unreadable file:[/yellow] " ++ (Text.ofString path.toString).escapeMarkup)
  | broken e => some ("[bold red]✗ Parse error:[/bold red] " ++ e.message.escapeMarkup)
  | tooDeep =>
    some ("[bold red]✗ Nesting too deep to analyze:[/bold red] "
      ++ (Text.ofString path.toString).escapeMarkup)
  | fault _ | references _ => none

def references? : Finding → Option (List Reference)
  | references rs => some rs
  | _ => none

end Finding

/-! ## Results -/

/-- The references of a file that was analyzed. -/
abbrev FileResult := Path × List Reference

/-- Record the references of a file: in its place if it has one, otherwise at the end. -/
def recordResult (path : Path) (rs : List Reference) : List FileResult → List FileResult
  | [] => [(path, rs)]
  | r :: rest => if r.1 = path then (path, rs) :: rest else r :: recordResult path rs rest

/-- The results among the findings. -/
def resultsOf (findings : List (Path × Finding)) : List FileResult :=
  findings.foldl (fun results f =>
    match f.2.references? with
    | some rs => recordResult f.1 rs results
    | none => results) []

/-- The number of names found. -/
def foundCount (results : List FileResult) : Nat := results.foldl (fun n r => n + r.2.length) 0

/-- The line of an occurrence: file, line, column and name. -/
def plainLine (plan : Plan) (path : Path) (r : Reference) (o : Occurrence) : Text :=
  Text.ofString path.toString ++ ":" ++ Text.ofNat o.node.span.line ++ ":"
    ++ Text.ofNat o.node.span.column ++ " " ++ (if plan.qualified then o.qualified else r.name)

/-- A line for every occurrence, as the terminal shows it. -/
def occurrenceLines (terminal : Terminal) (plan : Plan) (results : List FileResult) : List Text :=
  (results.flatMap fun (path, rs) =>
    rs.flatMap fun r => r.occurrences.map (plainLine plan path r)).map (terminal.sanitize false)

/-- Lines, each closed by a line feed. -/
def closedLines (lines : List Text) : Text := ⟨lines.flatMap fun line => line.points ++ [0x0A]⟩

/-- The results as a JSON document. -/
def jsonText (results : List FileResult) : Text :=
  (Document.ofResults (results.map fun (path, rs) => (Text.ofString path.toString, rs))).render 0
    ++ "\n"

/-- A table for every file with names, a line for every other, and the totals. -/
def tables (terminal : Terminal) (plan : Plan) (results : List FileResult) :
    List (Printable Table) :=
  (results.map fun (path, rs) =>
    if rs.isEmpty then
      .markup ("[green]✓ " ++ (Text.ofString path.toString).escapeMarkup
        ++ ": no globals[/green]")
    else .value (Table.ofReferences terminal path rs plan.qualified))
  ++ [.markup ("\n[bold]" ++ Text.ofNat results.length ++ " file(s) scanned, "
    ++ Text.ofNat (foundCount results) ++ " global name(s) found[/bold]")]

/-! ## Runs -/

namespace Plan

/-- Write the results of a run in its format.  Lines and tables go out one by one, up to the first
that the output does not take. -/
def outcome (out : Output) (plan : Plan) (findings : List (Path × Finding)) :
    Except RunError Outcome :=
  let results := resultsOf findings
  let errors := (findings.filterMap fun (path, f) => f.message? path).map .markup
  let fails := findings.any (·.2.isFailure) || (plan.strict && foundCount results ≠ 0)
  let exitCode := if fails then 1 else 0
  match plan.format with
  | .json =>
    let text := jsonText results
    if out.encodes text then .ok ⟨exitCode, text, [], errors⟩ else .error (.unwritable .empty text)
  | .plain =>
    let lines := occurrenceLines out.terminal plan results
    match lines.find? fun line => !out.encodes line with
    | none => .ok ⟨exitCode, closedLines lines, [], errors⟩
    | some line => .error (.unwritable (closedLines (lines.takeWhile out.encodes)) line)
  | .table =>
    let items := tables out.terminal plan results
    match items.find? fun item => !out.draws item with
    | none => .ok ⟨exitCode, .empty, items, errors⟩
    | some item => .error (.undrawable (items.takeWhile out.draws) item)

/-- Analyze files and write the results, unless a fault ends the run. -/
def run (out : Output) (plan : Plan) (tree : FileTree) (files : List Path) :
    Except RunError Outcome :=
  let findings := files.map fun path => (path, plan.analyze tree path)
  match findings.findSome? fun f => f.2.fault? with
  | some f => .error (.fault f)
  | none => plan.outcome out findings

end Plan

/-- The message about a path that does not exist. -/
def missingMessage (path : Path) : Text :=
  "[bold red]Error:[/bold red] Path does not exist: " ++ (Text.ofString path.toString).escapeMarkup

/-- The message about a setting. -/
def settingMessage (e : SettingError) : Text :=
  "[bold red]Error:[/bold red] " ++ e.message.escapeMarkup

/-- Carry out a scan. -/
def Request.run (request : Request) (env : Environment) (out : Output) (tree : FileTree) :
    Except RunError Outcome :=
  match env.validate with
  | .error e => .ok (.failed [settingMessage e])
  | .ok () =>
    let paths := request.paths.map Path.ofString
    let missing := paths.filter fun p => (tree.get? p).isNone
    if missing.isEmpty then
      (Plan.make env.settings request).run out tree (tree.sources paths)
    else .ok (.failed (missing.map missingMessage))

/-- The exit code for a command line that is refused. -/
def usageExitCode : Nat := 2

/-- The name and the version of the program. -/
def versionLine : Text := "jsglobals 1.0.0\n"

/-- Carry out a command line. -/
def runWords (words : List String) (env : Environment) (out : Output) (tree : FileTree) :
    Except RunError Outcome :=
  match Command.ofWords words with
  | .error _ => .ok (.silent usageExitCode)
  | .ok .help => .ok (.silent 0)
  | .ok .version => .ok ⟨0, versionLine, [], []⟩
  | .ok (.scan request) => request.run env out tree

end FreeNames
