import FreeNames.CommandLine.Scan
import FreeNames.Proofs.Output.Reading
import FreeNames.Proofs.Terminal.Icons
import Mathlib.Data.List.Forall2

/-!
# What the formats show

The three formats of a report write down the same results: for each file its names, and for each
name its occurrences.

* `Document.results?` takes a JSON document apart.  The text that is written is read as a document
  that gives the results back (`results?_jsonText`).
* `occurrenceLines_eq`: plain text has one item for every occurrence, in order.
* `Reference.HasRow` is what a row says of a name, and `IsShownAs` what is printed for a file
  (`tables_eq`).
-/

namespace FreeNames

/-! ## JSON -/

/-- Line, column and access path of an occurrence.  JSON cannot tell halves of a surrogate pair that
stand side by side from the code point that they stand for. -/
def Occurrence.view (o : Occurrence) : Nat × Nat × Text :=
  (o.node.span.line, o.node.span.column, o.qualified.joined)

/-- A name and its occurrences. -/
def Reference.view (r : Reference) : Text × List (Nat × Nat × Text) :=
  (r.name.joined, r.occurrences.map Occurrence.view)

/-- A file and its names. -/
def resultView (r : FileResult) : Text × List (Text × List (Nat × Nat × Text)) :=
  (Text.ofString r.1.toString, r.2.map Reference.view)

namespace Document

def number? : Document → Option Nat
  | number n => some n
  | _ => none

def text? : Document → Option Text
  | text t => some t
  | _ => none

def items? : Document → Option (List Document)
  | list items => some items
  | _ => none

/-- The member of an object with this name. -/
def member? (name : Text) : Document → Option Document
  | object members => members.lookup name
  | _ => none

theorem member?_cons_self {name : Text} {d : Document} {rest : List (Text × Document)} :
    (object ((name, d) :: rest)).member? name = some d := List.lookup_cons_self

theorem member?_cons_of_ne {name other : Text} (h : name ≠ other) {d : Document}
    {rest : List (Text × Document)} :
    (object ((other, d) :: rest)).member? name = (object rest).member? name := by
  rw [member?, List.lookup_cons, beq_false_of_ne h]
  rfl

/-- Read an occurrence. -/
def occurrence? (d : Document) : Option (Nat × Nat × Text) := do
  let line ← d.member? "line" >>= number?
  let column ← d.member? "column" >>= number?
  let qualified ← d.member? "qualified_name" >>= text?
  return (line, column, qualified)

/-- Read a name and its occurrences. -/
def reference? (d : Document) : Option (Text × List (Nat × Nat × Text)) := do
  let name ← d.member? "name" >>= text?
  let nodes ← d.member? "nodes" >>= items?
  return (name, ← nodes.mapM occurrence?)

/-- Read a file and its names. -/
def result? (d : Document) : Option (Text × List (Text × List (Nat × Nat × Text))) := do
  let file ← d.member? "file" >>= text?
  let references ← d.member? "globals" >>= items?
  return (file, ← references.mapM reference?)

/-- Read a report. -/
def results? (d : Document) : Option (List (Text × List (Text × List (Nat × Nat × Text)))) := do
  (← d.items?).mapM result?

/-- Reading all items that are written one by one. -/
theorem mapM_map_of_reads {α β : Type} {written : α → Document} {read : Document → Option β}
    {view : α → β} (reads : ∀ a, read (written a) = some (view a)) (as : List α) :
    (as.map written).mapM read = some (as.map view) := by
  induction as with
  | nil => rfl
  | cons a as ih =>
    rw [List.map_cons, List.mapM_cons, reads, ih]
    rfl

theorem joinedItems_map {α : Type} (written : α → Document) (as : List α) :
    joinedItems (as.map written) = as.map fun a => (written a).joined := by
  induction as with
  | nil => rfl
  | cons a as ih => rw [List.map_cons, joinedItems, ih, List.map_cons]

theorem occurrence?_ofOccurrence (o : Occurrence) :
    (ofOccurrence o).joined.occurrence? = some o.view := by
  have shape : (ofOccurrence o).joined = .object [("line", .number o.node.span.line),
      ("column", .number o.node.span.column), ("qualified_name", .text o.qualified.joined)] := rfl
  have line : (ofOccurrence o).joined.member? "line" = some (.number o.node.span.line) :=
    member?_cons_self
  have column : (ofOccurrence o).joined.member? "column" = some (.number o.node.span.column) :=
    shape ▸ (member?_cons_of_ne (by decide)).trans member?_cons_self
  have path : (ofOccurrence o).joined.member? "qualified_name" =
      some (.text o.qualified.joined) :=
    shape ▸ (member?_cons_of_ne (by decide)).trans
      ((member?_cons_of_ne (by decide)).trans member?_cons_self)
  rw [occurrence?, line, column, path]
  rfl

theorem reference?_ofReference (r : Reference) : (ofReference r).joined.reference? = some r.view := by
  have shape : (ofReference r).joined = .object [("name", .text r.name.joined),
      ("nodes", .list (joinedItems (r.occurrences.map ofOccurrence)))] := rfl
  have name : (ofReference r).joined.member? "name" = some (.text r.name.joined) :=
    shape ▸ member?_cons_self
  have nodes : (ofReference r).joined.member? "nodes" =
      some (.list (joinedItems (r.occurrences.map ofOccurrence))) :=
    shape ▸ (member?_cons_of_ne (by decide)).trans member?_cons_self
  rw [reference?, name, nodes, joinedItems_map]
  show ((r.occurrences.map fun o => (ofOccurrence o).joined).mapM occurrence?).bind _ = _
  rw [mapM_map_of_reads occurrence?_ofOccurrence]
  rfl

/-- Taking the document of results apart gives the results. -/
theorem results?_ofResults (results : List FileResult) :
    (ofResults (results.map fun r => (Text.ofString r.1.toString, r.2))).joined.results? =
      some (results.map resultView) := by
  have reads (r : FileResult) :
      result? (joined (.object [("file", .text (Text.ofString r.1.toString)),
        ("globals", .list (r.2.map ofReference))])) = some (resultView r) := by
    have shape : joined (.object [("file", .text (Text.ofString r.1.toString)),
        ("globals", .list (r.2.map ofReference))]) =
          .object [("file", .text (Text.ofString r.1.toString).joined),
            ("globals", .list (joinedItems (r.2.map ofReference)))] := rfl
    have references : member? "globals" (.object
        [("file", .text (Text.ofString r.1.toString).joined),
          ("globals", .list (joinedItems (r.2.map ofReference)))]) =
            some (.list (joinedItems (r.2.map ofReference))) :=
      (member?_cons_of_ne (by decide)).trans member?_cons_self
    rw [shape, result?, member?_cons_self, references, joinedItems_map,
      Text.joined_of_isJoined (Text.isJoined_ofString _)]
    show ((r.2.map fun r => (ofReference r).joined).mapM reference?).bind _ = _
    rw [mapM_map_of_reads reference?_ofReference]
    rfl
  have items : (ofResults (results.map fun r => (Text.ofString r.1.toString, r.2))).joined =
      .list (joinedItems (results.map fun r => .object [("file", .text (Text.ofString r.1.toString)),
        ("globals", .list (r.2.map ofReference))])) := by
    rw [ofResults, List.map_map]
    rfl
  rw [items, joinedItems_map]
  show List.mapM result? (List.map _ results) = _
  exact mapM_map_of_reads reads results

end Document

/-- Reading the JSON text of results gives the results. -/
theorem results?_jsonText (results : List FileResult) :
    (Document.read? (jsonText results)).bind Document.results? = some (results.map resultView) := by
  rw [jsonText, Document.read?_render]
  exact Document.results?_ofResults results

theorem isAscii_jsonText (results : List FileResult) : (jsonText results).IsAscii :=
  Text.isAscii_append (Document.isAscii_render 0 _) (by decide)

/-! ## Plain text -/

/-- An occurrence in the results of a scan, with its file and its name. -/
structure Sighting where
  path : Path
  name : Text
  occurrence : Occurrence

/-- All occurrences in results, in order. -/
def sightings (results : List FileResult) : List Sighting :=
  results.flatMap fun result =>
    result.2.flatMap fun r => r.occurrences.map fun o => ⟨result.1, r.name, o⟩

/-- The name that plain text shows. -/
def Plan.shownName (plan : Plan) (s : Sighting) : Text :=
  if plan.qualified then s.occurrence.qualified else s.name

/-- The item of an occurrence: file, line, column and name. -/
def Plan.item (terminal : Terminal) (plan : Plan) (s : Sighting) : Text :=
  terminal.sanitize false (Text.ofString s.path.toString) ++ ":"
    ++ Text.ofNat s.occurrence.node.span.line ++ ":" ++ Text.ofNat s.occurrence.node.span.column
    ++ " " ++ terminal.sanitize false (plan.shownName s)

theorem sanitize_plainLine (terminal : Terminal) (plan : Plan) (path : Path) (r : Reference)
    (o : Occurrence) :
    terminal.sanitize false (plainLine plan path r o) = plan.item terminal ⟨path, r.name, o⟩ := by
  have colon : terminal.sanitize false ":" = ":" := Terminal.sanitize_of_not_hasIcon (by decide)
  have blank : terminal.sanitize false " " = " " := Terminal.sanitize_of_not_hasIcon (by decide)
  have numeral (n : Nat) : terminal.sanitize false (Text.ofNat n) = Text.ofNat n :=
    Terminal.sanitize_of_not_hasIcon (Text.not_hasIcon_ofNat n)
  simp only [plainLine, Terminal.sanitize_append, colon, blank, numeral]
  rfl

/-- Plain text has an item for every occurrence. -/
theorem occurrenceLines_eq (terminal : Terminal) (plan : Plan) (results : List FileResult) :
    occurrenceLines terminal plan results = (sightings results).map (plan.item terminal) := by
  simp only [occurrenceLines, sightings, List.map_flatMap, List.map_map, Function.comp_def,
    sanitize_plainLine]

theorem closedLines_eq (lines : List Text) : closedLines lines = .ofLines lines := rfl

/-- Of a class that holds neither icons nor printable ASCII characters, an item has the code points
of its path and its name only. -/
theorem countP_item {p : Nat → Bool} (icon : ∀ c ∈ icons.map Prod.fst, p c = false)
    (ascii : ∀ c, 0x20 ≤ c → c < 0x7F → p c = false) (terminal : Terminal) (plan : Plan)
    (s : Sighting) :
    (plan.item terminal s).points.countP p =
      (Text.ofString s.path.toString).points.countP p + (plan.shownName s).points.countP p := by
  have sanitized (t : Text) : (terminal.sanitize false t).points.countP p = t.points.countP p :=
    Terminal.countP_sanitize (fun c h => icon c (mem_icons h)) ascii t
  have numeral (n : Nat) : (Text.ofNat n).points.countP p = 0 :=
    List.countP_eq_zero.mpr fun c mem => by
      have := Text.digit_of_mem_ofNat mem
      simp [ascii c (by omega) (by omega)]
  have colon : (Text.ofString ":").points.countP p = 0 := by simp [ascii]
  have blank : (Text.ofString " ").points.countP p = 0 := by simp [ascii]
  simp only [Plan.item, Text.points_append, List.countP_append, sanitized, numeral, colon, blank]
  omega

/-- Where the path has no line feed, the line feeds of an item are those of its name. -/
theorem count_item (terminal : Terminal) (plan : Plan) {s : Sighting}
    (path : '\n' ∉ s.path.toString.toList) :
    (plan.item terminal s).points.count Text.lineFeed =
      (plan.shownName s).points.count Text.lineFeed := by
  have icon : ∀ c ∈ icons.map Prod.fst, (c == Text.lineFeed) = false := by decide
  have ascii (c : Nat) (h : 0x20 ≤ c) (_ : c < 0x7F) : (c == Text.lineFeed) = false :=
    beq_false_of_ne fun same => by rw [same] at h; exact absurd h (by decide)
  have none : (Text.ofString s.path.toString).points.countP (· == Text.lineFeed) = 0 :=
    List.count_eq_zero.mpr (Text.lineFeed_mem_ofString.not.mpr path)
  have count := countP_item icon ascii terminal plan s
  rwa [none, Nat.zero_add] at count

/-- An item can be written if its name can. -/
theorem hasSurrogate_item (terminal : Terminal) (plan : Plan) (s : Sighting) :
    (plan.item terminal s).hasSurrogate = (plan.shownName s).hasSurrogate := by
  have icon : ∀ c ∈ icons.map Prod.fst, Text.isSurrogate c = false := by decide
  have ascii (c : Nat) (_ : 0x20 ≤ c) (h : c < 0x7F) : Text.isSurrogate c = false := by
    rw [Text.isSurrogate, Bool.and_eq_false_iff, decide_eq_false_iff_not]
    omega
  have path : (Text.ofString s.path.toString).points.countP Text.isSurrogate = 0 :=
    List.countP_eq_zero.mpr fun c mem => by simp [Text.isSurrogate_of_mem_ofString mem]
  have count := countP_item icon ascii terminal plan s
  rw [path, Nat.zero_add] at count
  rw [Bool.eq_iff_iff, Text.hasSurrogate, Text.hasSurrogate, List.any_eq_true, List.any_eq_true,
    ← List.countP_pos_iff, ← List.countP_pos_iff, count]

/-- UTF-8 has a form for an item if the name holds no half of a surrogate pair. -/
theorem Output.utf8_encodes_item (terminal : Terminal) (draws : Printable Table → Bool) (plan : Plan)
    (s : Sighting) : (utf8 terminal draws).encodes (plan.item terminal s) =
      !(plan.shownName s).hasSurrogate := by
  rw [← hasSurrogate_item terminal plan s]
  rfl

/-! ## Tables -/

namespace Reference

/-- The row shows the name, the number of its occurrences, and their lines, each once and in
increasing order. -/
def HasRow (r : Reference) (row : List Text) : Prop :=
  ∃ lines : List Nat, lines.Pairwise (· < ·) ∧
    (∀ n, n ∈ lines ↔ ∃ o ∈ r.occurrences, o.node.span.line = n) ∧
    row.take 3 = [r.name.escapeMarkup, Text.ofNat r.occurrences.length,
      Text.join ", " (lines.map Text.ofNat)]

theorem hasRow (qualified : Bool) (r : Reference) : r.HasRow (Table.row qualified r) := by
  refine ⟨r.lines, ?_, fun n => ?_, rfl⟩
  · have nodup : r.lines.Nodup := (List.mergeSort_perm _ _).nodup_iff.mpr (nodup_eraseDups _)
    have weak : r.lines.Pairwise fun a b => decide (a ≤ b) = true :=
      List.pairwise_mergeSort (by simpa using fun a b c => Nat.le_trans)
        (by simpa using Nat.le_total) _
    exact (weak.and nodup).imp fun ⟨le, ne⟩ => Nat.lt_of_le_of_ne (of_decide_eq_true le) ne
  · rw [Reference.lines, List.mem_mergeSort, List.mem_eraseDups, List.mem_map]

end Reference

/-- What is printed for the result of a file: a row for every name, or a line if there is none. -/
def IsShownAs (terminal : Terminal) (result : FileResult) : Printable Table → Prop
  | .markup t => result.2 = [] ∧
      t = "[green]✓ " ++ (Text.ofString result.1.toString).escapeMarkup ++ ": no globals[/green]"
  | .value table => result.2 ≠ [] ∧
      table.title = terminal.sanitizeMarkup false
        (Table.fileMark ++ (Text.ofString result.1.toString).escapeMarkup) ∧
      List.Forall₂ Reference.HasRow result.2 table.rows

/-- Something is printed for every file, and the totals last. -/
theorem tables_eq (terminal : Terminal) (plan : Plan) (results : List FileResult) :
    ∃ items totals, tables terminal plan results = items ++ [.markup totals] ∧
      List.Forall₂ (IsShownAs terminal) results items := by
  refine ⟨_, _, rfl, List.forall₂_map_right_iff.mpr (List.forall₂_same.mpr ?_)⟩
  rintro ⟨path, rs⟩ -
  cases rs with
  | nil => exact ⟨rfl, rfl⟩
  | cons r rest =>
    refine ⟨List.cons_ne_nil _ _, rfl, List.forall₂_map_right_iff.mpr (List.forall₂_same.mpr ?_)⟩
    exact fun r _ => r.hasRow plan.qualified

end FreeNames
