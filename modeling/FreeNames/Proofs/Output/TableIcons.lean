import FreeNames.Conversion.Table
import FreeNames.Output.Table
import FreeNames.Proofs.Terminal.Icons
import Mathlib

/-!
# Icons in tables

A console passes tables on as they are, so a terminal that cannot show icons relies on there being
none in the texts of a table.  The title is made for the terminal and the headers are fixed, but the
cells are escaped only, and escaping keeps icons.

* `Table.isFreeOfIcons_iff`: on such a terminal a table is free of icons exactly if the names that
  it lists, and the access paths where it has a column for them, are.
* Access paths hold the keys that a source writes as strings, so a key with an icon reaches the
  terminal (`checkMarkKey_not_isFreeOfIcons`).
-/

namespace FreeNames

namespace Table

/-- No text of the table holds an icon. -/
structure IsFreeOfIcons (t : Table) : Prop where
  title : ¬ t.title.HasIcon
  columns : ∀ header ∈ t.columns, ¬ header.HasIcon
  cells : ∀ row ∈ t.rows, ∀ cell ∈ row, ¬ cell.HasIcon

theorem not_hasIcon_headers (qualified : Bool) : ∀ header ∈ headers qualified, ¬ header.HasIcon := by
  cases qualified <;> decide

theorem separator_not_hasIcon : ¬ (Text.ofString ", ").HasIcon := by decide

/-- The cells of a row are free of icons if its name is, and its access paths where they are
shown. -/
theorem cells_free_iff {qualified : Bool} {r : Reference} :
    (∀ cell ∈ row qualified r, ¬ cell.HasIcon) ↔
      ¬ r.name.HasIcon ∧ (qualified = true → ∀ o ∈ r.occurrences, ¬ o.qualified.HasIcon) := by
  have uses : ¬ (Text.ofNat r.occurrences.length).HasIcon := Text.not_hasIcon_ofNat _
  have lines : ¬ (Text.join ", " (r.lines.map Text.ofNat)).HasIcon := by
    rw [Text.hasIcon_join separator_not_hasIcon]
    rintro ⟨t, mem, icon⟩
    obtain ⟨n, -, rfl⟩ := List.mem_map.mp mem
    exact Text.not_hasIcon_ofNat n icon
  have paths : ¬ (Text.join ", " r.qualifiedNames.eraseDups).escapeMarkup.HasIcon ↔
      ∀ o ∈ r.occurrences, ¬ o.qualified.HasIcon := by
    rw [Text.hasIcon_escapeMarkup, Text.hasIcon_join separator_not_hasIcon]
    simp [Reference.qualifiedNames]
  rw [← Text.hasIcon_escapeMarkup (t := r.name), ← paths]
  cases qualified <;> simp [row, uses, lines]

/-- On a terminal that is not UTF-8, the table of a file is free of icons exactly if the names that
it lists are, and the access paths if it shows them. -/
theorem isFreeOfIcons_iff {terminal : Terminal} (h : terminal.isUtf8 = false) (path : Path)
    (rs : List Reference) (qualified : Bool) :
    (ofReferences terminal path rs qualified).IsFreeOfIcons ↔
      ∀ r ∈ rs, ¬ r.name.HasIcon ∧
        (qualified = true → ∀ o ∈ r.occurrences, ¬ o.qualified.HasIcon) := by
  constructor
  · exact fun free r hr => cells_free_iff.mp (free.cells _ (List.mem_map_of_mem hr))
  · intro free
    refine ⟨Terminal.not_hasIcon_sanitizeMarkup h _, not_hasIcon_headers qualified, fun row hrow => ?_⟩
    obtain ⟨r, hr, rfl⟩ := List.mem_map.mp hrow
    exact cells_free_iff.mpr (free r hr)

end Table

/-- The parse of `a["…"];` on one line, where the key has so many bytes. -/
def Parsed.keyAccess (size : Nat) : Parsed :=
  .mk .program true false false ⟨0, size + 6, 1, 0⟩ none
    [.mk .expressionStatement true false false ⟨0, size + 6, 1, 0⟩ none
      [.mk .subscriptExpression true false false ⟨0, size + 5, 1, 0⟩ none
        [.mk .identifier true false false ⟨0, 1, 1, 0⟩ (some "object") [],
          .mk .string true false false ⟨2, size + 4, 1, 2⟩ (some "index") []]]]

/-- The references of a parsed source. -/
def Parsed.references (root : Parsed) (src : Source) : Except Fault (List Reference) := do
  return (← Report.ofTree true (← root.toTree src)).references

/-- A terminal that shows ASCII characters only. -/
def Terminal.ascii : Terminal := ⟨some "ascii", none⟩

theorem names_of_checkMarkKey :
    ((Parsed.keyAccess 3).references (.ofString "a[\"✓\"];")).map (fun rs =>
      rs.map fun r => (r.name, r.occurrences.map (·.qualified))) =
        .ok [(Text.ofString "a", [Text.ofString "a.✓"])] := by cbv

/-- The check mark in `a["✓"]` stands in the table of access paths. -/
theorem checkMarkKey_not_isFreeOfIcons : Terminal.ascii.isUtf8 = false ∧
    ∃ rs, (Parsed.keyAccess 3).references (.ofString "a[\"✓\"];") = .ok rs ∧
      ¬ (Table.ofReferences .ascii (Path.ofString "x.js") rs true).IsFreeOfIcons := by
  have ascii : Terminal.ascii.isUtf8 = false := by decide_cbv
  refine ⟨ascii, ?_⟩
  have names := names_of_checkMarkKey
  cases found : (Parsed.keyAccess 3).references (.ofString "a[\"✓\"];") with
  | error f => rw [found] at names; cases names
  | ok rs =>
    rw [found] at names
    obtain ⟨r, rest, rfl, hr, -⟩ := List.map_eq_cons_iff.mp (Except.ok.inj names)
    obtain ⟨o, occurrences, ho, path, -⟩ := List.map_eq_cons_iff.mp (Prod.mk.inj hr).2
    refine ⟨r :: rest, rfl, fun free => ?_⟩
    have none := ((Table.isFreeOfIcons_iff ascii _ _ true).mp free r List.mem_cons_self).2 rfl
    have icon : (Text.ofString "a.✓").HasIcon := by decide
    exact none o (ho ▸ List.mem_cons_self) (path ▸ icon)

end FreeNames
