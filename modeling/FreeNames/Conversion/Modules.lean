import FreeNames.Conversion.Names

/-!
# Imports and exports

The templates of import and export statements and of their specifiers.  The module that an
export names is read before everything else, also where it is not kept.
-/

namespace FreeNames.Conversion

variable {w : Parsed}

/-- The specifiers of one part of an import clause. -/
def importSpecifiers (src : Source) (q : Part w) : List (Slot w) :=
  match q.symbol with
  | .identifier =>
    [.one (.node .importDefaultSpecifier q.span [("local", .one (identifier src q.span))])]
  | .namespaceImport =>
    [match q.inside.named.head? with
      | some name =>
        .one (.node .importNamespaceSpecifier q.span [("local", .one (identifier src name.span))])
      | none => .fault (q.inside.lacking "child")]
  | .namedImports => (q.inside.named.filter fun s => s.symbol = .importSpecifier).map .hole
  | _ => []

def importDeclaration (src : Source) (x : Inside w) : Template w :=
  let clauses := x.named.filter fun q => q.symbol = .importClause
  .node .importDeclaration x.span
    [("specifiers", .many (clauses.flatMap fun c => c.inside.named.flatMap (importSpecifiers src))),
      ("source", x.convert "source")]

/-- The part in a field, or else the part in another. -/
def fieldOr (x : Inside w) (name other : String) : Option (Part w) :=
  (x.field? name).or (x.field? other)

theorem mem_parts_of_fieldOr {x : Inside w} {q : Part w} {name other : String}
    (hq : fieldOr x name other = some q) : q ∈ x.parts := by
  rcases Option.or_eq_some_iff.mp hq with first | ⟨-, second⟩
  · exact Inside.mem_parts_of_field? first
  · exact Inside.mem_parts_of_field? second

def importSpecifier (src : Source) (x : Inside w) : Template w :=
  match x.field? "name", fieldOr x "alias" "name" with
  | some imported, some localName =>
    .node .importSpecifier x.span
      [("imported", exportName src imported), ("local", .one (identifier src localName.span))]
  | _, _ => .fault (x.lacking "name")

def exportSpecifier (src : Source) (x : Inside w) : Template w :=
  match x.field? "name", fieldOr x "alias" "name" with
  | some localName, some exported =>
    .node .exportSpecifier x.span
      [("local", exportName src localName), ("exported", exportName src exported)]
  | _, _ => .fault (x.lacking "name")

/-- The module that an export names. -/
def exportSource (x : Inside w) : Slot w := x.optional "source"

/-- An export of everything from another module, possibly under a name. -/
def exportAll (exported : Slot w) (x : Inside w) : Template w :=
  .node .exportAllDeclaration x.span [("exported", .late exported), ("source", exportSource x)]

/-- An export without a declaration: of the names in a clause, or of everything. -/
def exportNames (src : Source) (x : Inside w) : Template w :=
  let isClause (q : Part w) := q.symbol = .exportClause || q.symbol = .namespaceExport
  match x.named.find? isClause with
  | none => exportAll .null x
  | some clause =>
    if clause.symbol = .exportClause then
      let specifiers := clause.inside.named.filter fun s => s.symbol = .exportSpecifier
      .node .exportNamedDeclaration x.span
        [("declaration", .null), ("specifiers", .late (.holes specifiers)),
          ("source", exportSource x)]
    else
      exportAll (match clause.inside.named.head? with
        | some name => exportName src name
        | none => .null) x

def exportStatement (src : Source) (x : Inside w) : Template w :=
  if x.hasToken [.defaultWord] then
    let exported : Slot w := match fieldOr x "declaration" "value" with
      | some q => .hole q
      | none => .fault (x.lacking "value")
    .build .exportDefaultDeclaration x.span [("declaration", .late exported)] [exportSource x]
  else match x.field? "declaration" with
    | some q =>
      .build .exportNamedDeclaration x.span
        [("declaration", .late (.hole q)), ("specifiers", .many []), ("source", .null)]
        [exportSource x]
    | none => exportNames src x

end FreeNames.Conversion
