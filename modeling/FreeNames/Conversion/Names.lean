import FreeNames.Conversion.Template

/-!
# Names and keys

The templates of identifiers, of the names that modules import and export, and of the keys
of properties.
-/

namespace FreeNames.Conversion

variable {w : Parsed}

/-- An identifier with the text of the span. -/
def identifier (src : Source) (span : Span) : Template w :=
  .node .identifier span [("name", .text src span)]

/-- An identifier in a field, which must be there. -/
def identifierIn (src : Source) (x : Inside w) (name : String) : Slot w :=
  match x.field? name with
  | some q => .one (identifier src q.span)
  | none => .fault (x.lacking name)

/-- An identifier in a field, or null. -/
def identifierOrNull (src : Source) (x : Inside w) (name : String) : Slot w :=
  match x.field? name with
  | some q => .one (identifier src q.span)
  | none => .null

/-- A private name, without the signs in front of it. -/
def privateName (src : Source) (span : Span) : Template w :=
  match src.text? span with
  | some t => .node .privateIdentifier span [("name", .value (.text (t.dropStart (· = 0x23))))]
  | none => .fault .notUtf8

/-- A name that a module exports: an identifier or a string. -/
def exportName (src : Source) (q : Part w) : Slot w :=
  if q.symbol = .string then .hole q else .one (identifier src q.span)

/-- The key of a property: computed, private, a literal, or else a plain name. -/
def propertyKey (src : Source) (q : Part w) : Slot w :=
  match q.symbol with
  | .computedPropertyName => .one q.inside.first
  | .privatePropertyIdentifier => .one (privateName src q.span)
  | .string | .number => .hole q
  | _ => .one (identifier src q.span)

/-- Is the key computed? -/
def isComputedKey (q : Part w) : Bool := q.symbol = .computedPropertyName

end FreeNames.Conversion
