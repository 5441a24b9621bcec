import FreeNames.Text.Case

/-!
# Terminals

What is known of a terminal: the encoding of its output, if it says one, and the encoding
of the locale, which may not be known.  Icons are shown only where the encoding is one of
the spellings of UTF-8.
-/

namespace FreeNames

/-- A terminal as far as its encoding goes. -/
structure Terminal where
  /-- The encoding of the output; none or empty if there is none. -/
  output : Option Text
  /-- The encoding of the locale, if it can be found. -/
  locale : Option Text
  deriving DecidableEq, Repr

namespace Terminal

/-- The encoding when nothing says one. -/
def fallbackEncoding : Text := "ascii"

/-- The encoding in lower case: of the output, or else of the locale. -/
def encoding (t : Terminal) : Text :=
  let ofLocale := (t.locale.map Text.lower).getD fallbackEncoding
  match t.output with
  | some e => if e.isEmpty then ofLocale else e.lower
  | none => ofLocale

/-- The spellings of UTF-8 that count. -/
def utf8Names : List Text := ["utf-8", "utf8", "utf_8"]

def isUtf8 (t : Terminal) : Bool := utf8Names.contains t.encoding

/-- The encoding that the name of a locale gives behind its point, if it gives one. -/
def localeEncoding? (name : Text) : Option Text :=
  match name.points.dropWhile (· ≠ 0x2E) with
  | _ :: rest => some ⟨rest.takeWhile (· ≠ 0x40)⟩
  | [] => none

/-- The terminal of a process: of the variables that name its locale, the first that is not
empty counts. -/
def ofLocaleNames (names : List Text) : Terminal where
  output := none
  locale := (names.find? fun name => !name.isEmpty).bind localeEncoding?

/-- A terminal with UTF-8 output. -/
def utf8 : Terminal := ⟨some "utf-8", some "UTF-8"⟩

end Terminal

/-- The text holds ASCII characters only. -/
def Text.IsAscii (t : Text) : Prop := ∀ c ∈ t.points, c < 0x80

instance (t : Text) : Decidable t.IsAscii := inferInstanceAs (Decidable (∀ c ∈ t.points, c < 0x80))

end FreeNames
