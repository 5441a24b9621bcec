import FreeNames.Terminal.Encoding
import FreeNames.Terminal.Markup

/-!
# Icons and their stand-ins

Status icons are replaced by stand-ins of ASCII characters on terminals that cannot show
them.  In text for a terminal the stand-ins are put in as they are, in markup they are
escaped first, each by itself.

* An icon is one code point and no stand-in holds an icon, so replacing one icon after the
  other is replacing all at once.
-/

namespace FreeNames

/-- The status icons and their stand-ins. -/
def icons : List (Nat × Text) :=
  [(0x2713, "[OK]"), (0x2717, "[FAIL]"), (0x26A0, "[WARN]"), (0x2192, "->"), (0x2022, "*"),
    (0x2026, "..."), (0x1F310, "[global]"), (0x1F4C4, "[file]")]

/-- The stand-in of a code point, if it is an icon. -/
def standIn? (c : Nat) : Option Text := icons.lookup c

/-- Replace every icon by what the function makes of its stand-in. -/
def Text.replaceIcons (f : Text → Text) (t : Text) : Text :=
  ⟨t.points.flatMap fun c =>
    match standIn? c with
    | some s => (f s).points
    | none => [c]⟩

namespace Terminal

/-- Text that the terminal can show; forced, also where it could show the icons. -/
def sanitize (terminal : Terminal) (forced : Bool) (t : Text) : Text :=
  if !forced && terminal.isUtf8 then t else t.replaceIcons id

/-- Markup that the terminal can show. -/
def sanitizeMarkup (terminal : Terminal) (forced : Bool) (t : Text) : Text :=
  if !forced && terminal.isUtf8 then t else t.replaceIcons Text.escapeMarkup

/-- What is printed: texts sanitized, with the separator between them and a line feed. -/
def printed (terminal : Terminal) (separator : Text) (parts : List (Text ⊕ Text)) : Text :=
  Text.join separator (parts.map fun
    | .inl t => terminal.sanitize false t
    | .inr t => t) ++ "\n"

end Terminal

end FreeNames
