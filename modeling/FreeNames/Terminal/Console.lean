import FreeNames.Terminal.Icons

/-!
# Consoles

A console passes what it prints on to the terminal.  On terminals that cannot show icons it
replaces them in markup; what is not markup, such as a table, is passed on untouched.
-/

namespace FreeNames

/-- Something to print: markup, or a value of another kind. -/
inductive Printable (α : Type) where
  | markup (t : Text)
  | value (a : α)
  deriving DecidableEq, Repr

/-- A console decides once, when it is made, whether it replaces icons. -/
structure Console where
  sanitizes : Bool
  deriving DecidableEq, Repr

namespace Console

def new (terminal : Terminal) : Console := ⟨!terminal.isUtf8⟩

/-- What is passed on for something to print. -/
def prepare {α : Type} (c : Console) : Printable α → Printable α
  | .markup t => .markup (if c.sanitizes then t.replaceIcons Text.escapeMarkup else t)
  | .value a => .value a

/-- Consoles that replace icons also draw for terminals of the old kind. -/
def isLegacy (c : Console) : Bool := c.sanitizes

end Console

end FreeNames
