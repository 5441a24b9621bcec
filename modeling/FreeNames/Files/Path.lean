import FreeNames.Text.Case

/-!
# Paths and suffixes

A path is where it begins and a list of components; writing it joins them, and the relative
path without components is a point.  The suffix of a name decides whether a file holds
JavaScript.

* `Path.ofString` drops empty components and points, so different spellings of a path are
  the same path; components that go upwards stay.
* `suffix` is the part from the last point on, unless that is the first or the last
  character of the name.
-/

namespace FreeNames

/-- Where a path begins; exactly two slashes are a beginning of their own. -/
inductive Root where
  | here
  | slash
  | twoSlashes
  deriving DecidableEq, Inhabited, Repr

namespace Root

def toString : Root → String
  | .here => ""
  | .slash => "/"
  | .twoSlashes => "//"

/-- Where a list of characters begins. -/
def ofChars : List Char → Root
  | '/' :: '/' :: '/' :: _ => .slash
  | '/' :: '/' :: _ => .twoSlashes
  | '/' :: _ => .slash
  | _ => .here

end Root

/-- A path: where it begins, and its components. -/
structure Path where
  root : Root
  components : List String
  deriving DecidableEq, Inhabited, Repr

namespace Path

/-- Read a path; empty components and points mean nothing. -/
def ofString (s : String) : Path where
  root := Root.ofChars s.toList
  components :=
    ((s.toList.splitOn '/').map String.ofList).filter fun part => part ≠ "" && part ≠ "."

/-- Write a path. -/
def toString (p : Path) : String :=
  if p.root = .here && p.components.isEmpty then "."
  else p.root.toString ++ "/".intercalate p.components

/-- The path of an entry of a directory. -/
def child (p : Path) (name : String) : Path := { p with components := p.components ++ [name] }

/-- The last component; a path without components has no name. -/
def name (p : Path) : String := p.components.getLast?.getD ""

end Path

/-- The suffix of a name: from the last point on, if there is something on both sides. -/
def suffix (name : String) : List Char :=
  let behind := name.toList.reverse.takeWhile (· ≠ '.')
  let before := name.toList.reverse.dropWhile (· ≠ '.')
  if before.length > 1 && !behind.isEmpty then '.' :: behind.reverse else []

/-- The languages that can be read. -/
inductive Language where
  | javascript
  deriving DecidableEq, Repr

namespace Language

def name : Language → Text
  | .javascript => "javascript"

/-- The suffixes of files in a language, in lower case. -/
def suffixes : Language → List Text
  | .javascript => [".js", ".mjs", ".cjs", ".jsx"]

/-- The language of a name. -/
def ofName? (s : Text) : Option Language := if s = javascript.name then some .javascript else none

/-- The wording for a language that cannot be read. -/
def unsupportedMessage (s : Text) : Text := "Unsupported language: " ++ s

/-- The language of a file, by the suffix of its name in any case. -/
def ofFileName? (fileName : String) : Option Language :=
  let ending := (Text.ofString (String.ofList (suffix fileName))).lower
  if javascript.suffixes.contains ending then some .javascript else none

/-- The language of the file at a path. -/
def ofPath? (p : Path) : Option Language := ofFileName? p.name

end Language

end FreeNames
