import FreeNames.Files.Path
import FreeNames.Grammar.Parsed

/-!
# File trees

A file tree is a first directory with everything below it, and one of the directories below
it is the working directory.  A file is its bytes together with what parsing them gives, so
the tree holds all that a run can read.

* `FileTree.way` is how a path is gone from the first directory on: a path that does not begin
  with slashes goes on from the working directory.
* `FileTree.get?` follows the way.  A component that goes upwards leads back to where the
  path came from, and only out of a directory; from the first directory it leads to that
  directory itself.
* `FileTree.insert` puts an entry at a path and makes the directories above it.
* `FileTree.read?` gives the files whose content is UTF-8.
-/

namespace FreeNames

/-- The content of a file and its parse, which is absent where the nesting is too deep to be
analyzed. -/
structure File where
  source : Source
  parsed? : Option Parsed

/-- What a name in a directory stands for. -/
inductive Entry where
  | file (f : File)
  | directory (entries : List (String × Entry))

namespace Entry

def isFile : Entry → Bool
  | file _ => true
  | directory _ => false

/-- The entries of a directory; a file has none. -/
def entries : Entry → List (String × Entry)
  | file _ => []
  | directory es => es

theorem sizeOf_lt_of_mem_entries {e : Entry} {named : String × Entry} (h : named ∈ e.entries) :
    sizeOf named.2 < sizeOf e := by
  cases e with
  | file f => simp [entries] at h
  | directory es =>
    have hlt := List.sizeOf_lt_of_mem (show named ∈ es from h)
    obtain ⟨name, inner⟩ := named
    rw [Prod.mk.sizeOf_spec] at hlt
    rw [directory.sizeOf_spec]
    show sizeOf inner < 1 + sizeOf es
    omega

/-- Bind a name: in its place if it is bound, otherwise at the end. -/
def bind (name : String) (e : Entry) : List (String × Entry) → List (String × Entry)
  | [] => [(name, e)]
  | other :: rest => if other.1 = name then (name, e) :: rest else other :: bind name e rest

/-- Put an entry below the entries of a directory.  A directory that is there already keeps
what it holds. -/
def insertAt : List String → Entry → List (String × Entry) → List (String × Entry)
  | [], _, es => es
  | [name], e, es =>
    match e, es.lookup name with
    | directory [], some (directory _) => es
    | _, _ => bind name e es
  | name :: rest, e, es =>
    bind name (directory (insertAt rest e (((es.lookup name).map entries).getD []))) es

/-- Follow components from an entry, with the directories above it innermost first. -/
def follow : List Entry → Entry → List String → Option Entry
  | _, here, [] => some here
  | above, here, name :: rest =>
    match here with
    | file _ => none
    | directory es =>
      if name = ".." then
        match above with
        | [] => follow [] (directory es) rest
        | up :: above => follow above up rest
      else (es.lookup name).bind fun inner => follow (here :: above) inner rest

/-- Components without those that go upwards and what they lead back from. -/
def straighten (names : List String) : List String :=
  names.foldl (fun way name => if name = ".." then way.dropLast else way ++ [name]) []

end Entry

/-- The entries of the first directory, and the way from there to the working directory. -/
structure FileTree where
  entries : List (String × Entry)
  working : List String

namespace FileTree

/-- A tree that holds a working directory and nothing else. -/
def new (working : List String) : FileTree :=
  ⟨Entry.insertAt working (.directory []) [], working⟩

/-- The first directory as an entry. -/
def root (t : FileTree) : Entry := .directory t.entries

/-- The way from the first directory along a path. -/
def way (t : FileTree) (p : Path) : List String :=
  if p.root = .here then t.working ++ p.components else p.components

/-- Put an entry at a path. -/
def insert (t : FileTree) (p : Path) (e : Entry) : FileTree :=
  { t with entries := Entry.insertAt (Entry.straighten (t.way p)) e t.entries }

/-- The entry at a path. -/
def get? (t : FileTree) (p : Path) : Option Entry := Entry.follow [] t.root (t.way p)

/-- The file at a path, if its content is UTF-8. -/
def read? (t : FileTree) (p : Path) : Option File :=
  match t.get? p with
  | some (.file f) => if f.source.isUtf8 then some f else none
  | _ => none

end FileTree

end FreeNames
