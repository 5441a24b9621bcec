import FreeNames.Files.Tree

/-!
# Discovery

Which files a list of paths stands for.  A file stands for itself, whatever its name.  A
directory stands for the JavaScript files in and below it: its own files first, then those
of its directories, both in the order of code points.

* Hidden directories and those of dependencies and builds are not searched, except where a
  path names them.
* `Entry.sources_eq` unfolds the search by one directory.
-/

namespace FreeNames

/-- Directories that hold dependencies or what a build makes. -/
def skippedNames : List String := ["node_modules", "bower_components", "dist", "build", "coverage"]

/-- Is a directory of this name searched? -/
def isSearchedName (name : String) : Bool :=
  !skippedNames.contains name && name.toList.head? ≠ some '.'

/-- Is a file of this name one to scan? -/
def isSourceName (name : String) : Bool := (Language.ofFileName? name).isSome

namespace Entry

/-- Entries in the order of their names. -/
def sorted (es : List (String × Entry)) : List (String × Entry) :=
  es.mergeSort fun a b => decide (a.1 ≤ b.1)

/-- The names of a directory's own files to scan, in order. -/
def sourceNames (es : List (String × Entry)) : List String :=
  (sorted (es.filter fun e => e.2.isFile && isSourceName e.1)).map (·.1)

/-- The directories of a directory that are searched, in order. -/
def searchedDirectories (es : List (String × Entry)) : List (String × Entry) :=
  sorted (es.filter fun e => !e.2.isFile && isSearchedName e.1)

theorem mem_of_mem_searchedDirectories {es : List (String × Entry)} {e : String × Entry}
    (h : e ∈ searchedDirectories es) : e ∈ es :=
  (List.mem_filter.mp ((List.mergeSort_perm _ _).mem_iff.mp h)).1

/-- The files to scan in and below a directory at a path. -/
def sources (path : Path) (d : Entry) : List Path :=
  (sourceNames d.entries).map path.child
    ++ (searchedDirectories d.entries).attach.flatMap fun e => sources (path.child e.1.1) e.1.2
termination_by sizeOf d
decreasing_by exact sizeOf_lt_of_mem_entries (mem_of_mem_searchedDirectories e.2)

theorem sources_eq (path : Path) (d : Entry) :
    d.sources path = (sourceNames d.entries).map path.child
      ++ (searchedDirectories d.entries).flatMap fun e => e.2.sources (path.child e.1) := by
  rw [sources]
  congr 1
  conv => rhs; rw [← List.attach_map_subtype_val (searchedDirectories d.entries)]
  rw [List.flatMap_map]

end Entry

/-- The files that a path stands for. -/
def FileTree.sourcesAt (t : FileTree) (p : Path) : List Path :=
  match t.get? p with
  | some (.file _) => [p]
  | some (.directory es) => (Entry.directory es).sources p
  | none => []

/-- The files that a list of paths stands for, path by path. -/
def FileTree.sources (t : FileTree) (paths : List Path) : List Path := paths.flatMap t.sourcesAt

end FreeNames
