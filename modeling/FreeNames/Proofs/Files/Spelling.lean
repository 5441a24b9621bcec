import FreeNames.Files.Discovery
import FreeNames.Proofs.Text.Content

/-!
# Paths and their spelling

The files that a scan finds are told apart by their written paths.  In a file tree whose names are
names of files, that is as good as telling the paths apart.

* `Path.IsPlain`: each component of the path is a name.  Reading what such a path is written as
  gives it back (`Path.ofString_toString`).
* `Entry.IsNamed`: everything in and below a directory has such a name.
* `FileTree.isPlain_of_mem_sources`: all paths that discovery gives are plain.
-/

namespace FreeNames

/-- Can something in a directory have this name? -/
def IsEntryName (name : String) : Prop := name ≠ "" ∧ name ≠ "." ∧ '/' ∉ name.toList

/-- What stands between the slashes that begin a path, and before them. -/
def Root.pieces : Root → List (List Char)
  | .here => []
  | .slash => [[]]
  | .twoSlashes => [[], []]

namespace Path

variable {p q : Path}

/-- Each component of the path is a name. -/
def IsPlain (p : Path) : Prop := ∀ name ∈ p.components, IsEntryName name

theorem isPlain_ofString (s : String) : (ofString s).IsPlain := by
  intro name mem
  obtain ⟨piece, kept⟩ := List.mem_filter.mp mem
  obtain ⟨chars, hchars, rfl⟩ := List.mem_map.mp piece
  rw [Bool.and_eq_true, decide_eq_true_eq, decide_eq_true_eq] at kept
  exact ⟨kept.1, kept.2, by rw [String.toList_ofList]; exact not_mem_of_mem_splitOn hchars⟩

theorem IsPlain.child (h : p.IsPlain) {name : String} (hname : IsEntryName name) :
    (p.child name).IsPlain := by
  intro other mem
  rcases List.mem_append.mp mem with mem | mem
  · exact h other mem
  · exact List.mem_singleton.mp mem ▸ hname

/-- A path with components is its pieces, joined by slashes. -/
theorem toList_toString (some : p.components ≠ []) : p.toString.toList =
    ['/'].intercalate (p.root.pieces ++ p.components.map String.toList) := by
  have nonempty : (p.root = .here && p.components.isEmpty) = false := by simp [some]
  rw [toString, nonempty, if_neg Bool.false_ne_true, String.toList_append,
    String.toList_intercalate]
  obtain ⟨name, rest, components⟩ := List.exists_cons_of_ne_nil some
  rw [components, List.map_cons]
  cases p.root <;> simp [Root.pieces, Root.toString, List.intercalate_cons_cons]

/-- A name does not begin with a slash, so there are no more slashes at the beginning than the root
has. -/
theorem ofChars_toString (h : p.IsPlain) (some : p.components ≠ []) :
    Root.ofChars p.toString.toList = p.root := by
  obtain ⟨name, rest, components⟩ := List.exists_cons_of_ne_nil some
  obtain ⟨nonempty, -, slash⟩ := h name (components ▸ List.mem_cons_self)
  obtain ⟨c, chars, hname⟩ := List.exists_cons_of_ne_nil
    (fun nil => nonempty (String.toList_eq_nil_iff.mp nil) : name.toList ≠ [])
  have first : c ≠ '/' := fun same => slash (by rw [hname, same]; exact List.mem_cons_self)
  obtain ⟨tail, joined⟩ : ∃ tail,
      ['/'].intercalate ((c :: chars) :: rest.map String.toList) = c :: tail := by
    cases rest with
    | nil => exact ⟨chars, List.intercalate_singleton⟩
    | cons second rest =>
      rw [List.map_cons, List.intercalate_cons_cons, List.cons_append, List.cons_append]
      exact ⟨_, rfl⟩
  rw [toList_toString some, components, List.map_cons, hname]
  cases p.root <;> simp [Root.pieces, List.intercalate_cons_cons, joined, Root.ofChars, first]

/-- Reading what a plain path is written as gives the path. -/
theorem ofString_toString (h : p.IsPlain) : ofString p.toString = p := by
  by_cases none : p.components = []
  · obtain ⟨root, components⟩ := p
    obtain rfl : components = [] := none
    cases root <;> decide
  · have kept : p.components.filter (fun part => part ≠ "" && part ≠ ".") = p.components := by
      refine List.filter_eq_self.mpr fun name mem => ?_
      rw [Bool.and_eq_true, decide_eq_true_eq, decide_eq_true_eq]
      exact ⟨(h name mem).1, (h name mem).2.1⟩
    -- The pieces of the root are empty and mean nothing.
    have dropped : (p.root.pieces.map String.ofList).filter (fun part => part ≠ "" && part ≠ ".") =
        [] := by cases p.root <;> decide
    have slashes : ∀ chars ∈ p.root.pieces ++ p.components.map String.toList, '/' ∉ chars := by
      rw [List.forall_mem_append, List.forall_mem_map]
      exact ⟨by cases p.root <;> decide, fun name mem => (h name mem).2.2⟩
    have back : p.components.map (String.ofList ∘ String.toList) = p.components :=
      List.map_id'' (fun _ => String.ofList_toList) p.components
    rw [ofString, ofChars_toString h none, toList_toString none,
      List.splitOn_intercalate '/' slashes (by simp [none]), List.map_append, List.map_map, back,
      List.filter_append, dropped, kept, List.nil_append]

theorem toString_injOn (hp : p.IsPlain) (hq : q.IsPlain) (same : p.toString = q.toString) : p = q := by
  rw [← ofString_toString hp, same, ofString_toString hq]

end Path

/-! ## File trees -/

namespace Entry

/-- In and below a directory everything has a name. -/
inductive IsNamed : Entry → Prop
  | file (f : File) : IsNamed (.file f)
  | directory {es : List (String × Entry)} (names : ∀ e ∈ es, IsEntryName e.1)
      (inner : ∀ e ∈ es, IsNamed e.2) : IsNamed (.directory es)

section Following

variable {above : List Entry} {es : List (String × Entry)} {up here found : Entry} {name : String}
  {names : List String}

theorem follow_name (down : name ≠ "..") : follow above (.directory es) (name :: names) =
    (es.lookup name).bind fun e => follow (.directory es :: above) e names := by
  cases above <;> rw [follow, if_neg down]

theorem follow_up : follow (up :: above) (.directory es) (".." :: names) = follow above up names := by
  rw [follow, if_pos rfl]

/-- There is no way out of the first directory. -/
theorem follow_out : follow [] (.directory es) (".." :: names) = follow [] (.directory es) names := by
  rw [follow, if_pos rfl]

/-- What holds of a directory, of those above it and of everything in a directory of which it holds
also holds of what a path leads to. -/
theorem of_follow {P : Entry → Prop} (inner : ∀ es, P (.directory es) → ∀ e ∈ es, P e.2)
    (habove : ∀ d ∈ above, P d) (hhere : P here) (h : follow above here names = some found) :
    P found := by
  induction names generalizing above here with
  | nil =>
    rw [follow] at h
    exact Option.some.inj h ▸ hhere
  | cons name names ih =>
    cases here with
    | file f => cases h
    | directory es =>
      by_cases upwards : name = ".."
      · subst upwards
        cases above with
        | nil =>
          rw [follow_out] at h
          exact ih habove hhere h
        | cons up above =>
          obtain ⟨hup, habove⟩ := List.forall_mem_cons.mp habove
          rw [follow_up] at h
          exact ih habove hup h
      · rw [follow_name upwards] at h
        obtain ⟨e, bound, h⟩ := Option.bind_eq_some_iff.mp h
        obtain ⟨before, after, entries, -⟩ := List.lookup_eq_some_iff.mp bound
        have mem : (name, e) ∈ es := entries ▸ List.mem_append_right _ List.mem_cons_self
        exact ih (List.forall_mem_cons.mpr ⟨hhere, habove⟩) (inner es hhere _ mem) h

end Following

theorem IsNamed.inner {es : List (String × Entry)} (h : (Entry.directory es).IsNamed) :
    ∀ e ∈ es, e.2.IsNamed := by
  cases h with
  | directory _ inner => exact inner

theorem isPlain_of_mem_sources {d : Entry} (h : d.IsNamed) {path p : Path} (hpath : path.IsPlain)
    (hp : p ∈ d.sources path) : p.IsPlain := by
  induction h generalizing path with
  | file f =>
    rw [sources_eq] at hp
    simp [sourceNames, searchedDirectories, sorted, entries] at hp
  | @directory es names inner ih =>
    rw [sources_eq] at hp
    rcases List.mem_append.mp hp with hp | hp
    · obtain ⟨name, mem, rfl⟩ := List.mem_map.mp hp
      obtain ⟨e, listed, rfl⟩ := List.mem_map.mp mem
      have listed := (List.mergeSort_perm _ _).mem_iff.mp listed
      exact hpath.child (names e (List.mem_filter.mp listed).1)
    · obtain ⟨e, mem, hp⟩ := List.mem_flatMap.mp hp
      have mem := mem_of_mem_searchedDirectories mem
      exact ih e mem (hpath.child (names e mem)) hp

end Entry

namespace FileTree

variable {t : FileTree}

/-- Everything in the tree has a name. -/
def IsNamed (t : FileTree) : Prop := t.root.IsNamed

/-- The paths that discovery gives for words of a command line are plain. -/
theorem isPlain_of_mem_sources (named : t.IsNamed) {words : List String} {p : Path}
    (hp : p ∈ t.sources (words.map Path.ofString)) : p.IsPlain := by
  obtain ⟨path, mem, hp⟩ := List.mem_flatMap.mp hp
  obtain ⟨word, -, rfl⟩ := List.mem_map.mp mem
  unfold sourcesAt at hp
  cases found : t.get? (Path.ofString word) with
  | none => rw [found] at hp; cases hp
  | some e =>
    have plain := Path.isPlain_ofString word
    rw [found] at hp
    cases e with
    | file f => exact List.mem_singleton.mp hp ▸ plain
    | directory es =>
      have inner : (Entry.directory es).IsNamed :=
        Entry.of_follow (fun _ => Entry.IsNamed.inner) (List.forall_mem_nil _) named found
      exact Entry.isPlain_of_mem_sources inner plain hp

end FileTree

end FreeNames
