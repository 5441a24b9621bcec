import FreeNames.Proofs.Files.Spelling
import Mathlib.Data.List.Forall2
import Mathlib.Data.List.Nodup
import Mathlib.Data.String.Basic
import Mathlib.Tactic.Common

/-!
# Which files a scan finds, and in which order

A path that leads to a directory stands for the sources in and below it that are not in a directory
which is passed over.  Each of them is found once: the files of a directory before those of its
directories, and both in the order of their names.

* `suffix_eq_iff` says what the suffix of a name is, and `isSourceName_iff` which files count.
* `Entry.trails` lists the ways to the sources of a directory.  `Entry.mem_trails_iff` says which
  they are and `Entry.pairwise_trails` how they are ordered, both by induction on the directory.
* `FileTree.StandsFor` is the rule for one path and `FileTree.sources_exact` the result.
-/

namespace FreeNames

/-! ## Names of sources -/

/-- The suffix of a name begins with its last point and has something on both sides of the point. -/
theorem suffix_eq_iff {name : String} {ending : List Char} :
    suffix name = '.' :: ending ↔ ending ≠ [] ∧ '.' ∉ ending ∧
      ∃ stem ≠ [], name.toList = stem ++ '.' :: ending := by
  have whole := List.takeWhile_append_dropWhile (p := fun c : Char => decide (c ≠ '.'))
    (l := name.toList.reverse)
  have plain := List.all_takeWhile (p := fun c : Char => decide (c ≠ '.'))
    (l := name.toList.reverse)
  have stop := List.head?_dropWhile_not (fun c : Char => decide (c ≠ '.')) name.toList.reverse
  simp only [suffix]
  constructor
  · generalize name.toList.reverse.takeWhile (fun c => decide (c ≠ '.')) = behind at *
    generalize name.toList.reverse.dropWhile (fun c => decide (c ≠ '.')) = before at *
    intro h
    split at h
    · next parts =>
      obtain rfl := (List.cons.inj h).2
      match before with
      | [] | [_] => simp at parts
      | c :: d :: rest =>
        have point : c = '.' := by simpa using stop
        have reversed := congrArg List.reverse whole
        rw [List.reverse_reverse, point] at reversed
        have free : '.' ∉ behind.reverse := fun mem => by
          simpa using List.all_eq_true.mp plain '.' (List.mem_reverse.mp mem)
        refine ⟨by simpa using parts, free, (d :: rest).reverse, by simp, ?_⟩
        rw [← reversed]
        simp
    · cases h
  · rintro ⟨nonempty, free, stem, some, parts⟩
    have rev : name.toList.reverse = ending.reverse ++ '.' :: stem.reverse := by simp [parts]
    have plain : ∀ c ∈ ending.reverse, decide (c ≠ '.') = true := fun c hc =>
      decide_eq_true fun same => free (same ▸ List.mem_reverse.mp hc)
    have behind : name.toList.reverse.takeWhile (fun c => decide (c ≠ '.')) = ending.reverse := by
      rw [rev, List.takeWhile_append_of_pos plain, List.takeWhile_cons_of_neg (by simp),
        List.append_nil]
    have before : name.toList.reverse.dropWhile (fun c => decide (c ≠ '.')) =
        '.' :: stem.reverse := by
      rw [rev, List.dropWhile_append_of_pos plain, List.dropWhile_cons_of_neg (by simp)]
    have long : 0 < stem.length := List.length_pos_iff.mpr some
    rw [behind, before, if_pos (by simp [nonempty, long]), List.reverse_reverse]

/-- The suffix of the name, in lower case, is one that sources have. -/
def HasSourceSuffix (name : String) : Prop :=
  ∃ stem ending, stem ≠ [] ∧ ending ≠ [] ∧ '.' ∉ ending ∧ name.toList = stem ++ '.' :: ending ∧
    (Text.ofString (String.ofList ('.' :: ending))).lower ∈ Language.javascript.suffixes

theorem isSourceName_iff {name : String} : isSourceName name = true ↔ HasSourceSuffix name := by
  have decision : isSourceName name = true ↔
      (Text.ofString (String.ofList (suffix name))).lower ∈ Language.javascript.suffixes := by
    simp only [isSourceName, Language.ofFileName?, List.contains_iff_mem]
    split <;> simp_all
  rw [decision]
  constructor
  · intro h
    cases found : suffix name with
    | nil =>
      rw [found] at h
      exact absurd h (by decide +kernel)
    | cons c ending =>
      have point : c = '.' := by
        simp only [suffix] at found
        split at found
        · exact (List.cons.inj found).1.symm
        · cases found
      subst point
      obtain ⟨nonempty, free, stem, some, parts⟩ := suffix_eq_iff.mp found
      exact ⟨stem, ending, some, nonempty, free, parts, found ▸ h⟩
  · rintro ⟨stem, ending, some, nonempty, free, parts, supported⟩
    rwa [suffix_eq_iff.mpr ⟨nonempty, free, stem, some, parts⟩]

/-- A directory of this name is searched. -/
def IsSearched (name : String) : Prop := name ∉ skippedNames ∧ name.toList.head? ≠ some '.'

theorem isSearchedName_iff {name : String} : isSearchedName name = true ↔ IsSearched name := by
  simp [isSearchedName, IsSearched]

/-! ## Trees of directories -/

/-- The path to something below a directory, by the names that lead there. -/
def Path.below (p : Path) (names : List String) : Path :=
  { p with components := p.components ++ names }

theorem Path.below_injective (p : Path) : Function.Injective p.below := fun _ _ same =>
  List.append_cancel_left (congrArg Path.components same)

/-- The order of what is found in and below a directory: the files of the directory come first, by
their names, and then one of its directories after the other, by their names. -/
inductive Precedes : List String → List String → Prop
  | files {a b : String} (lt : a < b) : Precedes [a] [b]
  | filesFirst {a dir : String} {names : List String} (deeper : names ≠ []) :
      Precedes [a] (dir :: names)
  | directories {a b : String} {as bs : List String} (lt : a < b) (left : as ≠ [])
      (right : bs ≠ []) : Precedes (a :: as) (b :: bs)
  | inside {dir : String} {as bs : List String} (inner : Precedes as bs) :
      Precedes (dir :: as) (dir :: bs)

theorem Precedes.irrefl {names : List String} : ¬ Precedes names names := by
  intro h
  induction names with
  | nil => cases h
  | cons name names ih =>
    cases h with
    | files lt | directories lt => exact lt_irrefl _ lt
    | filesFirst deeper => exact deeper rfl
    | inside inner => exact ih inner

namespace Entry

/-- No directory has two entries of one name. -/
inductive IsDistinct : Entry → Prop
  | file (f : File) : IsDistinct (.file f)
  | directory {es : List (String × Entry)} (names : (es.map Prod.fst).Nodup)
      (inner : ∀ e ∈ es, IsDistinct e.2) : IsDistinct (.directory es)

theorem IsDistinct.names {es : List (String × Entry)} (h : (Entry.directory es).IsDistinct) :
    (es.map Prod.fst).Nodup := by
  cases h with
  | directory names _ => exact names

theorem IsDistinct.inner {es : List (String × Entry)} (h : (Entry.directory es).IsDistinct) :
    ∀ e ∈ es, e.2.IsDistinct := by
  cases h with
  | directory _ inner => exact inner

/-- The entry below a directory at these names. -/
def at? : Entry → List String → Option Entry
  | d, [] => some d
  | d, name :: names => (d.entries.lookup name).bind fun e => e.at? names

theorem at?_cons (d : Entry) (name : String) (names : List String) :
    d.at? (name :: names) = (d.entries.lookup name).bind fun e => e.at? names := rfl

/-- Nothing is below a file. -/
theorem at?_file {f : File} {names : List String} (some : names ≠ []) :
    (Entry.file f).at? names = none := by
  cases names with
  | nil => exact absurd rfl some
  | cons name names => rfl

section Following

variable {above : List Entry} {here e : Entry} {names : List String}

/-- Names that do not go upwards are followed one after the other. -/
theorem follow_eq_at? (downwards : ".." ∉ names) : follow above here names = here.at? names := by
  induction names generalizing above here with
  | nil => rw [follow, at?]
  | cons name names ih =>
    rw [List.mem_cons, not_or] at downwards
    cases here with
    | file f => rfl
    | directory es =>
      rw [follow_name (Ne.symm downwards.1), at?_cons]
      exact congrArg _ (funext fun e => ih downwards.2)

/-- What follows on a path is followed from where the path leads to. -/
theorem exists_follow_append (h : follow above here names = some e) :
    ∃ above', ∀ rest, follow above here (names ++ rest) = follow above' e rest := by
  induction names generalizing above here with
  | nil =>
    rw [follow] at h
    exact ⟨above, fun rest => by rw [List.nil_append, Option.some.inj h]⟩
  | cons name names ih =>
    cases here with
    | file f => cases h
    | directory es =>
      by_cases upwards : name = ".."
      · subst upwards
        cases above with
        | nil =>
          rw [follow_out] at h
          obtain ⟨above', all⟩ := ih h
          exact ⟨above', fun rest => by rw [List.cons_append, follow_out, all]⟩
        | cons up above =>
          rw [follow_up] at h
          obtain ⟨above', all⟩ := ih h
          exact ⟨above', fun rest => by rw [List.cons_append, follow_up, all]⟩
      · rw [follow_name upwards] at h
        obtain ⟨inner, bound, h⟩ := Option.bind_eq_some_iff.mp h
        obtain ⟨above', all⟩ := ih h
        refine ⟨above', fun rest => ?_⟩
        rw [List.cons_append, follow_name upwards, bound, Option.bind_some, all]

end Following

/-! ## The sources of a directory -/

/-- The ways to the sources in and below a directory, each by its names. -/
def trails (d : Entry) : List (List String) :=
  (sourceNames d.entries).map ([·])
    ++ (searchedDirectories d.entries).attach.flatMap fun e => (trails e.1.2).map (e.1.1 :: ·)
termination_by sizeOf d
decreasing_by exact sizeOf_lt_of_mem_entries (mem_of_mem_searchedDirectories e.2)

theorem trails_eq (d : Entry) : d.trails = (sourceNames d.entries).map ([·])
    ++ (searchedDirectories d.entries).flatMap fun e => e.2.trails.map (e.1 :: ·) := by
  rw [trails]
  congr 1
  conv => rhs; rw [← List.attach_map_subtype_val (searchedDirectories d.entries)]
  rw [List.flatMap_map]

/-- Discovery gives the paths of the trails. -/
theorem sources_eq_map_trails (path : Path) (d : Entry) :
    d.sources path = d.trails.map path.below := by
  rw [sources_eq, trails_eq, List.map_append, List.map_map, List.map_flatMap]
  refine congrArg _ (List.flatMap_congr fun e he => ?_)
  have := sizeOf_lt_of_mem_entries (mem_of_mem_searchedDirectories he)
  rw [sources_eq_map_trails (path.child e.1) e.2, List.map_map]
  refine List.map_congr_left fun names _ => ?_
  simp [Path.below, Path.child]
termination_by sizeOf d

section

variable {es : List (String × Entry)} {name : String}

theorem mem_sourceNames : name ∈ sourceNames es ↔
    (∃ f, (name, .file f) ∈ es) ∧ HasSourceSuffix name := by
  simp only [sourceNames, sorted, List.mem_map, List.mem_mergeSort, List.mem_filter,
    Bool.and_eq_true, isSourceName_iff]
  constructor
  · rintro ⟨⟨_, e⟩, ⟨mem, isFile, source⟩, rfl⟩
    cases e with
    | file f => exact ⟨⟨f, mem⟩, source⟩
    | directory es => cases isFile
  · rintro ⟨⟨f, mem⟩, source⟩
    exact ⟨_, ⟨mem, rfl, source⟩, rfl⟩

theorem mem_searchedDirectories {e : Entry} : (name, e) ∈ searchedDirectories es ↔
    (name, e) ∈ es ∧ e.isFile = false ∧ IsSearched name := by
  simp only [searchedDirectories, sorted, List.mem_mergeSort, List.mem_filter, Bool.and_eq_true,
    Bool.not_eq_true', isSearchedName_iff]

/-- Where names differ, an entry is found under its name. -/
theorem IsDistinct.lookup_eq_some_iff (h : (Entry.directory es).IsDistinct) {e : Entry} :
    es.lookup name = some e ↔ (name, e) ∈ es := by
  rw [List.lookup_eq_some_iff]
  constructor
  · rintro ⟨before, after, rfl, -⟩
    exact List.mem_append_right _ List.mem_cons_self
  · intro mem
    obtain ⟨before, after, rfl⟩ := List.append_of_mem mem
    refine ⟨before, after, rfl, fun other hother => bne_iff_ne.mpr fun same => ?_⟩
    have names := h.names
    rw [List.map_append, List.map_cons] at names
    exact (List.nodup_append.mp names).2.2 other.1 (List.mem_map_of_mem hother) name
      List.mem_cons_self same.symm

end

/-- The names lead from the directory to a source, through directories that are searched. -/
def LeadsToSource (d : Entry) (names : List String) : Prop :=
  ∃ dirs name, names = dirs ++ [name] ∧ (∃ f, d.at? names = some (.file f)) ∧
    (∀ dir ∈ dirs, IsSearched dir) ∧ HasSourceSuffix name

section

variable {es : List (String × Entry)} {name : String} {names : List String}

theorem LeadsToSource.ne_nil {d : Entry} (h : d.LeadsToSource names) : names ≠ [] := by
  obtain ⟨dirs, name, rfl, -⟩ := h
  simp

theorem leadsToSource_singleton {d : Entry} : d.LeadsToSource [name] ↔
    (∃ f, d.entries.lookup name = some (.file f)) ∧ HasSourceSuffix name := by
  constructor
  · rintro ⟨dirs, last, same, ⟨f, file⟩, -, source⟩
    obtain ⟨rfl, rfl⟩ : dirs = [] ∧ last = name := by
      cases dirs with
      | nil => simpa using same.symm
      | cons dir dirs => simp at same
    exact ⟨⟨f, by simpa [at?] using file⟩, source⟩
  · rintro ⟨⟨f, file⟩, source⟩
    exact ⟨[], name, rfl, ⟨f, by simpa [at?] using file⟩, List.forall_mem_nil _, source⟩

theorem leadsToSource_cons {d : Entry} (deeper : names ≠ []) : d.LeadsToSource (name :: names) ↔
    ∃ e, d.entries.lookup name = some e ∧ IsSearched name ∧ e.LeadsToSource names := by
  constructor
  · rintro ⟨dirs, last, same, ⟨f, file⟩, searched, source⟩
    cases dirs with
    | nil => exact absurd (List.cons.inj same).2 deeper
    | cons dir dirs =>
      obtain ⟨rfl, rfl⟩ := List.cons.inj same
      obtain ⟨here, below⟩ := List.forall_mem_cons.mp searched
      rw [at?_cons] at file
      obtain ⟨e, bound, file⟩ := Option.bind_eq_some_iff.mp file
      exact ⟨e, bound, here, dirs, last, rfl, ⟨f, file⟩, below, source⟩
  · rintro ⟨e, bound, here, dirs, last, rfl, ⟨f, file⟩, below, source⟩
    refine ⟨name :: dirs, last, rfl, ⟨f, ?_⟩, List.forall_mem_cons.mpr ⟨here, below⟩, source⟩
    rw [at?_cons, bound, Option.bind_some, file]

end

theorem trails_file (f : File) : (Entry.file f).trails = [] := by
  rw [trails_eq]
  simp [sourceNames, searchedDirectories, sorted, entries]

/-- The trails are the ways to sources through directories that are searched. -/
theorem mem_trails_iff {d : Entry} (h : d.IsDistinct) {names : List String} :
    names ∈ d.trails ↔ d.LeadsToSource names := by
  induction h generalizing names with
  | file f =>
    rw [trails_file]
    refine ⟨fun mem => (by cases mem), fun leads => ?_⟩
    obtain ⟨-, -, -, ⟨g, file⟩, -⟩ := id leads
    rw [at?_file leads.ne_nil] at file
    cases file
  | @directory es distinct inner ih =>
    have found {name e} : es.lookup name = some e ↔ (name, e) ∈ es :=
      (IsDistinct.directory distinct inner).lookup_eq_some_iff
    rw [trails_eq, List.mem_append, List.mem_map, List.mem_flatMap]
    constructor
    · rintro (⟨name, own, rfl⟩ | ⟨⟨name, e⟩, below, trail⟩)
      · obtain ⟨⟨f, mem⟩, source⟩ := mem_sourceNames.mp own
        exact leadsToSource_singleton.mpr ⟨⟨f, found.mpr mem⟩, source⟩
      · obtain ⟨mem, -, searched⟩ := mem_searchedDirectories.mp below
        obtain ⟨rest, hrest, rfl⟩ := List.mem_map.mp trail
        have leads := (ih _ mem).mp hrest
        exact (leadsToSource_cons leads.ne_nil).mpr ⟨e, found.mpr mem, searched, leads⟩
    · intro leads
      match names with
      | [] => exact absurd rfl leads.ne_nil
      | [name] =>
        obtain ⟨⟨f, bound⟩, source⟩ := leadsToSource_singleton.mp leads
        exact .inl ⟨name, mem_sourceNames.mpr ⟨⟨f, found.mp bound⟩, source⟩, rfl⟩
      | name :: next :: names =>
        obtain ⟨e, bound, searched, leads⟩ := (leadsToSource_cons (by simp)).mp leads
        have mem := found.mp bound
        have trail := (ih _ mem).mpr leads
        have isDirectory : e.isFile = false := by
          cases e with
          | file f => rw [trails_file] at trail; cases trail
          | directory es => rfl
        exact .inr ⟨(name, e), mem_searchedDirectories.mpr ⟨mem, isDirectory, searched⟩,
          List.mem_map_of_mem trail⟩

/-- Entries with different names are sorted into increasing order. -/
theorem pairwise_sorted {es : List (String × Entry)} (distinct : (es.map Prod.fst).Nodup) :
    (sorted es).Pairwise fun a b => a.1 < b.1 := by
  have ordered : (sorted es).Pairwise fun a b => decide (a.1 ≤ b.1) = true := by
    refine List.pairwise_mergeSort (fun a b c left right => ?_) (fun a b => ?_) es
    · exact decide_eq_true (le_trans (of_decide_eq_true left) (of_decide_eq_true right))
    · simpa using le_total a.1 b.1
  have differ : (sorted es).Pairwise fun a b => a.1 ≠ b.1 :=
    List.pairwise_map.mp (((List.mergeSort_perm es _).map Prod.fst).nodup_iff.mpr distinct)
  exact ordered.imp₂ (fun a b le ne => lt_of_le_of_ne (of_decide_eq_true le) ne) differ

theorem nodup_filter_names {es : List (String × Entry)} (distinct : (es.map Prod.fst).Nodup)
    (keep : String × Entry → Bool) : ((es.filter keep).map Prod.fst).Nodup :=
  distinct.sublist (List.filter_sublist.map _)

/-- The trails are in order. -/
theorem pairwise_trails {d : Entry} (h : d.IsDistinct) : d.trails.Pairwise Precedes := by
  induction h with
  | file f =>
    rw [trails_file]
    exact .nil
  | @directory es distinct inner ih =>
    have deeper {e} (mem : e ∈ searchedDirectories es) {names} (trail : names ∈ e.2.trails) :
        names ≠ [] :=
      ((mem_trails_iff (inner e (mem_of_mem_searchedDirectories mem))).mp trail).ne_nil
    rw [trails_eq, List.pairwise_append]
    refine ⟨?_, List.pairwise_flatMap.mpr ⟨fun e mem => ?_, ?_⟩, ?_⟩
    · have own := pairwise_sorted (nodup_filter_names distinct
        fun e => e.2.isFile && isSourceName e.1)
      rw [List.pairwise_map, sourceNames, List.pairwise_map]
      exact own.imp .files
    · exact List.pairwise_map.mpr ((ih e (mem_of_mem_searchedDirectories mem)).imp .inside)
    · have below := pairwise_sorted (nodup_filter_names distinct
        fun e => !e.2.isFile && isSearchedName e.1)
      refine List.Pairwise.imp_of_mem (fun {a b} ha hb lt => ?_) below
      intro x hx y hy
      obtain ⟨as, has, rfl⟩ := List.mem_map.mp hx
      obtain ⟨bs, hbs, rfl⟩ := List.mem_map.mp hy
      exact .directories lt (deeper ha has) (deeper hb hbs)
    · intro x hx y hy
      obtain ⟨name, -, rfl⟩ := List.mem_map.mp hx
      obtain ⟨e, he, hy⟩ := List.mem_flatMap.mp hy
      obtain ⟨names, hnames, rfl⟩ := List.mem_map.mp hy
      exact .filesFirst (deeper he hnames)

end Entry

/-! ## Paths -/

namespace FileTree

variable {t : FileTree} {p : Path}

/-- No directory of the tree has two entries of one name. -/
def IsDistinct (t : FileTree) : Prop := t.root.IsDistinct

/-- Below the path, the names lead to a source: a file of the tree, in directories that are searched,
with the suffix of a source. -/
def Offers (t : FileTree) (p : Path) (names : List String) : Prop :=
  ∃ dirs name, names = dirs ++ [name] ∧ (∃ f, t.get? (p.below names) = some (.file f)) ∧
    (∀ dir ∈ dirs, IsSearched dir) ∧ HasSourceSuffix name

/-- What a path stands for: a file for itself, nothing if there is nothing, and a directory for each
source that it offers, in order. -/
inductive StandsFor (t : FileTree) (p : Path) : List Path → Prop
  | file {f : File} (here : t.get? p = some (.file f)) : StandsFor t p [p]
  | nothing (absent : t.get? p = none) : StandsFor t p []
  | directory {es : List (String × Entry)} {trails : List (List String)}
      (here : t.get? p = some (.directory es)) (offered : ∀ names, names ∈ trails ↔ t.Offers p names)
      (ordered : trails.Pairwise Precedes) (once : (trails.map p.below).Nodup) :
      StandsFor t p (trails.map p.below)

theorem IsDistinct.of_get? (h : t.IsDistinct) {e : Entry} (he : t.get? p = some e) :
    e.IsDistinct := Entry.of_follow (fun _ => Entry.IsDistinct.inner) (List.forall_mem_nil _) h he

theorem way_below (names : List String) : t.way (p.below names) = t.way p ++ names := by
  unfold way Path.below
  split <;> simp

/-- What is below a directory of the tree is below its path. -/
theorem get?_below {e : Entry} (he : t.get? p = some e) {names : List String}
    (downwards : ".." ∉ names) : t.get? (p.below names) = e.at? names := by
  obtain ⟨above, all⟩ := Entry.exists_follow_append he
  rw [get?, way_below, all, Entry.follow_eq_at? downwards]

theorem not_mem_upwards {dirs : List String} {name : String} (searched : ∀ dir ∈ dirs, IsSearched dir)
    (source : HasSourceSuffix name) : ".." ∉ dirs ++ [name] := by
  intro mem
  rcases List.mem_append.mp mem with mem | mem
  · exact (searched ".." mem).2 (by decide)
  · rw [← List.mem_singleton.mp mem] at source
    exact absurd (isSourceName_iff.mpr source) (by decide +kernel)

theorem offers_iff {e : Entry} (he : t.get? p = some e) {names : List String} :
    t.Offers p names ↔ e.LeadsToSource names := by
  refine exists₂_congr fun dirs name => and_congr_right fun same => ?_
  subst same
  constructor
  · rintro ⟨file, searched, source⟩
    rw [get?_below he (not_mem_upwards searched source)] at file
    exact ⟨file, searched, source⟩
  · rintro ⟨file, searched, source⟩
    rw [get?_below he (not_mem_upwards searched source)]
    exact ⟨file, searched, source⟩

theorem standsFor_sourcesAt (h : t.IsDistinct) (p : Path) : t.StandsFor p (t.sourcesAt p) := by
  unfold sourcesAt
  split
  · next f here => exact .file here
  · next es here =>
    have distinct := h.of_get? here
    have ordered := Entry.pairwise_trails distinct
    rw [Entry.sources_eq_map_trails]
    refine .directory here (fun names => ?_) ordered ?_
    · rw [offers_iff here, Entry.mem_trails_iff distinct]
    · refine List.Nodup.map p.below_injective (ordered.imp fun precedes same => ?_)
      exact Precedes.irrefl (same ▸ precedes)
  · next absent => exact .nothing absent

end FileTree

/-! ## Trees that are put together -/

namespace Entry

variable {es : List (String × Entry)} {name : String} {e : Entry}

theorem mem_bind {other : String × Entry} (mem : other ∈ bind name e es) :
    other = (name, e) ∨ other ∈ es := by
  induction es with
  | nil => exact .inl (List.mem_singleton.mp mem)
  | cons first es ih =>
    rw [bind] at mem
    split at mem
    · exact (List.mem_cons.mp mem).imp_right (List.mem_cons_of_mem _)
    · rcases List.mem_cons.mp mem with rfl | mem
      · exact .inr List.mem_cons_self
      · exact (ih mem).imp_right (List.mem_cons_of_mem _)

theorem nodup_bind (distinct : (es.map Prod.fst).Nodup) :
    ((bind name e es).map Prod.fst).Nodup := by
  induction es with
  | nil => simp [bind]
  | cons first es ih =>
    rw [List.map_cons, List.nodup_cons] at distinct
    rw [bind]
    split
    · next same => rw [List.map_cons, List.nodup_cons, ← same]; exact distinct
    · next other =>
      rw [List.map_cons, List.nodup_cons]
      refine ⟨fun mem => ?_, ih distinct.2⟩
      obtain ⟨found, hfound, same⟩ := List.mem_map.mp mem
      rcases mem_bind hfound with rfl | old
      · exact other same.symm
      · exact distinct.1 (same ▸ List.mem_map_of_mem old)

theorem isDistinct_bind (h : (Entry.directory es).IsDistinct) (he : e.IsDistinct) :
    (Entry.directory (bind name e es)).IsDistinct := by
  refine .directory (nodup_bind h.names) fun other mem => ?_
  rcases mem_bind mem with rfl | old
  · exact he
  · exact h.inner other old

theorem isDistinct_insertAt (h : (Entry.directory es).IsDistinct) (he : e.IsDistinct)
    (names : List String) : (Entry.directory (insertAt names e es)).IsDistinct := by
  fun_induction insertAt names e es with
  | case1 => exact h
  | case2 => exact h
  | case3 => exact isDistinct_bind h he
  | case4 name rest e es _ ih =>
    refine isDistinct_bind h (ih ?_ he)
    cases bound : es.lookup name with
    | none => exact .directory List.nodup_nil (List.forall_mem_nil _)
    | some inner =>
      have distinct := h.inner _ (h.lookup_eq_some_iff.mp bound)
      cases inner with
      | file f => exact .directory List.nodup_nil (List.forall_mem_nil _)
      | directory es => exact distinct

end Entry

namespace FileTree

variable {t : FileTree}

theorem isDistinct_new (working : List String) : (new working).IsDistinct := by
  have bare : (Entry.directory []).IsDistinct := .directory List.nodup_nil (List.forall_mem_nil _)
  exact Entry.isDistinct_insertAt bare bare working

/-- Putting something in a tree keeps its names different. -/
theorem IsDistinct.insert (h : t.IsDistinct) (p : Path) {e : Entry}
    (he : e.IsDistinct) : (t.insert p e).IsDistinct := Entry.isDistinct_insertAt h he _

/-! ## What a scan finds -/

/-- A list of paths stands for what each of them stands for, one after the other. -/
theorem sources_exact (h : t.IsDistinct) (paths : List Path) :
    ∃ lists, t.sources paths = lists.flatten ∧ List.Forall₂ t.StandsFor paths lists := by
  refine ⟨paths.map t.sourcesAt, List.flatMap_def, ?_⟩
  rw [List.forall₂_map_right_iff]
  exact List.forall₂_same.mpr fun p _ => standsFor_sourcesAt h p

/-- In the working directory, a suffix in capitals in `src` and a hidden file in `src/lib`, with
directories in both that are not searched; beside it, a directory with a source and a file in
`dist`. -/
def mixedTree : FileTree :=
  [["work", "src", "z.JS"], ["work", "src", ".js"], ["work", "src", "lib", ".b.jsx"],
    ["work", "src", "lib", "dist", "d.js"], ["work", "src", "node_modules", "c.js"],
    ["dist", "e.cjs"], ["dist", "notes.txt"]].foldl
    (fun t names => t.insert ⟨.slash, names⟩ (.file ⟨⟨.empty⟩, none⟩)) (.new ["work"])

theorem isDistinct_mixedTree : mixedTree.IsDistinct :=
  List.foldlRecOn _ _ (isDistinct_new _) fun _ h names _ => h.insert ⟨.slash, names⟩ (.file _)

/-- A directory that a path names is searched, whatever its name, and so is a file scanned.  Paths
may begin at the first directory or go upwards. -/
theorem mixedTree_sources :
    let paths := ["src", "/dist/notes.txt", "../dist", "none"].map Path.ofString
    mixedTree.IsDistinct ∧
      (mixedTree.sources paths).map Path.toString =
        ["src/z.JS", "src/lib/.b.jsx", "/dist/notes.txt", "../dist/e.cjs"] ∧
      ∃ lists, mixedTree.sources paths = lists.flatten ∧
        List.Forall₂ mixedTree.StandsFor paths lists :=
  ⟨isDistinct_mixedTree, by decide +kernel, sources_exact isDistinct_mixedTree _⟩

end FileTree

end FreeNames
