import FreeNames.Settings.Store

/-!
# Environments and loadings

What setting a variable does to the others, when settings are valid, and what a package that loads
files of variables promises.

* `Environment.CanStand` are the names and values that an environment takes
  (`Environment.trySet_of_canStand`, `Environment.trySet_of_not_canStand`).
* `Environment.validate_eq_ok_iff`: the settings are valid exactly if the two that take one of a few
  words have one of them.
* `Loader.IsSound` is the promise: variables that are set are left alone, and the others are set if
  that is possible.  `Loader.oneLine` keeps it (`Loader.oneLine_cases`).
-/

namespace FreeNames

namespace Environment

variable {env : Environment} {name other value : Text}

/-! ## Variables -/

theorem get?_unset_of_ne (h : other ≠ name) : (env.unset name).get? other = env.get? other := by
  obtain ⟨entries⟩ := env
  show (entries.filter fun v => v.1 ≠ name).lookup other = entries.lookup other
  induction entries with
  | nil => rfl
  | cons v entries ih =>
    obtain ⟨key, held⟩ := v
    by_cases drop : key = name
    · have skip : (other == key) = false := beq_false_of_ne (drop ▸ h)
      rw [List.filter_cons_of_neg (by simpa using drop), ih, List.lookup_cons, skip]
    · rw [List.filter_cons_of_pos (by simpa using drop), List.lookup_cons, List.lookup_cons, ih]

theorem get?_set_self : (env.set name value).get? name = some value := List.lookup_cons_self

theorem get?_set_of_ne (h : other ≠ name) : (env.set name value).get? other = env.get? other := by
  have skip : (other == name) = false := beq_false_of_ne h
  rw [get?, set, List.lookup_cons, skip]
  exact get?_unset_of_ne h

/-- Can a variable of this name and with this value stand in an environment? -/
structure CanStand (name value : Text) : Prop where
  name : 0 ∉ name.points ∧ 0x3D ∉ name.points
  value : 0 ∉ value.points

theorem trySet_of_canStand (h : CanStand name value) :
    env.trySet name value = .ok (env.set name value) := by
  rw [trySet, if_neg (by simp [h.name.1, h.value]), if_neg (by simp [h.name.2])]

theorem trySet_of_not_canStand (env : Environment) (h : ¬ CanStand name value) :
    ∃ e, env.trySet name value = .error e := by
  rw [trySet]
  split
  · exact ⟨_, rfl⟩
  · next zero =>
    split
    · exact ⟨_, rfl⟩
    · next equals =>
      simp only [Bool.or_eq_true, List.contains_iff_mem, not_or] at zero equals
      exact absurd ⟨⟨zero.1, equals⟩, zero.2⟩ h

/-- Those of the variables that are not set can be. -/
def CanTake (env : Environment) (offered : List (Text × Text)) : Prop :=
  ∀ v ∈ offered, env.get? v.1 = none → CanStand v.1 v.2

/-! ## Settings -/

/-- The two settings that take one of a few words have one of them. -/
structure IsAllowed (env : Environment) : Prop where
  format : env.format ∈ OutputFormat.all.map OutputFormat.name
  arrowMode : env.arrowMode ∈ [reportWord, ignoreWord]

theorem validate_eq_ok_iff : env.validate = .ok () ↔ env.IsAllowed := by
  have format : (OutputFormat.ofName? env.format).isNone = false ↔
      env.format ∈ OutputFormat.all.map OutputFormat.name := by
    rw [Option.isNone_eq_false_iff, OutputFormat.ofName?, List.find?_isSome, List.mem_map]
    simp only [decide_eq_true_eq]
  have arrow : (env.arrowMode = reportWord || env.arrowMode = ignoreWord) = true ↔
      env.arrowMode ∈ [reportWord, ignoreWord] := by simp
  rw [validate]
  constructor
  · intro valid
    split at valid
    · cases valid
    · next known =>
      split at valid
      · next allowed => exact ⟨format.mp (Bool.not_eq_true _ ▸ known), arrow.mp allowed⟩
      · cases valid
  · intro allowed
    rw [if_neg (by simp [format.mpr allowed.format]), if_pos (arrow.mpr allowed.arrowMode)]

end Environment

/-! ## Loaders -/

namespace Loader

/-- What the package promises of the variables to which a file gives a value. -/
structure IsSound (l : Loader) : Prop where
  /-- A variable that is set keeps its value, whether the loading completes or not. -/
  keeps : ∀ file env name value, env.get? name = some value →
    (l.load file env).2.get? name = some value
  /-- The loading completes exactly if those that are not set can be. -/
  completes_iff : ∀ file env, (l.load file env).1 = .ok () ↔ env.CanTake (l.values file env)
  /-- They are set then. -/
  sets : ∀ file env, (l.load file env).1 = .ok () → ∀ name value,
    (name, value) ∈ l.values file env → env.get? name = none →
      (l.load file env).2.get? name = some value

/-- The variable of a line with an equals sign.  The name may stand between single marks. -/
def lineVariable? (line : List Nat) : Option (Text × Text) :=
  let (name, rest) := match line with
    | 0x27 :: inner => (inner.takeWhile (· ≠ 0x27), (inner.dropWhile (· ≠ 0x27)).drop 1)
    | _ => (line.takeWhile (· ≠ 0x3D), line.dropWhile (· ≠ 0x3D))
  match rest with
  | 0x3D :: value => some (⟨name⟩, ⟨value⟩)
  | _ => none

/-- A loader of files with a single line. -/
def oneLine : Loader where
  values file _ := (lineVariable? (file.points.takeWhile (· ≠ 0x0A))).toList
  load file env :=
    match lineVariable? (file.points.takeWhile (· ≠ 0x0A)) with
    | none => (.ok (), env)
    | some (name, value) =>
      if (env.get? name).isSome then (.ok (), env)
      else
        match env.trySet name value with
        | .ok env => (.ok (), env)
        | .error e => (.error e, env)

/-- All that loading a single line can do. -/
theorem oneLine_cases (file : Text) (env : Environment) :
    (oneLine.values file env = [] ∧ oneLine.load file env = (.ok (), env)) ∨
    ∃ name value, oneLine.values file env = [(name, value)] ∧
      ((∃ held, env.get? name = some held) ∧ oneLine.load file env = (.ok (), env) ∨
        env.get? name = none ∧ Environment.CanStand name value ∧
          oneLine.load file env = (.ok (), env.set name value) ∨
        env.get? name = none ∧ ¬ Environment.CanStand name value ∧
          ∃ e, oneLine.load file env = (.error e, env)) := by
  simp only [oneLine]
  cases lineVariable? (file.points.takeWhile (· ≠ 0x0A)) with
  | none => exact .inl ⟨rfl, rfl⟩
  | some v =>
    obtain ⟨name, value⟩ := v
    refine .inr ⟨name, value, rfl, ?_⟩
    cases held : env.get? name with
    | some before =>
      refine .inl ⟨⟨before, rfl⟩, ?_⟩
      simp only [held, Option.isSome_some, if_true]
    | none =>
      refine .inr ?_
      simp only [held, Option.isSome_none, Bool.false_eq_true, if_false]
      by_cases stands : Environment.CanStand name value
      · rw [Environment.trySet_of_canStand stands]
        exact .inl ⟨trivial, stands, rfl⟩
      · obtain ⟨e, refused⟩ := Environment.trySet_of_not_canStand env stands
        rw [refused]
        exact .inr ⟨trivial, stands, e, rfl⟩

theorem isSound_oneLine : oneLine.IsSound where
  keeps := by
    intro file env name value held
    obtain ⟨-, load⟩ | ⟨key, given, -, ⟨-, load⟩ | ⟨unset, -, load⟩ | ⟨-, -, e, load⟩⟩ :=
      oneLine_cases file env
    · rwa [load]
    · rwa [load]
    · have differs : name ≠ key := by
        rintro rfl
        rw [held] at unset
        cases unset
      rw [load]
      exact (Environment.get?_set_of_ne differs).trans held
    · rwa [load]
  completes_iff := by
    intro file env
    rw [Environment.CanTake]
    obtain ⟨nothing, load⟩ | ⟨key, given, line, cases⟩ := oneLine_cases file env
    · rw [nothing, load]
      exact iff_of_true rfl (List.forall_mem_nil _)
    · rw [line, List.forall_mem_singleton]
      obtain ⟨⟨before, set⟩, load⟩ | ⟨-, stands, load⟩ | ⟨unset, never, e, load⟩ := cases
      · rw [load, set]
        exact iff_of_true rfl nofun
      · rw [load]
        exact iff_of_true rfl fun _ => stands
      · rw [load, imp_iff_right unset]
        exact iff_of_false nofun never
  sets := by
    intro file env complete name value mem unset
    obtain ⟨nothing, -⟩ | ⟨key, given, line, cases⟩ := oneLine_cases file env
    · rw [nothing] at mem
      cases mem
    · rw [line, List.mem_singleton] at mem
      obtain ⟨rfl, rfl⟩ := Prod.mk.inj mem
      obtain ⟨⟨before, set⟩, -⟩ | ⟨-, -, load⟩ | ⟨-, -, e, load⟩ := cases
      · rw [unset] at set
        cases set
      · rw [load]
        exact Environment.get?_set_self
      · rw [load] at complete
        cases complete

end Loader

end FreeNames
