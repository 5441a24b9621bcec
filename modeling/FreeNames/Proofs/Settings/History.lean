import FreeNames.Proofs.Settings.Loading
import Mathlib

/-!
# Settings over whole runs

What a settings store does after any sequence of actions, told by the answers that the actions had.

* `SettingsStore.construct_cases` is all that making an object can do.
* `SettingsStore.firstGet` picks from a history the object that is to be held: the first that was
  asked for with success since the last reset.  `SettingsStore.held_run` says that it is held.
* `SettingsStore.Follows` gathers what is true of a store after a history, and
  `SettingsStore.follows_run` says that it is true after every run, whatever package loads the
  project's file, if it keeps its promise.

Making an object also fails if a variable of the file cannot be set, whatever the settings are, as
`quotedName_refused` shows: a name in quotation marks may hold an equals sign, and no environment
has a variable of such a name.
-/

namespace FreeNames

namespace SettingsStore

/-! ## Actions -/

/-- What can be done: set or unset a variable, drop the object that is held, make an object, ask for
the one that is held, or read the settings through an object. -/
inductive Action where
  | set (name value : Text)
  | unset (name : Text)
  | reset
  | construct
  | get
  | read (object : Nat)
  deriving DecidableEq, Repr

/-- What comes back. -/
inductive Answer where
  | done
  | object (n : Nat)
  | refused (e : SettingError)
  | settings (s : Settings)
  deriving DecidableEq, Repr

/-- The answer to asking for an object. -/
def Answer.ofResult : Except SettingError Nat → Answer
  | .ok n => .object n
  | .error e => .refused e

/-- The answer to setting a variable. -/
def Answer.ofSetting : Except SettingError Unit → Answer
  | .ok () => .done
  | .error e => .refused e

/-- Carry out an action. -/
def step (s : SettingsStore) : Action → Answer × SettingsStore
  | .set name value => (.ofSetting (s.set name value).1, (s.set name value).2)
  | .unset name => (.done, s.unset name)
  | .reset => (.done, s.reset)
  | .construct => (.ofResult s.construct.1, s.construct.2)
  | .get => (.ofResult s.get.1, s.get.2)
  | .read _ => (.settings s.read, s)

/-- Carry out actions one after the other. -/
def run (s : SettingsStore) (actions : List Action) : SettingsStore :=
  actions.foldl (fun s a => (s.step a).2) s

/-- The actions with their answers. -/
def history (s : SettingsStore) : List Action → List (Action × Answer)
  | [] => []
  | a :: rest => (a, (s.step a).1) :: (s.step a).2.history rest

variable {s : SettingsStore} {name value : Text} {n : Nat}

theorem run_concat (actions : List Action) (a : Action) :
    s.run (actions ++ [a]) = ((s.run actions).step a).2 := List.foldl_concat ..

theorem history_concat (actions : List Action) (a : Action) :
    s.history (actions ++ [a]) = s.history actions ++ [(a, ((s.run actions).step a).1)] := by
  induction actions generalizing s with
  | nil => rfl
  | cons b rest ih => rw [List.cons_append, history, ih]; rfl

/-! ## Setting variables -/

/-- A variable is set, or nothing happens. -/
theorem set_cases (s : SettingsStore) (name value : Text) :
    s.set name value = (.ok (), { s with environment := s.environment.set name value }) ∨
      ∃ e, s.set name value = (.error e, s) := by
  rw [set]
  by_cases stands : Environment.CanStand name value
  · rw [Environment.trySet_of_canStand stands]
    exact .inl rfl
  · obtain ⟨e, refused⟩ := Environment.trySet_of_not_canStand s.environment stands
    rw [refused]
    exact .inr ⟨e, rfl⟩

theorem set_loading : (s.set name value).2.loading = s.loading := by
  obtain set | ⟨e, set⟩ := s.set_cases name value <;> rw [set]

theorem set_held : (s.set name value).2.held = s.held := by
  obtain set | ⟨e, set⟩ := s.set_cases name value <;> rw [set]

theorem set_made : (s.set name value).2.made = s.made := by
  obtain set | ⟨e, set⟩ := s.set_cases name value <;> rw [set]

/-! ## Making objects -/

/-- Making an object loads the file and gives the next number, if the loading completes and the
settings are valid then.  Otherwise it refuses and has loaded what it could. -/
theorem construct_cases (s : SettingsStore) :
    ((s.loading s.environment).1 = .ok () ∧ (s.loading s.environment).2.IsAllowed) ∧
      s.construct = (.ok s.made,
        { s with environment := (s.loading s.environment).2, made := s.made + 1 }) ∨
    ¬ ((s.loading s.environment).1 = .ok () ∧ (s.loading s.environment).2.IsAllowed) ∧
      ∃ e, s.construct = (.error e, { s with environment := (s.loading s.environment).2 }) := by
  rw [construct]
  obtain ⟨result, env⟩ := s.loading s.environment
  cases result with
  | error e => exact .inr ⟨fun both => (by cases both.1), e, rfl⟩
  | ok _ =>
    rw [← Environment.validate_eq_ok_iff]
    cases valid : env.validate with
    | ok _ => exact .inl ⟨⟨rfl, rfl⟩, by simp only [valid]⟩
    | error e => exact .inr ⟨fun both => (by cases both.2), e, by simp only [valid]⟩

theorem construct_environment : s.construct.2.environment = (s.loading s.environment).2 := by
  obtain ⟨-, made⟩ | ⟨-, e, made⟩ := s.construct_cases <;> rw [made]

theorem construct_loading : s.construct.2.loading = s.loading := by
  obtain ⟨-, made⟩ | ⟨-, e, made⟩ := s.construct_cases <;> rw [made]

theorem construct_held : s.construct.2.held = s.held := by
  obtain ⟨-, made⟩ | ⟨-, e, made⟩ := s.construct_cases <;> rw [made]

theorem made_le_construct : s.made ≤ s.construct.2.made := by
  obtain ⟨-, made⟩ | ⟨-, e, made⟩ := s.construct_cases
  · rw [made]
    exact Nat.le_succ _
  · have same : s.construct.2.made = s.made := by rw [made]
    exact Nat.le_of_eq same.symm

theorem eq_made_of_construct (h : s.construct.1 = .ok n) :
    n = s.made ∧ s.construct.2.made = n + 1 := by
  obtain ⟨-, made⟩ | ⟨-, e, made⟩ := s.construct_cases
  · rw [made] at h ⊢
    cases h
    exact ⟨rfl, rfl⟩
  · rw [made] at h
    cases h

/-- An object is made exactly if loading completes and the two settings have words they take. -/
theorem exists_construct_iff : (∃ n, s.construct.1 = .ok n) ↔
    (s.loading s.environment).1 = .ok () ∧ s.construct.2.environment.IsAllowed := by
  rw [construct_environment]
  obtain ⟨valid, made⟩ | ⟨invalid, e, made⟩ := s.construct_cases
  · rw [made]
    exact iff_of_true ⟨_, rfl⟩ valid
  · rw [made]
    exact iff_of_false nofun invalid

theorem get_of_held (h : s.held = some n) : s.get = (.ok n, s) := by
  rw [get, h]

/-- Without an object that is held, asking for it makes one, and holds it. -/
theorem get_of_not_held (h : s.held = none) :
    (∃ n, s.construct.1 = .ok n ∧ s.get = (.ok n, { s.construct.2 with held := some n })) ∨
    ∃ e, s.construct.1 = .error e ∧ s.get = (.error e, s.construct.2) := by
  rw [get, h]
  obtain ⟨result, s'⟩ := s.construct
  cases result with
  | ok n => exact .inl ⟨n, rfl, rfl⟩
  | error e => exact .inr ⟨e, rfl, rfl⟩

/-- Asking for the object that is held changes nothing, or as much as making one, but for what is
held. -/
theorem get_snd_cases (s : SettingsStore) :
    s.get.2 = s ∨ ∃ held, s.get.2 = { s.construct.2 with held := held } := by
  cases held : s.held with
  | some n =>
    rw [get_of_held held]
    exact .inl rfl
  | none =>
    obtain ⟨n, -, got⟩ | ⟨e, -, got⟩ := get_of_not_held held
    · rw [got]
      exact .inr ⟨some n, rfl⟩
    · rw [got]
      exact .inr ⟨s.construct.2.held, rfl⟩

/-! ## Variables along a run -/

section

variable {l : Loader} {file : Text}

/-- A step leaves a variable set unless it unsets that variable. -/
theorem isSome_get?_step (sound : l.IsSound) (loads : s.loading = l.load file) {a : Action}
    (h : (s.environment.get? name).isSome) (other : a ≠ .unset name) :
    ((s.step a).2.environment.get? name).isSome := by
  have constructed : (s.construct.2.environment.get? name).isSome := by
    obtain ⟨value, held⟩ := Option.isSome_iff_exists.mp h
    rw [construct_environment, loads, sound.keeps file s.environment name value held]
    rfl
  cases a with
  | set key value =>
    show ((s.set key value).2.environment.get? name).isSome
    obtain set | ⟨e, set⟩ := s.set_cases key value
    · rw [set]
      by_cases same : name = key
      · rw [same, Environment.get?_set_self]
        rfl
      · rwa [Environment.get?_set_of_ne same]
    · rwa [set]
  | unset key =>
    show ((s.environment.unset key).get? name).isSome
    have differs : name ≠ key := fun same => other (congrArg Action.unset same.symm)
    rwa [Environment.get?_unset_of_ne differs]
  | reset => exact h
  | construct => exact constructed
  | get =>
    show (s.get.2.environment.get? name).isSome
    obtain same | ⟨held, got⟩ := s.get_snd_cases
    · rwa [same]
    · rwa [got]
  | read n => exact h

theorem step_loading (a : Action) : (s.step a).2.loading = s.loading := by
  cases a with
  | set => exact set_loading
  | construct => exact construct_loading
  | get =>
    show s.get.2.loading = s.loading
    obtain same | ⟨held, got⟩ := s.get_snd_cases
    · rw [same]
    · rw [got]
      exact construct_loading
  | _ => rfl

theorem run_loading (actions : List Action) : (s.run actions).loading = s.loading := by
  induction actions using List.reverseRecOn with
  | nil => rfl
  | append_singleton actions a ih => rw [run_concat, step_loading, ih]

theorem isSome_get?_run (sound : l.IsSound) (loads : s.loading = l.load file)
    {actions : List Action} (h : (s.environment.get? name).isSome) (never : .unset name ∉ actions) :
    ((s.run actions).environment.get? name).isSome := by
  induction actions generalizing s with
  | nil => exact h
  | cons a rest ih =>
    obtain ⟨first, never⟩ := List.ne_and_not_mem_of_not_mem_cons never
    have loads' : (s.step a).2.loading = l.load file := (step_loading a).trans loads
    exact ih loads' (isSome_get?_step sound loads h first.symm) never

end

/-! ## The object that is held -/

/-- The object that was asked for with success. -/
def gotten? : Action × Answer → Option Nat
  | (.get, .object n) => some n
  | _ => none

/-- What happened since the last reset. -/
def sinceReset (history : List (Action × Answer)) : List (Action × Answer) :=
  (history.reverse.takeWhile fun e => e.1 ≠ .reset).reverse

/-- The first object that was asked for with success since the last reset. -/
def firstGet (history : List (Action × Answer)) : Option Nat :=
  (sinceReset history).findSome? gotten?

theorem firstGet_concat (history : List (Action × Answer)) (e : Action × Answer) :
    firstGet (history ++ [e]) = if e.1 = .reset then none else (firstGet history).or (gotten? e) := by
  unfold firstGet sinceReset
  rw [List.reverse_concat]
  by_cases reset : e.1 = .reset
  · rw [List.takeWhile_cons_of_neg (by simpa using reset), if_pos reset]
    rfl
  · rw [List.takeWhile_cons_of_pos (by simpa using reset), if_neg reset, List.reverse_cons,
      List.findSome?_append, List.findSome?_singleton]

theorem exists_of_firstGet {history : List (Action × Answer)} (h : firstGet history = some n) :
    ∃ e ∈ history, e.2 = .object n := by
  obtain ⟨e, mem, got⟩ := List.exists_of_findSome?_eq_some h
  refine ⟨e, ?_, ?_⟩
  · exact List.mem_reverse.mp ((List.takeWhile_sublist _).subset (List.mem_reverse.mp mem))
  · unfold gotten? at got
    split at got
    · cases got
      rfl
    · cases got

/-- One action changes what is held as it changes the first object asked for. -/
theorem step_held (s : SettingsStore) (a : Action) : (s.step a).2.held =
    if a = .reset then none else s.held.or (gotten? (a, (s.step a).1)) := by
  cases a with
  | reset => rfl
  | get =>
    rw [if_neg nofun]
    show s.get.2.held = s.held.or (gotten? (.get, .ofResult s.get.1))
    cases held : s.held with
    | some n => rw [get_of_held held, held]; rfl
    | none =>
      obtain ⟨n, -, got⟩ | ⟨e, -, got⟩ := get_of_not_held held
      · rw [got]
        rfl
      · rw [got]
        exact construct_held.trans held
  | construct =>
    rw [if_neg nofun]
    exact construct_held.trans (Option.or_none ..).symm
  | set =>
    rw [if_neg nofun]
    exact set_held.trans (Option.or_none ..).symm
  | _ =>
    rw [if_neg nofun]
    exact (Option.or_none ..).symm

theorem held_run (loading : Environment → Except SettingError Unit × Environment)
    (actions : List Action) :
    ((new loading).run actions).held = firstGet ((new loading).history actions) := by
  induction actions using List.reverseRecOn with
  | nil => rfl
  | append_singleton actions a ih =>
    rw [run_concat, history_concat, firstGet_concat, step_held, ih]

theorem construct_of_ofResult {r : Except SettingError Nat} (h : Answer.ofResult r = .object n) :
    r = .ok n := by
  cases r with
  | ok m => cases h; rfl
  | error e => cases h

/-- An action answers with the object that is held, or with the next. -/
theorem step_object {a : Action} (h : (s.step a).1 = .object n) :
    s.held = some n ∨ n = s.made ∧ (s.step a).2.made = n + 1 := by
  cases a with
  | construct => exact .inr (eq_made_of_construct (construct_of_ofResult h))
  | get =>
    have got : s.get.1 = .ok n := construct_of_ofResult h
    cases held : s.held with
    | some m =>
      rw [get_of_held held] at got
      cases got
      exact .inl rfl
    | none =>
      obtain ⟨m, made, new⟩ | ⟨e, -, failed⟩ := get_of_not_held held
      · rw [new] at got
        cases got
        obtain ⟨next, count⟩ := eq_made_of_construct made
        refine .inr ⟨next, ?_⟩
        show s.get.2.made = n + 1
        rwa [new]
      · rw [failed] at got
        cases got
  | set name value =>
    obtain set | ⟨e, set⟩ := s.set_cases name value
    · rw [step, set] at h
      cases h
    · rw [step, set] at h
      cases h
  | _ => cases h

theorem made_le_step (s : SettingsStore) (a : Action) : s.made ≤ (s.step a).2.made := by
  cases a with
  | construct => exact made_le_construct
  | get =>
    show s.made ≤ s.get.2.made
    obtain same | ⟨held, got⟩ := s.get_snd_cases
    · exact Nat.le_of_eq (congrArg made same).symm
    · rw [got]
      exact made_le_construct
  | set => exact Nat.le_of_eq set_made.symm
  | _ => exact Nat.le_refl _

/-- The objects of a history have numbers below the number of objects made. -/
theorem lt_made_of_mem {loading : Environment → Except SettingError Unit × Environment}
    {actions : List Action} {e : Action × Answer} (mem : e ∈ (new loading).history actions)
    (h : e.2 = .object n) : n < ((new loading).run actions).made := by
  induction actions using List.reverseRecOn generalizing e n with
  | nil => cases mem
  | append_singleton actions a ih =>
    rw [run_concat]
    rw [history_concat] at mem
    have before := made_le_step ((new loading).run actions) a
    rcases List.mem_append.mp mem with mem | mem
    · exact Nat.lt_of_lt_of_le (ih mem h) before
    · cases List.mem_singleton.mp mem
      obtain held | ⟨-, next⟩ := step_object h
      · -- the object that is held has been answered before
        rw [held_run] at held
        obtain ⟨e, mem, object⟩ := exists_of_firstGet held
        exact Nat.lt_of_lt_of_le (ih mem object) before
      · rw [next]
        exact Nat.lt_succ_self n

/-! ## Whole runs -/

/-- What is true after this history of a store whose file gives values to these variables. -/
structure Follows (s : SettingsStore) (values : Environment → List (Text × Text))
    (history : List (Action × Answer)) : Prop where
  /-- An object is made exactly if each variable to which the file gives a value is set or can be,
  and the two settings that take one of a few words have one of them then. -/
  construct_iff : (∃ n, s.construct.1 = .ok n) ↔
    s.environment.CanTake (values s.environment) ∧ s.construct.2.environment.IsAllowed
  /-- Making an object keeps all variables that are set, whether it succeeds or not. -/
  keeps : ∀ name value, s.environment.get? name = some value →
    s.construct.2.environment.get? name = some value
  /-- If each of them is set or can be, making an object sets every variable to which the file gives
  a value, whether it succeeds or not, and they stay set until they are unset. -/
  sets : s.environment.CanTake (values s.environment) → ∀ name value,
    (name, value) ∈ values s.environment →
      s.construct.2.environment.get? name = some ((s.environment.get? name).getD value) ∧
      ∀ actions, .unset name ∉ actions →
        ((s.construct.2.run actions).environment.get? name).isSome
  /-- The first object asked for since the last reset is held. -/
  held : s.held = firstGet history
  /-- An object that is held is the answer, and nothing happens. -/
  get_held : ∀ n, s.held = some n → s.step .get = (.object n, s)
  /-- If none is held, one is made, with the same effect on the environment. -/
  get_made : s.held = none → s.get.1 = s.construct.1 ∧
    s.get.2.environment = s.construct.2.environment
  /-- What is made is new. -/
  made_new : ∀ n, s.construct.1 = .ok n → ∀ e ∈ history, e.2 ≠ .object n
  /-- Making an object does not change what is held, nor does any refusal. -/
  construct_held : s.construct.2.held = s.held
  refused_held : ∀ a e, (s.step a).1 = .refused e → (s.step a).2.held = s.held
  /-- Asking succeeds whenever an object is held or could be made. -/
  get_iff : (∃ n, s.get.1 = .ok n) ↔ s.held.isSome ∨
    s.environment.CanTake (values s.environment) ∧ s.construct.2.environment.IsAllowed
  /-- All objects read what the environment says. -/
  reads : ∀ n, s.step (.read n) = (.settings s.environment.settings, s)

theorem get_made (h : s.held = none) :
    s.get.1 = s.construct.1 ∧ s.get.2.environment = s.construct.2.environment := by
  obtain ⟨n, made, got⟩ | ⟨e, made, got⟩ := get_of_not_held h
  · rw [got, made]
    exact ⟨rfl, rfl⟩
  · rw [got, made]
    exact ⟨rfl, rfl⟩

theorem refused_held {a : Action} {e : SettingError} (h : (s.step a).1 = .refused e) :
    (s.step a).2.held = s.held := by
  rw [step_held]
  cases a with
  | get =>
    rw [if_neg nofun, h]
    exact Option.or_none
  | construct =>
    rw [if_neg nofun]
    exact Option.or_none
  | set =>
    rw [if_neg nofun]
    exact Option.or_none
  | _ => cases h

/-- A store is as a history says that has told what is held and has no object that is yet to be
made. -/
theorem follows_of_held {l : Loader} {file : Text} (sound : l.IsSound)
    (loads : s.loading = l.load file) {history : List (Action × Answer)}
    (held : s.held = firstGet history) (known : ∀ n, ∀ e ∈ history, e.2 = .object n → n < s.made) :
    s.Follows (l.values file) history where
  construct_iff := by rw [exists_construct_iff, loads, sound.completes_iff]
  keeps := fun name value held => by
    rw [construct_environment, loads, sound.keeps file s.environment name value held]
  sets := by
    intro takes name value mem
    have complete := (sound.completes_iff file s.environment).mpr takes
    have set : s.construct.2.environment.get? name =
        some ((s.environment.get? name).getD value) := by
      rw [construct_environment, loads]
      cases before : s.environment.get? name with
      | some kept => exact sound.keeps file s.environment name kept before
      | none => exact sound.sets file s.environment complete name value mem before
    refine ⟨set, fun actions => isSome_get?_run sound (construct_loading.trans loads) ?_⟩
    rw [set]
    rfl
  held := held
  get_held := fun n held => by rw [step, get_of_held held]; rfl
  get_made := get_made
  made_new := fun n made e mem object => by
    have below := known n e mem object
    rw [(eq_made_of_construct made).1] at below
    exact absurd below (Nat.lt_irrefl _)
  construct_held := construct_held
  refused_held := fun a e => refused_held
  get_iff := by
    cases held : s.held with
    | some n =>
      rw [get_of_held held]
      exact iff_of_true ⟨n, rfl⟩ (.inl rfl)
    | none =>
      rw [(get_made held).1, exists_construct_iff, loads, sound.completes_iff]
      exact (or_iff_right nofun).symm
  reads := fun n => rfl

/-- For every package that keeps its promise, for every file and after every run, the store is as its
history says. -/
theorem follows_run {l : Loader} (sound : l.IsSound) (file : Text) (actions : List Action) :
    ((new (l.load file)).run actions).Follows (l.values file)
      ((new (l.load file)).history actions) :=
  follows_of_held sound (run_loading actions) (held_run (l.load file) actions)
    fun _ _ mem object => lt_made_of_mem mem object

/-- The settings are wrong first, and what is loaded then stays; once they are repaired, there is an
object. -/
theorem repaired_follows :
    let s := new (Loader.oneLine.load "JSGLOBALS_FORMAT=json\n")
    let actions := [.set arrowVariable "never", .get, .set arrowVariable reportWord, .get, .read 0]
    Loader.oneLine.IsSound ∧
    (s.history actions).map Prod.snd = [.done, .refused (.arrowArguments "never"), .done, .object 0,
      .settings ⟨true, [], OutputFormat.json.name, false⟩] ∧
    (s.run actions).Follows (Loader.oneLine.values "JSGLOBALS_FORMAT=json\n") (s.history actions) :=
  ⟨Loader.isSound_oneLine, by decide +kernel, follows_run Loader.isSound_oneLine _ _⟩

/-- The variable named in quotation marks cannot be set, so no object is made, though the package
keeps its promise and the settings are valid. -/
theorem quotedName_refused :
    let s := new (Loader.oneLine.load "'A=B'=c\n")
    Loader.oneLine.IsSound ∧ Loader.oneLine.values "'A=B'=c\n" .empty = [(Text.ofString "A=B", Text.ofString "c")] ∧
      ¬ ((∃ n, s.construct.1 = .ok n) ↔ s.construct.2.environment.IsAllowed) := by
  have refused : (new (Loader.oneLine.load "'A=B'=c\n")).construct =
      (.error .nameWithEquals, new (Loader.oneLine.load "'A=B'=c\n")) := by cbv
  have allowed : Environment.empty.IsAllowed := Environment.validate_eq_ok_iff.mp rfl
  refine ⟨Loader.isSound_oneLine, by cbv, ?_⟩
  rw [refused]
  intro same
  obtain ⟨n, made⟩ := same.mpr allowed
  cases made

end SettingsStore

end FreeNames
