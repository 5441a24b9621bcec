import FreeNames.Settings.Environment

/-!
# Settings over a whole run

A settings object is made by loading the variables of the project's file into the environment
and checking the result.  One object may be held for everybody; it is made when it is first
asked for and kept until it is dropped.

* Files are loaded by a package, which is a parameter: a `Loader`.  A loading may fail on the
  way.
* What a loading sets stays set, also if it fails or the check does.
* All objects read the same environment, so an object is no more than its number.
-/

namespace FreeNames

/-- A package that loads files of variables into environments. -/
structure Loader where
  /-- The variables to which a file gives a value, with the values that they have if the file
  is loaded into an environment. -/
  values : Text → Environment → List (Text × Text)
  /-- Load a file.  The environment is what the loading leaves, also if it fails. -/
  load : Text → Environment → Except SettingError Unit × Environment

/-- The environment, what loading the project's file does to one, the number of objects made
so far and the object that is held. -/
structure SettingsStore where
  environment : Environment
  loading : Environment → Except SettingError Unit × Environment
  made : Nat
  held : Option Nat

namespace SettingsStore

/-- Nothing set, made or held. -/
def new (loading : Environment → Except SettingError Unit × Environment) : SettingsStore :=
  ⟨.empty, loading, 0, none⟩

/-- Set a variable; nothing happens if it cannot stand in an environment. -/
def set (s : SettingsStore) (name value : Text) : Except SettingError Unit × SettingsStore :=
  match s.environment.trySet name value with
  | .ok env => (.ok (), { s with environment := env })
  | .error e => (.error e, s)

def unset (s : SettingsStore) (name : Text) : SettingsStore :=
  { s with environment := s.environment.unset name }

/-- Drop the object that is held. -/
def reset (s : SettingsStore) : SettingsStore := { s with held := none }

/-- Load the file, check the settings and make an object; its number is the number of objects
before. -/
def construct (s : SettingsStore) : Except SettingError Nat × SettingsStore :=
  match s.loading s.environment with
  | (.error e, env) => (.error e, { s with environment := env })
  | (.ok (), env) =>
    match env.validate with
    | .error e => (.error e, { s with environment := env })
    | .ok () => (.ok s.made, { s with environment := env, made := s.made + 1 })

/-- The object that is held; if there is none, one is made and held. -/
def get (s : SettingsStore) : Except SettingError Nat × SettingsStore :=
  match s.held with
  | some n => (.ok n, s)
  | none =>
    match s.construct with
    | (.ok n, s) => (.ok n, { s with held := some n })
    | (.error e, s) => (.error e, s)

/-- What every object reads at this moment. -/
def read (s : SettingsStore) : Settings := s.environment.settings

end SettingsStore

end FreeNames
