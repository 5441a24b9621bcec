import FreeNames.Text.Case
import FreeNames.Text.Quoted

/-!
# Settings

The four settings are variables of the environment and are read from it at the moment they
are asked for.  Two of them take one of a few words, in any case; `Environment.validate`
says which of the two is wrong, the format before the other.  An environment holds no zeros,
and no equals signs in names.
-/

namespace FreeNames

/-- The variables that are set, each once. -/
structure Environment where
  entries : List (Text × Text)
  deriving DecidableEq, Repr

namespace Environment

def empty : Environment := ⟨[]⟩

def get? (env : Environment) (name : Text) : Option Text := env.entries.lookup name

def unset (env : Environment) (name : Text) : Environment :=
  ⟨env.entries.filter fun v => v.1 ≠ name⟩

def set (env : Environment) (name value : Text) : Environment :=
  ⟨(name, value) :: (env.unset name).entries⟩

end Environment

/-! ## The four settings -/

def formatVariable : Text := "JSGLOBALS_FORMAT"

def arrowVariable : Text := "JSGLOBALS_ARROW_ARGUMENTS"

def ignoreVariable : Text := "JSGLOBALS_IGNORE"

def sortVariable : Text := "JSGLOBALS_SORT"

/-- How a report is written. -/
inductive OutputFormat where
  | table
  | json
  | plain
  deriving DecidableEq, Repr

namespace OutputFormat

def name : OutputFormat → Text
  | .table => "table"
  | .json => "json"
  | .plain => "plain"

def all : List OutputFormat := [.table, .json, .plain]

def ofName? (t : Text) : Option OutputFormat := all.find? fun f => f.name = t

end OutputFormat

/-- The words for `arguments` in arrow functions: report it or ignore it. -/
def reportWord : Text := "report"

def ignoreWord : Text := "ignore"

/-- The words that count as true. -/
def trueWords : List Text := ["1", "true", "yes", "on"]

/-- The settings that an environment makes. -/
structure Settings where
  reportArrowArguments : Bool
  ignored : List Text
  format : Text
  sorts : Bool
  deriving DecidableEq, Repr

namespace Environment

/-- The format in lower case. -/
def format (env : Environment) : Text :=
  ((env.get? formatVariable).getD OutputFormat.table.name).lower

/-- The word for `arguments` in arrow functions in lower case. -/
def arrowMode (env : Environment) : Text := ((env.get? arrowVariable).getD reportWord).lower

/-- The names to leave out: between commas, without blanks around them, none empty. -/
def ignored (env : Environment) : List Text :=
  ((((env.get? ignoreVariable).getD .empty).splitOn 0x2C).map (Text.trim Text.isBlank)).filter
    fun name => !name.isEmpty

def sorts (env : Environment) : Bool :=
  trueWords.contains ((env.get? sortVariable).getD "false").lower

/-- Everything that is set, at this moment. -/
def settings (env : Environment) : Settings where
  reportArrowArguments := env.arrowMode = reportWord
  ignored := env.ignored
  format := env.format
  sorts := env.sorts

end Environment

/-- Why there are no settings: one has a word that it does not take, or a variable cannot be
set. -/
inductive SettingError where
  | format (got : Text)
  | arrowArguments (got : Text)
  /-- The name of a variable holds an equals sign. -/
  | nameWithEquals
  /-- The name or the value of a variable holds a zero. -/
  | zeroPoint
  deriving DecidableEq, Repr

namespace SettingError

/-- The wording: the variable, the words it takes, and the word it has. -/
def wording (setting : Text) (allowed : List Text) (got : Text) : Text :=
  setting ++ " must be one of " ++ Text.join ", " allowed ++ ", got " ++ got.quoted

def message : SettingError → Text
  | .format got => wording formatVariable (OutputFormat.all.map OutputFormat.name) got
  | .arrowArguments got => wording arrowVariable [reportWord, ignoreWord] got
  | .nameWithEquals => "illegal environment variable name"
  | .zeroPoint => "embedded null byte"

end SettingError

/-- Set a variable, if its name and its value can stand in an environment. -/
def Environment.trySet (env : Environment) (name value : Text) : Except SettingError Environment :=
  if name.points.contains 0 || value.points.contains 0 then .error .zeroPoint
  else if name.points.contains 0x3D then .error .nameWithEquals
  else .ok (env.set name value)

/-- Check the two settings that take one of a few words. -/
def Environment.validate (env : Environment) : Except SettingError Unit :=
  if (OutputFormat.ofName? env.format).isNone then .error (.format env.format)
  else if env.arrowMode = reportWord || env.arrowMode = ignoreWord then .ok ()
  else .error (.arrowArguments env.arrowMode)

end FreeNames
