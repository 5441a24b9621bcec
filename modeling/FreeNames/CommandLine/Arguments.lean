import FreeNames.Text

/-!
# Arguments

The words of a command line are read one by one into items: paths, flags, and names to
leave out.  Options begin with a hyphen and may stand anywhere before a lone double hyphen;
what follows that is paths only.

* Short options may share a hyphen, and the value of one follows at once or as the next
  word.  The value of a long one follows an equals sign or is the next word.
* A value is taken as it stands, also if it looks like an option.
* Help is given only if all options can be read, but before paths are missed or
  superfluous words refused.
-/

namespace FreeNames

/-- Options without a value. -/
inductive Flag where
  | json
  | plain
  | qualified
  | sort
  | noSort
  | ignoreArrowArguments
  | strict
  | help
  deriving DecidableEq, Repr

/-- What is found on the command line. -/
inductive Item where
  | path (word : String)
  | flag (f : Flag)
  | ignore (name : String)
  deriving DecidableEq, Repr

/-- Why a command line is refused. -/
inductive UsageError where
  | noCommand
  | unknownCommand (word : String)
  | unknownOption (word : String)
  /-- The command line ends where a value is expected. -/
  | missingValue
  /-- A value is given to a flag. -/
  | unexpectedValue (word : String)
  | noPaths
  | superfluous (word : String)
  deriving DecidableEq, Repr

namespace Item

/-- Flags by their long names. -/
def longFlags : List (String × Flag) :=
  [("--json", .json), ("--plain", .plain), ("--qualified", .qualified), ("--sort", .sort),
    ("--no-sort", .noSort), ("--ignore-arrow-arguments", .ignoreArrowArguments),
    ("--strict", .strict), ("--help", .help)]

/-- Does a word begin an option?  A lone hyphen does not. -/
def isOption (word : String) : Bool :=
  match word.toList with
  | '-' :: _ :: _ => true
  | _ => false

/-- The items of short options that share a hyphen, and whether a value is to follow. -/
def ofShort : List Char → Except UsageError (List Item × Bool)
  | [] => .ok ([], false)
  | ['i'] => .ok ([], true)
  | 'i' :: value => .ok ([.ignore (String.ofList value)], false)
  | 'q' :: rest => (ofShort rest).map fun (items, pending) => (.flag .qualified :: items, pending)
  | c :: _ => .error (.unknownOption (String.ofList ['-', c]))

/-- The items of a long option, and whether a value is to follow. -/
def ofLong (word : String) : Except UsageError (List Item × Bool) :=
  let name := String.ofList (word.toList.takeWhile (· ≠ '='))
  match word.toList.dropWhile (· ≠ '=') with
  | [] =>
    if name = "--ignore" then .ok ([], true)
    else match longFlags.lookup name with
      | some f => .ok ([.flag f], false)
      | none => .error (.unknownOption word)
  | _ :: value =>
    if name = "--ignore" then .ok ([.ignore (String.ofList value)], false)
    else if (longFlags.lookup name).isSome then .error (.unexpectedValue word)
    else .error (.unknownOption word)

/-- The items of an option of the command that scans. -/
def ofScanOption (word : String) : Except UsageError (List Item × Bool) :=
  match word.toList with
  | '-' :: '-' :: _ => ofLong word
  | _ :: rest => ofShort rest
  | [] => .ok ([], false)

/-- The items of an option of a command that only gives help. -/
def ofHelpOption (word : String) : Except UsageError (List Item × Bool) :=
  if word = "--help" then .ok ([.flag .help], false) else .error (.unknownOption word)

/-- Read the words of a command line; the flag says that a value is expected. -/
def read (ofOption : String → Except UsageError (List Item × Bool)) :
    Bool → List String → Except UsageError (List Item)
  | true, [] => .error .missingValue
  | true, value :: rest => do return .ignore value :: (← read ofOption false rest)
  | false, [] => .ok []
  | false, word :: rest =>
    if word = "--" then .ok (rest.map .path)
    else if isOption word then do
      let (items, pending) ← ofOption word
      return items ++ (← read ofOption pending rest)
    else do return .path word :: (← read ofOption false rest)

end Item

/-! ## Commands -/

/-- What a scan is asked to do. -/
structure Request where
  paths : List String
  flags : List Flag
  ignored : List String
  deriving DecidableEq, Repr

namespace Request

def ofItems (items : List Item) : Request where
  paths := items.filterMap fun
    | .path p => some p
    | _ => none
  flags := items.filterMap fun
    | .flag f => some f
    | _ => none
  ignored := items.filterMap fun
    | .ignore name => some name
    | _ => none

def has (r : Request) (f : Flag) : Bool := r.flags.contains f

/-- The last word on the order of names, if there is one. -/
def sort? (r : Request) : Option Bool :=
  r.flags.reverse.findSome? fun
    | .sort => some true
    | .noSort => some false
    | _ => none

end Request

/-- What a command line asks for. -/
inductive Command where
  | help
  | version
  | scan (r : Request)
  deriving DecidableEq, Repr

namespace Command

/-- Read the words that follow the command that scans. -/
def ofScanWords (words : List String) : Except UsageError Command := do
  let request := Request.ofItems (← Item.read Item.ofScanOption false words)
  if request.has .help then return .help
  if request.paths.isEmpty then throw .noPaths
  return .scan request

/-- Read the words that follow the command that tells the version. -/
def ofVersionWords (words : List String) : Except UsageError Command := do
  let request := Request.ofItems (← Item.read Item.ofHelpOption false words)
  if request.has .help then return .help
  match request.paths with
  | [] => return .version
  | word :: _ => throw (.superfluous word)

/-- Read the name of a command and the words that follow it. -/
def ofNamed : List String → Except UsageError Command
  | [] => .error .noCommand
  | "scan" :: words => ofScanWords words
  | "version" :: words => ofVersionWords words
  | word :: _ => .error (.unknownCommand word)

/-- Read a command line. -/
def ofWords : List String → Except UsageError Command
  | "--" :: words => ofNamed words
  | "--help" :: _ => .ok .help
  | words => ofNamed words

end Command

end FreeNames
