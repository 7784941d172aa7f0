import RobotPuzzle.Text.Numeral

/-!
The arguments of the command. They are read from left to right, and the first misuse decides, except
that the two sources of an exercise are compared last. A request for help ends the reading.
-/

namespace RobotPuzzle.Command

inductive Setting
  | exercise
  | exerciseFile
  | events
  | maxSteps
deriving DecidableEq, Repr

namespace Setting

def all : List Setting := [.exercise, .exerciseFile, .events, .maxSteps]

def name : Setting → String
  | .exercise => "exercise"
  | .exerciseFile => "exercise-file"
  | .events => "events"
  | .maxSteps => "max-steps"

def valueName : Setting → String
  | .exercise => "URL"
  | .exerciseFile => "PATH"
  | .events => "PATH"
  | .maxSteps => "N"

def usage (setting : Setting) : String := s!"--{setting.name} <{setting.valueName}>"

end Setting

inductive Switch
  | json
  | list
  | help
deriving DecidableEq, Repr

namespace Switch

def all : List Switch := [.json, .list, .help]

def name : Switch → String
  | .json => "json"
  | .list => "list"
  | .help => "help"

end Switch

inductive Misuse
  /-- There is no such option, or a word stands where an option should. -/
  | unexpected (argument : String)
  | missingValue (setting : Setting)
  | unneededValue (switch : Switch) (value : String)
  | repeated (usage : String)
  | badNumber (value : String) (cause : Text.NumeralError)
  | twoExercises
deriving DecidableEq, Repr

def Misuse.message : Misuse → String
  | .unexpected argument => s!"unexpected argument '{argument}' found"
  | .missingValue setting =>
    s!"a value is required for '{setting.usage}' but none was supplied"
  | .unneededValue switch value =>
    s!"unexpected value '{value}' for '--{switch.name}' found; no more were expected"
  | .repeated usage => s!"the argument '{usage}' cannot be used multiple times"
  | .badNumber value cause =>
    s!"invalid value '{value}' for '{Setting.maxSteps.usage}': {cause.message}"
  | .twoExercises =>
    s!"the argument '{Setting.exercise.usage}' cannot be used with '{Setting.exerciseFile.usage}'"

structure Options where
  exercise : Option String
  exerciseFile : Option String
  events : Option String
  maxSteps : Option Nat
  json : Bool
  list : Bool
deriving DecidableEq, Repr

namespace Options

def none : Options := ⟨.none, .none, .none, .none, false, false⟩

def once {α : Type} (setting : Setting) (old : Option α) (value : α) :
    Except Misuse (Option α) :=
  match old with
  | .none => .ok (some value)
  | some _ => .error (.repeated setting.usage)

def path (setting : Setting) (value : String) : Except Misuse String :=
  if value.isEmpty then .error (.missingValue setting) else .ok value

/-- A number of steps fits in 64 bits. -/
def stepCount (value : String) : Except Misuse Nat :=
  match Text.numeral UInt64.size value.toList with
  | .ok count => .ok count
  | .error cause => .error (.badNumber value cause)

def set (options : Options) (setting : Setting) (value : String) : Except Misuse Options :=
  match setting with
  | .exercise => do return { options with exercise := ← once setting options.exercise value }
  | .exerciseFile => do
    let path ← path setting value
    return { options with exerciseFile := ← once setting options.exerciseFile path }
  | .events => do
    let path ← path setting value
    return { options with events := ← once setting options.events path }
  | .maxSteps => do
    let count ← stepCount value
    return { options with maxSteps := ← once setting options.maxSteps count }

end Options

inductive Argument
  | valued (setting : Setting) (value : Option String)
  | bare (switch : Switch)
  /-- Two hyphens: no option follows. -/
  | separator
deriving DecidableEq, Repr

def attached (body : List Char) : Option String :=
  match body.dropWhile (· != '=') with
  | [] => none
  | _ :: value => some (String.ofList value)

def Argument.ofText (text : String) : Except Misuse Argument :=
  match text.toList with
  | ['-', '-'] => .ok .separator
  | '-' :: '-' :: body =>
    let name := String.ofList (body.takeWhile (· != '='))
    match Setting.all.find? fun setting => setting.name == name with
    | some setting => .ok (.valued setting (attached body))
    | none =>
      match Switch.all.find? fun switch => switch.name == name with
      | none => .error (.unexpected text)
      | some switch =>
        match attached body with
        | none => .ok (.bare switch)
        | some value => .error (.unneededValue switch value)
  | '-' :: 'h' :: _ => .ok (.bare .help)
  | _ => .error (.unexpected text)

/-- A value of its own does not begin with a hyphen, unless it is nothing else. -/
def isValue (text : String) : Bool := text == "-" || text.toList.head? != some '-'

end Command

inductive Command
  | help
  | list
  | play (options : Command.Options)
deriving DecidableEq, Repr

namespace Command

def ofOptions (options : Options) : Except Misuse Command :=
  if options.exercise.isSome ∧ options.exerciseFile.isSome then .error .twoExercises
  else if options.list then .ok .list
  else .ok (.play options)

def ofArgumentsAfter (options : Options) : List String → Except Misuse Command
  | [] => ofOptions options
  | text :: rest =>
    match Argument.ofText text with
    | .error misuse => .error misuse
    | .ok .separator =>
      match rest with
      | [] => ofOptions options
      | stray :: _ => .error (.unexpected stray)
    | .ok (.bare .help) => .ok .help
    | .ok (.bare .json) =>
      if options.json then .error (.repeated "--json")
      else ofArgumentsAfter { options with json := true } rest
    | .ok (.bare .list) =>
      if options.list then .error (.repeated "--list")
      else ofArgumentsAfter { options with list := true } rest
    | .ok (.valued setting (some value)) => do
      ofArgumentsAfter (← options.set setting value) rest
    | .ok (.valued setting none) =>
      match rest with
      | [] => .error (.missingValue setting)
      | value :: rest =>
        if isValue value then do ofArgumentsAfter (← options.set setting value) rest
        else .error (.missingValue setting)

def ofArguments (arguments : List String) : Except Misuse Command :=
  ofArgumentsAfter .none arguments

end Command

end RobotPuzzle
