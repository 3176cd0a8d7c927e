import ClientTypes.CommandLine.Options
import ClientTypes.CommandLine.Path

/-!
What the command line asks for.

There are two commands on one description: `compile` writes the compiled model to a file, and `inspect`
prints a summary of it. How much is reported is said in front of the command. A request for help wins
over every other request and over arguments that are missing, but not over options that do not exist.
-/

namespace ClientTypes.CommandLine

inductive Key where
  | help
  | verbose
  | quiet
  | output
  | namePrefix
  | config
  | skipNone
  | keepNone
deriving DecidableEq, Repr

def helpForm : OptionForm Key := { names := ["--help"], key := .help }

def configForm : OptionForm Key := { names := ["--config"], key := .config, takesValue := true }

def sharedForms : List (OptionForm Key) :=
  [{ names := ["-v", "--verbose"], key := .verbose }, { names := ["-q", "--quiet"], key := .quiet },
   helpForm]

/-- The options of `compile`. -/
def compileForms : List (OptionForm Key) :=
  [{ names := ["-o", "--output"], key := .output, takesValue := true },
   { names := ["--prefix"], key := .namePrefix, takesValue := true }, configForm,
   { names := ["--skip-none"], key := .skipNone }, { names := ["--keep-none"], key := .keepNone },
   helpForm]

/-- The options of `inspect`. -/
def inspectForms : List (OptionForm Key) := [configForm, helpForm]

inductive Topic where
  | everything
  | compile
  | inspect
deriving DecidableEq, Repr

inductive Action where
  | compile (output : Path) (targetPrefix : Option String) (skipsNone : Option Bool)
  | inspect
deriving DecidableEq, Repr

structure Invocation where
  verbose : Bool := false
  quiet : Bool := false
  /-- The description, as its path is spelled. -/
  document : String
  /-- The settings, as their path is spelled. -/
  config : Option String := none
  action : Action
deriving DecidableEq, Repr

namespace Invocation

def documentPath (i : Invocation) : Path := .ofText i.document

def configPath? (i : Invocation) : Option Path := i.config.map .ofText

/-- The paths that a run looks at. -/
def paths (i : Invocation) : List Path :=
  .ofSpelling i.document :: i.documentPath :: (i.config.map .ofSpelling).toList ++
    i.configPath?.toList ++
    match i.action with
    | .compile output _ _ => output.resolved :: output.ancestors.map Path.resolved
    | .inspect => []

end Invocation

inductive Demand where
  | run (i : Invocation)
  | help (topic : Topic)
deriving DecidableEq, Repr

/-- The last word on optional fields without a value. -/
def skipsNone? (given : Given Key) : Option Bool :=
  given.foldl (fun last e => match e.1 with
    | .skipNone => some true
    | .keepNone => some false
    | _ => last) none

/-- The only argument of a command. -/
def documentOf : List String → Except UsageFault String
  | [] => .error (.argumentMissing "DOC_PATH")
  | [document] => .ok document
  | _ :: extra => .error (.tooManyArguments extra)

/-- Read the arguments of `compile`. -/
def readCompile (shared given : Given Key) (arguments : List String) :
    Except UsageFault Invocation := do
  let document ← documentOf arguments
  match given.value? .output with
  | none => .error (.optionMissing "--output")
  | some output => return {
      verbose := shared.has .verbose
      quiet := shared.has .quiet
      document
      config := given.value? .config
      action := .compile (.ofText output) (given.value? .namePrefix) (skipsNone? given) }

/-- Read the arguments of `inspect`. -/
def readInspect (shared given : Given Key) (arguments : List String) :
    Except UsageFault Invocation := do
  return {
    verbose := shared.has .verbose
    quiet := shared.has .quiet
    document := ← documentOf arguments
    config := given.value? .config
    action := .inspect }

/-- Read a command after its name. -/
def readCommand (shared : Given Key) (topic : Topic) (forms : List (OptionForm Key))
    (read : Given Key → Given Key → List String → Except UsageFault Invocation)
    (arguments : List String) : Except UsageFault Demand := do
  let (given, others) ← readArguments forms true arguments
  if given.has .help then return .help topic
  else return .run (← read shared given others)

/-- There is no command of a name. A name that is spelled as an option is read as one once more, together
with what follows it, for the sake of a request for help. -/
def withoutCommand (name : String) (arguments : List String) : Except UsageFault Demand := do
  if isOption name then
    let (again, _) ← readArguments sharedForms false arguments
    if again.has .help then return .help .everything
  throw (.unknownCommand name)

def Demand.ofArguments (arguments : List String) : Except UsageFault Demand := do
  let (shared, others) ← readArguments sharedForms false arguments
  if shared.has .help then return .help .everything
  else match others with
    | [] => .error .noCommand
    | "compile" :: rest => readCommand shared .compile compileForms readCompile rest
    | "inspect" :: rest => readCommand shared .inspect inspectForms readInspect rest
    | name :: rest => withoutCommand name (name :: rest)

end ClientTypes.CommandLine
