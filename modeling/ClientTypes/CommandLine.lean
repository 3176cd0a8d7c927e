import ClientTypes.CommandLine.Help
import ClientTypes.CommandLine.Summary
import ClientTypes.Config.File
import ClientTypes.Document.File
import ClientTypes.Compilation
import ClientTypes.Model.Writer
import ClientTypes.Json.Printer
import ClientTypes.Text.Control

/-!
Running the command line on files.

A run reads its files first: the dialect of the description, then the settings, then the description
itself. It then compiles and either writes a file or prints a summary. Everything that a run does to
the world is in its outcome.
-/

namespace ClientTypes.CommandLine

inductive OutputFault where
  /-- A directory stands where the output belongs. -/
  | isDirectory
  /-- A file stands where the directory of the output belongs. -/
  | fileAsDirectory
  /-- A file stands farther up on the way to the output. -/
  | fileOnTheWay
  /-- The path of the output, or a name on it, is too long. -/
  | tooLong
  /-- Too many directories on the way have to be made. -/
  | tooDeep
  /-- The compiled description holds a collection that stands inside itself. -/
  | endlessValue
deriving DecidableEq, Repr

/-- What a run does not expect. -/
inductive Breakdown where
  /-- The description is a directory. -/
  | directoryAsDocument
  | document (fault : DocumentFault)
  | config (fault : ConfigFault)
  /-- A path holds a character that no path can hold. -/
  | impossiblePath
  /-- The description cannot be compiled. -/
  | standstill (obstacle : Resolution.Obstacle)
  | output (fault : OutputFault)
deriving Repr

inductive Ending where
  | done
  /-- The arguments are wrong. -/
  | misused (fault : UsageFault)
  /-- The files are wrong, in a way that has a message. -/
  | refused (message : String)
  /-- The files are wrong, in a way that has none. -/
  | broken (cause : Breakdown)
deriving Repr

def Ending.exitCode : Ending → Nat
  | .done => 0
  | .misused _ => 2
  | .refused _ | .broken _ => 1

structure Outcome where
  /-- The messages of the run. -/
  output : List String := []
  /-- The lines that are reported. -/
  reports : List String := []
  /-- The file that is written. -/
  written : Option (Path × String) := none
  ending : Ending := .done
deriving Repr

/-- The lines that are printed. Control sequences in a message are left out. -/
def Outcome.outputLines (o : Outcome) : List String := o.output.map Text.withoutControls

/-- The lines on the channel of reports, a message at the end included. Reports are shown as they are. -/
def Outcome.errorLines (o : Outcome) : List String :=
  match o.ending with
  | .refused message => o.reports ++ [Text.withoutControls ("Error: " ++ message)]
  | _ => o.reports

def issuesMessage (issues : List Issue) : String :=
  toString issues.length ++
    (if issues.length = 1 then " validation error" else " validation errors") ++
    " for CompilerConfig"

def endingOfConfig : ConfigFault → Ending
  | .invalid issues => .refused (issuesMessage issues)
  | fault => match fault.message? with
    | some message => .refused message
    | none => .broken (.config fault)

def endingOfDocument (fault : DocumentFault) : Ending :=
  match fault.message? with
  | some message => .refused message
  | none => .broken (.document fault)

/-- How many directories can be made one inside the other. -/
def deepestMaking : Nat := 970

/-- Why directories cannot be made, if they cannot. They are given from the farthest one on; `made` says
that one in front of them is new. A file in the place of a directory is met as such when it is the
last one, or when the directories in front of it had to be made first. -/
def directoryFault? (look : Path → Entry) : (made : Bool) → List Path → Option OutputFault
  | _, [] => none
  | made, p :: rest =>
    if p.hasLongName then some .tooLong
    else match look p.resolved with
      | .file _ => some (if made || rest.isEmpty then .fileAsDirectory else .fileOnTheWay)
      | .directory => directoryFault? look made rest
      | .missing =>
        if !made && deepestMaking < rest.length then some .tooDeep else directoryFault? look true rest

/-- Why a file cannot be written, if it cannot, once the directories on the way are there. -/
def fileFault? (look : Path → Entry) (output : Path) : Option OutputFault :=
  if output.isTooLong || output.hasLongName then some .tooLong
  else if (look output.resolved).isDirectory ||
      output.ancestors.any fun p => p.resolved = output.resolved then some .isDirectory
  else none

/-- Why a value cannot be written to a path, if it cannot. Directories on the way are made first, all of
them by the path of the last one. -/
def outputFault? (look : Path → Entry) (output : Path) (v : Value) : Option OutputFault :=
  (if output.parent.isTooLong then some .tooLong
    else directoryFault? look false (output.ancestors.drop 1)).or <|
    (if v.hasLoop then some .endlessValue else none).or (fileFault? look output)

def configOf (look : Path → Entry) (i : Invocation) : Except ConfigFault Config :=
  Config.load (i.configPath?.map fun p => (p.text, (look p).content?)) <|
    match i.action with
    | .compile _ targetPrefix skipsNone =>
      [("target_api_prefix", .optionalText targetPrefix),
       ("skip_serializing_if_none", (skipsNone.map Value.bool).getD .null)]
    | .inspect => []

structure Input where
  dialect : Dialect
  config : Config
  document : ApiDocument

/-- Read the files of a run. The document has to be of a known dialect before anything else counts. -/
def readInput (look : Path → Entry) (i : Invocation) : Except Ending Input := do
  let some content := (look i.documentPath).content? | .error (.broken .directoryAsDocument)
  match ← (Dialect.ofBytes? content).mapError endingOfDocument with
  | none => .error (.refused (i.documentPath.text ++ " is not an OpenAPI 3 or Swagger 2 document"))
  | some dialect => return {
      dialect
      config := ← (configOf look i).mapError endingOfConfig
      document := ← (Document.ofFile i.documentPath.text (some content)).mapError endingOfDocument }

/-- Do what is asked for with a compiled description, after some lines were printed. -/
def act (look : Path → Entry) (printed reports : List String) (api : CompiledApi) :
    Action → Outcome
  | .inspect => { output := printed ++ summary api, reports }
  | .compile output _ _ =>
    match outputFault? look output api.toValue with
    | some fault => { output := printed, reports, ending := .broken (.output fault) }
    | none => {
        output := printed ++ [compiledLine output.text api]
        reports
        written := some (output, Json.render .indented api.toValue) }

def Invocation.runOn (look : Path → Entry) (i : Invocation) : Outcome :=
  match readInput look i with
  | .error ending => { ending }
  | .ok input =>
    let printed := [parsedLine i.documentPath.text input.dialect.name input.document]
    let shown := Report.shown (Report.threshold i.verbose i.quiet)
    match Compilation.compile input.config input.document with
    | .error stop => {
        output := printed
        reports := shown stop.reports
        ending := .broken (.standstill stop.obstacle) }
    | .ok result => act look printed (shown result.reports) result.api i.action

/-- Something stands at a path as it is spelled. The empty path leads nowhere, and neither does one that
is too long. -/
def isThere (look : Path → Entry) (path : String) : Bool :=
  path != "" && path.utf8ByteSize ≤ Path.longestPath && (look (.ofSpelling path)).isThere

/-- How a run ends at a path that has to be there, if it does. -/
def endingAt? (look : Path → Entry) (name path : String) : Option Ending :=
  if (Path.ofSpelling path).isImpossible then some (.broken .impossiblePath)
  else if isThere look path then none
  else some (.misused (.pathMissing name path))

/-- How a run ends at the path of its output, if it does. Nothing has to be there. -/
def Action.endingAtPath? : Action → Option Ending
  | .compile output _ _ => if output.isImpossible then some (.broken .impossiblePath) else none
  | .inspect => none

/-- How a run ends at its paths, if it does: that of the output, then that of the settings, and then that
of the description. -/
def Invocation.endingAtPaths? (look : Path → Entry) (i : Invocation) : Option Ending :=
  i.action.endingAtPath?.or <|
  (i.config.bind (endingAt? look "--config")).or (endingAt? look "DOC_PATH" i.document)

def run (look : Path → Entry) (arguments : List String) : Outcome :=
  match Demand.ofArguments arguments with
  | .error fault => { ending := .misused fault }
  | .ok (.help topic) => { output := topic.page }
  | .ok (.run i) => match i.endingAtPaths? look with
    | some ending => { ending }
    | none => i.runOn look

end ClientTypes.CommandLine
