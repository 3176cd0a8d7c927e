import ClientTypes.Text.Piece

/-!
What a run reports while it works.

Every report has a level and comes from one part of the compiler. The command line picks the lowest
level that is shown; nothing else of a run depends on its reports.
-/

namespace ClientTypes

inductive Level where
  | debug
  | info
  | warning
deriving DecidableEq, Repr

def Level.rank : Level → Nat
  | .debug => 0
  | .info => 1
  | .warning => 2

inductive Part where
  | context
  | operations
  | resolver
  | enrichment
  | registry
  | linker
  | pipeline
deriving DecidableEq, Repr

def Part.name : Part → String
  | .context => "context"
  | .operations => "operations"
  | .resolver => "resolver"
  | .enrichment => "enrichment"
  | .registry => "registry"
  | .linker => "linker"
  | .pipeline => "pipeline"

/-- One report of a run. -/
structure Report where
  part : Part
  level : Level
  message : String
deriving DecidableEq, Repr

namespace Report

def root : String := "modelc"

/-- What follows the last point of a name, or the whole name. -/
def lastComponent (name : String) : String := ((Text.split '.' name).getLast?).getD name

/-- The channel of a module: the shared name alone for no module and for that name itself,
otherwise the shared name and the last component of the module's name. -/
def channel : Option String → String
  | none => root
  | some name => if name = "" ∨ name = root then root else root ++ "." ++ lastComponent name

/-- A message of a channel as a line. Messages of the shared channel have no mark in front. -/
def lineOf (channel message : String) : String :=
  if channel = root then message else "[" ++ lastComponent channel ++ "] " ++ message

/-- A report as a line. -/
def line (r : Report) : String := lineOf (channel (some r.part.name)) r.message

/-- The lowest level that is shown. Asking for more wins over asking for less. -/
def threshold (verbose quiet : Bool) : Level :=
  if verbose then .debug else if quiet then .warning else .info

/-- The lines of the reports that are shown from a level on. -/
def shown (lowest : Level) (reports : List Report) : List String :=
  (reports.filter fun r => lowest.rank ≤ r.level.rank).map line

end Report

end ClientTypes
