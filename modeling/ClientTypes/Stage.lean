import ClientTypes.Hints

/-!
The order of the stages of a run.

A stage may be entered again, and the next one may be entered; nothing else is allowed. Entering the
stage in which models are renamed closes the table of friendly names.
-/

namespace ClientTypes

/-- A stage of a run, in order. -/
inductive Stage where
  | created
  | operations
  | resolve
  | crossReference
  | link
deriving DecidableEq, Repr

namespace Stage

def rank : Stage → Nat
  | .created => 0
  | .operations => 1
  | .resolve => 2
  | .crossReference => 3
  | .link => 4

def all : List Stage := [.created, .operations, .resolve, .crossReference, .link]

def name : Stage → String
  | .created => "CREATED"
  | .operations => "OPERATIONS"
  | .resolve => "RESOLVE"
  | .crossReference => "CROSS_REFERENCE"
  | .link => "LINK"

def ofName? (s : String) : Option Stage := all.find? (·.name == s)

/-- The stage after another. The last one has none. -/
def next? : Stage → Option Stage
  | .created => some .operations
  | .operations => some .resolve
  | .resolve => some .crossReference
  | .crossReference => some .link
  | .link => none

end Stage

inductive StageFault where
  /-- A later stage was entered before. -/
  | tooLate (wanted current : Stage)
  /-- The stage that comes first was not entered yet. -/
  | tooEarly (wanted missing : Stage)
deriving DecidableEq, Repr

def StageFault.message : StageFault → String
  | .tooLate wanted current => "Cannot enter " ++ wanted.name ++ " after " ++ current.name
  | .tooEarly wanted missing => "Cannot enter " ++ wanted.name ++ " before " ++ missing.name

/-- How far a run has come, with its friendly names. -/
structure Progress where
  stage : Stage := .created
  hints : Hints := {}
deriving DecidableEq, Repr

/-- Enter a stage. A refusal leaves everything as it was. -/
def Progress.enter (p : Progress) (wanted : Stage) : Except StageFault Progress :=
  if wanted.rank < p.stage.rank then .error (.tooLate wanted p.stage)
  else if p.stage.rank + 1 < wanted.rank then
    .error (.tooEarly wanted ((p.stage.next?).getD p.stage))
  else .ok
    { stage := wanted
      hints := if Stage.crossReference.rank ≤ wanted.rank then p.hints.freeze else p.hints }

end ClientTypes
