import ClientTypes.Model
import ClientTypes.Config
import ClientTypes.Schema
import ClientTypes.Hints
import ClientTypes.Report
import ClientTypes.Value.Display

/-!
The state of a run.

Resolving a schema may give rise to further models: inline objects and unions get models of their
own. They are kept by name, and the first model of a name stays. A run also collects friendly names
and reports. Nothing else is carried from one schema to the next.
-/

namespace ClientTypes.Resolution

/-- What does not change during a run. -/
structure Setup where
  config : Config
  schemas : Table String Schema

structure Workspace where
  /-- The models of inline schemas, in order of registration. -/
  synthetic : List Model := []
  hints : Hints := {}
  /-- How many lists of variants were given a number. -/
  lists : Nat := 0
  /-- Reports, the newest one first. -/
  reports : List Report := []
deriving Repr

/-- Why a run stops before its end. -/
inductive Obstacle where
  /-- Fuel runs out, which happens when schemas include themselves without end. -/
  | endless
  /-- A value that has no text stands where its text is needed. -/
  | noText
deriving DecidableEq, Repr

/-- A run that stopped before its end. -/
structure Standstill where
  obstacle : Obstacle
  /-- Reports in order. -/
  reports : List Report
deriving Repr

abbrev Run (α : Type) := StateT Workspace (Except Standstill) α

/-- Stop before the end. -/
def halt {α : Type} (obstacle : Obstacle) : Run α := fun w => .error ⟨obstacle, w.reports.reverse⟩

/-- The text of a value, which has to have one. -/
def textOf (v : Value) : Run String :=
  match v.display? with
  | some s => pure s
  | none => halt .noText

def Workspace.withReport (w : Workspace) (r : Report) : Workspace :=
  { w with reports := r :: w.reports }

def report (part : Part) (level : Level) (message : String) : Run Unit :=
  modify (·.withReport ⟨part, level, message⟩)

def reportAll (part : Part) (level : Level) (messages : List String) : Run Unit :=
  modify fun w => messages.foldl (fun w m => w.withReport ⟨part, level, m⟩) w

def Workspace.synthetic? (w : Workspace) (name : String) : Option Model :=
  w.synthetic.find? (·.name == name)

/-- Register a synthetic model, unless there is one of its name. The result is the model that is
registered under the name. -/
def Workspace.addSynthetic (w : Workspace) (m : Model) : Model × Workspace :=
  match w.synthetic? m.name with
  | some existing => (existing, w)
  | none => (m, { w with synthetic := w.synthetic ++ [m] })

def Workspace.nextList (w : Workspace) : Nat × Workspace :=
  (w.lists, { w with lists := w.lists + 1 })

def Workspace.register (w : Workspace) (placeholder friendly : String) : Workspace :=
  let entered := { w with hints := w.hints.register placeholder friendly }
  let key := Naming.camelize placeholder
  if w.hints.frozen then
    entered.withReport ⟨.context, .warning,
      "Name registry is frozen, ignoring " ++ placeholder ++ " -> " ++ friendly⟩
  else if w.hints.names.has key then entered
  else entered.withReport ⟨.context, .debug,
    "name hint " ++ key ++ " -> " ++ Naming.camelize friendly⟩

end ClientTypes.Resolution
