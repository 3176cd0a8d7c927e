import ClientTypes.Model
import ClientTypes.Hints
import ClientTypes.Naming.Placeholder
import ClientTypes.Report

/-!
Removing models that nobody can use.
-/

namespace ClientTypes.CrossReference

inductive PruneReason where
  /-- It is a numbered response without a friendly name. -/
  | unnamedResponse
  /-- None of its members was resolved. -/
  | unresolved
deriving DecidableEq, Repr

/-- The reason to remove a model, if there is one. -/
def pruneReason? (hints : Hints) (m : Model) : Option PruneReason :=
  if Naming.isResponseName m.name && !hints.has m.name then some .unnamedResponse
  else if m.marks.resolutionFailed && m.vars.isEmpty && m.container.isNone then some .unresolved
  else none

/-- Remove a model: it stays in the registry, and nothing is declared for it. -/
def remove (m : Model) : Model :=
  { m with removed := true, marks := { m.marks with noop := true } }

def prune (hints : Hints) (m : Model) : Model :=
  match pruneReason? hints m with
  | some _ => remove m
  | none => m

def pruneNote (hints : Hints) (m : Model) : Option Report :=
  (pruneReason? hints m).map fun
    | .unnamedResponse => ⟨.registry, .debug, "pruning response placeholder " ++ m.name⟩
    | .unresolved =>
      ⟨.registry, .info, "pruning " ++ m.name ++ ": composition could not be resolved"⟩

end ClientTypes.CrossReference
