import ClientTypes.CrossReference.Registry
import ClientTypes.CrossReference.Classification
import ClientTypes.CrossReference.Pruning
import ClientTypes.CrossReference.Renaming
import ClientTypes.CrossReference.Defaults
import ClientTypes.CrossReference.Stubs

/-!
Matching the models of a document with one another.

The passes run over the whole registry in this order: marks that follow from types, removal, renaming,
default values, reference stubs. A registry is matched once; asking again changes nothing.
-/

namespace ClientTypes.CrossReference

/-- What matching gives: the models, the new classnames by old ones, and the reports. -/
structure Outcome where
  registry : Registry
  renames : Table String String := []
  reports : List Report := []

/-- The classnames of the models that are not removed. -/
def liveNames (models : List Model) : List String :=
  (models.filter (!·.removed)).map (·.classname)

def summary (models : List Model) : Report :=
  ⟨.registry, .info, "cross-referenced " ++ toString models.length ++ " models (" ++
    toString (models.filter (·.removed)).length ++ " removed)"⟩

/-- Match the models of a registry with one another. -/
def run (config : Config) (hints : Hints) (r : Registry) : Outcome :=
  if r.crossReferenced then { registry := r }
  else
    let classified := r.models.map classify
    let pruned := classified.map (prune hints)
    let (renamed, renames) := rename hints pruned
    let defaulted := renamed.map (applyDefaults config)
    let live := liveNames defaulted
    let models := defaulted.map (unstubModel config live)
    { registry := { models, crossReferenced := true }
      renames
      reports :=
        classified.filterMap (pruneNote hints) ++
        renameNotes hints (.initial pruned) pruned ++
        defaulted.flatMap (unstubNotes config live) ++ [summary models] }

end ClientTypes.CrossReference
