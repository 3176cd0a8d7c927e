import ClientTypes.Resolution.Resolver
import ClientTypes.Proofs.Resolution.Nesting

/-! What resolving a schema asks for. A claim about everything that resolving comes across
is a claim about a set of schemas that is closed under asking. -/
namespace ClientTypes.Resolution

/-- Resolving a schema asks only for good ones: for the schemas that stand in it, for items that are
not described, and for the fields of a merge. -/
structure AsksFor (setup : Setup) (good : Schema → Prop) (s : Schema) : Prop where
  placed : ∀ c, Placed s c → good c
  undescribed : s.kind = .array → s.items = none → good {}
  merged : s.target? = none → s.isMerge = true → ∀ name f,
    flatten setup.schemas name s = .merged f → ∀ e ∈ f.properties, good e.2

/-- Good schemas ask for good ones only. -/
def ClosedUnderAsking (setup : Setup) (good : Schema → Prop) : Prop :=
  ∀ s, good s → AsksFor setup good s

namespace AsksFor

variable {setup : Setup} {good : Schema → Prop} {s : Schema} (h : AsksFor setup good s)

include h

theorem properties : ∀ e ∈ s.properties, good e.2 := fun _ he => h.placed _ (.property he)

theorem unionMembers : ∀ m ∈ s.unionMembers, good m :=
  fun m hm => h.placed m (placed_of_mem_unionMembers hm)

theorem items (hKind : s.kind = .array) : good (s.items.getD {}) := by
  cases hItems : s.items with
  | none => exact h.undescribed hKind hItems
  | some c => exact h.placed c (.items hItems)

end AsksFor

theorem closedUnderAsking_all (setup : Setup) : ClosedUnderAsking setup fun _ => True :=
  fun _ _ => ⟨fun _ _ => trivial, fun _ _ => trivial, fun _ _ _ _ _ _ _ => trivial⟩

/-- What is passed from a schema to its parts is passed to what it asks for, when the table has it. -/
theorem closedUnderAsking_of_contained {setup : Setup} {good : Schema → Prop} (hEmpty : good {})
    (hParts : ∀ s n, good s → Contained s n → good n) (hTable : ∀ e ∈ setup.schemas, good e.2) :
    ClosedUnderAsking setup good := by
  intro s hs
  refine ⟨fun c hPlaced => hParts s c hs (Contained.placed .refl hPlaced), fun _ _ => hEmpty, ?_⟩
  intro _ _ name f hFlat e he
  rcases flatten_source hFlat he with hInside | ⟨m, _, origin, whole, _, hKnown, hInside⟩
  · exact hParts s e.2 hs hInside.contained
  · exact hParts whole e.2 (hTable _ (Table.mem_of_get? hKnown)) hInside.contained

end ClientTypes.Resolution
