import ClientTypes.Proofs.TargetType

/-! Renaming as an operation on type expressions. A table of renames gives every name a new one, and
renaming by one table and then by another gives every name what the second makes of its new name: an
identifier that takes the place of another has the same neighbours, so it is read as one identifier
again. Lists and maps are renamed inside. -/
namespace ClientTypes.Naming

variable {renames first second both : Table String String}

/-- What a table makes of a name. A name that is not in the table stays. -/
def newName (renames : Table String String) (name : String) : String := (renames.get? name).getD name

@[simp] theorem Token.rename_identifier (renames : Table String String) (name : List Char) :
    (Token.identifier name).rename renames = (newName renames (String.ofList name)).toList := rfl

/-- Every new name is an identifier. -/
def ToIdentifiers (renames : Table String String) : Prop :=
  ∀ old new, renames.get? old = some new → IsIdentifier new.toList

theorem ToIdentifiers.toWords (h : ToIdentifiers renames) : ToWords renames :=
  fun old new hGet _ => (h old new hGet).isWord

theorem ToIdentifiers.newName (h : ToIdentifiers renames) {name : String} (hName : IsIdentifier name.toList) :
    IsIdentifier (newName renames name).toList := by
  unfold Naming.newName
  cases hGet : renames.get? name with
  | none => exact hName
  | some new => exact h name new hGet

/-- One table does what two do one after the other. -/
def Combines (first second both : Table String String) : Prop :=
  ∀ name, newName both name = newName second (newName first name)

/-- Two tables as one: the new names of the first are renamed by the second, and what only the second
renames follows. -/
def combined (first second : Table String String) : Table String String :=
  first.map (fun entry => (entry.1, newName second entry.2)) ++ second

theorem combines_combined (first second : Table String String) :
    Combines first second (combined first second) := by
  intro name
  have hGet : Table.get? (combined first second) name =
      ((first.get? name).map (newName second)).or (second.get? name) := by
    rw [combined, Table.get?_append, Table.get?_map_values]
  cases hFirst : first.get? name with
  | none => simp [newName, hGet, hFirst]
  | some new => simp [newName, hGet, hFirst]

/-- The tokens that take the place of one token are renamed as the one table says. -/
theorem rename_rename (hFirst : ToIdentifiers first) (hBoth : Combines first second both) {t : Token}
    {ts : List Token} (hSep : Separated ts) (hMem : t ∈ ts) :
    (tokensFrom [] (t.rename first)).flatMap (·.rename second) = t.rename both := by
  cases t with
  | mark c => simp [tokensFrom_mark (hSep.starts_mark hMem), tokensFrom]
  | identifier name =>
      have hName : IsIdentifier (newName first (String.ofList name)).toList :=
        hFirst.newName (by simpa using hSep.isIdentifier hMem)
      simp [tokensFrom_identifier_alone hName, hBoth (String.ofList name)]

/-- Renaming twice is renaming once by the one table. -/
theorem renameIdentifiers_renameIdentifiers (hFirst : ToIdentifiers first)
    (hBoth : Combines first second both) (expression : String) :
    renameIdentifiers second (renameIdentifiers first expression) = renameIdentifiers both expression := by
  have hTokens : (tokens (renameIdentifiers first expression)).flatMap (·.rename second) =
      (tokens expression).flatMap (·.rename both) := by
    rw [tokens_renameIdentifiers hFirst.toWords, List.flatMap_assoc]
    exact List.flatMap_congr fun t hMem => rename_rename hFirst hBoth (separated_tokensFrom _) hMem
  rw [renameIdentifiers, hTokens, renameIdentifiers]

end ClientTypes.Naming

namespace ClientTypes.TargetType

open Naming

/-- Renaming by two tables, the first of which gives identifiers, is renaming by any table that combines
them, and there is such a table. Renaming a list or a map is renaming what is in it, if the table
leaves the names of lists, maps and texts alone. -/
theorem renaming_laws (first second renames : Table String String) :
    Combines first second (combined first second) ∧
    (ToIdentifiers first → ∀ both, Combines first second both → ∀ expression,
      renameIdentifiers second (renameIdentifiers first expression) = renameIdentifiers both expression) ∧
    ("Vec" ∉ renames.keys → "HashMap" ∉ renames.keys → "String" ∉ renames.keys → ∀ inner,
      renameIdentifiers renames (listOf inner) = listOf (renameIdentifiers renames inner) ∧
      renameIdentifiers renames (mapOf inner) = mapOf (renameIdentifiers renames inner)) := by
  simp only [← Table.get?_eq_none_iff]
  refine ⟨combines_combined first second, ?_, ?_⟩
  · intro hFirst both hBoth expression
    exact renameIdentifiers_renameIdentifiers hFirst hBoth expression
  · intro hList hMap hText inner
    exact ⟨renameIdentifiers_listOf hList inner, renameIdentifiers_mapOf hMap hText inner⟩

/-- A digit in front of an identifier stays outside of it, before and after the first renaming. -/
theorem renaming_laws_digit :
    let first : Table String String := [("Body", "Body1")]
    let second : Table String String := [("Body1", "Incident"), ("Body", "Pet")]
    ToIdentifiers first ∧ Combines first second (combined first second) ∧
      renameIdentifiers second (renameIdentifiers first "1Body<Body1>") = "1Incident<Incident>" ∧
      "Vec" ∉ second.keys ∧ "HashMap" ∉ second.keys ∧ "String" ∉ second.keys ∧
      renameIdentifiers second (listOf "Body") = listOf "Pet" ∧
      renameIdentifiers second (mapOf "Body") = mapOf "Pet" := by
  intro first second
  have hFirst : ToIdentifiers first := by
    intro old new hGet
    obtain ⟨-, rfl⟩ : old = "Body" ∧ new = "Body1" := by
      simpa [first] using Table.mem_of_get? hGet
    exact ⟨'B', "ody1".toList, rfl, by decide, by decide⟩
  have hInner : renameIdentifiers second "Body" = "Pet" := by decide +kernel
  have hOnce : renameIdentifiers (combined first second) "1Body<Body1>" = "1Incident<Incident>" := by
    decide +kernel
  obtain ⟨hCombines, hTwice, hInside⟩ := renaming_laws first second second
  have hKept : "Vec" ∉ second.keys ∧ "HashMap" ∉ second.keys ∧ "String" ∉ second.keys := by decide
  obtain ⟨hList, hMap⟩ := hInside hKept.1 hKept.2.1 hKept.2.2 "Body"
  rw [hInner] at hList hMap
  exact ⟨hFirst, hCombines, (hTwice hFirst _ hCombines _).trans hOnce, hKept.1, hKept.2.1, hKept.2.2,
    hList, hMap⟩

end ClientTypes.TargetType
