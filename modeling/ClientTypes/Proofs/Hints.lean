import ClientTypes.Hints
import ClientTypes.Naming.Placeholder
import ClientTypes.Proofs.Table
import ClientTypes.Proofs.Naming.Identifier
import ClientTypes.Proofs.Naming.Words
import ClientTypes.Proofs.Text.Piece

/-! Tables of friendly names. Registering writes camel case on both sides, so
every key and every friendly name can stand inside an identifier. -/
namespace ClientTypes.Hints

open Naming

/-- The tables that are made by registering names and closing the table. -/
inductive Reached : Hints → Prop where
  | empty : Reached {}
  | register {h : Hints} (placeholder friendly : String) :
      Reached h → Reached (h.register placeholder friendly)
  | freeze {h : Hints} : Reached h → Reached h.freeze

/-- What holds of a new entry and of all entries before holds of all entries. -/
theorem mem_register {h : Hints} {placeholder friendly : String} {entry : String × String}
    (hMem : entry ∈ (h.register placeholder friendly).names) :
    entry ∈ h.names ∨ entry = (camelize placeholder, camelize friendly) := by
  unfold register Table.putNew at hMem
  split at hMem
  · exact Or.inl hMem
  · dsimp only at hMem
    split at hMem
    · exact Or.inl hMem
    · simpa using hMem

theorem isWord_camelize (name : String) : IsWord (camelize name).toList := by
  intro c hc
  rw [camelize, String.toList_ofList] at hc
  have hWordChar : c.isAlphanum = true := isWordChar_of_mem_camelChars hc
  simp [continuesIdentifier, hWordChar]

/-- Every friendly name is in camel case. -/
theorem Reached.camelized {h : Hints} (hReached : h.Reached) {entry : String × String}
    (hMem : entry ∈ h.names) : ∃ friendly, entry.2 = camelize friendly := by
  induction hReached with
  | empty => cases hMem
  | register placeholder friendly _ ih =>
      rcases mem_register hMem with hOld | rfl
      · exact ih hOld
      · exact ⟨friendly, rfl⟩
  | freeze _ ih => exact ih hMem

theorem Reached.isWord {h : Hints} (hReached : h.Reached) {entry : String × String}
    (hMem : entry ∈ h.names) : IsWord entry.2.toList := by
  obtain ⟨friendly, hFriendly⟩ := hReached.camelized hMem
  exact hFriendly ▸ isWord_camelize friendly

/-! ### Numbered placeholders -/

/-- What numbered names begin with in camel case. -/
def numberedFronts : List String := ["Body", "InlineResponse"]

/-- The name is one that is given to the schema of a body or of a response. -/
def IsPlaceholder (name : String) : Prop := isBodyName name = true ∨ isResponseName name = true

theorem camelChars_body (rest : List Char) :
    camelChars ("body_".toList ++ rest) = "Body".toList ++ camelChars rest := rfl

theorem camelChars_response (rest : List Char) :
    camelChars ("inline_response_".toList ++ rest) = "InlineResponse".toList ++ camelChars rest := rfl

theorem startsWith_camelize {name front : String} {back rest : List Char}
    (hName : name.toList = back ++ rest)
    (hCamel : camelChars (back ++ rest) = front.toList ++ camelChars rest) :
    Text.startsWith front (camelize name) = true := by
  rw [Text.startsWith_iff, camelize, String.toList_ofList, hName, hCamel]
  exact ⟨_, rfl⟩

theorem IsPlaceholder.front {name : String} (h : IsPlaceholder name) :
    ∃ front ∈ numberedFronts, Text.startsWith front (camelize name) = true := by
  rcases h with hBody | hResponse
  · obtain ⟨rest, hRest, _⟩ := (Option.any_eq_true ..).mp hBody
    exact ⟨"Body", by simp [numberedFronts],
      startsWith_camelize (Text.after?_eq_some_iff.mp hRest) (camelChars_body rest)⟩
  · obtain ⟨_, hNumber, _⟩ := (Option.any_eq_true ..).mp hResponse
    obtain ⟨rest, hRest, _⟩ := Option.bind_eq_some_iff.mp hNumber
    exact ⟨"InlineResponse", by simp [numberedFronts],
      startsWith_camelize (Text.after?_eq_some_iff.mp hRest) (camelChars_response rest)⟩

/-- Every placeholder of the table is a numbered one. -/
def Numbered (h : Hints) : Prop :=
  ∀ key ∈ h.names.keys, ∃ front ∈ numberedFronts, Text.startsWith front key = true

theorem Numbered.register {h : Hints} (hNumbered : h.Numbered) {placeholder : String}
    (hPlaceholder : IsPlaceholder placeholder) (friendly : String) :
    (h.register placeholder friendly).Numbered := by
  intro key hKey
  obtain ⟨entry, hMem, rfl⟩ := List.mem_map.mp hKey
  rcases mem_register hMem with hOld | rfl
  · exact hNumbered _ (List.mem_map_of_mem hOld)
  · exact hPlaceholder.front

end ClientTypes.Hints
