import ClientTypes.Document.File
import ClientTypes.Proofs.Document.Faults
import ClientTypes.Proofs.Yaml.Braces

/-! The dialect of a file, and reading the file. Both begin with YAML, and where YAML gives a mapping both see
the same one. Where it refuses the text, the dialect is taken from JSON and reading has nothing to go on.
Where it gives nothing, JSON cannot give a mapping either: the text would begin with a brace. -/
namespace ClientTypes

/-! ### JSON text that is a mapping -/

namespace Json

theorem readItems_opened {fuel : Nat} {read : List Value} {s rest : List Char} {v : Value}
    (h : readItems fuel read s = some (v, rest)) : ∃ items, v.opened = .list items := by
  induction fuel generalizing read s with
  | zero => simp [readItems] at h
  | succ fuel ih =>
      rw [readItems, Option.bind_eq_bind, Option.bind_eq_some_iff] at h
      obtain ⟨⟨item, behind⟩, _, h⟩ := h
      dsimp only at h
      split at h
      · exact ih h
      · cases h
        exact ⟨_, rfl⟩
      · cases h

theorem readValue_map {fuel : Nat} {s rest : List Char} {v : Value} {entries : List (Scalar × Value)}
    (h : readValue fuel s = some (v, rest)) (hMap : v.opened = .map entries) :
    ∃ more, s = '\x7b' :: more := by
  unfold readValue at h
  split at h
  · cases h
  · split at h
    · cases h
      cases hMap
    · obtain ⟨items, hItems⟩ := readItems_opened h
      rw [hItems] at hMap
      cases hMap
  · exact ⟨_, rfl⟩
  · obtain ⟨⟨scalar, behind⟩, _, hSame⟩ := Option.map_eq_some_iff.mp h
    cases hSame
    cases hMap

/-- Only blanks stand in front of the brace of a mapping. -/
theorem parse?_map {text : String} {v : Value} {entries : List (Scalar × Value)}
    (h : parse? text = some v) (hMap : v.opened = .map entries) :
    ∃ blanks more, (∀ c ∈ blanks, isJsonBlank c = true) ∧ text.toList = blanks ++ '\x7b' :: more := by
  rw [parse?, Option.bind_eq_bind, Option.bind_eq_some_iff] at h
  obtain ⟨⟨w, rest⟩, hRead, h⟩ := h
  dsimp only at h
  split at h
  · cases h
    obtain ⟨more, hMore⟩ := readValue_map hRead hMap
    refine ⟨text.toList.takeWhile isJsonBlank, more, fun c hc => List.all_eq_true.mp List.all_takeWhile c hc, ?_⟩
    rw [← hMore]
    exact List.takeWhile_append_dropWhile.symm
  · cases h

end Json

/-- The text of a file has no carriage return. -/
theorem Text.return_notMem_unifyBreaks (s : List Char) : '\r' ∉ unifyBreaks s := by
  fun_induction unifyBreaks s with
  | case1 => simp
  | case2 rest ih => simpa using ih
  | case3 rest _ ih => simpa using ih
  | case4 c rest _ hOther ih => simpa [ih] using Ne.symm hOther

/-! ### The dialect of a text -/

/-- A value is an API description if it is a mapping that says which version of the format it follows. -/
def Value.IsDescription (v : Value) : Prop :=
  ∃ entries, v.opened = .map entries ∧ Document.isDescription entries = true

namespace Dialect

variable {d : Dialect}

theorem isSome_of_versionUnder {entries : List (Scalar × Value)} {key mark version : String}
    (h : versionUnder entries key = .ok version) (hMark : Text.startsWith mark version = true)
    (hSome : Text.startsWith mark "" = false) : (field? entries key).isSome = true := by
  unfold versionUnder at h
  split at h
  · cases h
    rw [hSome] at hMark
    cases hMark
  next v hField => rw [hField, Option.isSome_some]

/-- A value in a dialect has the key of that dialect. -/
theorem isDescription_of_ofValue? {v : Value} (h : ofValue? v = .ok (some d)) : v.IsDescription := by
  unfold ofValue? at h
  split at h
  next entries hMap =>
    refine ⟨entries, hMap, ?_⟩
    obtain ⟨newer, hNewer, h⟩ := ok_of_bind h
    rw [Document.isDescription, Bool.or_eq_true]
    split at h
    next hThree => exact Or.inl (isSome_of_versionUnder hNewer hThree (by decide))
    next =>
      obtain ⟨older, hOlder, h⟩ := ok_of_bind h
      split at h
      next hTwo => exact Or.inr (isSome_of_versionUnder hOlder hTwo (by decide))
      next => cases h
  next => cases h

/-- JSON text in a dialect begins with a brace, so YAML does not take it for nothing. -/
theorem parse_ne_null {text : String} (hReturn : '\r' ∉ text.toList) (h : ofJson? text = .ok (some d)) :
    Yaml.parse text ≠ .ok .null := by
  intro hNull
  unfold ofJson? at h
  split at h
  · cases h
  next v hJson =>
    obtain ⟨entries, hMap, _⟩ := isDescription_of_ofValue? h
    obtain ⟨blanks, more, hBlanks, hText⟩ := Json.parse?_map hJson hMap
    -- Ends of lines are line feeds by now, which is all that YAML goes over.
    have hPlain : ∀ c ∈ blanks, c = ' ' ∨ c = '\t' ∨ c = '\n' := by
      intro c hc
      have hNot : c ≠ '\r' := by
        rintro rfl
        exact hReturn (hText ▸ List.mem_append_left _ hc)
      have hBlank := hBlanks c hc
      simpa [Json.isJsonBlank, hNot, or_assoc] using hBlank
    obtain ⟨_, hOpened⟩ := Yaml.parse_braced hPlain hText hNull
    cases hOpened

/-- A text has its dialect from YAML, or from JSON if YAML refuses it. -/
theorem ofText?_cases {text : String} (hReturn : '\r' ∉ text.toList) (h : ofText? text = .ok (some d)) :
    (∃ v, Yaml.parse text = .ok v ∧ v.IsDescription) ∨
      (Yaml.parse text = .error .malformed ∧ ofJson? text = .ok (some d)) := by
  unfold ofText? at h
  split at h
  next => cases h
  next hMalformed => exact Or.inr ⟨hMalformed, h⟩
  next hNull => exact absurd hNull (parse_ne_null hReturn h)
  next v _ hParse => exact Or.inl ⟨v, hParse, isDescription_of_ofValue? h⟩

/-- The bytes hold JSON text in the dialect that YAML refuses. -/
def OnlyJson (d : Dialect) (bytes : ByteArray) : Prop :=
  ∃ text, Text.decode? bytes = some text ∧ Yaml.parse text = .error .malformed ∧ ofJson? text = .ok (some d)

/-- Whether YAML refuses a text can be computed. -/
instance (text : String) : Decidable (Yaml.parse text = .error .malformed) :=
  match Yaml.parse text with
  | .error .malformed => isTrue rfl
  | .error (.badScalar _) => isFalse (by simp)
  | .ok _ => isFalse (by simp)

theorem onlyJson_iff {bytes : ByteArray} : (∃ text ∈ Text.decode? bytes,
    Yaml.parse text = .error .malformed ∧ (ofJson? text).toOption = some (some d)) ↔ d.OnlyJson bytes := by
  have hResult (text : String) :
      (ofJson? text).toOption = some (some d) ↔ ofJson? text = .ok (some d) :=
    ⟨ok_of_toOption, fun h => by rw [h, Except.toOption]⟩
  simp only [OnlyJson, Option.mem_def, hResult]

instance (d : Dialect) (bytes : ByteArray) : Decidable (d.OnlyJson bytes) := decidable_of_iff _ onlyJson_iff

end Dialect

/-! ### Reading the file -/

/-- The fault says that the file cannot be read, or that it is no API description. -/
def DocumentFault.BlamesFile : DocumentFault → Prop
  | .unreadable _ | .notADescription _ => True
  | _ => False

theorem DocumentFault.BlamesFile.ofFile {fault : DocumentFault} (h : fault.BlamesFile) : fault.OfFile := by
  cases fault <;> trivial

namespace Document

theorem ofText_of_description {text : String} {v : Value} (h : Yaml.parse text = .ok v)
    (hDescription : v.IsDescription) (file : String) : ofText file text = ofValue v := by
  obtain ⟨entries, hMap, hKeys⟩ := hDescription
  simp only [ofText, h, hMap, hKeys, if_true]

theorem ofFile_of_onlyJson {d : Dialect} {bytes : ByteArray} (h : d.OnlyJson bytes) (file : String) :
    ofFile file (some bytes) = .error (.unreadable file) := by
  obtain ⟨text, hText, hRefused, _⟩ := h
  simp only [ofFile, hText, ofText, hRefused]

/-- When a file has a dialect, reading it blames the file in one case only: the file holds JSON text
that is no YAML. -/
theorem ofFile_blames_iff {bytes : ByteArray} {d : Dialect} (h : Dialect.ofBytes? bytes = .ok (some d))
    (file : String) :
    (∃ fault, ofFile file (some bytes) = .error fault ∧ fault.BlamesFile) ↔ d.OnlyJson bytes := by
  refine ⟨?_, fun hOnly => ⟨_, ofFile_of_onlyJson hOnly file, trivial⟩⟩
  rintro ⟨fault, hFault, hBlames⟩
  unfold Dialect.ofBytes? at h
  split at h
  next => cases h
  next text hText =>
    have hReturn : '\r' ∉ text.toList := by
      obtain ⟨s, _, rfl⟩ := Option.map_eq_some_iff.mp hText
      rw [String.toList_ofList]
      exact Text.return_notMem_unifyBreaks _
    obtain ⟨v, hParse, hDescription⟩ | ⟨hRefused, hJson⟩ := Dialect.ofText?_cases hReturn h
    -- The value passes as a description, so the fault would come from reading it.
    · simp only [ofFile, hText, ofText_of_description hParse hDescription] at hFault
      exact absurd hBlames.ofFile (ofValue_spares v fault hFault)
    · exact ⟨text, hText, hRefused, hJson⟩

theorem ofFile_blames_iff_yaml :
    let bytes := "openapi: 3.0.0".toUTF8
    Dialect.ofBytes? bytes = .ok (some .openapi) ∧ ¬ Dialect.openapi.OnlyJson bytes ∧
      ¬ ∃ fault, ofFile "pets.yaml" (some bytes) = .error fault ∧ fault.BlamesFile := by
  have hDialect : Dialect.ofBytes? "openapi: 3.0.0".toUTF8 = .ok (some .openapi) :=
    ok_of_toOption (by decide +kernel)
  have hYaml : ¬ Dialect.openapi.OnlyJson "openapi: 3.0.0".toUTF8 := by decide +kernel
  exact ⟨hDialect, hYaml, fun hBlames => hYaml ((ofFile_blames_iff hDialect _).mp hBlames)⟩

/-- JSON text that is indented by tabs has a dialect, and yet it cannot be read. -/
theorem indented_by_tabs_unreadable :
    let bytes := "\x7b\n\t\"openapi\": \"3.0.0\"\n\x7d".toUTF8
    Dialect.ofBytes? bytes = .ok (some .openapi) ∧
      ofFile "pets.json" (some bytes) = .error (.unreadable "pets.json") := by
  have hOnly : Dialect.openapi.OnlyJson "\x7b\n\t\"openapi\": \"3.0.0\"\n\x7d".toUTF8 := by decide +kernel
  exact ⟨ok_of_toOption (by decide +kernel), ofFile_of_onlyJson hOnly _⟩

end Document

end ClientTypes
