import ClientTypes.Proofs.Document.Entries
import ClientTypes.Proofs.Document.Hoisting

/-! Which schemas of a description its table keeps. The table holds the declared schemas
and, written over them, those that were moved out of operations; the last schema written under a
name stays. -/
namespace ClientTypes.Document

/-! ### Look-up in a table with keys of any kind -/

theorem putSchema_text (schemas : List (Scalar × Schema)) (name : String) (s : Schema) :
    putSchema schemas (.text name) s = Table.put schemas (.text name) s := by
  induction schemas with
  | nil => rfl
  | cons entry rest ih =>
      obtain ⟨k, own⟩ := entry
      by_cases hKey : k = .text name
      · simp [putSchema, Table.put, hKey, sameKey_text.mpr]
      · simp [putSchema, Table.put, hKey, sameKey_text, ih]

theorem get?_checkedProperties {schemas : List (Scalar × Schema)} {t : Table String Schema}
    (h : checkedProperties schemas = .valid t) (name : String) :
    t.get? name = Table.get? schemas (.text name) := by
  induction schemas generalizing t with
  | nil =>
      cases h
      rfl
  | cons entry rest ih =>
      obtain ⟨k, s⟩ := entry
      obtain ⟨_, more, hFirst, hMore, rfl⟩ := Checked.valid_of_seq h
      obtain ⟨key, hKey, rfl⟩ := Checked.valid_of_map hFirst
      rw [Checked.textKey_eq_valid.mp hKey]
      simp only [Table.get?, ih hMore, Scalar.text.injEq]

theorem get?_allProperties {entries : List (Scalar × Value)} {schemas : List (Scalar × Schema)}
    (h : allProperties (rolesOfEntries entries) = .ok schemas) {name : String} {s : Schema} :
    Table.get? schemas (.text name) = some s ↔
      ∃ v, field? entries name = some v ∧ Schema.ofValue v = .ok s := by
  induction entries generalizing schemas with
  | nil =>
      cases h
      simp [Table.get?, field?]
  | cons entry rest ih =>
      obtain ⟨k, v⟩ := entry
      obtain ⟨own, hOwn, hRest⟩ := ok_of_bind h
      obtain ⟨more, hMore, hAll⟩ := ok_of_bind hRest
      cases hAll
      have hValue : Schema.ofValue v = .ok own := hOwn
      by_cases hKey : k = .text name
      · simp [Table.get?, field?, hKey, hValue]
      · simp [Table.get?, field?, hKey, ih hMore]

/-! ### Writing moved schemas -/

theorem get?_putAll_of_not_mem {declared : List (Scalar × Schema)} {ms : List Moved} {name : String}
    (h : name ∉ ms.map (·.name)) :
    Table.get? (putAll declared ms) (.text name) = Table.get? declared (.text name) := by
  induction ms generalizing declared with
  | nil => rfl
  | cons m rest ih =>
      obtain ⟨hFirst, hRest⟩ : name ≠ m.name ∧ name ∉ rest.map (·.name) := by simpa using h
      change Table.get? (putAll (putSchema declared _ m.schema) rest) _ = _
      rw [ih hRest, putSchema_text, Table.get?_put, if_neg (by simpa using hFirst)]

/-- A schema whose name no other one gets is found under it. -/
theorem get?_putAll_of_mem {declared : List (Scalar × Schema)} {ms : List Moved}
    (hNames : (ms.map (·.name)).Nodup) {m : Moved} (hm : m ∈ ms) :
    Table.get? (putAll declared ms) (.text m.name) = some m.schema := by
  induction ms generalizing declared with
  | nil => cases hm
  | cons first rest ih =>
      obtain ⟨hFirst, hRest⟩ := List.nodup_cons.mp hNames
      change Table.get? (putAll (putSchema declared _ first.schema) rest) _ = _
      rcases List.mem_cons.mp hm with rfl | hLater
      · rw [get?_putAll_of_not_mem hFirst, putSchema_text, Table.get?_put, if_pos rfl]
      · exact ih hRest hLater

/-! ### Documents -/

/-- A description declares a schema under a name. -/
def Declares (doc : Value) (name : String) (s : Schema) : Prop :=
  ∃ entries v, declaredEntries doc = .ok entries ∧ field? entries name = some v ∧
    Schema.ofValue v = .ok s

/-- The table of a document has lost no schema of its description. -/
structure KeepsAll (doc : Value) (document : ApiDocument) : Prop where
  declared : ∀ name s, Declares doc name s → document.schemas.get? name = some s
  hoisted : ∀ m ∈ moved document.operations, document.schemas.get? m.name = some m.schema
  distinct : ((moved document.operations).map (·.name)).Nodup

/-- What moved schemas describe, in order. -/
def movedOrigins (document : ApiDocument) : List Origin :=
  (moved document.operations).map (·.origin)

/-- The table of a document comes from the declared schemas by writing the moved ones, and
the names of these say how many of their origin come before them. -/
theorem ofValue_moves {doc : Value} {document : ApiDocument} (h : ofValue doc = .ok document) :
    ∃ declared, declaredSchemas doc = .ok declared ∧
      (∀ name, document.schemas.get? name =
        Table.get? (putAll declared (moved document.operations)) (.text name)) ∧
      (moved document.operations).map (·.name) = (places (movedOrigins document)).map Place.name := by
  obtain ⟨declared, hDeclared, h⟩ := ok_of_bind h
  obtain ⟨rawPaths, _, h⟩ := ok_of_bind h
  obtain ⟨paths, _, h⟩ := ok_of_bind h
  obtain ⟨⟨operations, hoisting⟩, hRun, h⟩ := ok_of_bind h
  obtain ⟨info, _, h⟩ := ok_of_bind h
  obtain ⟨title, _, h⟩ := ok_of_bind h
  obtain ⟨rawVersion, _, h⟩ := ok_of_bind h
  obtain ⟨version, _, h⟩ := ok_of_bind h
  obtain ⟨_, t, hTitle, hSchemas, rfl⟩ := Checked.valid_of_seq (Checked.valid_of_orThrow h)
  obtain ⟨_, _, rfl⟩ := Checked.valid_of_map hTitle
  have hAfter : After declared (moved operations) hoisting :=
    readPaths_moves (.begin declared) paths _ _ hRun
  refine ⟨declared, hDeclared, fun name => ?_, hAfter.names⟩
  rw [get?_checkedProperties (Checked.valid_of_inside hSchemas) name, hAfter.schemas]

theorem declares_iff {doc : Value} {declared : List (Scalar × Schema)}
    (h : declaredSchemas doc = .ok declared) {name : String} {s : Schema} :
    Declares doc name s ↔ Table.get? declared (.text name) = some s := by
  obtain ⟨entries, hEntries, hAll⟩ := ok_of_bind h
  rw [get?_allProperties hAll]
  simp [Declares, hEntries]

/-- A document keeps every schema of its description exactly when no code ends with
the number of a further response of another code, and no name that a moved schema gets is declared
for a schema that is not the same. -/
theorem keepsAll_iff {doc : Value} {document : ApiDocument} (h : ofValue doc = .ok document) :
    KeepsAll doc document ↔ CodesApart (movedOrigins document) ∧
      ∀ m ∈ moved document.operations, ∀ s, Declares doc m.name s → s = m.schema := by
  obtain ⟨declared, hDeclared, hTable, hNames⟩ := ofValue_moves h
  have hDistinct : ((moved document.operations).map (·.name)).Nodup ↔
      CodesApart (movedOrigins document) := by rw [hNames, nodup_names_iff]
  constructor
  · intro hKeeps
    refine ⟨hDistinct.mp hKeeps.distinct, fun m hm s hs => ?_⟩
    have hFound := hKeeps.declared m.name s hs
    rw [hKeeps.hoisted m hm] at hFound
    exact (Option.some.inj hFound).symm
  · rintro ⟨hApart, hSame⟩
    have hNodup := hDistinct.mpr hApart
    have hMoved : ∀ m ∈ moved document.operations, document.schemas.get? m.name = some m.schema :=
      fun m hm => (hTable m.name).trans (get?_putAll_of_mem hNodup hm)
    refine ⟨fun name s hs => ?_, hMoved, hNodup⟩
    by_cases hTaken : name ∈ (moved document.operations).map (·.name)
    · obtain ⟨m, hm, rfl⟩ := List.mem_map.mp hTaken
      rw [hMoved m hm, hSame m hm s hs]
    · rw [hTable, get?_putAll_of_not_mem hTaken]
      exact (declares_iff hDeclared).mp hs

/-- A description that declares a text under a name, and whose only operation takes an
object that is described in its place. -/
def describedWith (name : String) : Value :=
  .record [
    ("openapi", .text "3.0.0"),
    ("info", .record [("title", .text "Pets"), ("version", .text "1.0.0")]),
    ("components", .record [("schemas", .record [(name, .record [("type", .text "string")])])]),
    ("paths", .record [("/pets", .record [("post", .record [("requestBody",
      .record [("content", .record [("application/json", .record [("schema",
        .record [("type", .text "object"), ("properties",
          .record [("tag", .record [("type", .text "string")])])])])])])])])])]

theorem keepsAll_iff_other_name :
    ∃ document, ofValue (describedWith "Tag") = .ok document ∧
      KeepsAll (describedWith "Tag") document := by
  obtain ⟨document, hRead, hOrigins, hNames⟩ : ∃ document,
      ofValue (describedWith "Tag") = .ok document ∧ movedOrigins document = [.body] ∧
        (moved document.operations).map (·.name) = ["body_1"] :=
    ⟨_, rfl, by decide +kernel, by decide +kernel⟩
  refine ⟨document, hRead, (keepsAll_iff hRead).mpr ⟨by rw [hOrigins]; decide +kernel, ?_⟩⟩
  rintro m hm s ⟨entries, v, hEntries, hField, _⟩
  have hName : m.name ∈ ["body_1"] := hNames ▸ List.mem_map_of_mem hm
  rw [List.mem_singleton.mp hName] at hField
  cases hEntries
  cases hField

/-- A declared schema is lost to a body when it has the name that the body gets. -/
theorem declared_schema_lost :
    ∃ document, ofValue (describedWith "body_1") = .ok document ∧
      ¬ KeepsAll (describedWith "body_1") document := by
  refine ⟨_, rfl, fun hKeeps => ?_⟩
  have hText := hKeeps.declared "body_1" { kind := .primitive, type := some "string" }
    ⟨_, _, rfl, rfl, rfl⟩
  exact absurd (congrArg (Option.map Schema.kind) hText) (by decide +kernel)

end ClientTypes.Document
