import ClientTypes.Proofs.Compilation.Matching

/-! The types of linked operations. Operations are built before models are renamed. Linking
renames the types of bodies and responses; the types of the other parameters stay what they
were, so they may be left with a classname that no model has any more. -/
namespace ClientTypes.Compilation

open Naming Resolution CrossReference Linking

/-! ### The types of an operation -/

/-- The parameters that are not the body. -/
def argumentsOf (o : Operation) : List Parameter := o.queryParams ++ o.pathParams ++ o.headerParams

def typesInParameter (p : Parameter) : List String := p.datatype :: p.itemsDatatype.toList

/-- The types of the parameters of an operation and of their elements, and those of its responses. -/
def typesInOperation (o : Operation) : List String :=
  (o.bodyParam.toList ++ argumentsOf o).flatMap typesInParameter ++ o.responses.filterMap (·.datatype)

/-- The types that linking renames. -/
def linkedTypes (o : Operation) : List String :=
  (o.bodyParam.map (·.datatype)).toList ++ o.responses.filterMap (·.datatype)

/-- The types that linking passes over. -/
def passedTypes (o : Operation) : List String :=
  (o.bodyParam.bind (·.itemsDatatype)).toList ++ (argumentsOf o).flatMap typesInParameter

variable {config : Config} {renames : Table String String} {type : String}

theorem mem_typesInOperation {o : Operation} :
    type ∈ typesInOperation o ↔ type ∈ linkedTypes o ∨ type ∈ passedTypes o := by
  cases hBody : o.bodyParam with
  | none => simp [typesInOperation, linkedTypes, passedTypes, hBody, or_comm]
  | some body =>
      simp only [typesInOperation, linkedTypes, passedTypes, hBody, Option.toList_some,
        Option.map_some, Option.bind_some, List.cons_append, List.nil_append, List.flatMap_cons,
        typesInParameter, List.mem_append, List.mem_cons]
      tauto

theorem linkedTypes_renameOperation (o : Operation) :
    linkedTypes (renameOperation renames o) = (linkedTypes o).map (renameIdentifiers renames) := by
  have hResponses : ∀ rs : List Response,
      (rs.map fun r => { r with datatype := r.datatype.map (renameIdentifiers renames) }).filterMap
        (·.datatype) = (rs.filterMap (·.datatype)).map (renameIdentifiers renames) := by
    intro rs
    rw [List.filterMap_map, List.map_filterMap]
    rfl
  simp only [linkedTypes, renameOperation, List.map_append, hResponses]
  cases o.bodyParam <;> rfl

theorem passedTypes_renameOperation (o : Operation) :
    passedTypes (renameOperation renames o) = passedTypes o := by
  have hBody : ((renameOperation renames o).bodyParam.bind (·.itemsDatatype)) =
      o.bodyParam.bind (·.itemsDatatype) := by
    simp only [renameOperation]
    cases o.bodyParam <;> rfl
  rw [passedTypes, hBody]
  rfl

/-! ### Linking -/

/-- The types of two operations are the same. -/
def SameTypes (o o' : Operation) : Prop := typesInOperation o' = typesInOperation o

theorem filterMap_updatePrimary {f : Response → Response} (hf : ∀ r, (f r).datatype = r.datatype)
    (rs : List Response) :
    (updatePrimary f rs).filterMap (·.datatype) = rs.filterMap (·.datatype) := by
  induction rs with
  | nil => rfl
  | cons r rest ih =>
      rw [updatePrimary]
      split
      · rw [List.filterMap_cons, List.filterMap_cons, hf]
      · rw [List.filterMap_cons, List.filterMap_cons, ih]

theorem markShape_sameTypes (o : Operation) (shape : ResponseShape) : SameTypes o (markShape o shape) := by
  cases shape with
  | empty => rfl
  | plain => rfl
  | list datatype inner =>
      rw [SameTypes, typesInOperation, typesInOperation]
      congr 1
      apply filterMap_updatePrimary
      intro r
      rfl
  | single model key datatype => rfl

theorem flatMap_markParameter (config : Config) (ps : List Parameter) :
    (ps.map (markParameter config)).flatMap typesInParameter = ps.flatMap typesInParameter := by
  rw [List.flatMap_map]
  rfl

theorem markQuery_sameTypes (config : Config) (o : Operation) : SameTypes o (markQuery config o) := by
  rw [SameTypes, typesInOperation, typesInOperation]
  simp only [argumentsOf, List.flatMap_append, markQuery, flatMap_markParameter]

/-- After its types are renamed, linking an operation only sets marks and rewrites its notes. -/
theorem linkOperation_sameTypes (config : Config) (r : Registry) (o : Operation) :
    SameTypes (renameOperation renames o) (linkOperation config renames r o).1 := by
  have hShape := markShape_sameTypes (renameOperation renames o)
    (responseShape r (renameOperation renames o))
  have hQuery := markQuery_sameTypes config (markShape (renameOperation renames o)
    (responseShape r (renameOperation renames o)))
  exact hQuery.trans hShape

theorem map_typesInOperation_linkAll (config : Config) (r : Registry) (operations : List Operation) :
    (linkAll config renames r operations).1.map typesInOperation =
      operations.map fun o => typesInOperation (renameOperation renames o) := by
  induction operations generalizing r with
  | nil => rfl
  | cons o rest ih =>
      rw [linkAll, List.map_cons, List.map_cons, ih, linkOperation_sameTypes]

theorem compile_operations {document : ApiDocument} {result : Result}
    (h : compile config document = .ok result) : ∃ operations declared w,
      (resolveDocument ⟨config, document.schemas⟩ document).run {} =
        .ok ((operations, declared), w) ∧
      result.api.operations.map typesInOperation = operations.map fun o => typesInOperation
        (renameOperation (CrossReference.run config w.hints.freeze
          (registryOf declared w.synthetic)).renames o) := by
  obtain ⟨⟨⟨operations, declared⟩, w⟩, hRun, hResult⟩ := ok_of_bind h
  cases hResult
  exact ⟨operations, declared, w, hRun, map_typesInOperation_linkAll config _ operations⟩

/-! ### Names that were given up -/

/-- The name is an old classname, and no model has it any more. -/
def Stale (renames : Table String String) (models : List Model) (name : String) : Prop :=
  renames.get? name ≠ none ∧ ¬ IsClassname models name

instance (renames : Table String String) (models : List Model) (name : String) :
    Decidable (Stale renames models name) :=
  inferInstanceAs (Decidable (renames.get? name ≠ none ∧ ¬ ∃ m ∈ models, m.classname = name))

/-- No identifier of a type is stale. -/
def Current (renames : Table String String) (models : List Model) (type : String) : Prop :=
  ∀ name ∈ identifiers type, ¬ Stale renames models name

instance (renames : Table String String) (models : List Model) (type : String) :
    Decidable (Current renames models type) :=
  inferInstanceAs (Decidable (∀ name ∈ identifiers type, ¬ Stale renames models name))

/-- New names are classnames, and words. -/
structure NamesGiven (renames : Table String String) (models : List Model) : Prop where
  given : ∀ old new, renames.get? old = some new → IsClassname models new
  words : ToWords renames

variable {models : List Model}

/-- A new name that is an identifier is current: some model has it. -/
theorem NamesGiven.current_of_isIdentifier (h : NamesGiven renames models) {old new : String}
    (hNew : renames.get? old = some new) (hWhole : IsIdentifier new.toList) :
    Current renames models new := by
  intro name hName hStale
  rw [identifiers_of_isIdentifier hWhole, List.mem_singleton] at hName
  exact hStale.2 (hName ▸ h.given old new hNew)

/-- The new name of every identifier in the type is an identifier or holds no stale name. -/
def NewNamesCurrent (renames : Table String String) (models : List Model) (type : String) : Prop :=
  ∀ old ∈ identifiers type, ∀ new, renames.get? old = some new →
    ¬ IsIdentifier new.toList → Current renames models new

/-- Renaming leaves no stale name, unless a new name that is no identifier holds one. -/
theorem NamesGiven.current_renameIdentifiers_iff (h : NamesGiven renames models) (type : String) :
    Current renames models (renameIdentifiers renames type) ↔ NewNamesCurrent renames models type := by
  constructor
  · intro hAll old hOld new hNew _ name hName
    apply hAll
    rw [mem_identifiers_renameIdentifiers h.words]
    exact ⟨old, hOld, by simpa [hNew] using hName⟩
  · intro hNew name hName
    obtain ⟨old, hOld, hIn⟩ := (mem_identifiers_renameIdentifiers h.words).mp hName
    cases hGet : renames.get? old with
    | none =>
        -- An identifier without a new name is not an old classname at all.
        rw [hGet, Option.getD_none, identifiers_of_isIdentifier (isIdentifier_of_mem hOld),
          List.mem_singleton] at hIn
        rintro ⟨hOldName, _⟩
        exact hOldName (hIn ▸ hGet)
    | some new =>
        rw [hGet, Option.getD_some] at hIn
        by_cases hWhole : IsIdentifier new.toList
        · exact h.current_of_isIdentifier hGet hWhole name hIn
        · exact hNew old hOld new hGet hWhole name hIn

/-- The types of a renamed operation are current exactly when those that linking passes over are, and
the new names in the others are. -/
theorem NamesGiven.renameOperation_current_iff (h : NamesGiven renames models) (o : Operation) :
    (∀ type ∈ typesInOperation (renameOperation renames o), Current renames models type) ↔
      (∀ type ∈ passedTypes o, Current renames models type) ∧
        ∀ type ∈ linkedTypes o, NewNamesCurrent renames models type := by
  simp only [mem_typesInOperation, or_imp, forall_and, linkedTypes_renameOperation,
    passedTypes_renameOperation, List.forall_mem_map, h.current_renameIdentifiers_iff]
  exact and_comm

/-! ### What matching gives -/

section Matching

variable {hints : Hints} {r : Registry}

theorem renames_run (config : Config) (hints : Hints) (hFresh : r.crossReferenced = false) :
    (run config hints r).renames =
      (renameModels hints (.initial (pruned hints r)) (pruned hints r)).2.renames := by
  rw [run, if_neg (by simp [hFresh])]
  rfl

/-- After renaming, matching leaves classnames alone. -/
theorem isClassname_run (config : Config) (hints : Hints) (hFresh : r.crossReferenced = false) :
    IsClassname (run config hints r).registry.models =
      IsClassname (renameModels hints (.initial (pruned hints r)) (pruned hints r)).1 := by
  rw [models_run config hints hFresh]
  dsimp only
  rw [isClassname_map (classname_unstubModel config _),
    isClassname_map (applyDefaults_leavesTypes config).classname]
  simp only [rename, renameAllTypes_eq]
  exact isClassname_map fun _ => rfl

theorem namesGiven_run (config : Config) (hFresh : r.crossReferenced = false)
    (hHints : hints.Reached) (hSpelled : ∀ m ∈ r.models, IsTypeName m.classname) :
    NamesGiven (run config hints r).renames (run config hints r).registry.models := by
  have hRun := renameModels_run hints (.initial (pruned hints r)) (pruned hints r)
  have hGiven : ∀ old new, (run config hints r).renames.get? old = some new →
      IsClassname (run config hints r).registry.models new := by
    rw [renames_run config hints hFresh, isClassname_run config hints hFresh]
    intro old new hNew
    have hStart : (RenameState.initial (pruned hints r)).renames.get? old ≠ some new := nofun
    exact (hRun.given hNew).resolve_left hStart
  refine ⟨hGiven, fun old new hNew _ => ?_⟩
  have hBefore : ∀ m ∈ pruned hints r, IsWord m.classname.toList := by
    have hNames : ∀ m ∈ r.models, IsWord m.classname.toList :=
      fun m hm => (hSpelled m hm).isIdentifier.isWord
    simpa [pruned, (prune_leavesTypes hints).classname, classname_classify] using hNames
  have hAfter := hRun.allChars (fun _ he => hHints.isWord he) isWord_enum hBefore
  have hClassname := hGiven old new hNew
  rw [isClassname_run config hints hFresh] at hClassname
  obtain ⟨m, hm, rfl⟩ := hClassname
  exact hAfter m hm

end Matching

/-- Resolved models are spelled after their schemas, so matching gives words as new names. -/
theorem namesGiven_of_resolved {document : ApiDocument} {operations : List Operation}
    {declared : List Model} {w : Workspace}
    (hRun : (resolveDocument ⟨config, document.schemas⟩ document).run {} =
      .ok ((operations, declared), w)) :
    NamesGiven (run config w.hints.freeze (registryOf declared w.synthetic)).renames
      (matchedModels config declared w) := by
  obtain ⟨hPrepared, hDeclared, _⟩ :=
    @resolveDocument_prepared ⟨config, document.schemas⟩ document _ _ hRun
  refine namesGiven_run config (by simp [registryOf]) (.freeze hPrepared.reached) fun m hm => ?_
  have hSpelled : m.classname = typeName m.name := by
    rcases mem_registryOf hm with hOwn | hSynthetic
    · exact (hDeclared m hOwn).spelled
    · exact (hPrepared.built m hSynthetic).spelled
  rw [hSpelled]
  exact isTypeName_typeName _

/-- No type of an operation of a compiled document mentions a name that was given up exactly when no
type that linking passes over does, and the new names that are put into bodies and responses do not
either. Linking passes over the parameters of query, path and header; and a new name can mention
another name only if it is no identifier. -/
theorem linked_types_current_iff {document : ApiDocument} {result : Result}
    (hCompile : compile config document = .ok result) :
    ∃ operations declared w,
      (resolveDocument ⟨config, document.schemas⟩ document).run {} =
        .ok ((operations, declared), w) ∧
      let renames := (run config w.hints.freeze (registryOf declared w.synthetic)).renames
      let models := matchedModels config declared w
      (∀ o ∈ result.api.operations, ∀ type ∈ typesInOperation o, Current renames models type) ↔
        (∀ o ∈ operations, ∀ type ∈ passedTypes o, Current renames models type) ∧
          ∀ o ∈ operations, ∀ type ∈ linkedTypes o, NewNamesCurrent renames models type := by
  obtain ⟨operations, declared, w, hRun, hTypes⟩ := compile_operations hCompile
  refine ⟨operations, declared, w, hRun, ?_⟩
  have hGiven := namesGiven_of_resolved hRun
  dsimp only
  generalize (run config w.hints.freeze (registryOf declared w.synthetic)).renames = renames at *
  generalize matchedModels config declared w = models at *
  have hLinked : (∀ o ∈ result.api.operations, ∀ type ∈ typesInOperation o,
        Current renames models type) ↔
      ∀ o ∈ operations, ∀ type ∈ typesInOperation (renameOperation renames o),
        Current renames models type := by
    have hAll := congrArg (fun ts => ∀ types ∈ ts, ∀ type ∈ types, Current renames models type) hTypes
    simpa only [List.forall_mem_map] using Iff.of_eq hAll
  rw [hLinked, ← forall₂_and]
  exact forall₂_congr fun o _ => hGiven.renameOperation_current_iff o

/-- An operation with a filter in its query that answers with owners and pets. -/
def filterDocument (filter : Schema) : ApiDocument where
  schemas := [
    ("Pet", { properties := [("name", { kind := .primitive, type := some "string" })] }),
    ("Owner", { properties := [("id", { kind := .primitive, type := some "string" })] })]
  operations := [{
    operationId := "find", method := "GET", path := "/pets", summary := "", notes := none
    tags := [], body := none
    parameters := [
      { name := "filter", location := "query", required := false, description := "", schema := filter }]
    responses := [{
      code := "200", description := "", schemaName := none, isDefault := true, extensions := []
      schema := some { kind := .array, items := some ownerOrPet } }] }]
where
  ownerOrPet : Schema := { kind := .composed, oneOf := [refTo "Owner", refTo "Pet"] }
  refTo (name : String) : Schema := { reference := some ("#/components/schemas/" ++ name) }

theorem linked_types_current_iff_text_filter :
    ∃ result, compile Config.shipped (filterDocument { kind := .primitive, type := some "string" }) =
        .ok result ∧
      (∃ operations declared w,
        (resolveDocument ⟨Config.shipped, (filterDocument { kind := .primitive, type := some "string" }).schemas⟩
          (filterDocument { kind := .primitive, type := some "string" })).run {} =
            .ok ((operations, declared), w) ∧
        let renames := (run Config.shipped w.hints.freeze (registryOf declared w.synthetic)).renames
        let models := matchedModels Config.shipped declared w
        (∀ o ∈ result.api.operations, ∀ type ∈ typesInOperation o, Current renames models type) ↔
          (∀ o ∈ operations, ∀ type ∈ passedTypes o, Current renames models type) ∧
            ∀ o ∈ operations, ∀ type ∈ linkedTypes o, NewNamesCurrent renames models type) ∧
      result.api.operations.map typesInOperation = [["String", "Vec<OwnerPet>"]] := by
  have hTypes : (compile Config.shipped (filterDocument { kind := .primitive, type := some "string" })).toOption.map
      (fun result => result.api.operations.map typesInOperation) = some [["String", "Vec<OwnerPet>"]] := by
    decide +kernel
  obtain ⟨result, hOk, hLinked⟩ := Option.map_eq_some_iff.mp hTypes
  have hCompile := ok_of_toOption hOk
  exact ⟨result, hCompile, linked_types_current_iff hCompile, hLinked⟩

/-- The type of a filter keeps the name of its union, which the model of the union gave up. -/
theorem stale_type_of_filter :
    ∃ result operations declared w,
      compile Config.shipped (filterDocument filterDocument.ownerOrPet) = .ok result ∧
      (resolveDocument ⟨Config.shipped, (filterDocument filterDocument.ownerOrPet).schemas⟩
        (filterDocument filterDocument.ownerOrPet)).run {} = .ok ((operations, declared), w) ∧
      ∃ o ∈ result.api.operations, ∃ p ∈ o.queryParams, ∃ name ∈ identifiers p.datatype,
        Stale (run Config.shipped w.hints.freeze (registryOf declared w.synthetic)).renames
          (matchedModels Config.shipped declared w) name := by
  have hTypes : (compile Config.shipped (filterDocument filterDocument.ownerOrPet)).toOption.map
      (fun result => result.api.operations.flatMap fun o => o.queryParams.map (·.datatype)) =
        some ["OneOfOwnerPet"] := by decide +kernel
  have hStale : ((resolveDocument ⟨Config.shipped, (filterDocument filterDocument.ownerOrPet).schemas⟩
      (filterDocument filterDocument.ownerOrPet)).run {}).toOption.map (fun resolved =>
        let matched := run Config.shipped resolved.2.hints.freeze
          (registryOf resolved.1.2 resolved.2.synthetic)
        (matched.renames, matched.registry.models.map (·.classname))) =
      some ([("OneOfOwnerPet", "OwnerPet")], ["Pet", "Owner", "OwnerPet"]) := by decide +kernel
  obtain ⟨result, hOk, hQuery⟩ := Option.map_eq_some_iff.mp hTypes
  obtain ⟨⟨⟨operations, declared⟩, w⟩, hResolved, hMatched⟩ := Option.map_eq_some_iff.mp hStale
  obtain ⟨hRenames, hNames⟩ := Prod.mk.inj hMatched
  refine ⟨result, operations, declared, w, ok_of_toOption hOk, ok_of_toOption hResolved, ?_⟩
  obtain ⟨o, hOperation, hIn⟩ := List.mem_flatMap.mp (hQuery ▸ List.mem_singleton_self "OneOfOwnerPet")
  obtain ⟨p, hParameter, hType⟩ := List.mem_map.mp hIn
  refine ⟨o, hOperation, p, hParameter, "OneOfOwnerPet", by rw [hType]; decide +kernel, ?_, ?_⟩
  · dsimp only at hRenames
    rw [hRenames]
    decide
  · rintro ⟨m, hm, hName⟩
    have hOther : m.classname ∈ ["Pet", "Owner", "OwnerPet"] := hNames ▸ List.mem_map_of_mem hm
    rw [hName] at hOther
    revert hOther
    decide

end ClientTypes.Compilation
