import ClientTypes.Proofs.Compilation.KeptNames
import ClientTypes.Proofs.CrossReference.DerivedNames

/-! The inline objects of a placeholder in a document. With the placeholder they are called by its friendly
name, which the path to them follows; except where the path begins with digits, which are taken for a part
of the number. -/
namespace ClientTypes.Compilation

open Naming Hints Resolution CrossReference

variable {setup : Setup}

/-! ### The friendly names of a document -/

theorem steps_preserve_ofPlaceholders :
    Operations.StepsPreserve setup (fun _ => True) fun w => w.hints.OfPlaceholders where
  resolve r _ w h := (propertyWithin_grows setup w _ r w (.refl w)).imp fun _ w' hGrows => by
    change w'.hints.OfPlaceholders
    rw [hGrows.hints]
    exact h
  report _ _ h := h
  register w placeholder friendly hPlaceholder h := by
    rw [hints_register]
    exact h.register hPlaceholder friendly

theorem resolveSchemas_grows (w : Workspace) (entries : List (String × Schema)) :
    Preserves (Grows w) (resolveSchemas setup entries) := by
  induction entries with
  | nil => exact .pure _
  | cons entry rest ih =>
      exact .bind (modelWithin_grows setup w _ entry.1 entry.2) fun _ => .bind ih fun _ => .pure _

/-- Operations name placeholders only. -/
theorem ofPlaceholders_of_resolved {document : ApiDocument} {operations : List Operation}
    {declared : List Model} {w : Workspace}
    (hRun : (resolveDocument setup document).run {} = .ok ((operations, declared), w)) :
    w.hints.freeze.OfPlaceholders := by
  have hEmpty : ({} : Workspace).hints.OfPlaceholders := by simp [OfPlaceholders, Table.keys]
  have hSteps : Operations.StepsPreserve setup (fun _ => True) fun w => w.hints.OfPlaceholders :=
    steps_preserve_ofPlaceholders
  have hOperations : Preserves (fun w => w.hints.OfPlaceholders)
      (Operations.buildAll setup document.operations) :=
    Operations.buildAll_preserves hSteps fun _ _ _ _ => trivial
  have hAll : Ensures (resolveDocument setup document) {} fun _ w => w.hints.OfPlaceholders := by
    refine .bind (hOperations {} hEmpty) fun _ w1 hBefore => ?_
    refine .bind (resolveSchemas_grows w1 setup.schemas w1 (.refl w1)) fun _ _ hGrows => .pure ?_
    rw [hGrows.hints]
    exact hBefore
  exact hAll _ _ hRun

/-! ### Models of a placeholder -/

theorem classname_pruned {document : ApiDocument} {operations : List Operation} {declared : List Model}
    {w : Workspace} (hRun : (resolveDocument setup document).run {} = .ok ((operations, declared), w))
    (hints : Hints) :
    ∀ m ∈ pruned hints (registryOf declared w.synthetic), m.classname = typeName m.name := by
  simp only [pruned, List.map_map, List.forall_mem_map, Function.comp_apply]
  intro m hm
  have hName : (prune hints (classify m)).name = m.name := (prune_matched hints m).name
  rw [(prune_leavesTypes hints).classname, classname_classify, hName]
  exact classname_registryOf hRun m hm

/-- What a model is called that is derived from a placeholder, where some names are taken when it is
renamed. -/
structure DerivedName (hints : Hints) (taken : List String) (placeholder path old new : String) : Prop where
  /-- It follows the placeholder, unless its path begins with a digit. -/
  own : startsWithDigit (camelChars path.toList) = false → ∀ friendly,
    hints.get? placeholder = some friendly → Follows taken (friendly ++ camelize path) old new
  unnamed : startsWithDigit (camelChars path.toList) = false → hints.get? placeholder = none → new = old
  /-- Digits at the beginning of the path continue the number, and it follows the placeholder of the longer
  number if a new word begins behind them. -/
  longer : startsWithDigit (camelChars path.toList) = true → opensWord (pathWords path) = true → ∀ friendly,
    hints.names.get? (camelize placeholder ++ String.ofList (pathNumber path)) = some friendly →
    Follows taken (friendly ++ String.ofList (pathWords path)) old new
  stays : startsWithDigit (camelChars path.toList) = true → (opensWord (pathWords path) = false ∨
    hints.names.get? (camelize placeholder ++ String.ofList (pathNumber path)) = none) → new = old

/-- In any document and with any friendly names of placeholders, take the moment at which a live model is
renamed that is no union and stands under a placeholder. It follows its own placeholder when its path does
not begin with a digit, and otherwise the one whose number goes on with these digits, if there is one. -/
theorem derived_models_named {config : Config} {document : ApiDocument} {operations : List Operation}
    {declared : List Model} {w : Workspace}
    (hRun : (resolveDocument ⟨config, document.schemas⟩ document).run {} = .ok ((operations, declared), w))
    {hints : Hints} (hKeys : hints.OfPlaceholders) {done rest : List Model} {m : Model} {s : RenameState}
    (hMoment : Underway hints (pruned hints (registryOf declared w.synthetic)) done (m :: rest) s)
    (hLive : m.removed = false) (hUnion : m.isUnion = false) {placeholder path : String}
    (hPlaceholder : IsPlaceholder placeholder) (hName : m.name = placeholder ++ "_" ++ path) :
    ∃ m', (run config hints (registryOf declared w.synthetic)).registry.models[done.length]? = some m' ∧
      m'.name = m.name ∧ DerivedName hints s.taken placeholder path m.classname m'.classname := by
  have hFresh : (registryOf declared w.synthetic).crossReferenced = false := by simp [registryOf]
  have hSpelled : m.classname = typeName (placeholder ++ "_" ++ path) := by
    obtain ⟨first, hSplit, _⟩ := hMoment
    rw [← hName]
    exact classname_pruned hRun hints m (by rw [hSplit]; simp)
  obtain ⟨m', hAt, hSame, hCalled⟩ := hMoment.called_run config hFresh hLive
  refine ⟨m', hAt, hSame, ?_⟩
  rw [hCalled]
  have hOffer := friendlyName?_derived hKeys hUnion hPlaceholder hSpelled
  have hOwn := friendlyName?_own hKeys hUnion hPlaceholder hSpelled
  refine ⟨fun hPath friendly hHint => ?_, fun hPath hHint => ?_, fun _ hOpens friendly hHint => ?_,
    fun _ hNone => ?_⟩
  · exact follows_decide _ (by rw [hOwn hPath, hHint, Option.map_some])
  · exact kept_decide _ (by rw [hOwn hPath, hHint, Option.map_none])
  · exact follows_decide _ (by rw [hOffer, if_pos hOpens, hHint, Option.map_some])
  · refine kept_decide _ ?_
    rw [hOffer]
    rcases hNone with hSmall | hAbsent
    · simp [hSmall]
    · simp [hAbsent]

/-- The body of a request with inline objects in two of its fields, one of which is called by digits. -/
def twoFactorDocument : ApiDocument where
  schemas := [("body_1", { properties := [("item", object), ("2fa", object), ("1Item", object)] }),
    ("body_11", object)]
  operations := [operation "login" "body_1", operation "logout" "body_11"]
where
  object : Schema := { properties := [("code", { kind := .primitive, type := some "string" })] }
  operation (name body : String) : OperationDef := {
    operationId := name, method := "POST", path := "/" ++ name, summary := "", notes := none
    tags := [], parameters := [], responses := []
    body := some {
      schema := object, schemaName := some body, description := "", required := true
      contentType := "application/json"
      extensions := [("x-codegen-operation-name", .text name)] } }

/-- The moment at which a model is renamed. -/
theorem underway_at {hints : Hints} {models rest : List Model} {m : Model} {i : Nat}
    (h : models.drop i = m :: rest) :
    Underway hints models (renameModels hints (.initial models) (models.take i)).1 (m :: rest)
      (renameModels hints (.initial models) (models.take i)).2 :=
  ⟨models.take i, by rw [← h, List.take_append_drop], rfl⟩

theorem derived_models_named_item : ∃ operations declared w,
    (resolveDocument ⟨Config.shipped, twoFactorDocument.schemas⟩ twoFactorDocument).run {} =
      .ok ((operations, declared), w) ∧
    ∃ done m rest s,
      Underway w.hints.freeze (pruned w.hints.freeze (registryOf declared w.synthetic)) done (m :: rest) s ∧
      m.removed = false ∧ m.isUnion = false ∧ m.name = "body_1" ++ "_" ++ "item" ∧
      w.hints.freeze.OfPlaceholders ∧ IsPlaceholder "body_1" ∧
      ∃ m', (run Config.shipped w.hints.freeze (registryOf declared w.synthetic)).registry.models[done.length]? =
          some m' ∧ m'.name = m.name ∧ m'.classname = "LoginItem" ∧
        DerivedName w.hints.freeze s.taken "body_1" "item" m.classname m'.classname := by
  obtain ⟨operations, declared, w, hRun, done, m, rest, s, hMoment, hLive, hUnion, hName, hAfter⟩ :
      ∃ operations declared w,
        (resolveDocument ⟨Config.shipped, twoFactorDocument.schemas⟩ twoFactorDocument).run {} =
          .ok ((operations, declared), w) ∧
        ∃ done m rest s,
          Underway w.hints.freeze (pruned w.hints.freeze (registryOf declared w.synthetic)) done (m :: rest) s ∧
          m.removed = false ∧ m.isUnion = false ∧ m.name = "body_1" ++ "_" ++ "item" ∧
          ((run Config.shipped w.hints.freeze (registryOf declared w.synthetic)).registry.models[done.length]?).map
            (·.classname) = some "LoginItem" :=
    ⟨_, _, _, rfl, _, _, _, _, underway_at (i := 2) rfl, rfl, rfl, rfl, by decide +kernel⟩
  have hKeys := ofPlaceholders_of_resolved hRun
  have hPlaceholder : IsPlaceholder "body_1" := Or.inl (by decide +kernel)
  obtain ⟨m', hAt, hSame, hDerived⟩ :=
    derived_models_named hRun hKeys hMoment hLive hUnion hPlaceholder hName
  rw [hAt] at hAfter
  exact ⟨operations, declared, w, hRun, done, m, rest, s, hMoment, hLive, hUnion, hName, hKeys, hPlaceholder,
    m', hAt, hSame, Option.some.inj hAfter, hDerived⟩

/-- A path that begins with a digit does not lead back to its placeholder. The body of `login` has a field
`2fa`, whose model keeps its name; and the model of its field `1Item` follows the body of `logout`, which has
the number 11. -/
theorem derived_model_strays :
    (∃ operations declared w,
      (resolveDocument ⟨Config.shipped, twoFactorDocument.schemas⟩ twoFactorDocument).run {} =
        .ok ((operations, declared), w) ∧
      (run Config.shipped w.hints.freeze (registryOf declared w.synthetic)).registry.models.map
          (fun m => (m.name, m.classname)) =
        [("body_1", "Login"), ("body_11", "Logout"), ("body_1_item", "LoginItem"), ("body_1_2fa", "Body12fa"),
          ("body_1_1Item", "LogoutItem")]) ∧
    ¬ ∀ (config : Config) (document : ApiDocument) (operations : List Operation) (declared : List Model)
      (w : Workspace) (hints : Hints) (done rest : List Model) (m m' : Model) (s : RenameState)
      (placeholder path friendly : String),
      (resolveDocument ⟨config, document.schemas⟩ document).run {} = .ok ((operations, declared), w) →
      hints.OfPlaceholders → IsPlaceholder placeholder → hints.get? placeholder = some friendly →
      Underway hints (pruned hints (registryOf declared w.synthetic)) done (m :: rest) s →
      m.removed = false → m.isUnion = false → m.name = placeholder ++ "_" ++ path →
      (run config hints (registryOf declared w.synthetic)).registry.models[done.length]? = some m' →
      Follows s.taken (friendly ++ camelize path) m.classname m'.classname := by
  refine ⟨⟨_, _, _, rfl, by decide +kernel⟩, fun hAlways => ?_⟩
  obtain ⟨operations, declared, w, hRun, done, m, rest, s, hMoment, hLive, hUnion, hName, hHint, m', hAt, hNew,
      hFree⟩ : ∃ operations declared w,
        (resolveDocument ⟨Config.shipped, twoFactorDocument.schemas⟩ twoFactorDocument).run {} =
          .ok ((operations, declared), w) ∧
        ∃ done m rest s,
          Underway w.hints.freeze (pruned w.hints.freeze (registryOf declared w.synthetic)) done (m :: rest) s ∧
          m.removed = false ∧ m.isUnion = false ∧ m.name = "body_1" ++ "_" ++ "2fa" ∧
          w.hints.freeze.get? "body_1" = some "Login" ∧
          ∃ m', (run Config.shipped w.hints.freeze (registryOf declared w.synthetic)).registry.models[done.length]? =
              some m' ∧ m'.classname = "Body12fa" ∧ "Login2fa" ∉ s.taken :=
    ⟨_, _, _, rfl, _, _, _, _, underway_at (i := 3) rfl, rfl, rfl, rfl, by decide +kernel, _, rfl,
      by decide +kernel, by decide +kernel⟩
  have hPlaceholder : IsPlaceholder "body_1" := Or.inl (by decide +kernel)
  have hFollows := hAlways Config.shipped twoFactorDocument operations declared w w.hints.freeze done rest
    m m' s "body_1" "2fa" "Login" hRun (ofPlaceholders_of_resolved hRun) hPlaceholder hHint hMoment hLive
    hUnion hName hAt
  have hTarget : "Login" ++ camelize "2fa" = "Login2fa" := by decide +kernel
  rw [hTarget] at hFollows
  have hIs := hFollows.of_free hFree
  rw [hNew] at hIs
  exact absurd hIs (by decide)

end ClientTypes.Compilation
