import ClientTypes.Proofs.Compilation.Matching
import ClientTypes.Proofs.CrossReference.Stubs

/-! Reference stubs in a compiled document. Fields use the models themselves, as their types and as the types
of their elements; but a list of lists of references stays one. -/
namespace ClientTypes.Compilation

open Resolution CrossReference

/-- Marks do not matter to what stubs are replaced by. -/
theorem fieldsReferred_of_onlyMarks {config : Config} {live : List String} {m m' : Model}
    {mark : Model → Model} (hMark : OnlyMarks mark) (h : FieldsReferred config live m m') :
    FieldsReferred config live m (mark m') := by
  rw [hMark m']
  exact ⟨h.classname, h.removed, h.fields⟩

/-- In a compiled document every field of a model whose references are not kept went through the last pass
of matching, among the classnames of the document. Exactly the fields whose stubs were all in reach have none
left at any depth, and a list or map has the type of its element. -/
theorem compiled_stubs_referred {config : Config} {document : ApiDocument} {result : Result}
    (h : compile config document = .ok result) : ∃ operations declared w,
      (resolveDocument ⟨config, document.schemas⟩ document).run {} =
        .ok ((operations, declared), w) ∧
      List.Forall₂ (FieldsReferred config (result.api.models.map (·.classname)))
        ((beforeStubs config w.hints.freeze (registryOf declared w.synthetic)).filter (!·.removed))
        result.api.models := by
  refine compile_lastPass h (fun live m m' mark hMark => fieldsReferred_of_onlyMarks hMark.onlyMarks) ?_
  intro operations declared w _
  have hFresh : (registryOf declared w.synthetic).crossReferenced = false := by simp [registryOf]
  exact (run_fieldsReferred config w.hints.freeze hFresh).imp fun m m' hReferred =>
    ⟨hReferred.removed, fun _ => hReferred⟩

/-- A league that refers to teams by their stubs: once, in a list, in a list of lists, and by the stub of a
stub. -/
def leagueDocument : ApiDocument where
  schemas := [
    ("Team", object), ("TeamReference", object), ("TeamReferenceReference", object),
    ("League", { properties := [
      ("champion", reference "TeamReference"),
      ("teams", list (reference "TeamReference")),
      ("rounds", list (list (reference "TeamReference"))),
      ("host", reference "TeamReferenceReference")] })]
where
  object : Schema := { properties := [("name", { kind := .primitive, type := some "string" })] }
  reference (name : String) : Schema := { reference := some ("#/components/schemas/" ++ name) }
  list (element : Schema) : Schema := { kind := .array, items := some element }

theorem compiled_stubs_referred_league :
    ∃ result, compile Config.shipped leagueDocument = .ok result ∧
      (∃ operations declared w,
        (resolveDocument ⟨Config.shipped, leagueDocument.schemas⟩ leagueDocument).run {} =
          .ok ((operations, declared), w) ∧
        List.Forall₂ (FieldsReferred Config.shipped (result.api.models.map (·.classname)))
          ((beforeStubs Config.shipped w.hints.freeze (registryOf declared w.synthetic)).filter (!·.removed))
          result.api.models) ∧
      result.api.models.map (fun m => (m.classname, m.vars.map elementTypes)) =
        [("Team", [["String"]]), ("TeamReference", [["String"]]), ("TeamReferenceReference", [["String"]]),
          ("League", [["Team"], ["Vec<Team>", "Team"],
            ["Vec<Vec<TeamReference>>", "Vec<TeamReference>", "TeamReference"], ["TeamReference"]])] := by
  have hCompiled : (compile Config.shipped leagueDocument).toOption.map (fun result =>
      result.api.models.map fun m => (m.classname, m.vars.map elementTypes)) = some
        [("Team", [["String"]]), ("TeamReference", [["String"]]), ("TeamReferenceReference", [["String"]]),
          ("League", [["Team"], ["Vec<Team>", "Team"],
            ["Vec<Vec<TeamReference>>", "Vec<TeamReference>", "TeamReference"], ["TeamReference"]])] := by
    decide +kernel
  obtain ⟨result, hOk, hTypes⟩ := Option.map_eq_some_iff.mp hCompiled
  have hCompile := ok_of_toOption hOk
  exact ⟨result, hCompile, compiled_stubs_referred hCompile, hTypes⟩

/-- Stubs are not replaced at every depth: the rounds of a league are lists of lists of references. -/
theorem nested_stub_left :
    ¬ ∀ (config : Config) (document : ApiDocument) (result : Result), compile config document = .ok result →
      ∀ m ∈ result.api.models, ∀ p ∈ m.vars, config.keepsReferenceOf m.classname p.baseName = false →
        ∀ type ∈ elementTypes p, ¬ IsStub (result.api.models.map (·.classname)) type := by
  intro hAlways
  have hCompiled : (compile Config.shipped leagueDocument).toOption.map (fun result => decide
      (IsStub (result.api.models.map (·.classname)) "TeamReference" ∧
        ∃ m ∈ result.api.models, ∃ p ∈ m.vars, p.baseName = "rounds" ∧
          Config.shipped.keepsReferenceOf m.classname p.baseName = false ∧
          "TeamReference" ∈ elementTypes p)) = some true := by decide +kernel
  obtain ⟨result, hOk, hFound⟩ := Option.map_eq_some_iff.mp hCompiled
  obtain ⟨hStub, m, hm, p, hp, _, hReplaced, hRounds⟩ := of_decide_eq_true hFound
  exact hAlways Config.shipped leagueDocument result (ok_of_toOption hOk) m hm p hp hReplaced _ hRounds hStub

end ClientTypes.Compilation
