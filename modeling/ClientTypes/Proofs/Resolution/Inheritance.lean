import ClientTypes.Proofs.Resolution.Nesting
import ClientTypes.Proofs.Resolution.Fields

/-! A schema and a merge that does nothing but refer to it. Following the reference flattens
the schema once more, with one name more on the path; where that name leads nowhere else,
the fields come out the same. -/
namespace ClientTypes.Resolution

open Naming

variable {schemas : Table String Schema} {visited visited' : List String}

/-! ### Merges with the same fields -/

/-- The same fields were merged. What members refer to and why members were left out may differ. -/
structure SameFields (f g : Flattened) : Prop where
  properties : g.properties = f.properties
  required : g.required = f.required
  whole : g.unresolved = [] ↔ f.unresolved = []

/-- Both are unresolved, or both are merged into the same fields. -/
inductive SameResult : Flattening → Flattening → Prop where
  | unresolved (reason other : String) : SameResult (.unresolved reason) (.unresolved other)
  | merged {f g : Flattened} (hFields : SameFields f g) : SameResult (.merged f) (.merged g)

theorem SameFields.refl (f : Flattened) : SameFields f f := ⟨rfl, rfl, Iff.rfl⟩

theorem SameResult.refl (result : Flattening) : SameResult result result := by
  cases result with
  | unresolved reason => exact .unresolved _ _
  | merged f => exact .merged (.refl f)

theorem SameFields.add {f g : Flattened} {result result' : Flattening} (h : SameFields f g)
    (hResult : SameResult result result') : SameFields (f.add result) (g.add result') := by
  cases hResult with
  | unresolved reason other => exact ⟨h.properties, h.required, by simp [Flattened.add]⟩
  | merged hFields =>
      constructor
      · simp [Flattened.add, Flattened.absorb, h.properties, hFields.properties]
      · simp [Flattened.add, Flattened.absorb, h.required, hFields.required]
      · simp [Flattened.add, Flattened.absorb, h.whole, hFields.whole]

theorem SameFields.conclude {f g : Flattened} (h : SameFields f g) :
    SameResult f.conclude g.conclude := by
  have hLeftOut : g.unresolved.isEmpty = f.unresolved.isEmpty := by
    rw [Bool.eq_iff_iff, List.isEmpty_iff, List.isEmpty_iff]
    exact h.whole
  unfold Flattened.conclude
  rw [h.properties, hLeftOut]
  split
  · exact .unresolved _ _
  · exact .merged h

theorem SameResult.withBase {result result' : Flattening} (h : SameResult result result')
    (name : String) : SameResult (withBase name result) (withBase name result') := by
  cases h with
  | unresolved reason other => exact .unresolved _ _
  | merged hFields => exact .merged ⟨hFields.properties, hFields.required, hFields.whole⟩

mutual

/-- Where references lead to the same fields, so do members. -/
theorem flattenMember_congr {follow follow' : String → Flattening}
    (hFollow : ∀ r, SameResult (follow r) (follow' r)) (m : Schema) :
    SameResult (flattenMember follow m) (flattenMember follow' m) := by
  cases hTarget : m.target? with
  | some r => simpa [flattenMember, hTarget] using hFollow r
  | none =>
      cases hMerge : m.isMerge with
      | false => simpa [flattenMember, hTarget, hMerge] using SameResult.refl _
      | true =>
          have hMembers := mergeMembers_congr hFollow m.allOf (.refl {})
          simpa [flattenMember, hTarget, hMerge, mergeAllOf_eq] using (hMembers.add (.refl _)).conclude
termination_by sizeOf m
decreasing_by exact sizeOf_allOf_lt m

theorem mergeMembers_congr {follow follow' : String → Flattening}
    (hFollow : ∀ r, SameResult (follow r) (follow' r)) (ms : List Schema) {f g : Flattened}
    (h : SameFields f g) : SameFields (mergeMembers follow f ms) (mergeMembers follow' g ms) := by
  cases ms with
  | nil => simpa [mergeMembers] using h
  | cons m rest =>
      rw [mergeMembers_cons, mergeMembers_cons]
      exact mergeMembers_congr hFollow rest (h.add (flattenMember_congr hFollow m))
termination_by sizeOf ms

end

/-! ### One name more on the path -/

/-- A merge whose only member is a reference. -/
def extending (reference : String) : Schema where
  kind := .composed
  allOf := [{ reference := some reference }]

/-- The name is not in use for anything else than a merge that only has the reference. -/
def FreeFor (schemas : Table String Schema) (name reference : String) : Prop :=
  ∀ s, schemas.get? name = some s → s = extending reference

theorem freeFor_of_unknown {name : String} (h : schemas.get? name = none) (reference : String) :
    FreeFor schemas name reference := by
  intro s hKnown
  rw [h] at hKnown
  cases hKnown

theorem followReference_of_dead (fuel : Nat) {r : String}
    (hDead : (Pointer.ofReference r).schema ∈ visited ∨
      schemas.get? (Pointer.ofReference r).schema = none) :
    ∃ reason, followReference schemas fuel visited r = .unresolved reason := by
  cases fuel with
  | zero => exact ⟨_, rfl⟩
  | succ fuel =>
      obtain ⟨reason, hLead⟩ := lead_of_dead hDead
      exact ⟨reason, by rw [followReference_succ, hLead]⟩

theorem flattenMember_reference (follow : String → Flattening) {reference : String}
    (hGiven : reference ≠ "") :
    flattenMember follow { reference := some reference } = follow reference := by
  have hTarget : Schema.target? { reference := some reference } = some reference := by
    simp [Schema.target?, Option.filter, hGiven]
  rw [flattenMember, hTarget]

theorem flattenMember_extending (follow : String → Flattening) {reference : String}
    (hGiven : reference ≠ "") :
    flattenMember follow (extending reference) =
      ((({} : Flattened).add (follow reference)).add (.merged {})).conclude := by
  have hMembers : mergeMembers follow {} [{ reference := some reference }] =
      ({} : Flattened).add (follow reference) := by
    rw [mergeMembers_cons, mergeMembers, flattenMember_reference follow hGiven]
  have hMerge : flattenMember follow (extending reference) = mergeAllOf follow (extending reference) := rfl
  rw [hMerge, mergeAllOf_eq]
  exact congrArg (fun f : Flattened => (f.add (.merged {})).conclude) hMembers

/-- A part of such a merge is the merge itself or its member. -/
theorem eq_of_isPart_extending {reference : String} {path : List String} {part : Schema}
    (h : IsPart (extending reference) path part) :
    part = extending reference ∨ part = { reference := some reference } := by
  have hClosed : ∀ a ∈ [extending reference, { reference := some reference }], ∀ c,
      Component a c → c ∈ [extending reference, { reference := some reference }] := by
    intro a ha c hc
    rw [component_iff] at hc
    simp only [List.mem_cons, List.not_mem_nil, or_false] at ha
    rcases ha with rfl | rfl <;> simp_all [extending]
  simpa using h.contained.mem_of_closed hClosed List.mem_cons_self

section Aside

variable {name aside reference : String} (hGiven : reference ≠ "")
  (hLeads : Pointer.ofReference reference = ⟨name, []⟩) (hFree : FreeFor schemas aside reference)

include hGiven hLeads hFree

/-- While a schema is being flattened, a merge that only refers to it adds nothing. -/
theorem followReference_aside (fuel : Nat) {r : String} (hName : name ∈ visited)
    (hAside : (Pointer.ofReference r).schema = aside) :
    ∃ reason, followReference schemas fuel visited r = .unresolved reason := by
  by_cases hDead : (Pointer.ofReference r).schema ∈ visited ∨
      schemas.get? (Pointer.ofReference r).schema = none
  · exact followReference_of_dead fuel hDead
  · obtain ⟨hFresh, hKnown⟩ := not_or.mp hDead
    obtain ⟨whole, hWhole⟩ := Option.ne_none_iff_exists'.mp hKnown
    cases hFree whole (hAside ▸ hWhole)
    obtain ⟨part, hLead, hPart⟩ := lead_of_fresh hFresh hWhole
    cases fuel with
    | zero => exact ⟨_, rfl⟩
    | succ fuel =>
        obtain ⟨reason, hBack⟩ := @followReference_of_dead schemas
          ((Pointer.ofReference r).schema :: visited) fuel reference (by simp [hLeads, hName])
        rw [followReference_succ, hLead]
        rcases eq_of_isPart_extending hPart with rfl | rfl
        · dsimp only
          rw [flattenMember_extending _ hGiven, hBack]
          exact ⟨_, rfl⟩
        · dsimp only
          rw [flattenMember_reference _ hGiven, hBack]
          exact ⟨_, rfl⟩

/-- References lead to the same fields whether or not the path has the name of such a merge. -/
theorem followReference_congr {fuel fuel' : Nat} (hFuel : (unvisited schemas visited).length < fuel)
    (hFuel' : (unvisited schemas visited').length < fuel') (hName : name ∈ visited)
    (hVisited : ∀ n, n ∈ visited' ↔ n = aside ∨ n ∈ visited) (r : String) :
    SameResult (followReference schemas fuel visited r)
      (followReference schemas fuel' visited' r) := by
  induction fuel generalizing fuel' visited visited' r with
  | zero => omega
  | succ fuel ih =>
      by_cases hAside : (Pointer.ofReference r).schema = aside
      · obtain ⟨reason, hReason⟩ :=
          followReference_aside hGiven hLeads hFree (fuel + 1) hName hAside
        obtain ⟨other, hOther⟩ := @followReference_of_dead schemas visited' fuel' r
          (Or.inl ((hVisited _).mpr (Or.inl hAside)))
        rw [hReason, hOther]
        exact .unresolved _ _
      by_cases hDead : (Pointer.ofReference r).schema ∈ visited ∨
          schemas.get? (Pointer.ofReference r).schema = none
      · obtain ⟨reason, hReason⟩ := followReference_of_dead (fuel + 1) hDead
        obtain ⟨other, hOther⟩ := @followReference_of_dead schemas visited' fuel' r
          (hDead.imp (fun hSeen => (hVisited _).mpr (Or.inr hSeen)) id)
        rw [hReason, hOther]
        exact .unresolved _ _
      · obtain ⟨hFresh, hKnown⟩ := not_or.mp hDead
        obtain ⟨whole, hWhole⟩ := Option.ne_none_iff_exists'.mp hKnown
        have hFresh' : (Pointer.ofReference r).schema ∉ visited' := by
          simp [hVisited, hAside, hFresh]
        obtain ⟨fuel', rfl⟩ : ∃ less, fuel' = less + 1 := Nat.exists_eq_succ_of_ne_zero (by omega)
        have hLess := unvisited_cons_lt hFresh hWhole
        have hLess' := unvisited_cons_lt hFresh' hWhole
        -- A part is the same from either path, and below it both paths have one name more.
        have hLead : lead schemas visited' r = lead schemas visited r := by
          simp [lead, hFresh, hFresh']
        obtain ⟨part, hPart, _⟩ := lead_of_fresh hFresh hWhole
        rw [followReference_succ, followReference_succ, hLead, hPart]
        refine (flattenMember_congr (fun r' => ?_) part).withBase _
        refine ih (by omega) (by omega) (List.mem_cons_of_mem _ hName) (fun n => ?_) r'
        simp only [List.mem_cons, hVisited, or_left_comm]

end Aside

/-! ### The labels of fields -/

/-- The labels that properties are declared with. -/
def declaredLabels (required : List String) (properties : List (String × Schema)) :
    List (String × Bool) :=
  properties.map fun e => (e.1, required.contains e.1)

/-- The labels of the fields of a merge. A merge that fails has none. -/
def mergedLabels : Flattening → List (String × Bool)
  | .merged f => declaredLabels f.required f.properties
  | .unresolved _ => []

theorem labels_requestsFor (owner : String) (required : List String)
    (properties : List (String × Schema)) :
    (requestsFor owner required properties).map Request.label = declaredLabels required properties := by
  simp [requestsFor, declaredLabels, Request.label]

theorem labels_mergedRequests (name : String) (result : Flattening) :
    (mergedRequests name result).map Request.label = mergedLabels result := by
  cases result with
  | unresolved reason => rfl
  | merged f => exact labels_requestsFor name f.required f.properties

theorem SameResult.labels {result result' : Flattening} (h : SameResult result result') :
    mergedLabels result' = mergedLabels result := by
  cases h with
  | unresolved reason other => rfl
  | merged hFields => rw [mergedLabels, mergedLabels, hFields.properties, hFields.required]

theorem mergedLabels_withBase (name : String) (result : Flattening) :
    mergedLabels (withBase name result) = mergedLabels result := by
  cases result <;> rfl

theorem declaredLabels_congr {required required' : List String}
    (h : ∀ name, name ∈ required' ↔ name ∈ required) (properties : List (String × Schema)) :
    declaredLabels required' properties = declaredLabels required properties := by
  refine List.map_congr_left fun e _ => ?_
  simp [h]

/-- A merge that only refers has the fields that the reference leads to. -/
theorem mergedLabels_extending {follow : String → Flattening} {reference : String}
    (hGiven : reference ≠ "")
    (hKeys : ∀ f, follow reference = .merged f → f.properties.keys.Nodup) :
    mergedLabels (flattenMember follow (extending reference)) = mergedLabels (follow reference) := by
  rw [flattenMember_extending follow hGiven]
  cases hFollow : follow reference with
  | unresolved reason => rfl
  | merged f =>
      have hProperties : (({} : Flattened).add (.merged f)).properties = f.properties :=
        Table.union_empty_of_nodup (hKeys f hFollow)
      have hRequired (n : String) :
          n ∈ (({} : Flattened).add (.merged f)).required ↔ n ∈ f.required := by
        simp [Flattened.add, Flattened.absorb, mem_foldl_addNew]
      have hLabels : declaredLabels (({} : Flattened).add (.merged f)).required
          (({} : Flattened).add (.merged f)).properties = declaredLabels f.required f.properties := by
        rw [hProperties]
        exact declaredLabels_congr hRequired f.properties
      cases hEnd : ((({} : Flattened).add (.merged f)).add (.merged {})).conclude with
      | merged g =>
          rw [eq_of_conclude hEnd]
          exact hLabels
      | unresolved reason =>
          -- Unresolved means that there are no properties, so the schema has no field either.
          have hNone : f.properties = [] := by
            unfold Flattened.conclude at hEnd
            split at hEnd
            next hBoth =>
              rw [← hProperties]
              exact List.isEmpty_iff.mp (Bool.and_eq_true_iff.mp hBoth).1
            next => cases hEnd
          simp [mergedLabels, declaredLabels, hNone]

/-! ### Own fields and inherited fields -/

/-- A map that names properties and does not allow any entry beside them. -/
def hidesProperties (s : Schema) : Bool :=
  s.kind == .map && !s.properties.isEmpty && !s.allowsAnything

/-- The model of a schema that is no merge and refers to no other has the declared fields, unless
it is a map that hides them. -/
theorem labels_of_plain {setup : Setup} {name : String} {s : Schema}
    (hAllowed : setup.config.denylist.contains name = false) (hPlain : s.target? = none)
    (hKind : s.kind = .object ∨ s.kind = .map) :
    (fieldRequests setup name s).map Request.label =
      if hidesProperties s then [] else declaredLabels s.required s.properties := by
  unfold fieldRequests
  rw [hAllowed, hPlain]
  rcases hKind with hObject | hMap
  · simp [hObject, hidesProperties, labels_requestsFor]
  · cases hNone : s.properties.isEmpty with
    | true =>
        simp [hMap, hidesProperties, Schema.isMapWithProperties, declaredLabels,
          List.isEmpty_iff.mp hNone]
    | false =>
        cases hAny : s.allowsAnything <;>
          simp [hMap, hidesProperties, Schema.isMapWithProperties, hNone, hAny, labels_requestsFor]

theorem labels_of_merge {setup : Setup} {name : String} {s : Schema}
    (hAllowed : setup.config.denylist.contains name = false) (hPlain : s.target? = none)
    (hMerge : s.isMerge = true) :
    (fieldRequests setup name s).map Request.label = mergedLabels (flatten setup.schemas name s) := by
  simp only [Schema.isMerge, Bool.and_eq_true, beq_iff_eq] at hMerge
  unfold fieldRequests
  rw [hAllowed, hPlain, hMerge.1]
  simp [composedRequests, hMerge.2, labels_mergedRequests]

section Inherited

variable {name aside reference : String} {s : Schema} (hKnown : schemas.get? name = some s)
  (hLeads : Pointer.ofReference reference = ⟨name, []⟩)

include hKnown hLeads

/-- Flattened from its own model or through a reference, a merge has the same fields. -/
theorem flattenMember_same (hGiven : reference ≠ "") (hFree : FreeFor schemas aside reference)
    (hPlain : s.target? = none) (hMerge : s.isMerge = true) :
    SameResult (flatten schemas name s)
      (flattenMember (followReference schemas schemas.length [name, aside]) s) := by
  have hOwn : flatten schemas name s =
      flattenMember (followReference schemas (schemas.length + 1) [name]) s := by
    rw [flattenMember, hPlain]
    dsimp only
    rw [if_pos hMerge]
    rfl
  have hFuel : (unvisited schemas [name]).length < schemas.length + 1 :=
    Nat.lt_succ_of_le (List.length_filter_le ..)
  have hFuel' : (unvisited schemas [name, aside]).length < schemas.length := by
    refine List.length_filter_lt_length_iff_exists.mpr ⟨(name, s), Table.mem_of_get? hKnown, ?_⟩
    simp
  rw [hOwn]
  refine flattenMember_congr (fun r => ?_) s
  exact followReference_congr hGiven hLeads hFree hFuel hFuel' (by simp) (by simp [or_comm]) r

variable (hOther : aside ≠ name)

include hOther

theorem followReference_known :
    followReference schemas (schemas.length + 1) [aside] reference =
      withBase name (flattenMember (followReference schemas schemas.length [name, aside]) s) := by
  have hFresh : (Pointer.ofReference reference).schema ∉ [aside] := by
    simp [hLeads, hOther.symm]
  obtain ⟨part, hLead, hPart⟩ := lead_of_fresh hFresh (by rwa [hLeads])
  rw [hLeads] at hLead hPart
  rw [followReference_succ, hLead, hPart.eq_whole]

/-- A merge that only refers to a schema has the fields that the schema is flattened to. -/
theorem labels_extending (hGiven : reference ≠ "")
    (hKeys : ∀ f, flattenMember (followReference schemas schemas.length [name, aside]) s = .merged f →
      f.properties.keys.Nodup) :
    mergedLabels (flatten schemas aside (extending reference)) =
      mergedLabels (flattenMember (followReference schemas schemas.length [name, aside]) s) := by
  have hFollow := followReference_known hKnown hLeads hOther
  change mergedLabels (flattenMember (followReference schemas (schemas.length + 1) [aside])
    (extending reference)) = _
  rw [mergedLabels_extending hGiven, hFollow, mergedLabels_withBase]
  intro f hMerged
  rw [hFollow] at hMerged
  cases hMember : flattenMember (followReference schemas schemas.length [name, aside]) s with
  | unresolved reason =>
      rw [hMember] at hMerged
      cases hMerged
  | merged g =>
      rw [hMember] at hMerged
      cases hMerged
      exact hKeys g hMember

end Inherited

/-- A model has the fields of its schema under the labels that they are declared with, and a merge
that only refers to the schema inherits the same: the same names, given or not, in the same order.
The exception is a map that names properties but does not allow any entry beside them. Its own model
stands for the map and has no fields, while the merge inherits what is declared. -/
theorem inherited_fields_agree {setup : Setup} {name aside reference : String} {s : Schema}
    (hKnown : setup.schemas.get? name = some s) (hPlain : s.target? = none)
    (hShape : s.kind = .object ∨ s.kind = .map ∨ s.isMerge = true)
    (hKeys : (s.properties.map Prod.fst).Nodup)
    (hAllowed : setup.config.denylist.contains name = false)
    (hFresh : setup.config.denylist.contains aside = false) (hOther : aside ≠ name)
    (hFree : FreeFor setup.schemas aside reference) (hGiven : reference ≠ "")
    (hLeads : Pointer.ofReference reference = ⟨name, []⟩) {w w1 w2 w3 : Workspace} {m m' : Model}
    (hOwn : resolveModel setup name s w = .ok (m, w1))
    (hInherited : resolveModel setup aside (extending reference) w2 = .ok (m', w3)) :
    (hidesProperties s = false → m'.vars.map label = m.vars.map label) ∧
      (hidesProperties s = true →
        m.vars = [] ∧ m'.vars.map label = declaredLabels s.required s.properties) := by
  obtain ⟨_, hFields⟩ := modelStep_reads (propertyWithin_label setup _) label_spelledEntry
    name s m w1 hOwn
  obtain ⟨_, hFields'⟩ := modelStep_reads (propertyWithin_label setup _) label_spelledEntry
    aside (extending reference) m' w3 hInherited
  rw [labels_of_merge hFresh rfl rfl] at hFields'
  cases hMerge : s.isMerge with
  | true =>
      have hNotMap : hidesProperties s = false := by
        simp_all [Schema.isMerge, hidesProperties]
      have hSame := flattenMember_same hKnown hLeads hGiven hFree hPlain hMerge
      rw [labels_of_merge hAllowed hPlain hMerge] at hFields
      rw [labels_extending hKnown hLeads hOther hGiven, hSame.labels] at hFields'
      · simp [hFields, hFields', hNotMap]
      · intro g hMember
        rw [hMember] at hSame
        generalize hOwnMerge : flatten setup.schemas name s = own at hSame
        cases hSame with
        | merged hSameFields => exact hSameFields.properties ▸ flatten_keys_nodup hOwnMerge
  | false =>
      have hKind : s.kind = .object ∨ s.kind = .map := by simpa [hMerge] using hShape
      have hMember : flattenMember (followReference setup.schemas setup.schemas.length [name, aside]) s =
          .merged (ownFields s) := by
        simp [flattenMember, hPlain, hMerge]
      rw [labels_of_plain hAllowed hPlain hKind] at hFields
      rw [labels_extending hKnown hLeads hOther hGiven, hMember] at hFields'
      · cases hHides : hidesProperties s with
        | true => simpa [hHides, mergedLabels, ownFields] using And.intro hFields hFields'
        | false => simp [hFields, hFields', hHides, mergedLabels, ownFields]
      · intro g hMerged
        rw [hMember] at hMerged
        cases hMerged
        exact hKeys

/-- A text. -/
private def textField : Schema := { kind := .primitive, type := some "string" }

/-- A cat is an animal with a name of its own, which has to be given; scores are numbers by name,
and a total stands among them. -/
def animalSetup : Setup where
  config := Config.shipped
  schemas := [
    ("Animal", { properties := [("kind", textField), ("name", textField)], required := ["kind"] }),
    ("Cat", {
      kind := .composed
      allOf := [{ reference := some "#/components/schemas/Animal" },
        { properties := [("name", textField), ("lives", textField)], required := ["name"] }] }),
    ("Scores", {
      kind := .map
      properties := [("total", textField)]
      required := ["total"]
      additional := .each { kind := .primitive, type := some "integer" } })]

theorem inherited_fields_agree_cat :
    ∃ m w m' w', resolveModel animalSetup "Cat" ((animalSetup.schemas.get? "Cat").getD {}) {} =
        .ok (m, w) ∧
      resolveModel animalSetup "Lion" (extending "#/components/schemas/Cat") {} = .ok (m', w') ∧
      m'.vars.map label = m.vars.map label ∧
      m.vars.map label = [("kind", true), ("name", true), ("lives", false)] := by
  obtain ⟨m, w, hOwn, hLabels⟩ : ∃ m w,
      resolveModel animalSetup "Cat" ((animalSetup.schemas.get? "Cat").getD {}) {} = .ok (m, w) ∧
        m.vars.map label = [("kind", true), ("name", true), ("lives", false)] :=
    ⟨_, _, rfl, by decide +kernel⟩
  obtain ⟨m', w', hInherited⟩ : ∃ m' w', resolveModel animalSetup "Lion"
      (extending "#/components/schemas/Cat") {} = .ok (m', w') := ⟨_, _, rfl⟩
  refine ⟨m, w, m', w', hOwn, hInherited, ?_, hLabels⟩
  exact (inherited_fields_agree (by rfl) (by rfl) (Or.inr (Or.inr (by decide))) (by decide)
    (by decide +kernel) (by decide +kernel) (by decide) (freeFor_of_unknown (by rfl) _) (by decide)
    (by decide +kernel) hOwn hInherited).1 (by decide)

/-- The field of a map of numbers is only seen through inheritance. -/
theorem typed_map_hides_fields :
    ¬ ∀ (setup : Setup) (name aside reference : String) (s : Schema) (w w1 w2 w3 : Workspace)
      (m m' : Model), setup.schemas.get? name = some s → s.target? = none →
      (s.kind = .object ∨ s.kind = .map ∨ s.isMerge = true) → setup.schemas.get? aside = none →
      setup.config.denylist.contains name = false → setup.config.denylist.contains aside = false →
      Pointer.ofReference reference = ⟨name, []⟩ →
      resolveModel setup name s w = .ok (m, w1) →
      resolveModel setup aside (extending reference) w2 = .ok (m', w3) →
      m'.vars.map label = m.vars.map label := by
  intro hAlways
  have hScores : (resolveModel animalSetup "Scores"
      ((animalSetup.schemas.get? "Scores").getD {}) {}).toOption.map
        (fun run => run.1.vars.map label) = some [] := by decide +kernel
  obtain ⟨⟨m, w⟩, hOwn, hNone⟩ := Option.map_eq_some_iff.mp hScores
  obtain ⟨m', w', hInherited, hTotal⟩ : ∃ m' w', resolveModel animalSetup "Table"
      (extending "#/components/schemas/Scores") {} = .ok (m', w') ∧
        m'.vars.map label = [("total", true)] := ⟨_, _, rfl, by decide +kernel⟩
  have hSame := hAlways animalSetup "Scores" "Table" "#/components/schemas/Scores" _ {} w {} w' m m'
    rfl rfl (by decide) (by decide +kernel) (by decide +kernel) (by decide +kernel)
    (by decide +kernel) (ok_of_toOption hOwn) hInherited
  rw [hTotal, show m.vars.map label = [] from hNone] at hSame
  cases hSame

end ClientTypes.Resolution
