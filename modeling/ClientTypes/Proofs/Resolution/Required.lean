import ClientTypes.Proofs.Resolution.Bases
import ClientTypes.Proofs.Resolution.Inheritance

/-! Which fields of a merge have to be given. A field has to be given exactly when a fragment that
the merge takes requires it. A fragment that is lost with the member that it stands in requires
nothing any more; fields that no other fragment requires are then optional. -/
namespace ClientTypes.Resolution

open Naming

variable {schemas : Table String Schema} {visited : List String}

/-! ### Every fragment is taken or lost -/

/-- The events of a member are among those of the members. -/
theorem exists_member_events {ms : List Schema} {events : List Event}
    (h : Expands schemas visited (.members ms) events) {m : Schema} (hm : m ∈ ms) :
    ∃ inner, Expands schemas visited (.member m) inner ∧ ∀ e ∈ inner, e ∈ events := by
  induction ms generalizing events with
  | nil => cases hm
  | cons first rest ih =>
      cases h with
      | cons hFirst hRest =>
          rcases List.mem_cons.mp hm with rfl | hLater
          · exact ⟨_, hFirst, fun e he => List.mem_append_left _ he⟩
          · obtain ⟨inner, hInner, hAmong⟩ := ih hRest hLater
            exact ⟨inner, hInner, fun e he => List.mem_append_right _ (hAmong e he)⟩

/-- A schema whose fields are come across, taken or lost, is a fragment of the expansion. -/
theorem Meets.fragment_mem {branch : Branch} {find : Find} {g : Schema} {events : List Event}
    (h : Meets schemas visited branch find) (hFind : find = .taken g ∨ find = .lost g)
    (hExpands : Expands schemas visited branch events) : Event.fragment g ∈ events := by
  induction h generalizing events with
  | own =>
      cases hExpands with
      | schema _ =>
          obtain rfl : _ = g := by simpa using hFind
          simp
  | inside mem _ _ ih =>
      cases hExpands with
      | schema members =>
          obtain ⟨inner, hInner, hAmong⟩ := exists_member_events members mem
          exact List.mem_append_left _ (hAmong _ (ih hFind hInner))
  | outside mem _ expands fragment =>
      cases hExpands with
      | schema members =>
          obtain ⟨inner, hInner, hAmong⟩ := exists_member_events members mem
          obtain rfl : _ = g := by simpa using hFind
          exact List.mem_append_left _ (hAmong _ (expands.unique hInner ▸ fragment))
  | reference target _ ih =>
      cases hExpands with
      | reference target' inner => exact ih hFind (Option.some.inj (target.symm.trans target') ▸ inner)
      | merge target' _ _ => simp [target] at target'
      | fields target' _ => simp [target] at target'
  | merge target isMerge _ ih =>
      cases hExpands with
      | reference target' _ => simp [target] at target'
      | merge _ _ inner => exact ih hFind inner
      | fields _ isMerge' => simp [isMerge] at isMerge'
  | fields target isMerge =>
      cases hExpands with
      | reference target' _ => simp [target] at target'
      | merge _ isMerge' _ => simp [isMerge] at isMerge'
      | fields _ _ =>
          obtain rfl : _ = g := by simpa using hFind
          simp
  | base => simp at hFind
  | follow fresh known leads _ ih =>
      cases hExpands with
      | cut dead => simp_all
      | follow _ known' leads' inner =>
          cases Option.some.inj (known.symm.trans known')
          cases leads.unique leads'
          exact ih hFind inner

/-- The fields of a schema are come across in a branch; of several members, in one of them. -/
def Occurs (schemas : Table String Schema) (visited : List String) (g : Schema) : Branch → Prop
  | .members ms => ∃ m ∈ ms, ∃ events, Expands schemas visited (.member m) events ∧
      Event.fragment g ∈ events ∧ (Meets schemas visited (.member m) (.taken g) ∨
        Meets schemas visited (.member m) (.lost g))
  | branch => Meets schemas visited branch (.taken g) ∨ Meets schemas visited branch (.lost g)

theorem Expands.occurs {branch : Branch} {events : List Event} {g : Schema}
    (h : Expands schemas visited branch events) (hFragment : Event.fragment g ∈ events) :
    Occurs schemas visited g branch := by
  induction h with
  | @schema path s _ _ ih =>
      rcases List.mem_append.mp hFragment with hInside | hOwn
      · obtain ⟨m, hm, inner, hInner, hIn, hMeets⟩ := ih hInside
        by_cases hLeft : LeftOut schemas path m
        · exact Or.inr (.outside hm hLeft hInner hIn)
        · exact hMeets.imp (.inside hm hLeft) (.inside hm hLeft)
      · obtain rfl : g = _ := by simpa using hOwn
        exact Or.inl .own
  | nil => cases hFragment
  | cons first _ ihFirst ihRest =>
      rcases List.mem_append.mp hFragment with hFirst | hLater
      · exact ⟨_, List.mem_cons_self, _, first, hFirst, ihFirst hFirst⟩
      · obtain ⟨m, hm, hOccurs⟩ := ihRest hLater
        exact ⟨m, List.mem_cons_of_mem _ hm, hOccurs⟩
  | reference target _ ih => exact (ih hFragment).imp (.reference target) (.reference target)
  | merge target isMerge _ ih => exact (ih hFragment).imp (.merge target isMerge) (.merge target isMerge)
  | fields target isMerge =>
      obtain rfl : g = _ := by simpa using hFragment
      exact Or.inl (.fields target isMerge)
  | cut => simp at hFragment
  | follow fresh known leads _ ih =>
      exact (ih hFragment).imp (.follow fresh known leads) (.follow fresh known leads)

theorem fragment_mem_iff {s g : Schema} {events : List Event}
    (h : Expands schemas visited (.schema s) events) :
    Event.fragment g ∈ events ↔ Meets schemas visited (.schema s) (.taken g) ∨
      Meets schemas visited (.schema s) (.lost g) := by
  refine ⟨h.occurs, ?_⟩
  rintro (hTaken | hLost)
  · exact hTaken.fragment_mem (Or.inl rfl) h
  · exact hLost.fragment_mem (Or.inr rfl) h

/-! ### Fields -/

/-- Some fragment of a merge requires a field. -/
def Demanded (events : List Event) (field : String) : Prop :=
  ∃ g, Event.fragment g ∈ events ∧ field ∈ g.required

/-- Some fragment of a kind, taken or lost, requires a field. -/
def DemandedBy (schemas : Table String Schema) (name : String) (s : Schema) (kind : Schema → Find)
    (field : String) : Prop :=
  ∃ g, Meets schemas [name] (.schema s) (kind g) ∧ field ∈ g.required

theorem demanded_iff {name : String} {s : Schema} {events : List Event}
    (h : Expands schemas [name] (.schema s) events) (field : String) :
    Demanded events field ↔
      DemandedBy schemas name s .taken field ∨ DemandedBy schemas name s .lost field := by
  simp only [Demanded, DemandedBy, fragment_mem_iff h, or_and_right, exists_or]

/-- The fields of the model of a merge are those that were merged, and each has to be given exactly
when a fragment that is taken requires it. So the fields that have to be given are those that any
fragment of the expansion requires, if and only if no required name of a field is lost: what a
member that is left out requires, a fragment that is taken requires as well. -/
theorem required_fields_iff {setup : Setup} {name : String} {s : Schema} {f : Flattened}
    {w w' : Workspace} {m : Model} (hAllowed : setup.config.denylist.contains name = false)
    (hPlain : s.target? = none) (hMerge : s.isMerge = true)
    (hFlat : flatten setup.schemas name s = .merged f)
    (hRun : resolveModel setup name s w = .ok (m, w')) :
    ∃ events, Expands setup.schemas [name] (.schema s) events ∧
      m.vars.map (·.baseName) = f.properties.keys ∧
      (∀ p ∈ m.vars, p.required = true ↔ DemandedBy setup.schemas name s .taken p.baseName) ∧
      ((∀ p ∈ m.vars, p.required = true ↔ Demanded events p.baseName) ↔
        ∀ p ∈ m.vars, DemandedBy setup.schemas name s .lost p.baseName →
          DemandedBy setup.schemas name s .taken p.baseName) := by
  obtain ⟨events, hExpands, -⟩ := @flatten_agrees setup.schemas [] name s
  obtain ⟨-, hFields⟩ := modelStep_reads (propertyWithin_label setup _) label_spelledEntry
    name s m w' hRun
  rw [labels_of_merge hAllowed hPlain hMerge, hFlat] at hFields
  have hTaken : ∀ p ∈ m.vars,
      (p.required = true ↔ DemandedBy setup.schemas name s .taken p.baseName) := by
    intro p hp
    have hLabel : label p ∈ declaredLabels f.required f.properties := by
      simpa [mergedLabels, hFields] using List.mem_map_of_mem (f := label) hp
    obtain ⟨e, -, hSame⟩ := List.mem_map.mp hLabel
    obtain ⟨hName, hRequired⟩ := Prod.mk.inj hSame
    rw [← hRequired, hName, List.contains_iff_mem]
    exact (flatten_sums hFlat).required p.baseName
  refine ⟨events, hExpands, ?_, hTaken, forall₂_congr fun p hp => ?_⟩
  · have hNames := congrArg (List.map Prod.fst) hFields
    simpa [mergedLabels, declaredLabels, label, Table.keys, Function.comp_def] using hNames
  · rw [hTaken p hp, demanded_iff hExpands]
    tauto

/-- A missing schema is merged with a list of required names, in a base and in place. -/
def identifiedSetup : Setup where
  config := Config.shipped
  schemas := [("Named", named), ("Identified", identified), ("Pet", pet), ("Cat", cat)]
where
  toSchema (name : String) : Schema := { reference := some ("#/components/schemas/" ++ name) }
  idRequired : Schema := { required := ["id"] }
  named : Schema := {
    kind := .composed, allOf := [{ properties := [("name", {})], required := ["name"] }] }
  identified : Schema := { kind := .composed, allOf := [toSchema "Missing", idRequired] }
  pet : Schema := {
    kind := .composed, properties := [("id", {})]
    allOf := [toSchema "Named", toSchema "Missing", idRequired] }
  cat : Schema := {
    kind := .composed, properties := [("id", {})]
    allOf := [toSchema "Named", toSchema "Identified"] }

open identifiedSetup in
theorem required_fields_iff_pet :
    ∃ f m w', flatten identifiedSetup.schemas "Pet" pet = .merged f ∧
      resolveModel identifiedSetup "Pet" pet {} = .ok (m, w') ∧
      m.vars.map label = [("name", true), ("id", true)] ∧
      ∃ events, Expands identifiedSetup.schemas ["Pet"] (.schema pet) events ∧
        m.vars.map (·.baseName) = f.properties.keys ∧
        (∀ p ∈ m.vars, p.required = true ↔
          DemandedBy identifiedSetup.schemas "Pet" pet .taken p.baseName) ∧
        ((∀ p ∈ m.vars, p.required = true ↔ Demanded events p.baseName) ↔
          ∀ p ∈ m.vars, DemandedBy identifiedSetup.schemas "Pet" pet .lost p.baseName →
            DemandedBy identifiedSetup.schemas "Pet" pet .taken p.baseName) := by
  obtain ⟨f, hFlat⟩ : ∃ f, flatten identifiedSetup.schemas "Pet" pet = .merged f := ⟨_, rfl⟩
  obtain ⟨m, w', hRun, hLabels⟩ : ∃ m w', resolveModel identifiedSetup "Pet" pet {} = .ok (m, w') ∧
      m.vars.map label = [("name", true), ("id", true)] := ⟨_, _, rfl, by decide +kernel⟩
  exact ⟨f, m, w', hFlat, hRun, hLabels,
    required_fields_iff (by decide +kernel) (by decide) (by decide) hFlat hRun⟩

open identifiedSetup in
/-- In a base that a missing schema empties, what is required is lost: the cat may leave out its id. -/
theorem required_name_lost :
    ¬ ∀ (setup : Setup) (name : String) (s : Schema) (f : Flattened) (w w' : Workspace) (m : Model),
      setup.config.denylist.contains name = false → s.target? = none → s.isMerge = true →
      flatten setup.schemas name s = .merged f → resolveModel setup name s w = .ok (m, w') →
      ∀ events, Expands setup.schemas [name] (.schema s) events →
        ∀ p ∈ m.vars, p.required = true ↔ Demanded events p.baseName := by
  intro hAlways
  obtain ⟨f, hFlat⟩ : ∃ f, flatten identifiedSetup.schemas "Cat" cat = .merged f := ⟨_, rfl⟩
  obtain ⟨m, w', hRun, hLabels⟩ : ∃ m w', resolveModel identifiedSetup "Cat" cat {} = .ok (m, w') ∧
      m.vars.map label = [("name", true), ("id", false)] := ⟨_, _, rfl, by decide +kernel⟩
  obtain ⟨events, hExpands, -⟩ := @flatten_agrees identifiedSetup.schemas [] "Cat" cat
  have hSchema (visited : List String) : Expands identifiedSetup.schemas visited (.schema identified)
      [.cut "#/components/schemas/Missing", .fragment idRequired, .fragment identified] := by
    have hMissing : Expands identifiedSetup.schemas visited (.member (toSchema "Missing"))
        [.cut "#/components/schemas/Missing"] := .reference rfl (.cut (Or.inr rfl))
    have hMembers : Expands identifiedSetup.schemas visited (.members identified.allOf)
        [.cut "#/components/schemas/Missing", .fragment idRequired] :=
      .cons hMissing (.cons (.fields rfl rfl) .nil)
    exact .schema hMembers
  have hIdentified : Expands identifiedSetup.schemas ["Cat"] (.member (toSchema "Identified"))
      [.cut "#/components/schemas/Missing", .fragment idRequired, .fragment identified] :=
    .reference rfl (.follow (by decide +kernel) rfl (Or.inl ⟨rfl, by decide⟩)
      (.merge rfl rfl (hSchema _)))
  have hLost : Meets identifiedSetup.schemas ["Cat"] (.schema cat) (.lost idRequired) :=
    .outside (by simp [cat]) ⟨_, hIdentified, rfl, _, List.mem_cons_self⟩ hIdentified (by simp)
  have hDemanded : Demanded events "id" :=
    ⟨idRequired, hLost.fragment_mem (Or.inr rfl) hExpands, List.mem_cons_self⟩
  obtain ⟨p, hp, hLabel⟩ := List.mem_map.mp (hLabels ▸ (by simp) : ("id", false) ∈ m.vars.map label)
  obtain ⟨hName, hOptional⟩ := Prod.mk.inj hLabel
  have hRequired := (hAlways identifiedSetup "Cat" cat f {} w' m (by decide +kernel) (by decide)
    (by decide) hFlat hRun events hExpands p hp).mpr (hName ▸ hDemanded)
  rw [hRequired] at hOptional
  cases hOptional

end ClientTypes.Resolution
