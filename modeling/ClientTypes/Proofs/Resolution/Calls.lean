import ClientTypes.Proofs.Resolution.Flattening
import Mathlib.Data.List.Perm.Subperm

/-! Flattening ends. The calls that merging a schema and following a reference make are stated without
fuel: a call gives a result once the calls that it makes have given theirs. Every call does, and it
gives what the fuelled function computes. Along a chain of calls no schema is expanded twice. -/
namespace ClientTypes.Resolution

/-- What is being worked on: the merge of a schema, or a reference that is followed, each with the
schemas on the path to it. -/
inductive Call where
  | merge (visited : List String) (s : Schema)
  | follow (visited : List String) (reference : String)

namespace Call

def visited : Call → List String
  | .merge visited _ | .follow visited _ => visited

/-- The call for a member of a merge, or for the part that a reference leads to. Properties are taken
without a call. -/
def ofMember? (visited : List String) (m : Schema) : Option Call :=
  match m.target? with
  | some reference => some (.follow visited reference)
  | none => if m.isMerge then some (.merge visited m) else none

variable (schemas : Table String Schema)

/-- The schema that a call expands. A reference that is cut expands none. -/
def expanded? : Call → Option String
  | .merge _ _ => none
  | .follow visited reference => (lead schemas visited reference).toOption.map Prod.fst

/-- The calls that a call makes itself, in order. -/
def inner : Call → List Call
  | .merge visited s => s.allOf.filterMap (ofMember? visited)
  | .follow visited reference =>
    match lead schemas visited reference with
    | .error _ => []
    | .ok (name, part) => (ofMember? (name :: visited) part).toList

/-- What a member gives, from what its call gives. -/
def memberResult (answer : Call → Flattening) (visited : List String) (m : Schema) : Flattening :=
  match ofMember? visited m with
  | some c => answer c
  | none => .merged (ownFields m)

/-- What a call gives, from what the calls that it makes give. -/
def result (answer : Call → Flattening) : Call → Flattening
  | .merge visited s =>
    let members := s.allOf.map (memberResult answer visited)
    ((members.foldl Flattened.add {}).add (.merged (ownFields s))).conclude
  | .follow visited reference =>
    match lead schemas visited reference with
    | .error reason => .unresolved reason
    | .ok (name, part) => withBase name (memberResult answer (name :: visited) part)

/-- The call comes to an end with a result: all calls that it makes do, and the result is made of
theirs. -/
inductive Returns : Call → Flattening → Prop where
  | intro {c : Call} {answer : Call → Flattening}
      (ended : ∀ c' ∈ c.inner schemas, Returns c' (answer c')) : Returns c (c.result schemas answer)

end Call

open Call

variable {schemas : Table String Schema} {visited : List String}

/-! ### Every call ends -/

theorem ofMember?_eq_some_iff {m : Schema} {c : Call} : ofMember? visited m = some c ↔
    (∃ r, m.target? = some r ∧ c = .follow visited r) ∨
      (m.target? = none ∧ m.isMerge = true ∧ c = .merge visited m) := by
  unfold ofMember?
  cases m.target? with
  | some r =>
      refine ⟨fun h => Or.inl ⟨r, rfl, (Option.some.inj h).symm⟩, ?_⟩
      rintro (⟨_, hSame, rfl⟩ | ⟨hNone, _⟩)
      · rw [Option.some.inj hSame]
      · cases hNone
  | none =>
      refine ⟨fun h => ?_, ?_⟩
      · obtain ⟨hMerge, hCall⟩ := Option.ite_none_right_eq_some.mp h
        exact Or.inr ⟨rfl, hMerge, (Option.some.inj hCall).symm⟩
      · rintro (⟨_, hSome, _⟩ | ⟨_, hMerge, rfl⟩)
        · cases hSome
        · simp [hMerge]

theorem memberResult_congr {answer answer' : Call → Flattening} {m : Schema}
    (h : ∀ c, ofMember? visited m = some c → answer c = answer' c) :
    memberResult answer visited m = memberResult answer' visited m := by
  unfold memberResult
  cases hCall : ofMember? visited m with
  | none => rfl
  | some c => exact h c hCall

/-- The result of a call depends on the calls that it makes, and on no others. -/
theorem result_congr {answer answer' : Call → Flattening} {c : Call}
    (h : ∀ c' ∈ c.inner schemas, answer c' = answer' c') :
    c.result schemas answer = c.result schemas answer' := by
  cases c with
  | merge visited s =>
      have hMembers : s.allOf.map (memberResult answer visited) =
          s.allOf.map (memberResult answer' visited) := by
        refine List.map_congr_left fun m hm => memberResult_congr fun c hc => ?_
        exact h c (List.mem_filterMap.mpr ⟨m, hm, hc⟩)
      simp only [result, hMembers]
  | follow visited reference =>
      simp only [Call.inner] at h
      simp only [result]
      cases hLead : lead schemas visited reference with
      | error reason => rfl
      | ok target =>
          rw [hLead] at h
          exact congrArg (withBase target.1) (memberResult_congr fun c hc => h c (by simp [hc]))

/-- A call gives one result only. -/
theorem Call.Returns.unique {c : Call} {result other : Flattening} (h : Returns schemas c result)
    (h' : Returns schemas c other) : result = other := by
  induction h generalizing other with
  | intro ended ih =>
      cases h' with
      | intro ended' => exact result_congr fun c' hc' => ih c' hc' (ended' c' hc')

/-- What the fuelled functions give for a call, given how references are followed. -/
def answerWith (follow : String → Flattening) : Call → Flattening
  | .merge _ s => mergeAllOf follow s
  | .follow _ reference => follow reference

theorem memberResult_answerWith (follow : String → Flattening) (m : Schema) :
    memberResult (answerWith follow) visited m = flattenMember follow m := by
  unfold memberResult ofMember? flattenMember
  cases m.target? with
  | some reference => rfl
  | none =>
      cases hMerge : m.isMerge with
      | true => simp [answerWith]
      | false => simp

theorem mergeMembers_eq_foldl (follow : String → Flattening) (into : Flattened) (ms : List Schema) :
    mergeMembers follow into ms = (ms.map (flattenMember follow)).foldl Flattened.add into := by
  induction ms generalizing into with
  | nil => simp [mergeMembers]
  | cons m rest ih => rw [mergeMembers_cons, ih, List.map_cons, List.foldl_cons]

theorem result_merge (follow : String → Flattening) (s : Schema) :
    (Call.merge visited s).result schemas (answerWith follow) = mergeAllOf follow s := by
  have hMembers : s.allOf.map (memberResult (answerWith follow) visited) =
      s.allOf.map (flattenMember follow) :=
    List.map_congr_left fun m _ => memberResult_answerWith follow m
  simp only [result, hMembers, mergeAllOf_eq, mergeMembers_eq_foldl]

mutual

/-- When references return, so does a merge, down to the leaves of its tree. -/
theorem returns_merge {follow : String → Flattening}
    (hFollow : ∀ r, Returns schemas (.follow visited r) (follow r)) (s : Schema) :
    Returns schemas (.merge visited s) (mergeAllOf follow s) := by
  rw [← @result_merge schemas visited]
  refine .intro fun c hc => ?_
  obtain ⟨m, hm, hCall⟩ := List.mem_filterMap.mp hc
  have hSmaller : sizeOf m < sizeOf s :=
    Nat.lt_trans (List.sizeOf_lt_of_mem hm) (sizeOf_allOf_lt s)
  exact returns_member hFollow m hCall
termination_by (sizeOf s, 0)

theorem returns_member {follow : String → Flattening}
    (hFollow : ∀ r, Returns schemas (.follow visited r) (follow r)) (m : Schema) {c : Call}
    (hCall : ofMember? visited m = some c) : Returns schemas c (answerWith follow c) := by
  rcases ofMember?_eq_some_iff.mp hCall with ⟨r, _, rfl⟩ | ⟨_, _, rfl⟩
  · exact hFollow r
  · exact returns_merge hFollow m
termination_by (sizeOf m, 1)

end

/-- A reference leads on only from outside the path, to a schema of the table. -/
theorem lead_ok {r name : String} {part : Schema} (h : lead schemas visited r = .ok (name, part)) :
    name ∉ visited ∧ ∃ whole, schemas.get? name = some whole := by
  by_cases hDead : (Naming.Pointer.ofReference r).schema ∈ visited ∨
      schemas.get? (Naming.Pointer.ofReference r).schema = none
  · obtain ⟨reason, hLead⟩ := lead_of_dead hDead
    rw [hLead] at h
    cases h
  · obtain ⟨hFresh, hKnown⟩ := not_or.mp hDead
    obtain ⟨whole, hWhole⟩ := Option.ne_none_iff_exists'.mp hKnown
    obtain ⟨part', hLead, _⟩ := lead_of_fresh hFresh hWhole
    rw [hLead] at h
    cases h
    exact ⟨hFresh, whole, hWhole⟩

/-- A reference returns what it gives with fuel for the schemas off the path. -/
theorem returns_follow {fuel : Nat} (hFuel : (unvisited schemas visited).length < fuel) (r : String) :
    Returns schemas (.follow visited r) (followReference schemas fuel visited r) := by
  induction fuel generalizing visited r with
  | zero => exact absurd hFuel (Nat.not_lt_zero _)
  | succ fuel ih =>
      rw [followReference_succ]
      cases hLead : lead schemas visited r with
      | error reason =>
          have hResult : (Call.follow visited r).result schemas (answerWith fun _ => .unresolved reason) =
              .unresolved reason := by
            simp only [result, hLead]
          dsimp only
          rw [← hResult]
          refine .intro fun c hc => ?_
          simp [Call.inner, hLead] at hc
      | ok target =>
          obtain ⟨name, part⟩ := target
          obtain ⟨hFresh, whole, hKnown⟩ := lead_ok hLead
          have hLess : (unvisited schemas (name :: visited)).length < fuel :=
            Nat.lt_of_lt_of_le (unvisited_cons_lt hFresh hKnown) (Nat.le_of_lt_succ hFuel)
          have hResult : (Call.follow visited r).result schemas
              (answerWith (followReference schemas fuel (name :: visited))) =
                withBase name (flattenMember (followReference schemas fuel (name :: visited)) part) := by
            simp only [result, hLead, memberResult_answerWith]
          dsimp only
          rw [← hResult]
          refine .intro fun c hc => ?_
          have hCall : ofMember? (name :: visited) part = some c := by simpa [Call.inner, hLead] using hc
          exact returns_member (ih hLess) part hCall

/-! ### Chains of calls -/

/-- A call that another one makes has the path of that call, and the schema that it expands. -/
theorem visited_of_mem_inner {c c' : Call} (h : c' ∈ c.inner schemas) :
    c'.visited = (c.expanded? schemas).toList ++ c.visited := by
  have hMember {path : List String} {m : Schema} (hCall : ofMember? path m = some c') :
      c'.visited = path := by
    rcases ofMember?_eq_some_iff.mp hCall with ⟨_, _, rfl⟩ | ⟨_, _, rfl⟩ <;> rfl
  cases c with
  | merge path s =>
      obtain ⟨m, _, hCall⟩ := List.mem_filterMap.mp h
      exact hMember hCall
  | follow path r =>
      cases hLead : lead schemas path r with
      | error reason => simp [Call.inner, hLead] at h
      | ok target =>
          have hCall : ofMember? (target.1 :: path) target.2 = some c' := by
            simpa [Call.inner, hLead] using h
          rw [hMember hCall]
          simp [expanded?, hLead, Except.toOption, Call.visited]

theorem of_expanded? {c : Call} {name : String} (h : c.expanded? schemas = some name) :
    name ∉ c.visited ∧ name ∈ schemas.keys := by
  cases c with
  | merge path s => cases h
  | follow path r =>
      cases hLead : lead schemas path r with
      | error reason => simp [expanded?, hLead, Except.toOption] at h
      | ok target =>
          obtain rfl : target.1 = name := by simpa [expanded?, hLead, Except.toOption] using h
          obtain ⟨hFresh, whole, hKnown⟩ := lead_ok hLead
          exact ⟨hFresh, List.mem_map.mpr ⟨_, Table.mem_of_get? hKnown, rfl⟩⟩

/-- Along a chain of calls, each of which makes the next one, schemas are expanded that are on no path
yet, and none of them twice. -/
theorem expanded_of_chain {c : Call} {chain : List Call}
    (h : List.IsChain (fun outer call => call ∈ outer.inner schemas) (c :: chain)) :
    ((c :: chain).filterMap (·.expanded? schemas)).Nodup ∧
      ∀ name ∈ (c :: chain).filterMap (·.expanded? schemas), name ∉ c.visited ∧ name ∈ schemas.keys := by
  induction chain generalizing c with
  | nil =>
      cases hOwn : c.expanded? schemas with
      | none => simp [hOwn]
      | some name => simpa [hOwn] using of_expanded? hOwn
  | cons next rest ih =>
      obtain ⟨hMakes, hRest⟩ := List.isChain_cons_cons.mp h
      obtain ⟨hNodup, hLater⟩ := ih hRest
      have hPath := visited_of_mem_inner hMakes
      rw [List.filterMap_cons]
      cases hOwn : c.expanded? schemas with
      | none =>
          rw [hOwn, Option.toList_none, List.nil_append] at hPath
          rw [hPath] at hLater
          exact ⟨hNodup, hLater⟩
      | some name =>
          rw [hOwn, Option.toList_some, List.singleton_append] at hPath
          rw [hPath] at hLater
          refine ⟨List.nodup_cons.mpr ⟨fun hAgain => ?_, hNodup⟩, ?_⟩
          · exact (hLater name hAgain).1 (List.mem_cons_self ..)
          · rintro other (_ | ⟨_, hOther⟩)
            · exact of_expanded? hOwn
            · exact ⟨fun hOld => (hLater other hOther).1 (List.mem_cons_of_mem _ hOld),
                (hLater other hOther).2⟩

/-- Flattening ends for every table, cyclic ones included: it returns one result, which is what the
fuelled function computes. Along a chain of calls no schema is expanded that is on the path already, so
none is expanded twice, and there are at most as many of them as there are schemas. -/
theorem flatten_returns (schemas : Table String Schema) (name : String) (s : Schema)
    (visited : List String) :
    (∀ result, Returns schemas (.merge (name :: visited) s) result ↔
      result = flatten schemas name s visited) ∧
    ∀ chain, List.IsChain (fun outer call => call ∈ outer.inner schemas)
        (Call.merge (name :: visited) s :: chain) →
      let expanded := chain.filterMap (·.expanded? schemas)
      expanded.Nodup ∧ (∀ other ∈ expanded, other ∉ name :: visited ∧ other ∈ schemas.keys) ∧
        expanded.length ≤ schemas.length := by
  have hFuel : (unvisited schemas (name :: visited)).length < schemas.length + 1 :=
    Nat.lt_succ_of_le (List.length_filter_le ..)
  have hReturns : Returns schemas (.merge (name :: visited) s) (flatten schemas name s visited) :=
    returns_merge (returns_follow hFuel) s
  refine ⟨fun result => ⟨fun h => h.unique hReturns, fun h => h ▸ hReturns⟩, fun chain hChain => ?_⟩
  -- The merge itself expands no schema, so the chain behind it expands all of them.
  obtain ⟨hNodup, hEach⟩ := expanded_of_chain hChain
  rw [List.filterMap_cons_none rfl] at hNodup hEach
  refine ⟨hNodup, hEach, ?_⟩
  have hKeys : chain.filterMap (·.expanded? schemas) ⊆ schemas.keys := fun other h => (hEach other h).2
  calc (chain.filterMap (·.expanded? schemas)).length
      ≤ schemas.keys.length := (List.subperm_of_subset hNodup hKeys).length_le
    _ = schemas.length := by simp [Table.keys]

/-- A merge of one schema, by its name. -/
def including (name : String) : Schema where
  kind := .composed
  allOf := [{ reference := some ("#/components/schemas/" ++ name) }]

/-- Two schemas that include one another. -/
def mutualSchemas : Table String Schema := [("Cat", including "Dog"), ("Dog", including "Cat")]

/-- From one schema the other one is expanded, and the way back is cut. -/
def mutualChain : List Call :=
  [.follow ["Cat"] "#/components/schemas/Dog", .merge ["Dog", "Cat"] (including "Cat"),
   .follow ["Dog", "Cat"] "#/components/schemas/Cat"]

theorem flatten_returns_mutual :
    Returns mutualSchemas (.merge ["Cat"] (including "Dog"))
      (.unresolved "cyclic reference #/components/schemas/Cat") ∧
    mutualChain.filterMap (·.expanded? mutualSchemas) = ["Dog"] ∧
    (mutualChain.filterMap (·.expanded? mutualSchemas)).length ≤ mutualSchemas.length := by
  have hLaws := flatten_returns mutualSchemas "Cat" (including "Dog") []
  have hChain : List.IsChain (fun outer call => call ∈ outer.inner mutualSchemas)
      (Call.merge ["Cat"] (including "Dog") :: mutualChain) :=
    .cons_cons (List.mem_singleton.mpr rfl) <| .cons_cons (List.mem_singleton.mpr rfl) <|
      .cons_cons (List.mem_singleton.mpr rfl) (.singleton _)
  exact ⟨(hLaws.1 _).mpr rfl, by decide +kernel, (hLaws.2 _ hChain).2.2⟩

end ClientTypes.Resolution
