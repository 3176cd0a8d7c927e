import ClientTypes.Proofs.CrossReference.FriendlyNames
import ClientTypes.Proofs.Naming.Placeholder
import ClientTypes.Proofs.Naming.Reference

/-! Models that are derived from a placeholder. The inline objects of a numbered schema are named after it
and the path to them. Which placeholder such a model goes on from is read off its classname, where no
separator is left: a path that begins with digits continues the number, and the hint that is found is that
of the longer number. Any other path leads back to the placeholder itself. -/
namespace ClientTypes.Hints

open Naming Text

/-! ### Keys -/

/-- Every key of the table is a numbered name in camel case. -/
def OfPlaceholders (h : Hints) : Prop :=
  ∀ key ∈ h.names.keys, ∃ placeholder, IsPlaceholder placeholder ∧ key = camelize placeholder

theorem OfPlaceholders.register {h : Hints} (hKeys : h.OfPlaceholders) {placeholder : String}
    (hPlaceholder : IsPlaceholder placeholder) (friendly : String) :
    (h.register placeholder friendly).OfPlaceholders := by
  intro key hKey
  obtain ⟨entry, hMem, rfl⟩ := List.mem_map.mp hKey
  rcases mem_register hMem with hOld | rfl
  · exact hKeys _ (List.mem_map_of_mem hOld)
  · exact ⟨placeholder, hPlaceholder, rfl⟩

/-- A key is the front of numbered names, and digits. -/
theorem OfPlaceholders.split {h : Hints} (hKeys : h.OfPlaceholders) {key : String} (hKey : key ∈ h.names.keys) :
    ∃ front ∈ numberedFronts, ∃ digits, AreDigits digits ∧ key.toList = front.toList ++ digits := by
  obtain ⟨placeholder, hPlaceholder, rfl⟩ := hKeys key hKey
  obtain ⟨front, hFront, digits, hDigits, hSplit⟩ := hPlaceholder.split
  exact ⟨front, hFront, digits, hDigits, by rw [camelize, String.toList_ofList, hSplit]⟩

theorem numberedFronts_unique {front other : String} (h : front ∈ numberedFronts) (h' : other ∈ numberedFronts)
    {cs ds : List Char} (hSame : front.toList ++ cs = other.toList ++ ds) : front = other ∧ cs = ds := by
  simp only [numberedFronts, List.mem_cons, List.not_mem_nil, or_false] at h h'
  rcases h with rfl | rfl <;> rcases h' with rfl | rfl
  · exact ⟨rfl, List.append_cancel_left hSame⟩
  · cases hSame
  · cases hSame
  · exact ⟨rfl, List.append_cancel_left hSame⟩

/-! ### Keys that a classname goes on from -/

theorem upperRuns_above_letters : ∀ run ∈ upperRuns,
    run.first = 65 ∧ run.last = 90 ∧ run.step = 1 ∨ 123 ≤ run.first := by decide +kernel

/-- Among letters and digits of ASCII, the capitals of any script are `A` to `Z`. -/
theorem isUpperOfScript_eq {c : Char} (h : isWordChar c = true) : isUpperOfScript c = c.isUpper := by
  have hBelow : c.toNat < 123 := by
    rcases isWordChar_iff.mp h with hUpper | hLower | hDigit
    · have := isUpper_iff.mp hUpper
      omega
    · have := isLower_iff.mp hLower
      omega
    · have := isDigit_iff.mp hDigit
      omega
  rw [Bool.eq_iff_iff, isUpper_iff]
  constructor
  · intro hUpper
    obtain ⟨run, hRun, hHolds⟩ := List.any_eq_true.mp hUpper
    simp only [UpperRun.holds, Bool.and_eq_true, decide_eq_true_eq] at hHolds
    rcases upperRuns_above_letters run hRun with ⟨hFirst, hLast, _⟩ | hAbove
    · omega
    · omega
  · intro hRange
    have hFirst : (⟨0x41, 0x5a, 1⟩ : UpperRun) ∈ upperRuns := by
      unfold upperRuns
      exact List.mem_cons_self ..
    exact List.any_eq_true.mpr ⟨_, hFirst, by simp [UpperRun.holds, hRange, Nat.mod_one]⟩

/-- The text is empty or begins with a capital. -/
def opensWord (cs : List Char) : Bool := (cs.head?.map Char.isUpper).getD true

section Numbered

variable {classname front : String} {digits more : List Char} (hFront : front ∈ numberedFronts)
  (hDigits : AreDigits digits) (hMore : NoDigitAhead more)
  (hClassname : classname.toList = front.toList ++ (digits ++ more))

include hFront hDigits hMore hClassname

/-- A classname goes on with a new word from one key at most: from its front with all the digits that
follow, if a capital comes next. -/
theorem wordsAfter?_eq_some_iff {h : Hints} (hKeys : h.OfPlaceholders) (hPlain : IsPlain classname)
    {key rest : String} (hKey : key ∈ h.names.keys) : wordsAfter? key classname = some rest ↔
      key.toList = front.toList ++ digits ∧ rest.toList = more ∧ more ≠ [] ∧ opensWord more = true := by
  obtain ⟨other, hOther, ds, hds, hSplit⟩ := hKeys.split hKey
  rw [wordsAfter?, Option.filter_eq_some_iff, dropFront?_eq_some_iff, hClassname, hSplit]
  constructor
  · rintro ⟨hSame, hUpper⟩
    rw [List.append_assoc] at hSame
    obtain ⟨rfl, hBehind⟩ := numberedFronts_unique hFront hOther hSame
    cases hRest : rest.toList with
    | nil => simp [hRest] at hUpper
    | cons c back =>
        have hCapital : c.isUpper = true := by
          have hWordChar : isWordChar c = true :=
            hPlain c (by rw [hClassname, hBehind, hRest]; simp)
          rw [← isUpperOfScript_eq hWordChar]
          simpa [hRest] using hUpper
        have hAhead : NoDigitAhead rest.toList := by
          rw [hRest]
          rintro _ _ ⟨⟩
          exact isUpper_not_isDigit hCapital
        obtain ⟨rfl, hEnd⟩ := digits_append_inj hDigits hds hMore hAhead hBehind
        rw [hRest] at hEnd
        exact ⟨rfl, hEnd.symm, by simp [hEnd], by simp [hEnd, opensWord, hCapital]⟩
  · rintro ⟨hKeyIs, hRest, hSome, hOpens⟩
    obtain ⟨c, back, rfl⟩ := List.exists_cons_of_ne_nil hSome
    have hCapital : c.isUpper = true := by simpa [opensWord] using hOpens
    have hWordChar : isWordChar c = true := hPlain c (by simp [hClassname])
    refine ⟨by rw [hKeyIs, hRest, List.append_assoc], ?_⟩
    simp [hRest, isUpperOfScript_eq hWordChar, hCapital]

/-- The classname itself is a key only if nothing follows the digits. -/
theorem eq_nil_of_mem_keys {h : Hints} (hKeys : h.OfPlaceholders) (hKey : classname ∈ h.names.keys) :
    more = [] := by
  obtain ⟨other, hOther, ds, hds, hSplit⟩ := hKeys.split hKey
  rw [hClassname] at hSplit
  obtain ⟨_, hBehind⟩ := numberedFronts_unique hFront hOther hSplit
  obtain ⟨_, hNone⟩ := digits_append_inj hDigits hds hMore (fun _ _ h => by cases h)
    (hBehind.trans (List.append_nil ds).symm)
  exact hNone

/-- The search finds the key of the front and all the digits, if a new word begins behind them. -/
theorem longestFront?_numbered {h : Hints} (hKeys : h.OfPlaceholders) (hPlain : IsPlain classname) :
    h.longestFront? classname =
      if more ≠ [] ∧ opensWord more = true then
        (h.names.get? (front ++ String.ofList digits)).map fun friendly =>
          (front ++ String.ofList digits, friendly)
      else none := by
  have hFits : ∀ key ∈ h.names.keys, ∀ rest, wordsAfter? key classname = some rest ↔
      key.toList = front.toList ++ digits ∧ rest.toList = more ∧ more ≠ [] ∧ opensWord more = true :=
    fun key hKey rest => wordsAfter?_eq_some_iff hFront hDigits hMore hClassname hKeys hPlain hKey
  split
  next hOpens =>
    refine longestFront?_of_only fun other hOther => ?_
    have hKeyChars : (front ++ String.ofList digits).toList = front.toList ++ digits := by simp
    rw [Option.isSome_iff_exists, ← String.toList_inj, hKeyChars]
    constructor
    · rintro ⟨rest, hRest⟩
      exact ((hFits other hOther rest).mp hRest).1
    · intro hSame
      exact ⟨String.ofList more, (hFits other hOther _).mpr ⟨hSame, by simp, hOpens⟩⟩
  next hOpens =>
    refine CrossReference.longestFront?_eq_none fun key hKey =>
      Option.eq_none_iff_forall_ne_some.mpr fun rest hRest => ?_
    exact hOpens ((hFits key hKey rest).mp hRest).2.2

end Numbered

end ClientTypes.Hints

namespace ClientTypes.CrossReference

open Naming Text Hints

/-! ### The name that is offered -/

/-- A numbered name has no mark of a union. -/
theorem unmarked_of_numbered {classname front : String} (hFront : front ∈ numberedFronts) {rest : List Char}
    (hClassname : classname.toList = front.toList ++ rest) : Unmarked classname := by
  intro mark hMark back hDrop
  have hSame := (dropFront?_eq_some_iff.mp hDrop).symm.trans hClassname
  simp only [unionFronts, numberedFronts, List.mem_cons, List.not_mem_nil, or_false] at hMark hFront
  rcases hMark with rfl | rfl <;> rcases hFront with rfl | rfl <;> cases hSame

/-- A model, no union, whose classname is numbered: it is offered the hint for its front with all the digits
that follow, if behind them a new word begins or nothing is left. -/
theorem friendlyName?_numbered {hints : Hints} (hKeys : hints.OfPlaceholders) {m : Model}
    (hUnion : m.isUnion = false) (hType : IsTypeName m.classname) {front : String}
    (hFront : front ∈ numberedFronts) {digits more : List Char} (hDigits : AreDigits digits)
    (hMore : NoDigitAhead more) (hClassname : m.classname.toList = front.toList ++ (digits ++ more)) :
    friendlyName? hints m =
      if opensWord more then
        (hints.names.get? (front ++ String.ofList digits)).map (· ++ String.ofList more)
      else none := by
  have hBare := withoutUnionFront_of_unmarked (unmarked_of_numbered hFront hClassname)
  have hOwn : hints.get? m.classname = hints.names.get? m.classname := by rw [Hints.get?, hType.camelize_eq]
  have hLongest := longestFront?_numbered hFront hDigits hMore hClassname hKeys hType.plain
  have hKeyChars : (front ++ String.ofList digits).toList = front.toList ++ digits := by simp
  simp only [friendlyName?, hBare, hOwn, hLongest, hUnion]
  cases more with
  | nil =>
      have hSelf : front ++ String.ofList digits = m.classname := by
        rw [← String.toList_inj, hKeyChars, hClassname, List.append_nil]
      rw [hSelf]
      cases hints.names.get? m.classname with
      | none => simp
      | some friendly => simp [opensWord]
  | cons c rest =>
      have hAbsent : hints.names.get? m.classname = none := Table.get?_eq_none_iff.mpr fun hKey =>
        List.cons_ne_nil c rest (eq_nil_of_mem_keys hFront hDigits hMore hClassname hKeys hKey)
      have hDrop : dropFront? (front ++ String.ofList digits) m.classname = some (String.ofList (c :: rest)) := by
        rw [dropFront?_eq_some_iff, hClassname, hKeyChars, String.toList_ofList, List.append_assoc]
      cases hOpens : opensWord (c :: rest) with
      | false => simp [hAbsent]
      | true =>
          cases hints.names.get? (front ++ String.ofList digits) with
          | none => simp [hAbsent]
          | some friendly => simp [hAbsent, hDrop]

/-! ### Models of a placeholder -/

/-- The digits that the path to an inline object begins with in camel case. -/
def pathNumber (path : String) : List Char := (camelChars path.toList).takeWhile Char.isDigit

/-- What follows these digits. -/
def pathWords (path : String) : List Char := (camelChars path.toList).dropWhile Char.isDigit

theorem pathNumber_append_pathWords (path : String) :
    pathNumber path ++ pathWords path = camelChars path.toList :=
  List.takeWhile_append_dropWhile

theorem noDigitAhead_pathWords (path : String) : NoDigitAhead (pathWords path) := by
  intro c rest hSplit
  have hHead := List.head?_dropWhile_not Char.isDigit (camelChars path.toList)
  rw [show (camelChars path.toList).dropWhile Char.isDigit = c :: rest from hSplit] at hHead
  simpa using hHead

/-- A path that does not begin with a digit leaves the number as it is. -/
theorem path_of_not_startsWithDigit {path : String} (h : startsWithDigit (camelChars path.toList) = false) :
    pathNumber path = [] ∧ pathWords path = camelChars path.toList ∧ opensWord (pathWords path) = true := by
  cases hPath : camelChars path.toList with
  | nil => simp [pathNumber, pathWords, hPath, opensWord]
  | cons c rest =>
      have hDigit : c.isDigit = false := by simpa [startsWithDigit, hPath] using h
      have hCapital : c.isUpper = true := (camelChars_head hPath).resolve_right (by simp [hDigit])
      simp [pathNumber, pathWords, hPath, hDigit, hCapital, opensWord]

/-- The name of a schema is spelled as its camel case is. -/
theorem typeName_camelize (name : String) : typeName (camelize name) = typeName name := by
  rw [← String.toList_inj, toList_typeName, toList_typeName, camelize, String.toList_ofList,
    camelChars_camelChars]

theorem isTypeName_of_numbered {front back : String} (hFront : front ∈ numberedFronts) (hBack : IsPlain back) :
    IsTypeName (front ++ back) := by
  simp only [numberedFronts, List.mem_cons, List.not_mem_nil, or_false] at hFront
  rcases hFront with rfl | rfl
  · exact isTypeName_of_front ⟨'B', "ody".toList, rfl, rfl⟩ (by decide) (by decide) hBack
  · exact isTypeName_of_front ⟨'I', "nlineResponse".toList, rfl, rfl⟩ (by decide) (by decide) hBack

/-- The type name of a schema under a numbered one is its camel case. -/
theorem typeName_derived {placeholder : String} (h : IsPlaceholder placeholder) (path : String) :
    typeName (placeholder ++ "_" ++ path) = camelize placeholder ++ camelize path := by
  obtain ⟨front, hFront, digits, _, hSplit⟩ := h.split
  have hChars : camelChars (placeholder ++ "_" ++ path).toList =
      camelChars placeholder.toList ++ camelChars path.toList := by
    have hBehind : (placeholder ++ "_" ++ path).toList = placeholder.toList ++ '_' :: path.toList := by simp
    rw [hBehind, camelChars_append_separator (by decide)]
  have hCamel : camelize (placeholder ++ "_" ++ path) = camelize placeholder ++ camelize path := by
    rw [camelize, hChars, String.ofList_append]
    rfl
  have hFrontIs : camelize (placeholder ++ "_" ++ path) =
      front ++ String.ofList (digits ++ camelChars path.toList) := by
    rw [← String.toList_inj, camelize, String.toList_ofList, hChars, hSplit]
    simp
  have hPlain : IsPlain (String.ofList (digits ++ camelChars path.toList)) := by
    intro c hc
    have hIn : c ∈ camelChars (placeholder ++ "_" ++ path).toList := by
      rw [hChars, hSplit]
      simp only [String.toList_ofList, List.mem_append] at hc ⊢
      tauto
    exact isWordChar_of_mem_camelChars hIn
  rw [← typeName_camelize, (hFrontIs ▸ isTypeName_of_numbered hFront hPlain : IsTypeName _).typeName_eq, hCamel]

/-- A model, no union, that is derived from a placeholder is offered the hint for the number of the
placeholder with the digits that its path begins with. -/
theorem friendlyName?_derived {hints : Hints} (hKeys : hints.OfPlaceholders) {m : Model}
    (hUnion : m.isUnion = false) {placeholder path : String} (h : IsPlaceholder placeholder)
    (hSpelled : m.classname = typeName (placeholder ++ "_" ++ path)) :
    friendlyName? hints m =
      if opensWord (pathWords path) then
        (hints.names.get? (camelize placeholder ++ String.ofList (pathNumber path))).map
          (· ++ String.ofList (pathWords path))
      else none := by
  obtain ⟨front, hFront, digits, hDigits, hSplit⟩ := h.split
  have hType : IsTypeName m.classname := hSpelled ▸ isTypeName_typeName _
  have hNumber : AreDigits (digits ++ pathNumber path) := by
    intro c hc
    rcases List.mem_append.mp hc with hOwn | hPath
    · exact hDigits c hOwn
    · exact List.mem_takeWhile_imp hPath
  have hClassname : m.classname.toList = front.toList ++ ((digits ++ pathNumber path) ++ pathWords path) := by
    rw [hSpelled, typeName_derived h, String.toList_append, camelize, camelize, String.toList_ofList,
      String.toList_ofList, hSplit, ← pathNumber_append_pathWords]
    simp
  have hKey : front ++ String.ofList (digits ++ pathNumber path) =
      camelize placeholder ++ String.ofList (pathNumber path) := by
    rw [← String.toList_inj, camelize, hSplit]
    simp
  rw [friendlyName?_numbered hKeys hUnion hType hFront hNumber (noDigitAhead_pathWords path) hClassname, hKey]

/-- Where the path does not begin with a digit, that is the hint of the placeholder itself. -/
theorem friendlyName?_own {hints : Hints} (hKeys : hints.OfPlaceholders) {m : Model}
    (hUnion : m.isUnion = false) {placeholder path : String} (h : IsPlaceholder placeholder)
    (hSpelled : m.classname = typeName (placeholder ++ "_" ++ path))
    (hPath : startsWithDigit (camelChars path.toList) = false) :
    friendlyName? hints m = (hints.get? placeholder).map (· ++ camelize path) := by
  obtain ⟨hNumber, hWords, hOpens⟩ := path_of_not_startsWithDigit hPath
  rw [friendlyName?_derived hKeys hUnion h hSpelled, if_pos hOpens, hNumber, hWords]
  simp [Hints.get?, camelize]

/-! ### What becomes of an offer -/

/-- The classname of a model that is offered `target` while some names are taken: that name; with `Enum` at
its end, because it was taken; or the old name, because both were. -/
inductive Follows (taken : List String) (target old : String) : String → Prop where
  | offered (hFree : target = old ∨ target ∉ taken) : Follows taken target old target
  | withEnum (hOther : target ≠ old) (hTaken : target ∈ taken) (hFree : withEnum target ∉ taken) :
      Follows taken target old (withEnum target)
  | kept (hOther : target ≠ old) (hTaken : target ∈ taken) (hBoth : withEnum target ∈ taken) :
      Follows taken target old old

/-- A name that is free is given. -/
theorem Follows.of_free {taken : List String} {target old new : String} (h : Follows taken target old new)
    (hFree : target ∉ taken) : new = target := by
  cases h with
  | offered _ => rfl
  | withEnum _ hTaken _ => exact absurd hTaken hFree
  | kept _ hTaken _ => exact absurd hTaken hFree

/-- The classname after a decision. -/
def calledAfter (old : String) : Decision → String
  | .rename target => target
  | .keep | .blocked _ => old

theorem follows_decide {hints : Hints} {m : Model} {target : String} (taken : List String)
    (h : friendlyName? hints m = some target) :
    Follows taken target m.classname (calledAfter m.classname (decide hints taken m)) := by
  unfold decide
  rw [h]
  dsimp only
  split_ifs with hSame hTaken hBoth
  · have hOwn : Follows taken target m.classname target := .offered (Or.inl hSame)
    exact hSame ▸ hOwn
  · exact .kept hSame (by simpa using hTaken) (by simpa using hBoth)
  · exact .withEnum hSame (by simpa using hTaken) (by simpa using hBoth)
  · exact .offered (Or.inr (by simpa using hTaken))

theorem kept_decide {hints : Hints} {m : Model} (taken : List String) (h : friendlyName? hints m = none) :
    calledAfter m.classname (decide hints taken m) = m.classname := by
  rw [decide, h]
  rfl

/-! ### The moment at which a model is renamed -/

/-- Among the renamed models the one that comes next at a moment stands after those that were gone over,
and is called as is decided then. -/
theorem Underway.called {hints : Hints} {models done rest : List Model} {m : Model} {s : RenameState}
    (hMoment : Underway hints models done (m :: rest) s) (hLive : m.removed = false) :
    ∃ m', (renameModels hints (.initial models) models).1[done.length]? = some m' ∧ m'.name = m.name ∧
      m'.classname = calledAfter m.classname (decide hints s.taken m) := by
  have hEnds := congrArg Prod.fst hMoment.ends
  dsimp only at hEnds
  rw [hEnds, renameModels, if_neg (by simp [hLive])]
  have hAt (m' : Model) (more : List Model) : (done ++ m' :: more)[done.length]? = some m' := by simp
  cases hDecision : decide hints s.taken m with
  | rename target => exact ⟨_, hAt { markBody hints m with classname := target } _, rfl, rfl⟩
  | keep => exact ⟨_, hAt (markBody hints m) _, rfl, rfl⟩
  | blocked target => exact ⟨_, hAt (markBody hints m) _, rfl, rfl⟩

/-- What matching makes of that model. -/
theorem Underway.called_run (config : Config) {hints : Hints} {r : Registry} (hFresh : r.crossReferenced = false)
    {done rest : List Model} {m : Model} {s : RenameState}
    (hMoment : Underway hints ((r.models.map classify).map (prune hints)) done (m :: rest) s)
    (hLive : m.removed = false) :
    ∃ m', (run config hints r).registry.models[done.length]? = some m' ∧ m'.name = m.name ∧
      m'.classname = calledAfter m.classname (decide hints s.taken m) := by
  obtain ⟨m', hAt, hName, hCalled⟩ := hMoment.called hLive
  rw [models_run config hints hFresh]
  simp only [rename, renameAllTypes_eq, List.getElem?_map, hAt, Option.map_some]
  refine ⟨_, rfl, ?_, ?_⟩
  · exact (unstubModel_standing config _ _).name.trans ((applyDefaults_standing config _).name.trans hName)
  · exact (classname_unstubModel config _ _).trans
      (((applyDefaults_leavesTypes config).classname _).trans hCalled)

end ClientTypes.CrossReference
