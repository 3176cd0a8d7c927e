import ClientTypes.Proofs.CrossReference.Distinct
import ClientTypes.Proofs.Naming.Spelling

/-! Which classnames can be used as names of types. Every model begins with one that
can. Renaming keeps to letters and digits, but looks neither at the first character of a new
name nor for reserved words, so what a new name is put together from decides. -/
namespace ClientTypes.CrossReference

open Naming Text

/-! ### Names that can be used -/

/-- In small letters the name is a reserved word. -/
def isKeyword (name : String) : Bool := isReserved (String.ofList (name.toList.map Char.toLower))

/-- The text can be used as the name of a type. -/
structure IsUsable (name : String) : Prop where
  nonempty : name ≠ ""
  plain : IsPlain name
  head : startsWithDigit name.toList = false
  free : isKeyword name = false

theorem isUsable_iff {name : String} (hPlain : IsPlain name) :
    IsUsable name ↔ name ≠ "" ∧ startsWithDigit name.toList = false ∧ isKeyword name = false :=
  ⟨fun h => ⟨h.nonempty, h.head, h.free⟩, fun h => ⟨h.1, hPlain, h.2.1, h.2.2⟩⟩

instance (name : String) : Decidable (IsUsable name) :=
  decidable_of_iff (name ≠ "" ∧ IsPlain name ∧ startsWithDigit name.toList = false ∧
      isKeyword name = false)
    ⟨fun h => ⟨h.1, h.2.1, h.2.2.1, h.2.2.2⟩, fun h => ⟨h.nonempty, h.plain, h.head, h.free⟩⟩

theorem IsUsable.of_isTypeName {name : String} (h : IsTypeName name) : IsUsable name := by
  obtain ⟨c, rest, hSplit, hUpper⟩ := h.head
  refine ⟨?_, h.plain, ?_, h.free⟩
  · rintro rfl
    cases hSplit
  · simp [startsWithDigit, hSplit, isUpper_not_isDigit hUpper]

theorem startsWithDigit_append {front : String} (h : front ≠ "") (back : String) :
    startsWithDigit (front ++ back).toList = startsWithDigit front.toList := by
  rw [String.toList_append]
  cases hFront : front.toList with
  | nil => exact absurd (String.toList_eq_nil_iff.mp hFront) h
  | cons c rest => rfl

theorem reservedWords_enum :
    ∀ word ∈ reservedWords, "enum".toList <:+ word.toList → word = "enum" := by decide

/-- With `Enum` at its end a name is no reserved word, unless it was empty. -/
theorem isKeyword_enum {name : String} (h : name ≠ "") : isKeyword (name ++ "Enum") = false := by
  have hChars : (name ++ "Enum").toList.map Char.toLower =
      name.toList.map Char.toLower ++ "enum".toList := by
    rw [String.toList_append, List.map_append]
    rfl
  rw [isKeyword, hChars, isReserved, ← Bool.not_eq_true, List.contains_iff_mem]
  intro hMem
  have hWord := reservedWords_enum _ hMem (by simp)
  have hLength := congrArg (fun word => word.toList.length) hWord
  simp only [String.toList_ofList, List.length_append, List.length_map] at hLength
  have hEmpty : name.toList = [] := List.length_eq_zero_iff.mp (by simpa using hLength)
  exact h (String.toList_eq_nil_iff.mp hEmpty)

theorem isUsable_enum_iff {name : String} (hPlain : IsPlain name) :
    IsUsable (name ++ "Enum") ↔ name ≠ "" ∧ startsWithDigit name.toList = false := by
  constructor
  · intro h
    have hNonempty : name ≠ "" := by
      rintro rfl
      exact absurd h.free (by decide)
    exact ⟨hNonempty, startsWithDigit_append hNonempty "Enum" ▸ h.head⟩
  · rintro ⟨hNonempty, hHead⟩
    refine ⟨fun hEmpty => ?_, hPlain.append (by decide), ?_, isKeyword_enum hNonempty⟩
    · simpa using congrArg String.length hEmpty
    · rw [startsWithDigit_append hNonempty, hHead]

theorem IsUsable.withEnum {name : String} (h : IsUsable name) : IsUsable (withEnum name) := by
  rcases withEnum_cases name with hSame | hLonger
  · rwa [hSame]
  · rw [hLonger]
    exact (isUsable_enum_iff h.plain).mpr ⟨h.nonempty, h.head⟩

/-! ### The name that a model is offered -/

/-- If a model is offered a name, it is one that can be used. -/
def OffersUsable (hints : Hints) (m : Model) : Prop :=
  ∀ target, friendlyName? hints m = some target → IsUsable target

theorem isPlain_of_reached {hints : Hints} (hReached : hints.Reached) {entry : String × String}
    (hMem : entry ∈ hints.names) : IsPlain entry.2 := by
  obtain ⟨friendly, hFriendly⟩ := hReached.camelized hMem
  intro c hc
  rw [hFriendly, camelize, String.toList_ofList] at hc
  exact isWordChar_of_mem_camelChars hc

/-- What a model is to be called by is fit for it: a hint for the whole classname is not empty,
and neither it nor a hint for the front begins with a digit; and where `Enum` is not put at
the end, no reserved word comes out. The same is asked of a classname without the mark of a
union. -/
def Guarded (hints : Hints) (m : Model) : Prop :=
  let bare := withoutUnionFront m.classname
  match hints.get? bare with
  | some friendly =>
    friendly ≠ "" ∧ startsWithDigit friendly.toList = false ∧
      (m.isUnion = false → isKeyword friendly = false)
  | none =>
    match hints.longestFront? bare with
    | some (key, friendly) =>
      startsWithDigit friendly.toList = false ∧
        (m.isUnion = false → isKeyword (friendly ++ (dropFront? key bare).getD "") = false)
    | none => startsWithDigit bare.toList = false ∧ isKeyword bare = false

theorem withoutUnionFront_ne_empty {classname : String} (h : classname ≠ "") :
    withoutUnionFront classname ≠ "" := by
  unfold withoutUnionFront
  cases hFound : unionFronts.findSome? fun front =>
      (dropFront? front classname).filter (· ≠ "") with
  | none => exact h
  | some rest =>
      obtain ⟨front, _, hFront⟩ := List.exists_of_findSome?_eq_some hFound
      simpa using (Option.filter_eq_some_iff.mp hFront).2

theorem upperRuns_above_digits : ∀ run ∈ upperRuns, 57 < run.first := by decide +kernel

theorem isUpperOfScript_not_isDigit {c : Char} (h : isUpperOfScript c = true) : c.isDigit = false := by
  obtain ⟨run, hRun, hHolds⟩ := List.any_eq_true.mp h
  have hAbove := upperRuns_above_digits run hRun
  simp only [UpperRun.holds, Bool.and_eq_true, decide_eq_true_eq] at hHolds
  rw [← Bool.not_eq_true]
  intro hDigit
  have hRange := isDigit_iff.mp hDigit
  omega

/-- A friendly name with the further words of a classname behind it is not empty, and begins with a
digit only if the friendly name does. -/
theorem front_wordsAfter? {key classname rest : String} (h : Hints.wordsAfter? key classname = some rest)
    (friendly : String) : friendly ++ rest ≠ "" ∧
      startsWithDigit (friendly ++ rest).toList = startsWithDigit friendly.toList := by
  have hUpper := (Option.filter_eq_some_iff.mp h).2
  cases hRest : rest.toList with
  | nil => simp [hRest] at hUpper
  | cons c more =>
      have hDigit : c.isDigit = false := isUpperOfScript_not_isDigit (by simpa [hRest] using hUpper)
      constructor
      · intro hEmpty
        have hChars := congrArg String.toList hEmpty
        simp [String.toList_append, hRest] at hChars
      · by_cases hFriendly : friendly = ""
        · simp [hFriendly, startsWithDigit, hRest, hDigit]
        · exact startsWithDigit_append hFriendly rest

/-- A name to which the mark of a union is put is usable if its own parts are; any other
name must not be a reserved word either. -/
theorem isUsable_unionBack_iff {name : String} (hPlain : IsPlain name) (m : Model) :
    IsUsable (name ++ unionBack m) ↔ name ≠ "" ∧ startsWithDigit name.toList = false ∧
      (m.isUnion = false → isKeyword name = false) := by
  cases hUnion : m.isUnion with
  | true => simp [unionBack, hUnion, isUsable_enum_iff hPlain]
  | false => simp [unionBack, hUnion, isUsable_iff hPlain]

/-- The offer of a name is usable exactly when the name is guarded. -/
theorem offersUsable_iff {hints : Hints} (hHints : hints.Reached) {m : Model}
    (hOwn : IsUsable m.classname) : OffersUsable hints m ↔ Guarded hints m := by
  have hBare : IsPlain (withoutUnionFront m.classname) := allChars_withoutUnionFront hOwn.plain
  simp only [OffersUsable, friendlyName?, Guarded]
  cases hHint : hints.get? (withoutUnionFront m.classname) with
  | some friendly =>
      simpa [unionBack] using isUsable_unionBack_iff (isPlain_of_reached hHints (Table.mem_of_get? hHint)) m
  | none =>
      cases hFront : hints.longestFront? (withoutUnionFront m.classname) with
      | some best =>
          obtain ⟨hEntry, hAfter⟩ := Hints.longestFront?_spec hFront
          obtain ⟨rest, hRest⟩ := Option.isSome_iff_exists.mp hAfter
          have hDrop := (Option.filter_eq_some_iff.mp hRest).1
          have hPlain : IsPlain (best.2 ++ rest) := (isPlain_of_reached hHints hEntry).append
            (AllChars.back hBare (dropFront?_eq_some_iff.mp hDrop))
          obtain ⟨hNonempty, hHead⟩ := front_wordsAfter? hRest best.2
          have hUsable := isUsable_unionBack_iff hPlain m
          rw [hHead] at hUsable
          simpa [unionBack, hDrop, hNonempty] using hUsable
      | none =>
          by_cases hSame : withoutUnionFront m.classname = m.classname
          · simp [hSame, hOwn.head, hOwn.free]
          · simpa [hSame, withoutUnionFront_ne_empty hOwn.nonempty] using isUsable_iff hBare

/-! ### Renaming -/

section Decision

variable {hints : Hints} {taken : List String} {m : Model}
  (hTaken : ∀ name ∈ taken, IsUsable name)

include hTaken

/-- Among usable names, a model that is not renamed was offered no name or a usable one. -/
theorem offersUsable_of_not_renamed (hOwn : IsUsable m.classname)
    (h : ∀ target, decide hints taken m ≠ .rename target) : OffersUsable hints m := by
  intro target hTarget
  by_cases hSame : target = m.classname
  · exact hSame ▸ hOwn
  · by_cases hMem : target ∈ taken
    · exact hTaken target hMem
    · refine absurd ?_ (h target)
      simp [decide, hTarget, hSame, hMem]

/-- Among usable names, a model gets a usable name exactly when it is offered one: a second
try is made only for a name that is taken, and so is usable. -/
theorem offersUsable_iff_of_renamed {target : String} (h : decide hints taken m = .rename target) :
    OffersUsable hints m ↔ IsUsable target := by
  unfold decide at h
  split at h
  · cases h
  next friendly hFriendly =>
    have hOffer : OffersUsable hints m ↔ IsUsable friendly := by simp [OffersUsable, hFriendly]
    rw [hOffer]
    split_ifs at h with hSame hMem hBlocked
    · cases h
      have hUsable := hTaken friendly (by simpa using hMem)
      exact iff_of_true hUsable hUsable.withEnum
    · cases h
      rfl

end Decision

/-- Renaming models with usable classnames leaves usable ones exactly when each live model is
offered a usable name or none. Which names are taken, and in which order the models come,
does not matter. -/
theorem usable_renameModels_iff {hints : Hints} {s : RenameState} {models : List Model}
    (hTaken : ∀ name ∈ s.taken, IsUsable name)
    (hOwn : ∀ m ∈ models, m.removed = false → IsUsable m.classname) :
    (∀ name ∈ liveNames (renameModels hints s models).1, IsUsable name) ↔
      ∀ m ∈ models, m.removed = false → OffersUsable hints m := by
  induction models generalizing s with
  | nil => simp [renameModels, liveNames]
  | cons m rest ih =>
      obtain ⟨hFirst, hRest⟩ := List.forall_mem_cons.mp hOwn
      rw [List.forall_mem_cons, renameModels]
      split
      next hRemoved => simpa [liveNames, hRemoved] using ih hTaken hRest
      next hLive =>
        have hLive : m.removed = false := by simpa using hLive
        have hKept (hStays : ∀ target, decide hints s.taken m ≠ .rename target) :
            (∀ name ∈ liveNames (markBody hints m :: (renameModels hints s rest).1), IsUsable name) ↔
              (m.removed = false → OffersUsable hints m) ∧
                ∀ m ∈ rest, m.removed = false → OffersUsable hints m := by
          have hOffer := offersUsable_of_not_renamed hTaken (hFirst hLive) hStays
          rw [liveNames_cons_live (by exact hLive), List.forall_mem_cons, ih hTaken hRest]
          exact and_congr_left' (iff_of_true (hFirst hLive) fun _ => hOffer)
        split
        next target hTarget =>
          -- An unusable new name decides the matter at this model. Only behind a usable one are all
          -- names that are taken usable again.
          have hOffer := offersUsable_iff_of_renamed hTaken hTarget
          rw [liveNames_cons_live (by exact hLive), List.forall_mem_cons]
          simp only [hLive, true_implies, hOffer]
          refine and_congr_right fun hUsable => ih ?_ hRest
          intro name hName
          rcases List.mem_append.mp hName with hOld | hNew
          · exact hTaken name (List.mem_of_mem_filter hOld)
          · exact List.mem_singleton.mp hNew ▸ hUsable
        next hKeep => exact hKept (by simp [hKeep])
        next hBlocked => exact hKept (by simp [hBlocked])

end ClientTypes.CrossReference
