import ClientTypes.CrossReference.Renaming
import ClientTypes.Proofs.Hints.LongestFront
import ClientTypes.Proofs.Model.Types
import ClientTypes.Proofs.Naming.RepeatedRenaming
import ClientTypes.Proofs.Text.Piece

/-! Models are renamed one after another, and each decision is remembered. With
distinct classnames the remembered table pairs the old classname of every model
that changed with its new one, and a new name is never an old name that comes
later in the table. -/
namespace ClientTypes.CrossReference

open Naming Text

/-! ### The name of one model -/

theorem withoutUnionFront_back (classname : String) :
    ∃ front, classname.toList = front ++ (withoutUnionFront classname).toList := by
  unfold withoutUnionFront
  cases hFound : unionFronts.findSome? fun front =>
      (Text.dropFront? front classname).filter (· ≠ "") with
  | none => exact ⟨[], rfl⟩
  | some rest =>
      obtain ⟨front, _, hFront⟩ := List.exists_of_findSome?_eq_some hFound
      obtain ⟨hDrop, _⟩ := Option.filter_eq_some_iff.mp hFront
      exact ⟨front.toList, Text.dropFront?_eq_some_iff.mp hDrop⟩

/-! ### The characters of a new name -/

section Characters

variable {ok : Char → Prop}

theorem allChars_withoutUnionFront {classname : String} (h : AllChars ok classname) :
    AllChars ok (withoutUnionFront classname) := by
  obtain ⟨front, hSplit⟩ := withoutUnionFront_back classname
  exact h.back hSplit

/-- The mark that the name of a union gets at its end. -/
def unionBack (m : Model) : String := if m.isUnion then "Enum" else ""

theorem allChars_unionBack (hEnum : AllChars ok "Enum") (m : Model) : AllChars ok (unionBack m) := by
  unfold unionBack
  split
  · exact hEnum
  · simp [AllChars]

variable {hints : Hints} (hHints : ∀ e ∈ hints.names, AllChars ok e.2) (hEnum : AllChars ok "Enum")
  {m : Model} {target : String} (hName : AllChars ok m.classname)

include hHints hEnum hName

/-- The name that a model is offered has the characters of its classname and of the
friendly names. -/
theorem allChars_friendlyName? (hTarget : friendlyName? hints m = some target) :
    AllChars ok target := by
  have hBare := allChars_withoutUnionFront hName
  have hBack := allChars_unionBack hEnum m
  unfold friendlyName? at hTarget
  dsimp only at hTarget
  split at hTarget
  next friendly hOwn =>
    cases hTarget
    exact (hHints _ (Table.mem_of_get? hOwn)).append hBack
  next =>
    split at hTarget
    next key friendly hFront =>
      cases hTarget
      obtain ⟨hEntry, hAfter⟩ := Hints.longestFront?_spec hFront
      obtain ⟨rest, hRest⟩ := Option.isSome_iff_exists.mp hAfter
      have hDrop := (Option.filter_eq_some_iff.mp hRest).1
      rw [hDrop]
      exact ((hHints _ hEntry).append (hBare.back (Text.dropFront?_eq_some_iff.mp hDrop))).append hBack
    next =>
      split at hTarget
      · cases hTarget
        exact hBare
      · cases hTarget

end Characters

/-! ### The decision about one model -/

theorem withEnum_cases (target : String) :
    withEnum target = target ∨ withEnum target = target ++ "Enum" := by
  unfold withEnum
  split <;> simp

/-- A model is renamed to a name that is not taken: to the one it is offered, or
to that with `Enum` at its end. -/
theorem decide_eq_rename {hints : Hints} {taken : List String} {m : Model} {target : String}
    (h : decide hints taken m = .rename target) :
    target ∉ taken ∧ ∃ friendly, friendlyName? hints m = some friendly ∧
      (target = friendly ∨ target = friendly ++ "Enum") := by
  unfold decide at h
  split at h
  · cases h
  next friendly hFriendly =>
    split_ifs at h with hSame hTaken hBlocked
    · cases h
      exact ⟨by simpa using hBlocked, friendly, hFriendly, withEnum_cases friendly⟩
    · cases h
      exact ⟨by simpa using hTaken, _, hFriendly, Or.inl rfl⟩

theorem allChars_decide {ok : Char → Prop} {hints : Hints}
    (hHints : ∀ e ∈ hints.names, AllChars ok e.2) (hEnum : AllChars ok "Enum") {taken : List String}
    {m : Model} {target : String} (hName : AllChars ok m.classname)
    (h : decide hints taken m = .rename target) : AllChars ok target := by
  obtain ⟨_, friendly, hFriendly, hTarget⟩ := decide_eq_rename h
  have hChars := allChars_friendlyName? hHints hEnum hName hFriendly
  rcases hTarget with rfl | rfl
  · exact hChars
  · exact hChars.append hEnum

theorem isWord_enum : IsWord "Enum".toList := by decide

theorem isWord_of_decide {hints : Hints} (hHints : hints.Reached) {taken : List String} {m : Model}
    {target : String} (hName : IsWord m.classname.toList)
    (h : decide hints taken m = .rename target) : IsWord target.toList :=
  allChars_decide (fun _ he => hHints.isWord he) isWord_enum hName h

/-! ### The run over all models -/

/-- Renaming models in order: what each model becomes and what is known after it. -/
inductive RenameRun (hints : Hints) :
    RenameState → List Model → List Model → RenameState → Prop where
  | done (s : RenameState) : RenameRun hints s [] [] s
  | skip {s s' : RenameState} {m : Model} {rest more : List Model} (hRemoved : m.removed = true)
      (hRest : RenameRun hints s rest more s') : RenameRun hints s (m :: rest) (m :: more) s'
  | keep {s s' : RenameState} {m : Model} {rest more : List Model} (hLive : m.removed = false)
      (hRest : RenameRun hints s rest more s') :
      RenameRun hints s (m :: rest) (markBody hints m :: more) s'
  | rename {s s' : RenameState} {m : Model} {target : String} {rest more : List Model}
      (hLive : m.removed = false) (hTarget : decide hints s.taken m = .rename target)
      (hRest : RenameRun hints (s.rename m.classname target) rest more s') :
      RenameRun hints s (m :: rest) ({ markBody hints m with classname := target } :: more) s'

theorem renameModels_run (hints : Hints) (s : RenameState) (models : List Model) :
    RenameRun hints s models (renameModels hints s models).1 (renameModels hints s models).2 := by
  induction models generalizing s with
  | nil => exact .done s
  | cons m rest ih =>
      unfold renameModels
      split
      next hRemoved => exact .skip hRemoved (ih s)
      next hLive =>
        have hLive : m.removed = false := by simpa using hLive
        split
        next target hTarget => exact .rename hLive hTarget (ih _)
        next => exact .keep hLive (ih s)
        next => exact .keep hLive (ih s)

/-- A model under another classname, perhaps with the mark of a body. -/
def Relabelled (m m' : Model) : Prop :=
  m' = { m with
    classname := m'.classname
    marks := { m.marks with bodyModel := m'.marks.bodyModel } }

theorem Relabelled.name {m m' : Model} (h : Relabelled m m') : m'.name = m.name := by
  rw [h]

theorem Relabelled.typesInModel {m m' : Model} (h : Relabelled m m') :
    typesInModel m' = typesInModel m := by
  rw [h]
  rfl

theorem Relabelled.valuesInModel {m m' : Model} (h : Relabelled m m') :
    valuesInModel m' = valuesInModel m := by
  rw [h]
  rfl

variable {hints : Hints} {s s' : RenameState} {before after : List Model}

/-- What renaming does to one model: a live one is relabelled, and a removed one stays what it is. -/
structure Renamed (m m' : Model) : Prop where
  relabelled : Relabelled m m'
  stays : m.removed = true → m' = m

theorem RenameRun.renamed (hRun : RenameRun hints s before after s') :
    List.Forall₂ Renamed before after := by
  induction hRun with
  | done s => exact .nil
  | skip hRemoved hRest ih => exact .cons ⟨rfl, fun _ => rfl⟩ ih
  | keep hLive hRest ih => exact .cons ⟨rfl, by simp [hLive]⟩ ih
  | rename hLive hTarget hRest ih => exact .cons ⟨rfl, by simp [hLive]⟩ ih

theorem RenameRun.relabelled (hRun : RenameRun hints s before after s') :
    List.Forall₂ Relabelled before after :=
  hRun.renamed.imp fun _ _ h => h.relabelled

/-- What the classname and the mark do not matter for is the same after the run. -/
theorem map_eq_of_relabelled {β : Type} {f : Model → β}
    (hf : ∀ m m', Relabelled m m' → f m' = f m) (h : List.Forall₂ Relabelled before after) :
    after.map f = before.map f := by
  induction h with
  | nil => rfl
  | cons hSame hRest ih => rw [List.map_cons, List.map_cons, hf _ _ hSame, ih]

/-- Of two lists that are related item by item, every item of the second is related to one of the
first. -/
theorem exists_of_forall₂ {α β : Type} {R : α → β → Prop} {as : List α} {bs : List β}
    (h : List.Forall₂ R as bs) {b : β} (hMem : b ∈ bs) : ∃ a ∈ as, R a b := by
  induction h with
  | nil => simp at hMem
  | cons hFirst hRest ih =>
      rcases List.mem_cons.mp hMem with rfl | hLater
      · exact List.exists_mem_cons_of _ hFirst
      · exact List.exists_mem_cons_of_exists (ih hLater)

/-- What the classname and the mark do not matter for holds after the run as before. -/
theorem forall_of_relabelled {P : Model → Prop} (hP : ∀ m m', Relabelled m m' → P m → P m')
    (h : List.Forall₂ Relabelled before after) (hBefore : ∀ m ∈ before, P m) : ∀ m ∈ after, P m := by
  intro m' hMem
  obtain ⟨m, hm, hSame⟩ := exists_of_forall₂ h hMem
  exact hP m m' hSame (hBefore m hm)

/-! ### The table of a run -/

/-- The classnames of models before and after, where they differ. -/
def changedNames (before after : List Model) : Table String String :=
  ((before.map (·.classname)).zip (after.map (·.classname))).filter fun e => e.1 ≠ e.2

theorem changedNames_cons (m m' : Model) (before after : List Model) :
    changedNames (m :: before) (m' :: after) =
      if m.classname = m'.classname then changedNames before after
      else (m.classname, m'.classname) :: changedNames before after := by
  by_cases h : m.classname = m'.classname <;> simp [changedNames, h]

@[simp] theorem classname_markBody (hints : Hints) (m : Model) :
    (markBody hints m).classname = m.classname := rfl

/-- Every live model that is still to come holds its name. -/
def NamesHeld (taken : List String) (models : List Model) : Prop :=
  ∀ m ∈ models, m.removed = false → m.classname ∈ taken

theorem NamesHeld.tail {taken : List String} {m : Model} {rest : List Model}
    (h : NamesHeld taken (m :: rest)) : NamesHeld taken rest :=
  fun other hOther => h other (List.mem_cons_of_mem _ hOther)

theorem NamesHeld.rename {m : Model} {rest : List Model} {target : String}
    (h : NamesHeld s.taken (m :: rest))
    (hDistinct : m.classname ∉ rest.map (·.classname)) :
    NamesHeld (s.rename m.classname target).taken rest := by
  intro other hOther hLive
  have hHeld := h other (List.mem_cons_of_mem _ hOther) hLive
  have hDiffers : other.classname ≠ m.classname := by
    intro hSame
    exact hDistinct (List.mem_map.mpr ⟨other, hOther, hSame⟩)
  simp [RenameState.rename, hHeld, hDiffers]

theorem RenameRun.key_held (hRun : RenameRun hints s before after s') {taken : List String}
    (hHeld : NamesHeld taken before) : ∀ e ∈ changedNames before after, e.1 ∈ taken := by
  induction hRun with
  | done s => simp [changedNames]
  | skip hRemoved hRest ih =>
      rw [changedNames_cons, if_pos rfl]
      exact ih hHeld.tail
  | keep hLive hRest ih =>
      rw [changedNames_cons, classname_markBody, if_pos rfl]
      exact ih hHeld.tail
  | rename hLive hTarget hRest ih =>
      rw [changedNames_cons]
      split
      · exact ih hHeld.tail
      · rw [List.forall_mem_cons]
        exact ⟨hHeld _ (List.mem_cons_self ..) hLive, ih hHeld.tail⟩

/-- What a run does to distinct classnames: it writes down every change in order,
and no name that it gives is the old name of a model that is renamed later. -/
theorem RenameRun.renames_eq (hRun : RenameRun hints s before after s')
    (hNames : (before.map (·.classname)).Nodup) (hHeld : NamesHeld s.taken before)
    (hNew : ∀ m ∈ before, m.classname ∉ s.renames.keys) :
    s'.renames = s.renames ++ changedNames before after ∧
      (changedNames before after).Pairwise fun e later => e.2 ≠ later.1 := by
  induction hRun with
  | done s => simp [changedNames]
  | skip hRemoved hRest ih =>
      rw [changedNames_cons, if_pos rfl]
      exact ih (List.nodup_cons.mp hNames).2 hHeld.tail
        fun m hm => hNew m (List.mem_cons_of_mem _ hm)
  | keep hLive hRest ih =>
      rw [changedNames_cons, classname_markBody, if_pos rfl]
      exact ih (List.nodup_cons.mp hNames).2 hHeld.tail
        fun m hm => hNew m (List.mem_cons_of_mem _ hm)
  | @rename s s' m target rest more hLive hTarget hRest ih =>
      obtain ⟨hOther, hRestNames⟩ := List.nodup_cons.mp hNames
      obtain ⟨hFree, _⟩ := decide_eq_rename hTarget
      have hOwn : m.classname ∈ s.taken := hHeld m (List.mem_cons_self ..) hLive
      have hDiffers : m.classname ≠ target := fun hSame => hFree (hSame ▸ hOwn)
      have hWritten : (s.rename m.classname target).renames =
          s.renames ++ [(m.classname, target)] :=
        Table.put_eq_append (hNew m (List.mem_cons_self ..)) target
      have hRestNew : ∀ m' ∈ rest,
          m'.classname ∉ (s.rename m.classname target).renames.keys := by
        intro m' hm'
        have hOld := hNew m' (List.mem_cons_of_mem _ hm')
        have hOtherName : m'.classname ≠ m.classname :=
          fun hSame => hOther (List.mem_map.mpr ⟨m', hm', hSame⟩)
        rw [hWritten]
        simpa [Table.keys, hOtherName] using hOld
      obtain ⟨hTable, hPairs⟩ := ih hRestNames (hHeld.rename hOther) hRestNew
      rw [changedNames_cons, if_neg hDiffers, List.pairwise_cons]
      refine ⟨?_, ?_, hPairs⟩
      · rw [hTable, hWritten, List.append_assoc]
        rfl
      · intro later hLater hSame
        change target = later.1 at hSame
        exact hFree (hSame ▸ hRest.key_held hHeld.tail later hLater)

theorem RenameRun.isWord (hRun : RenameRun hints s before after s') (hHints : hints.Reached) :
    ∀ e ∈ changedNames before after, IsWord e.1.toList → IsWord e.2.toList := by
  induction hRun with
  | done s => simp [changedNames]
  | skip hRemoved hRest ih =>
      rw [changedNames_cons, if_pos rfl]
      exact ih
  | keep hLive hRest ih =>
      rw [changedNames_cons, classname_markBody, if_pos rfl]
      exact ih
  | rename hLive hTarget hRest ih =>
      rw [changedNames_cons]
      split
      · exact ih
      · rw [List.forall_mem_cons]
        exact ⟨fun hOld => isWord_of_decide hHints hOld hTarget, ih⟩

/-! ### Classnames that are not distinct -/

theorem get?_rename (s : RenameState) (old new name : String) :
    (s.rename old new).renames.get? name = if name = old then some new else s.renames.get? name :=
  Table.get?_put _ _ _ _

/-- An old name that is written down stays written down, perhaps with a later new name. -/
theorem RenameRun.old_stays (hRun : RenameRun hints s before after s') {name : String}
    (h : s.renames.get? name ≠ none) : s'.renames.get? name ≠ none := by
  induction hRun with
  | done s => exact h
  | skip hRemoved hRest ih => exact ih h
  | keep hLive hRest ih => exact ih h
  | rename hLive hTarget hRest ih =>
      apply ih
      rw [get?_rename]
      split
      · exact Option.some_ne_none _
      · exact h

/-- A classname that is not written down as an old one is still held. -/
theorem RenameRun.kept (hRun : RenameRun hints s before after s') :
    ∀ m ∈ before, s'.renames.get? m.classname = none → ∃ m' ∈ after, m'.classname = m.classname := by
  induction hRun with
  | done s => simp
  | skip hRemoved hRest ih =>
      rw [List.forall_mem_cons]
      exact ⟨fun _ => List.exists_mem_cons_of _ rfl,
        fun m hm hFree => List.exists_mem_cons_of_exists (ih m hm hFree)⟩
  | keep hLive hRest ih =>
      rw [List.forall_mem_cons]
      exact ⟨fun _ => List.exists_mem_cons_of _ rfl,
        fun m hm hFree => List.exists_mem_cons_of_exists (ih m hm hFree)⟩
  | rename hLive hTarget hRest ih =>
      rw [List.forall_mem_cons]
      refine ⟨fun hFree => ?_, fun m hm hFree => List.exists_mem_cons_of_exists (ih m hm hFree)⟩
      exact absurd hFree (hRest.old_stays (by simp [get?_rename]))

/-- A new name that is written down during the run is held after it. -/
theorem RenameRun.given (hRun : RenameRun hints s before after s') {old new : String}
    (h : s'.renames.get? old = some new) :
    s.renames.get? old = some new ∨ ∃ m' ∈ after, m'.classname = new := by
  induction hRun with
  | done s => exact Or.inl h
  | skip hRemoved hRest ih => exact (ih h).imp_right List.exists_mem_cons_of_exists
  | keep hLive hRest ih => exact (ih h).imp_right List.exists_mem_cons_of_exists
  | rename hLive hTarget hRest ih =>
      rcases ih h with hEarlier | hLater
      · rw [get?_rename] at hEarlier
        split at hEarlier
        · cases hEarlier
          exact Or.inr (List.exists_mem_cons_of _ rfl)
        · exact Or.inl hEarlier
      · exact Or.inr (List.exists_mem_cons_of_exists hLater)

/-- Only a model that is offered a name is renamed. -/
theorem RenameRun.offered (hRun : RenameRun hints s before after s') {old : String}
    (h : s'.renames.get? old ≠ none) :
    s.renames.get? old ≠ none ∨ ∃ m ∈ before, m.classname = old ∧ friendlyName? hints m ≠ none := by
  induction hRun with
  | done s => exact Or.inl h
  | skip hRemoved hRest ih => exact (ih h).imp_right List.exists_mem_cons_of_exists
  | keep hLive hRest ih => exact (ih h).imp_right List.exists_mem_cons_of_exists
  | rename hLive hTarget hRest ih =>
      rcases ih h with hEarlier | hLater
      · rw [get?_rename] at hEarlier
        split at hEarlier
        next hOwn =>
          obtain ⟨_, friendly, hFriendly, _⟩ := decide_eq_rename hTarget
          exact Or.inr (List.exists_mem_cons_of _ ⟨hOwn.symm, by simp [hFriendly]⟩)
        next => exact Or.inl hEarlier
      · exact Or.inr (List.exists_mem_cons_of_exists hLater)

/-- Classnames of a class of characters stay so. -/
theorem RenameRun.allChars {ok : Char → Prop} (hRun : RenameRun hints s before after s')
    (hHints : ∀ e ∈ hints.names, AllChars ok e.2) (hEnum : AllChars ok "Enum")
    (hNames : ∀ m ∈ before, AllChars ok m.classname) : ∀ m ∈ after, AllChars ok m.classname := by
  induction hRun with
  | done s => simp
  | skip hRemoved hRest ih =>
      rw [List.forall_mem_cons] at hNames ⊢
      exact ⟨hNames.1, ih hNames.2⟩
  | keep hLive hRest ih =>
      rw [List.forall_mem_cons] at hNames ⊢
      exact ⟨hNames.1, ih hNames.2⟩
  | rename hLive hTarget hRest ih =>
      rw [List.forall_mem_cons] at hNames ⊢
      exact ⟨allChars_decide hHints hEnum hNames.1 hTarget, ih hNames.2⟩

end ClientTypes.CrossReference
