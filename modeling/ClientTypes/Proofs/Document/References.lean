import ClientTypes.Proofs.Document.Pointers
import ClientTypes.Proofs.Model.Written
import ClientTypes.Proofs.Schema.Reading
import Mathlib.Data.List.Dedup
import Mathlib.Data.List.Perm.Subperm

/-! Chains of references to shared components. No reference is followed twice, so a chain is no longer
than the number of references there are; it ends at a value that is no reference, or is refused at a
reference that has no target or was followed before. What is at the end is taken with its own plain
entries, and with the outermost of the extensions on the way. -/
namespace ClientTypes.Document

open Text

variable {doc v w target : Value} {entries : List (Scalar × Value)} {reference : String}

/-! ### The references of a document -/

mutual
/-- What stands under the key of a reference, anywhere in a value. What stands in it once more is
counted once. -/
def linksIn : Value → List Value
  | .scalar _ | .loop _ | .beyond => []
  | .knot _ v => linksIn v
  | .list items => linksInItems items
  | .map entries => linksInEntries entries
def linksInItems : List Value → List Value
  | [] => []
  | v :: rest => linksIn v ++ linksInItems rest
def linksInEntries : List (Scalar × Value) → List Value
  | [] => []
  | (k, v) :: rest => (if k = .text "$ref" then [v] else []) ++ linksIn v ++ linksInEntries rest
end

/-- The texts among links, each of them once. -/
def namesIn (links : List Value) : List String :=
  (links.filterMap fun
    | .text s => some s
    | _ => none).dedup

/-- The different references that stand in a document and in a value. -/
def referenceNames (doc v : Value) : List String := namesIn (linksIn v ++ linksIn doc)

theorem mem_namesIn {links : List Value} {s : String} : s ∈ namesIn links ↔ .text s ∈ links := by
  rw [namesIn, List.mem_dedup, List.mem_filterMap]
  constructor
  · rintro ⟨link, hLink, hText⟩
    split at hText
    · exact Option.some.inj hText ▸ hLink
    · cases hText
  · exact fun h => ⟨.text s, h, rfl⟩

mutual
theorem length_linksIn (v : Value) : (linksIn v).length = referenceCount v := by
  match v with
  | .scalar _ | .loop _ | .beyond => simp [linksIn, referenceCount]
  | .knot _ v => rw [linksIn, referenceCount, length_linksIn v]
  | .list items => rw [linksIn, referenceCount, length_linksInItems items]
  | .map entries => rw [linksIn, referenceCount, length_linksInEntries entries]
theorem length_linksInItems (items : List Value) :
    (linksInItems items).length = referenceCountOfItems items := by
  match items with
  | [] => rfl
  | v :: rest =>
      rw [linksInItems, referenceCountOfItems, List.length_append, length_linksIn v,
        length_linksInItems rest]
theorem length_linksInEntries (entries : List (Scalar × Value)) :
    (linksInEntries entries).length = referenceCountOfEntries entries := by
  match entries with
  | [] => rfl
  | (k, v) :: rest =>
      rw [linksInEntries, referenceCountOfEntries, List.length_append, List.length_append,
        length_linksIn v, length_linksInEntries rest]
      split <;> rfl
end

theorem linksIn_subset_entries {e : Scalar × Value} (h : e ∈ entries) :
    linksIn e.2 ⊆ linksInEntries entries := by
  induction entries with
  | nil => cases h
  | cons first rest ih =>
      obtain ⟨key, inner⟩ := first
      rw [linksInEntries]
      rcases List.mem_cons.mp h with rfl | hRest
      · exact fun link hLink => by simp [hLink]
      · exact fun link hLink => by simp [ih hRest hLink]

theorem mem_linksInEntries {link : Value} (h : (.text "$ref", link) ∈ entries) :
    link ∈ linksInEntries entries := by
  induction entries with
  | nil => cases h
  | cons first rest ih =>
      obtain ⟨key, inner⟩ := first
      rw [linksInEntries]
      rcases List.mem_cons.mp h with hSame | hRest
      · cases hSame
        simp
      · simp [ih hRest]

/-! ### Values of the text format -/

theorem opened_of_isJson (h : v.IsJson) : v.opened = v := by
  cases h <;> rfl

theorem isJson_record {fields : List (String × Value)} (hKeys : (fields.map Prod.fst).Nodup)
    (hValues : ∀ field ∈ fields, field.2.IsJson) : (Value.record fields).IsJson := by
  refine .map (List.forall_mem_map.mpr fun field _ => ⟨field.1, rfl⟩) ?_
    (List.forall_mem_map.mpr hValues)
  have hTexts := List.Nodup.map (fun _ _ hSame => Scalar.text.inj hSame) hKeys
  simpa [Function.comp_def] using hTexts

theorem entriesOf_of_isJson {e : Scalar × Value} (h : v.IsJson) (he : e ∈ entriesOf v) :
    (∃ s, e.1 = .text s) ∧ e.2.IsJson ∧ linksIn e.2 ⊆ linksIn v := by
  cases h with
  | map hTexts hKeys hValues => exact ⟨hTexts e he, hValues e he, linksIn_subset_entries he⟩
  | _ => cases he

theorem nodup_keys_of_isJson (h : v.IsJson) : ((entriesOf v).map Prod.fst).Nodup := by
  cases h with
  | map _ hKeys _ => exact hKeys
  | _ => exact .nil

theorem mem_linksIn_of_part? {link : Value} (h : v.IsJson) (hLink : part? v "$ref" = some link) :
    link ∈ linksIn v := by
  cases h with
  | map => exact mem_linksInEntries (mem_of_field? hLink)
  | _ => cases hLink

/-- The target of a reference is a part of the document. -/
theorem isJson_of_target? (hDoc : doc.IsJson) (h : target? doc reference = some target) :
    target.IsJson ∧ linksIn target ⊆ linksIn doc := by
  obtain ⟨keys, -, hTarget⟩ := Option.bind_eq_some_iff.mp h
  refine lookUp?_induction (P := fun w => w.IsJson ∧ linksIn w ⊆ linksIn doc) ?_
    ⟨hDoc, List.Subset.refl _⟩ hTarget
  intro v inner name ⟨hv, hLinks⟩ hInner
  obtain ⟨-, hJson, hSub⟩ := entriesOf_of_isJson hv (mem_of_field? hInner)
  exact ⟨hJson, List.Subset.trans hSub hLinks⟩

/-! ### Extensions over a target -/

variable {extensions : Table String Value}

theorem extensionsOf_of_texts (hTexts : ∀ e ∈ entries, ∃ s, e.1 = .text s) :
    ∃ extensions, extensionsOf entries = .ok extensions := by
  induction entries with
  | nil => exact ⟨[], rfl⟩
  | cons first rest ih =>
      obtain ⟨⟨key, hKey⟩, hRest⟩ := List.forall_mem_cons.mp hTexts
      obtain ⟨more, hMore⟩ := ih hRest
      obtain ⟨_, inner⟩ := first
      cases hKey
      exact ⟨_, by rw [extensionsOf, hMore]; rfl⟩

/-- Extensions are some of the entries, in their order. -/
theorem extensionsOf_sublist (h : extensionsOf entries = .ok extensions) :
    (extensions.map fun e => (Scalar.text e.1, e.2)).Sublist entries := by
  induction entries generalizing extensions with
  | nil =>
      cases h
      exact .slnil
  | cons first rest ih =>
      obtain ⟨key, inner⟩ := first
      cases key with
      | text key =>
          obtain ⟨more, hMore, rfl⟩ := ok_of_map h
          split
          · exact (ih hMore).cons_cons _
          · exact (ih hMore).cons _
      | _ => cases h

theorem get?_extensionsOf (h : extensionsOf entries = .ok extensions) (name : String) :
    extensions.get? name = if startsWith "x-" name then field? entries name else none := by
  induction entries generalizing extensions with
  | nil =>
      cases h
      simp [Table.get?, field?]
  | cons first rest ih =>
      obtain ⟨key, inner⟩ := first
      cases key with
      | text key =>
          obtain ⟨more, hMore, rfl⟩ := ok_of_map h
          have hRest := ih hMore
          by_cases hKey : key = name
          · subst hKey
            cases hPrefix : startsWith "x-" key <;> simp_all [Table.get?, field?_cons]
          · cases hPrefix : startsWith "x-" key <;> simp [Table.get?, field?_cons, hKey, hRest]
      | _ => cases h

/-- Laying extensions over entries puts each value in the place of the one under its key. -/
theorem field?_laidOver (hKeys : extensions.keys.Nodup) (entries : List (Scalar × Value))
    (name : String) :
    field? (extensions.foldl (fun acc (k, v) => Scalar.putIn acc (.text k) v) entries) name =
      (extensions.get? name).or (field? entries name) := by
  induction extensions generalizing entries with
  | nil => rfl
  | cons first rest ih =>
      obtain ⟨key, inner⟩ := first
      obtain ⟨hNew, hRest⟩ : key ∉ Table.keys rest ∧ (Table.keys rest).Nodup :=
        List.nodup_cons.mp hKeys
      rw [List.foldl_cons, ih hRest, field?_putIn, Table.get?]
      by_cases hName : key = name
      · subst hName
        simp [Table.get?_eq_none_iff.mpr hNew]
      · simp [hName, Ne.symm hName]

theorem isJson_putIn {inner : Value} (h : (Value.map entries).IsJson) (key : String)
    (hInner : inner.IsJson) : (Value.map (Scalar.putIn entries (.text key) inner)).IsJson := by
  cases h with
  | map hTexts hKeys hValues =>
      have hText : ∀ k ∈ (Scalar.putIn entries (.text key) inner).map Prod.fst, ∃ s, k = .text s := by
        intro k hk
        rcases Scalar.keys_putIn entries (.text key) inner with hSame | ⟨-, hAdded⟩
        · obtain ⟨e, he, rfl⟩ := List.mem_map.mp (hSame ▸ hk)
          exact hTexts e he
        · rcases List.mem_append.mp (hAdded ▸ hk) with hOld | hNew
          · obtain ⟨e, he, rfl⟩ := List.mem_map.mp hOld
            exact hTexts e he
          · exact ⟨key, List.mem_singleton.mp hNew⟩
      refine .map (fun e he => hText _ (List.mem_map_of_mem he)) ?_ fun e he => ?_
      · rcases Scalar.keys_putIn entries (.text key) inner with hSame | ⟨hNew, hAdded⟩
        · exact hSame ▸ hKeys
        · rw [hAdded]
          exact List.concat_eq_append ▸ hKeys.concat hNew
      · rcases Scalar.mem_putIn he with hOld | hValue
        · exact hValues e hOld
        · exact hValue ▸ hInner

theorem isJson_withExtensions (hTarget : target.IsJson) (hExtensions : ∀ e ∈ extensions, e.2.IsJson) :
    (withExtensions extensions target).IsJson := by
  unfold withExtensions
  split
  next entries hMap =>
    have hEntries : (Value.map entries).IsJson := hMap ▸ (opened_of_isJson hTarget).symm ▸ hTarget
    clear hMap
    induction extensions generalizing entries with
    | nil => exact hEntries
    | cons first rest ih =>
        rw [List.forall_mem_cons] at hExtensions
        exact ih hExtensions.2 _ (isJson_putIn hEntries _ hExtensions.1)
  next => exact hTarget

theorem withExtensions_of_ne (h : ∀ es, target.opened ≠ .map es) :
    withExtensions extensions target = target := by
  unfold withExtensions
  split
  next es hMap => exact absurd hMap (h es)
  next => rfl

/-- The entries of a target behind the extensions of a reference to it. -/
theorem part?_withExtensions (hv : v.IsJson) (hExtensions : extensionsOf (entriesOf v) = .ok extensions)
    (hMap : target.opened = .map entries) (name : String) :
    part? (withExtensions extensions target) name =
      if startsWith "x-" name then (part? v name).or (part? target name) else part? target name := by
  have hKeys : extensions.keys.Nodup := by
    have hTexts := (nodup_keys_of_isJson hv).sublist ((extensionsOf_sublist hExtensions).map Prod.fst)
    rw [List.map_map] at hTexts
    exact List.Nodup.of_map Scalar.text (by simpa [Table.keys, Function.comp_def] using hTexts)
  have hLaid : withExtensions extensions target =
      .map (extensions.foldl (fun acc (k, v) => Scalar.putIn acc (.text k) v) entries) := by
    simp only [withExtensions, hMap]
  rw [hLaid, part?_eq (by rfl), field?_laidOver hKeys, get?_extensionsOf hExtensions, ← part?_eq hMap,
    ← part?]
  split <;> simp

/-- An extension is no reference. -/
theorem part?_ref_withExtensions (hv : v.IsJson)
    (hExtensions : extensionsOf (entriesOf v) = .ok extensions) :
    part? (withExtensions extensions target) "$ref" = part? target "$ref" := by
  rcases map_or_not target with ⟨entries, hMap⟩ | hOther
  · rw [part?_withExtensions hv hExtensions hMap]
    exact if_neg (by decide)
  · rw [withExtensions_of_ne hOther]

/-! ### Chains -/

/-- References that lead on from a value, each with its target: the value names the first target, and
each target the next one. -/
inductive Chain (doc : Value) : Value → List (String × Value) → Prop
  | nil (v : Value) : Chain doc v []
  | cons {v target : Value} {reference : String} {rest : List (String × Value)}
      (hRef : part? v "$ref" = some (.text reference)) (hTarget : target? doc reference = some target)
      (hRest : Chain doc target rest) : Chain doc v ((reference, target) :: rest)

/-- The last target of a chain, or the value that it starts from. -/
def endOf (v : Value) : List (String × Value) → Value
  | [] => v
  | (_, target) :: rest => endOf target rest

/-- What a chain makes of the value at its end. Plain entries are those at the end; an extension is taken
from the first value on the way that has it. Only a mapping has entries; anything else at the end stays. -/
structure Overlaid (v : Value) (chain : List (String × Value)) (result : Value) : Prop where
  other : (∀ entries, endOf v chain ≠ .map entries) → result = endOf v chain
  mapping : (∃ entries, endOf v chain = .map entries) → (∃ laid, result = .map laid) ∧
    ∀ name, part? result name =
      if startsWith "x-" name then (v :: chain.map Prod.snd).findSome? (part? · name)
      else part? (endOf v chain) name

/-- Why a reference is not followed: it does not begin at the root of the document, a part on its path
is missing, or it was followed before. -/
inductive Refused (doc : Value) (followed : List String) (reference : String) : Prop
  | elsewhere (h : startsWith "#/" reference = false)
  | missing {keys : List String} (hKeys : keysOfReference? reference = some keys)
      (h : lookUp? doc keys = none)
  | again (h : reference ∈ followed)

/-- How following a value ends behind a chain of references: with a value that is no reference, or
with a refusal of the reference at the end. -/
inductive Ends (doc v : Value) (seen : List String) (chain : List (String × Value)) :
    Except DocumentFault Value → Prop
  | found {result : Value} (hJson : result.IsJson) (hEnd : part? result "$ref" = none)
      (hLaid : Overlaid v chain result) : Ends doc v seen chain (.ok result)
  | refused {reference : String} (hEnd : part? (endOf v chain) "$ref" = some (.text reference))
      (hCause : Refused doc (seen ++ chain.map Prod.fst) reference) :
      Ends doc v seen chain (.error (.danglingReference reference))

theorem refused_of_target? {followed : List String} (h : target? doc reference = none) :
    Refused doc followed reference := by
  unfold target? at h
  cases hKeys : keysOfReference? reference with
  | none =>
      refine .elsewhere ?_
      rw [keysOfReference?, Option.map_eq_none_iff] at hKeys
      simpa [startsWith] using hKeys
  | some keys => exact .missing hKeys (by simpa [hKeys] using h)

/-- A value that is no reference is the end of the way. -/
theorem Overlaid.nil (v : Value) : Overlaid v [] v where
  other _ := rfl
  mapping hMap := ⟨hMap, fun name => by split <;> simp [endOf]⟩

/-- The entries at the end of a chain are those behind the last target; only extensions are laid over it. -/
theorem endOf_withExtensions (hv : v.IsJson) (hExtensions : extensionsOf (entriesOf v) = .ok extensions)
    (hMap : target = .map entries) (chain : List (String × Value)) :
    ((∃ es, endOf (withExtensions extensions target) chain = .map es) ↔
        ∃ es, endOf target chain = .map es) ∧
      ∀ name, startsWith "x-" name = false →
        part? (endOf (withExtensions extensions target) chain) name = part? (endOf target chain) name := by
  cases chain with
  | nil =>
      subst hMap
      refine ⟨⟨fun _ => ⟨entries, rfl⟩, fun _ => ⟨_, rfl⟩⟩, fun name hPlain => ?_⟩
      rw [endOf, endOf, part?_withExtensions hv hExtensions rfl, hPlain]
      rfl
  | cons => exact ⟨Iff.rfl, fun _ _ => rfl⟩

/-- One more reference in front of a chain lays its extensions over everything behind it. -/
theorem Overlaid.cons {chain : List (String × Value)} {result : Value} (hv : v.IsJson)
    (hExtensions : extensionsOf (entriesOf v) = .ok extensions) (hTarget : target.IsJson)
    (hChain : Chain doc target chain) (h : Overlaid (withExtensions extensions target) chain result) :
    Overlaid v ((reference, target) :: chain) result := by
  rcases map_or_not target with ⟨entries, hOpened⟩ | hOther
  · have hMap : target = .map entries := (opened_of_isJson hTarget).symm.trans hOpened
    obtain ⟨hEndMap, hEndPlain⟩ := endOf_withExtensions hv hExtensions hMap chain
    refine ⟨fun hNone => ?_, fun hSome => ?_⟩
    · cases chain with
      | nil => exact absurd hMap (hNone entries)
      | cons => exact h.other hNone
    · obtain ⟨hLaid, hParts⟩ := h.mapping (hEndMap.mpr hSome)
      refine ⟨hLaid, fun name => ?_⟩
      rw [hParts]
      split
      next hPrefix =>
        rw [List.map_cons, List.findSome?_cons, List.findSome?_cons, List.findSome?_cons,
          part?_withExtensions hv hExtensions hOpened, if_pos hPrefix]
        cases part? v name <;> rfl
      next hPlain => exact hEndPlain name (Bool.not_eq_true _ ▸ hPlain)
  · have hStays : withExtensions extensions target = target := withExtensions_of_ne hOther
    rw [hStays] at h
    cases hChain with
    | nil => exact ⟨h.other, fun ⟨es, hMap⟩ => absurd (congrArg Value.opened hMap) (hOther es)⟩
    | cons hRef => exact absurd (opened_of_part? hRef) (hOther _)

/-! ### Following a chain -/

theorem Chain.congr {chain : List (String × Value)} (h : part? v "$ref" = part? w "$ref")
    (hChain : Chain doc v chain) : Chain doc w chain := by
  cases hChain with
  | nil => exact .nil w
  | cons hRef hTarget hRest => exact .cons (h ▸ hRef) hTarget hRest

/-- A reference that was seen, or that names nothing, is refused however far one would go on. -/
theorem followFrom_refused {seen : List String} (hRef : part? v "$ref" = some (.text reference))
    (h : reference ∈ seen ∨ target? doc reference = none) (fuel : Nat) :
    followFrom doc fuel seen v = .error (.danglingReference reference) := by
  cases fuel with
  | zero =>
      have hField : field? (entriesOf v) "$ref" = some (.text reference) := hRef
      simp only [followFrom, opened_of_part? hRef, hField]
  | succ fuel =>
      rw [followFrom_reference hRef]
      split
      · rfl
      next hNew => rw [h.resolve_left hNew]

/-- One more reference in front of what ends well or is refused. -/
theorem Ends.cons {seen : List String} {chain : List (String × Value)}
    {outcome : Except DocumentFault Value} (hv : v.IsJson)
    (hExtensions : extensionsOf (entriesOf v) = .ok extensions) (hTarget : target.IsJson)
    (hChain : Chain doc target chain)
    (h : Ends doc (withExtensions extensions target) (reference :: seen) chain outcome) :
    Ends doc v seen ((reference, target) :: chain) outcome := by
  cases h with
  | found hJson hEnd hLaid => exact .found hJson hEnd (hLaid.cons hv hExtensions hTarget hChain)
  | @refused last hEnd hCause =>
      have hSame : part? (endOf target chain) "$ref" = some (.text last) := by
        cases chain with
        | nil => exact (part?_ref_withExtensions hv hExtensions).symm.trans hEnd
        | cons => exact hEnd
      refine .refused hSame ?_
      cases hCause with
      | elsewhere h => exact .elsewhere h
      | missing hKeys h => exact .missing hKeys h
      | again h => exact .again (by simpa [or_comm, or_left_comm] using h)

/-- One step from a value of the text format leads to the target with the extensions of the value. -/
theorem followFrom_step {seen : List String} (hv : v.IsJson)
    (hRef : part? v "$ref" = some (.text reference)) (hNew : reference ∉ seen)
    (hTarget : target? doc reference = some target) (hJson : target.IsJson) :
    ∃ extensions, extensionsOf (entriesOf v) = .ok extensions ∧
      (withExtensions extensions target).IsJson ∧
      ∀ fuel, followFrom doc (fuel + 1) seen v =
        followFrom doc fuel (reference :: seen) (withExtensions extensions target) := by
  obtain ⟨extensions, hExtensions⟩ :=
    extensionsOf_of_texts fun e he => (entriesOf_of_isJson hv he).1
  refine ⟨extensions, hExtensions, isJson_withExtensions hJson fun e he => ?_, fun fuel => ?_⟩
  · have hEntry := (extensionsOf_sublist hExtensions).subset (List.mem_map_of_mem he)
    exact (entriesOf_of_isJson hv hEntry).2.1
  · rw [followFrom_reference hRef, if_neg hNew]
    simp only [hTarget, hExtensions, ok_bind]

/-- Seeing a new name leaves fewer of them. -/
theorem length_unseen_cons_lt {names seen : List String} (hName : reference ∈ names)
    (hNew : reference ∉ seen) :
    (names.filter (· ∉ reference :: seen)).length < (names.filter (· ∉ seen)).length := by
  have hSplit : names.filter (· ∉ reference :: seen) =
      (names.filter (· ∉ seen)).filter (· ≠ reference) := by
    rw [List.filter_filter]
    simp
  rw [hSplit, List.length_filter_lt_length_iff_exists]
  exact ⟨reference, List.mem_filter.mpr ⟨hName, by simpa using hNew⟩, by simp⟩

/-- Whatever was seen before, a chain of new references leads to an end, and a fuel of the number of
names that are not yet seen is enough to find it. Each step uses up one of these names. -/
theorem exists_chain (hDoc : doc.IsJson) {names : List String}
    (hLinks : ∀ link ∈ linksIn doc, ∃ s ∈ names, link = .text s) {n : Nat} {seen : List String}
    (hv : v.IsJson) (hOwn : ∀ link, part? v "$ref" = some link → ∃ s ∈ names, link = .text s)
    (hLeft : (names.filter (· ∉ seen)).length ≤ n) :
    ∃ chain outcome, Chain doc v chain ∧ (chain.map Prod.fst).Nodup ∧
      (∀ reference ∈ chain.map Prod.fst, reference ∈ names ∧ reference ∉ seen) ∧
      (∀ fuel, n ≤ fuel → followFrom doc fuel seen v = outcome) ∧ Ends doc v seen chain outcome := by
  induction n using Nat.strongRecOn generalizing v seen with
  | _ n ih =>
  cases hPart : part? v "$ref" with
  | none =>
      exact ⟨[], .ok v, .nil v, .nil, by simp, fun fuel _ => followFrom_inline hPart fuel seen,
        .found hv hPart (.nil v)⟩
  | some link =>
      obtain ⟨reference, hName, rfl⟩ := hOwn link hPart
      by_cases hStop : reference ∈ seen ∨ target? doc reference = none
      · refine ⟨[], _, .nil v, .nil, by simp, fun fuel _ => followFrom_refused hPart hStop fuel,
          .refused hPart ?_⟩
        exact hStop.elim (fun hSeen => .again (by simpa using hSeen)) refused_of_target?
      · obtain ⟨hSeen, hSome⟩ := not_or.mp hStop
        obtain ⟨target, hTarget⟩ := Option.ne_none_iff_exists'.mp hSome
        have hFewer := Nat.lt_of_lt_of_le (length_unseen_cons_lt hName hSeen) hLeft
        obtain ⟨hJson, hInside⟩ := isJson_of_target? hDoc hTarget
        obtain ⟨extensions, hExtensions, hLaid, hStep⟩ :=
          followFrom_step hv hPart hSeen hTarget hJson
        have hRefSame : part? (withExtensions extensions target) "$ref" = part? target "$ref" :=
          part?_ref_withExtensions hv hExtensions
        have hNext : ∀ link, part? (withExtensions extensions target) "$ref" = some link →
            ∃ s ∈ names, link = .text s := fun link hLink =>
          hLinks link (hInside (mem_linksIn_of_part? hJson (hRefSame.symm.trans hLink)))
        obtain ⟨chain, outcome, hChain, hNew, hNames, hRun, hEnds⟩ :=
          ih _ hFewer hLaid hNext (Nat.le_refl _)
        have hBehind : Chain doc target chain := hChain.congr hRefSame
        refine ⟨(reference, target) :: chain, outcome, .cons hPart hTarget hBehind, ?_, ?_, ?_,
          hEnds.cons hv hExtensions hJson hBehind⟩
        · exact List.nodup_cons.mpr ⟨fun h => (hNames _ h).2 List.mem_cons_self, hNew⟩
        · rw [List.map_cons, List.forall_mem_cons]
          exact ⟨⟨hName, hSeen⟩, fun r hr =>
            ⟨(hNames r hr).1, fun h => (hNames r hr).2 (List.mem_cons_of_mem _ h)⟩⟩
        · intro fuel hFuel
          obtain ⟨left, rfl⟩ : ∃ left, fuel = left + 1 := ⟨fuel - 1, by omega⟩
          exact (hStep left).trans (hRun left (by omega))

/-- Following a value ends after at most as many steps as there are different references in the document
and the value. No reference is followed twice; the chain ends at a value that is no reference,
which is given with the extensions of the chain, or at a reference that is refused. -/
theorem follow_ends (hDoc : doc.IsJson) (hv : v.IsJson)
    (hLinks : ∀ link ∈ linksIn doc, ∃ s, link = .text s)
    (hOwn : ∀ link, part? v "$ref" = some link → ∃ s, link = .text s) :
    (∀ fuel, (referenceNames doc v).length ≤ fuel → followFrom doc fuel [] v = follow doc v) ∧
      ∃ chain, Chain doc v chain ∧ (chain.map Prod.fst).Nodup ∧
        chain.length ≤ (referenceNames doc v).length ∧ Ends doc v [] chain (follow doc v) := by
  let links := (part? v "$ref").toList ++ linksIn doc
  have hTexts : ∀ link ∈ links, ∃ s ∈ namesIn links, link = .text s := by
    intro link hLink
    obtain ⟨s, rfl⟩ : ∃ s, link = .text s :=
      (List.mem_append.mp hLink).elim (fun h => hOwn link (Option.mem_toList.mp h)) (hLinks link)
    exact ⟨s, mem_namesIn.mpr hLink, rfl⟩
  have hUnseen : ((namesIn links).filter (· ∉ ([] : List String))).length ≤ (namesIn links).length :=
    List.length_filter_le _ _
  obtain ⟨chain, outcome, hChain, hNew, hNames, hRun, hEnds⟩ :=
    exists_chain hDoc (fun link hLink => hTexts link (List.mem_append_right _ hLink)) hv
      (fun link hLink => hTexts link (List.mem_append_left _ (Option.mem_toList.mpr hLink))) hUnseen
  have hFew : (namesIn links).length ≤ (referenceNames doc v).length := by
    refine (List.subperm_of_subset (List.nodup_dedup _) fun s hs => ?_).length_le
    refine mem_namesIn.mpr (List.mem_append.mpr ?_)
    exact (List.mem_append.mp (mem_namesIn.mp hs)).imp_left fun h =>
      mem_linksIn_of_part? hv (Option.mem_toList.mp h)
  have hFuel : (namesIn links).length ≤ referenceCount doc + 2 := by
    have hOne : (part? v "$ref").toList.length ≤ 1 := by cases part? v "$ref" <;> simp
    calc (namesIn links).length ≤ links.length :=
          Nat.le_trans (List.dedup_sublist _).length_le (List.length_filterMap_le _ _)
      _ = (part? v "$ref").toList.length + referenceCount doc := by
          rw [List.length_append, length_linksIn]
      _ ≤ referenceCount doc + 2 := by omega
  have hFollow : follow doc v = outcome := hRun _ hFuel
  rw [hFollow]
  refine ⟨fun fuel h => hRun fuel (Nat.le_trans hFew h), chain, hChain, hNew, ?_, hEnds⟩
  rw [← List.length_map (f := Prod.fst)]
  exact Nat.le_trans (List.subperm_of_subset hNew fun r hr => (hNames r hr).1).length_le hFew

/-- Two references: what stands beside the second is left out unless it is an extension, and of three
extensions one comes from each value on the way. -/
theorem follow_ends_twice :
    let second := Value.record [("$ref", .text "#/second"), ("note", .null), ("x-one", .int 1),
      ("x-two", .int 1)]
    let last := Value.record [("type", .text "string"), ("x-one", .int 2), ("x-three", .int 2)]
    let doc := Value.record [("first", second), ("second", last)]
    let v := Value.record [("$ref", .text "#/first"), ("x-two", .int 0)]
    doc.IsJson ∧ v.IsJson ∧ (∀ link ∈ linksIn doc, ∃ s, link = .text s) ∧
      (∀ link, part? v "$ref" = some link → ∃ s, link = .text s) ∧
      (∀ fuel, 2 ≤ fuel → followFrom doc fuel [] v = follow doc v) ∧
      (∃ chain, Chain doc v chain ∧ chain.length ≤ 2 ∧ Ends doc v [] chain (follow doc v)) ∧
      follow doc v = .ok (.record [("type", .text "string"), ("x-one", .int 1), ("x-three", .int 2),
        ("x-two", .int 0)]) := by
  intro second last doc v
  have hDoc : doc.IsJson := by
    refine isJson_record (by simp) (List.forall_mem_cons.mpr ⟨?_, List.forall_mem_singleton.mpr ?_⟩)
    · refine isJson_record (by simp) ?_
      simp [Value.IsJson.text, Value.IsJson.int, Value.IsJson.null]
    · refine isJson_record (by simp) ?_
      simp [Value.IsJson.text, Value.IsJson.int]
  have hv : v.IsJson := isJson_record (by simp) (by simp [Value.IsJson.text, Value.IsJson.int])
  have hLinks : ∀ link ∈ linksIn doc, ∃ s, link = .text s := by
    intro link hLink
    exact ⟨"#/second", List.mem_singleton.mp hLink⟩
  have hOwn : ∀ link, part? v "$ref" = some link → ∃ s, link = .text s := by
    intro link hLink
    exact ⟨"#/first", (Option.some.inj hLink).symm⟩
  obtain ⟨hFuel, chain, hChain, -, hShort, hEnds⟩ := follow_ends hDoc hv hLinks hOwn
  have hNames : (referenceNames doc v).length = 2 := by decide
  rw [hNames] at hFuel hShort
  exact ⟨hDoc, hv, hLinks, hOwn, hFuel, ⟨chain, hChain, hShort, hEnds⟩, rfl⟩

end ClientTypes.Document
