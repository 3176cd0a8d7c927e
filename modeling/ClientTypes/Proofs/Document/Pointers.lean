import ClientTypes.Proofs.Document.Entries
import ClientTypes.Proofs.Ensures
import ClientTypes.Proofs.Text.Piece
import ClientTypes.Proofs.Value.DistinctKeys

/-! Local references as addresses. Escaping a key and reading it again gives the key, whatever stands
in it; the path of a reference is cut where its keys were joined; so the reference to a part of a
document leads to that part. -/
namespace ClientTypes.Document

open Text

/-! ### Keys -/

/-- Tildes are escaped before slashes. -/
theorem escapeKey_eq (key : List Char) :
    escapeKey key = replaceFrom ['/'] ['~', '1'] 0 (replaceFrom ['~'] ['~', '0'] 0 key) := by
  rw [replaceFrom_singleton, replaceFrom_singleton, escapeKey]
  induction key with
  | nil => rfl
  | cons c rest ih =>
      rw [List.flatMap_cons, List.flatMap_cons, List.flatMap_append, ← ih]
      by_cases hTilde : c = '~'
      · simp [hTilde]
      · by_cases hSlash : c = '/' <;> simp [hTilde, hSlash]

/-- An escaped key has no slash that could cut a path. -/
theorem slash_notMem_escapeKey (key : List Char) : '/' ∉ escapeKey key := by
  intro hSlash
  obtain ⟨c, -, hc⟩ := List.mem_flatMap.mp hSlash
  split at hc
  · simp at hc
  · split at hc
    · simp at hc
    next hOther => exact hOther (List.mem_singleton.mp hc).symm

/-- Reading the slashes of an escaped key leaves its tildes escaped. The tilde of a slash is read with
the one that follows it, so an escaped tilde in front of a one is not taken for a slash. -/
theorem replaceFrom_escapeKey (key : List Char) :
    replaceFrom ['~', '1'] ['/'] 0 (escapeKey key) = replaceFrom ['~'] ['~', '0'] 0 key := by
  rw [replaceFrom_singleton]
  induction key with
  | nil => rfl
  | cons c rest ih =>
      rw [escapeKey, List.flatMap_cons, List.flatMap_cons, ← escapeKey, ← ih]
      by_cases hTilde : c = '~'
      · simp [hTilde, replaceFrom, after?]
      · by_cases hSlash : c = '/'
        · simp [hSlash, replaceFrom, after?]
        · simp [hTilde, hSlash, Ne.symm hTilde, replaceFrom, after?]

theorem replaceFrom_escapedTildes (key : List Char) :
    replaceFrom ['~', '0'] ['~'] 0 (replaceFrom ['~'] ['~', '0'] 0 key) = key := by
  rw [replaceFrom_singleton]
  induction key with
  | nil => rfl
  | cons c rest ih =>
      rw [List.flatMap_cons]
      by_cases hTilde : c = '~'
      · simp [hTilde, replaceFrom, after?, ih]
      · simp [hTilde, Ne.symm hTilde, replaceFrom, after?, ih]

/-- Whatever stands in a key, it is read as it was before it was escaped. -/
theorem unescapeKey_escapeKey (key : List Char) : unescapeKey (escapeKey key) = key := by
  rw [unescapeKey, replaceFrom_escapeKey, replaceFrom_escapedTildes]

/-! ### Paths -/

/-- A reference is the keys, escaped by two replacements and joined by slashes. -/
theorem referenceTo_eq (keys : List String) :
    referenceTo keys =
      "#/" ++ "/".intercalate (keys.map fun key => replace "/" "~1" (replace "~" "~0" key)) := by
  apply String.toList_inj.mp
  simp [referenceTo, escapeKey_eq, replace, Function.comp_def]

/-- The keys of a path are read as they were written. -/
theorem keysOfReference?_referenceTo {keys : List String} (hKeys : keys ≠ []) :
    keysOfReference? (referenceTo keys) = some keys := by
  have hCut : pieces '/' (['/'].intercalate (keys.map fun key => escapeKey key.toList)) =
      keys.map fun key => escapeKey key.toList := by
    refine pieces_intercalate ?_ (by simpa using hKeys)
    intro part hPart
    obtain ⟨key, -, rfl⟩ := List.mem_map.mp hPart
    exact slash_notMem_escapeKey _
  simp [keysOfReference?, referenceTo, after?, hCut, unescapeKey_escapeKey, Function.comp_def]

/-- Following keys from mapping to mapping leads from a value to a part of it. -/
inductive LeadsTo : Value → List String → Value → Prop
  | here (v : Value) : LeadsTo v [] v
  | inside {v inner target : Value} {entries : List (Scalar × Value)} {key : String}
      {rest : List String} (hMap : v.opened = .map entries) (hEntry : (.text key, inner) ∈ entries)
      (hRest : LeadsTo inner rest target) : LeadsTo v (key :: rest) target

theorem LeadsTo.lookUp? {v target : Value} {keys : List String} (hKeys : v.DistinctKeys)
    (h : LeadsTo v keys target) : lookUp? v keys = some target := by
  induction h with
  | here => rfl
  | inside hMap hEntry _ ih =>
      have hEntries := hKeys.entries hMap
      simp only [Document.lookUp?, hMap, field?_of_mem hEntries.keys hEntry, Option.bind_some]
      exact ih (hEntries.values _ hEntry)

/-! ### Following a reference to a part -/

/-- What a reference names in a document. -/
def target? (doc : Value) (reference : String) : Option Value :=
  (keysOfReference? reference).bind (lookUp? doc)

variable {doc v target : Value} {reference : String}

/-- One step on the way: a reference is followed when it is met for the first time and names something. -/
theorem followFrom_reference (hRef : part? v "$ref" = some (.text reference)) (fuel : Nat)
    (seen : List String) :
    followFrom doc (fuel + 1) seen v =
      if reference ∈ seen then .error (.danglingReference reference)
      else match target? doc reference with
        | none => .error (.danglingReference reference)
        | some target => extensionsOf (entriesOf v) >>= fun extensions =>
            followFrom doc fuel (reference :: seen) (withExtensions extensions target) := by
  have hField : field? (entriesOf v) "$ref" = some (.text reference) := hRef
  rw [followFrom, opened_of_part? hRef]
  simp only [hField, target?, List.contains_iff_mem]
  cases keysOfReference? reference with
  | none => simp
  | some keys => rfl

/-- Following that ends well ends at a value without a reference, or goes on from the target of one. -/
theorem followFrom_cases {fuel : Nat} {seen : List String} (h : followFrom doc fuel seen v = .ok target) :
    (part? v "$ref" = none ∧ v = target) ∨
      ∃ left reference found extensions, fuel = left + 1 ∧ part? v "$ref" = some (.text reference) ∧
        target? doc reference = some found ∧ extensionsOf (entriesOf v) = .ok extensions ∧
        followFrom doc left (reference :: seen) (withExtensions extensions found) = .ok target := by
  cases hPart : part? v "$ref" with
  | none =>
      rw [followFrom_inline hPart] at h
      exact Or.inl ⟨rfl, Except.ok.inj h⟩
  | some link =>
      have hField : field? (entriesOf v) "$ref" = some link := hPart
      rw [followFrom, opened_of_part? hPart] at h
      simp only [hField] at h
      split at h
      next hNone => cases hNone
      next reference hText =>
        cases hText
        split at h
        next left keys hKeys =>
          split at h
          · cases h
          · split at h
            · cases h
            next found hFound =>
              obtain ⟨extensions, hExtensions, hRest⟩ := ok_of_bind h
              have hTarget : target? doc reference = some found := by rw [target?, hKeys, Option.bind_some, hFound]
              exact Or.inr ⟨left, reference, found, extensions, rfl, rfl, hTarget, hExtensions, hRest⟩
        next => cases h
      next => cases h

theorem part?_congr {v w : Value} (h : v.opened = w.opened) (name : String) :
    part? v name = part? w name := by
  simp only [part?, entriesOf, h]

/-- Without extensions a target is taken as it is. -/
theorem opened_withExtensions_nil (target : Value) :
    (withExtensions [] target).opened = target.opened := by
  unfold withExtensions
  split
  next entries hMap =>
    rw [hMap]
    rfl
  next => rfl

theorem withExtensions_nil (h : target.opened = target) : withExtensions [] target = target := by
  unfold withExtensions
  split
  next entries hMap => exact hMap.symm.trans h
  next => rfl

/-- A mapping that holds nothing but a reference is replaced by the target. -/
theorem follow_record (hTarget : target? doc reference = some target)
    (hEnd : part? target "$ref" = none) :
    follow doc (Value.record [("$ref", .text reference)]) = .ok (withExtensions [] target) := by
  have hEntries : entriesOf (Value.record [("$ref", .text reference)]) =
      [(.text "$ref", .text reference)] := entriesOf_eq rfl
  have hRef : part? (Value.record [("$ref", .text reference)]) "$ref" = some (.text reference) := by
    rw [part?, hEntries]
    exact if_pos rfl
  have hExtensions : extensionsOf [(.text "$ref", .text reference)] = .ok [] := rfl
  rw [follow, followFrom_reference hRef, if_neg List.not_mem_nil, hTarget, hEntries]
  simp only [hExtensions, ok_bind]
  exact followFrom_inline ((part?_congr (opened_withExtensions_nil target) _).trans hEnd) _ _

/-- The reference to a part of a document leads to that part, whatever characters its keys are made
of. The part is found as it is, and a collection that stands inside itself as the collection it is. -/
theorem follow_pointer {doc part : Value} {keys : List String} (hDoc : doc.DistinctKeys)
    (hKeys : keys ≠ []) (hPath : LeadsTo doc keys part) (hEnd : part? part "$ref" = none) :
    ∃ found,
      follow doc (Value.record [("$ref", .text ("#/" ++
        "/".intercalate (keys.map fun key => replace "/" "~1" (replace "~" "~0" key))))]) = .ok found ∧
      found.opened = part.opened ∧ (part.opened = part → found = part) := by
  rw [← referenceTo_eq]
  have hTarget : target? doc (referenceTo keys) = some part := by
    rw [target?, keysOfReference?_referenceTo hKeys, Option.bind_some, hPath.lookUp? hDoc]
  exact ⟨withExtensions [] part, follow_record hTarget hEnd, opened_withExtensions_nil part,
    withExtensions_nil⟩

/-- Empty keys, slashes, and tildes in front of digits. -/
theorem follow_pointer_escapes :
    let part := Value.record [("type", .text "string")]
    let doc := Value.record [("", .record [("a/b", .record [("~1", .record [("~0/", part)])])])]
    let keys := ["", "a/b", "~1", "~0/"]
    doc.DistinctKeys ∧ LeadsTo doc keys part ∧ part? part "$ref" = none ∧
      ("#/" ++ "/".intercalate (keys.map fun key => replace "/" "~1" (replace "~" "~0" key)) =
        "#//a~1b/~01/~00~1") ∧
      follow doc (Value.record [("$ref", .text "#//a~1b/~01/~00~1")]) = .ok part := by
  intro part doc keys
  have hPart : part.DistinctKeys := .map (by simp) (by simp [Value.DistinctKeys.scalar])
  have hSingle : ∀ (key : String) (v : Value), v.DistinctKeys →
      (Value.record [(key, v)]).DistinctKeys := by
    intro key v hv
    exact .map (by simp) (by simpa using hv)
  have hDoc : doc.DistinctKeys := hSingle _ _ (hSingle _ _ (hSingle _ _ (hSingle _ _ hPart)))
  have hPath : LeadsTo doc keys part :=
    .inside rfl List.mem_cons_self (.inside rfl List.mem_cons_self (.inside rfl List.mem_cons_self
      (.inside rfl List.mem_cons_self (.here _))))
  obtain ⟨found, hFound, -, hSame⟩ := follow_pointer hDoc (by simp [keys]) hPath rfl
  have hReference : "#/" ++ "/".intercalate (keys.map fun key => replace "/" "~1" (replace "~" "~0" key)) =
      "#//a~1b/~01/~00~1" := by decide
  rw [hReference, hSame rfl] at hFound
  exact ⟨hDoc, hPath, rfl, hReference, hFound⟩

end ClientTypes.Document
