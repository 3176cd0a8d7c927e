import ClientTypes.Document.Reader

/-! Looking into mappings, and rewriting them. A mapping is rewritten entry by entry, and each way of
rewriting comes with what it does to look-up and to extensions. -/
namespace ClientTypes.Document

variable {entries : List (Scalar × Value)} {name : String}

theorem ok_bind {α β : Type} (a : α) (f : α → Except DocumentFault β) :
    (Except.ok a >>= f) = f a := rfl

theorem error_bind {α β : Type} (fault : DocumentFault) (f : α → Except DocumentFault β) :
    (Except.error fault >>= f) = .error fault := rfl

theorem liftM_ok_bind {α β : Type} (a : α) (f : α → Reading β) :
    ((liftM (Except.ok a : Except DocumentFault α) : Reading α) >>= f) = f a := rfl

theorem liftM_error_bind {α β : Type} (fault : DocumentFault) (f : α → Reading β) :
    ((liftM (Except.error fault : Except DocumentFault α) : Reading α) >>= f) =
      fun _ => .error fault := rfl

/-! ### Mappings and lists behind values -/

/-- The entries of a mapping. Any other value has none. -/
def entriesOf (v : Value) : List (Scalar × Value) :=
  match v.opened with
  | .map entries => entries
  | _ => []

/-- The items of a list. Any other value has none. -/
def itemsOf (v : Value) : List Value :=
  match v.opened with
  | .list items => items
  | _ => []

/-- The value under a key of a mapping. -/
def part? (v : Value) (name : String) : Option Value := field? (entriesOf v) name

/-- Rewrite the entries of a mapping. Any other value stays. -/
def onEntries (f : List (Scalar × Value) → List (Scalar × Value)) (v : Value) : Value :=
  match v.opened with
  | .map entries => .map (f entries)
  | _ => v

/-- Rewrite the items of a list. Any other value stays. -/
def onItems (f : List Value → List Value) (v : Value) : Value :=
  match v.opened with
  | .list items => .list (f items)
  | _ => v

theorem isGiven_opened (v : Value) : v.opened.isGiven = v.isGiven := by
  fun_induction Value.opened v with
  | case1 _ v ih => rw [ih, Value.isGiven]
  | case2 v ih => rw [ih, Value.isGiven]
  | case3 => rfl

theorem entriesOf_eq {v : Value} (h : v.opened = .map entries) : entriesOf v = entries := by
  simp [entriesOf, h]

theorem part?_eq {v : Value} (h : v.opened = .map entries) : part? v name = field? entries name := by
  rw [part?, entriesOf_eq h]

theorem entriesOf_of_ne {v : Value} (h : ∀ entries, v.opened ≠ .map entries) : entriesOf v = [] := by
  unfold entriesOf
  split
  next entries hMap => exact absurd hMap (h entries)
  next => rfl

/-- Only a mapping has a part under a key. -/
theorem opened_of_part? {v inner : Value} (h : part? v name = some inner) :
    v.opened = .map (entriesOf v) := by
  unfold part? entriesOf at h
  unfold entriesOf
  split at h
  next hMap => rw [hMap]
  next => cases h

theorem onEntries_eq {v : Value} (h : v.opened = .map entries)
    (f : List (Scalar × Value) → List (Scalar × Value)) : onEntries f v = .map (f entries) := by
  simp [onEntries, h]

theorem opened_onEntries {v : Value} (h : v.opened = .map entries)
    (f : List (Scalar × Value) → List (Scalar × Value)) : (onEntries f v).opened = .map (f entries) := by
  rw [onEntries_eq h]
  rfl

/-- A value that is no mapping stays. -/
theorem onEntries_of_ne {v : Value} (h : ∀ entries, v.opened ≠ .map entries)
    (f : List (Scalar × Value) → List (Scalar × Value)) : onEntries f v = v := by
  unfold onEntries
  split
  next entries hMap => exact absurd hMap (h entries)
  next => rfl

theorem map_or_not (v : Value) :
    (∃ entries, v.opened = .map entries) ∨ ∀ entries, v.opened ≠ .map entries := by
  by_cases h : ∃ entries, v.opened = .map entries
  · exact Or.inl h
  · exact Or.inr (not_exists.mp h)

theorem list_or_not (v : Value) :
    (∃ items, v.opened = .list items) ∨ ∀ items, v.opened ≠ .list items := by
  by_cases h : ∃ items, v.opened = .list items
  · exact Or.inl h
  · exact Or.inr (not_exists.mp h)

theorem itemsOf_eq {v : Value} {items : List Value} (h : v.opened = .list items) :
    itemsOf v = items := by
  simp [itemsOf, h]

theorem onItems_eq {v : Value} {items : List Value} (h : v.opened = .list items)
    (f : List Value → List Value) : onItems f v = .list (f items) := by
  simp [onItems, h]

theorem onItems_of_ne {v : Value} (h : ∀ items, v.opened ≠ .list items)
    (f : List Value → List Value) : onItems f v = v := by
  unfold onItems
  split
  next items hList => exact absurd hList (h items)
  next => rfl

theorem joined_nil {v : Value} {items : List Value} (h : v.opened = .list items) :
    joined (.list []) v = .ok items := by
  unfold joined
  rw [h]
  rfl

/-- Only a list can stand behind a list. -/
theorem joined_nil_of_ne {v : Value} (h : ∀ items, v.opened ≠ .list items) :
    joined (.list []) v = .error .notIterable := by
  unfold joined
  rw [show (Value.list []).opened = .list [] from rfl]
  split
  · exact absurd ‹_› (h _)
  · simp_all
  · rfl

/-- What holds of a default and of every value that is given holds of either. -/
theorem forall_getD {given : Option Value} {d : Value} {P : Value → Prop} (hDefault : P d)
    (h : ∀ v ∈ given, P v) : P (given.getD d) := by
  cases given with
  | none => exact hDefault
  | some v => exact h v rfl

theorem member_eq {v : Value} (h : v.opened = .map entries) (default : Value) :
    member v name default = .ok ((field? entries name).getD default) := by
  simp [member, h]

@[simp] theorem member_map (entries : List (Scalar × Value)) (name : String) (default : Value) :
    member (.map entries) name default = .ok ((field? entries name).getD default) := rfl

/-- Only a mapping has members. -/
theorem member_of_ne {v : Value} (h : ∀ entries, v.opened ≠ .map entries) (name : String)
    (default : Value) : member v name default = .error .noMembers := by
  unfold member
  split
  next entries hMap => exact absurd hMap (h entries)
  next => rfl

theorem entriesOrNone_eq {v : Value} (h : v.opened = .map entries) :
    entriesOrNone v = .ok entries := by
  have hGiven : v.isGiven = !entries.isEmpty := by rw [← isGiven_opened, h, Value.isGiven]
  unfold entriesOrNone
  rw [hGiven, h]
  cases entries <;> rfl

theorem entriesOrNone_of_ne {v : Value} (h : ∀ entries, v.opened ≠ .map entries) :
    entriesOrNone v = if v.isGiven then .error .noMembers else .ok [] := by
  unfold entriesOrNone
  split
  · split
    · exact absurd ‹_› (h _)
    · rfl
  · rfl

@[simp] theorem entriesOrNone_map (entries : List (Scalar × Value)) :
    entriesOrNone (.map entries) = .ok entries := entriesOrNone_eq rfl

/-- What is passed from a mapping to what stands in it is passed along a path. -/
theorem lookUp?_induction {P : Value → Prop}
    (hEntry : ∀ {v inner : Value} {name : String}, P v → part? v name = some inner → P inner)
    {keys : List String} {v target : Value} (hv : P v) (h : lookUp? v keys = some target) : P target := by
  induction keys generalizing v with
  | nil => exact Option.some.inj h ▸ hv
  | cons key rest ih =>
      unfold lookUp? at h
      split at h
      next entries hMap =>
        obtain ⟨inner, hInner, hRest⟩ := Option.bind_eq_some_iff.mp h
        exact ih (hEntry hv ((part?_eq hMap).trans hInner)) hRest
      next => cases h

/-- A value without a reference is where following ends. -/
theorem followFrom_inline {doc v : Value} (h : part? v "$ref" = none) (fuel : Nat)
    (seen : List String) : followFrom doc fuel seen v = .ok v := by
  unfold part? entriesOf at h
  unfold followFrom
  split
  next entries hMap =>
    rw [hMap] at h
    simp only at h
    rw [h]
  next => rfl

/-- A value without a reference is not followed. -/
theorem follow_inline {doc v : Value} (h : part? v "$ref" = none) : follow doc v = .ok v :=
  followFrom_inline h _ _

/-! ### Rewriting entries -/

/-- Give an entry another key, and rewrite its value. -/
def rekey (old new : String) (f : Value → Value) (entries : List (Scalar × Value)) :
    List (Scalar × Value) :=
  entries.map fun e => if e.1 = .text old then (.text new, f e.2) else e

/-- Rewrite every value, and keep the keys. -/
def mapValues (f : Value → Value) (entries : List (Scalar × Value)) : List (Scalar × Value) :=
  entries.map fun e => (e.1, f e.2)

theorem field?_cons (key : Scalar) (v : Value) (rest : List (Scalar × Value)) (name : String) :
    field? ((key, v) :: rest) name = if key = .text name then some v else field? rest name := rfl

theorem mem_of_field? {v : Value} (h : field? entries name = some v) : (.text name, v) ∈ entries := by
  induction entries with
  | nil => cases h
  | cons e rest ih =>
      obtain ⟨key, w⟩ := e
      rw [field?_cons] at h
      split at h
      next hKey =>
        obtain rfl := Option.some.inj h
        exact hKey ▸ List.mem_cons_self
      next => exact List.mem_cons_of_mem _ (ih h)

/-- When no key is there twice, the entry of a key is the one that is found. -/
theorem field?_of_mem (hKeys : (entries.map Prod.fst).Nodup) {v : Value}
    (h : (.text name, v) ∈ entries) : field? entries name = some v := by
  induction entries with
  | nil => cases h
  | cons e rest ih =>
      obtain ⟨hNew, hRest⟩ := List.nodup_cons.mp hKeys
      rw [field?_cons]
      rcases List.mem_cons.mp h with rfl | hLater
      · exact if_pos rfl
      · have hOther : e.1 ≠ .text name := by
          intro hSame
          exact hNew (hSame ▸ List.mem_map_of_mem (f := Prod.fst) hLater)
        rw [if_neg hOther, ih hRest hLater]

theorem field?_append (entries more : List (Scalar × Value)) (name : String) :
    field? (entries ++ more) name = (field? entries name).or (field? more name) := by
  induction entries with
  | nil => rfl
  | cons e rest ih =>
      rw [List.cons_append, field?_cons, field?_cons, ih]
      split <;> rfl

/-- Filtering leaves a field whose entries all stay. -/
theorem field?_filter {p : Scalar × Value → Bool} (h : ∀ v, p (.text name, v) = true) :
    field? (entries.filter p) name = field? entries name := by
  induction entries with
  | nil => rfl
  | cons e rest ih =>
      obtain ⟨key, v⟩ := e
      rw [List.filter_cons, field?_cons]
      by_cases hKey : key = .text name
      · subst hKey
        simp [h, field?_cons]
      · split <;> simp [field?_cons, hKey, ih]

theorem field?_filter_out {p : Scalar × Value → Bool} (h : ∀ v, p (.text name, v) = false) :
    field? (entries.filter p) name = none := by
  induction entries with
  | nil => rfl
  | cons e rest ih =>
      obtain ⟨key, v⟩ := e
      rw [List.filter_cons]
      split
      next hKept =>
        have hKey : key ≠ .text name := by
          rintro rfl
          simp [h] at hKept
        simp [field?_cons, hKey, ih]
      next => exact ih

/-- A key that is missing stays so when every key is kept. -/
theorem field?_map_eq_none {g : Scalar × Value → Scalar × Value} (hKeys : ∀ e, (g e).1 = e.1)
    (h : field? entries name = none) : field? (entries.map g) name = none := by
  induction entries with
  | nil => rfl
  | cons e rest ih =>
      obtain ⟨key, v⟩ := e
      rw [field?_cons] at h
      split at h
      · cases h
      · have hKey : (g (key, v)).1 ≠ .text name := by
          rw [hKeys]
          assumption
        change field? (((g (key, v)).1, (g (key, v)).2) :: rest.map g) name = none
        rw [field?_cons, if_neg hKey, ih h]

/-- A text is no other key than itself. -/
theorem sameKey_text {k : Scalar} {name : String} :
    k.sameKey (.text name) = true ↔ k = .text name := by
  unfold Scalar.sameKey
  cases k.asInt? <;> cases k.instant? <;> simp [Scalar.asInt?, Scalar.instant?]

theorem field?_putIn (entries : List (Scalar × Value)) (key : String) (v : Value) (name : String) :
    field? (Scalar.putIn entries (.text key) v) name =
      if name = key then some v else field? entries name := by
  induction entries with
  | nil => simp [Scalar.putIn, field?, eq_comm]
  | cons e rest ih =>
      obtain ⟨k, w⟩ := e
      simp only [Scalar.putIn, sameKey_text]
      by_cases hKey : k = .text key
      · by_cases hName : name = key
        · simp [hKey, hName, field?_cons]
        · simp [hKey, hName, Ne.symm hName, field?_cons]
      · rw [if_neg hKey, field?_cons, field?_cons, ih]
        by_cases hName : name = key
        · simp [hKey, hName]
        · simp [hName]

variable {old new : String} {f : Value → Value}

theorem field?_rekey_of_ne (hOld : name ≠ old) (hNew : name ≠ new) :
    field? (rekey old new f entries) name = field? entries name := by
  induction entries with
  | nil => rfl
  | cons e rest ih =>
      obtain ⟨key, v⟩ := e
      change field? ((if key = .text old then _ else _) :: rekey old new f rest) name = _
      by_cases hKey : key = .text old
      · simp [hKey, field?_cons, ih, hOld.symm, hNew.symm]
      · simp [hKey, field?_cons, ih]

/-- A key that is new gets what the old one had. -/
theorem field?_rekey_new (hNew : old = new ∨ field? entries new = none) :
    field? (rekey old new f entries) new = (field? entries old).map f := by
  induction entries with
  | nil => rfl
  | cons e rest ih =>
      obtain ⟨key, v⟩ := e
      change field? ((if key = .text old then _ else _) :: rekey old new f rest) new = _
      by_cases hKey : key = .text old
      · simp [hKey, field?_cons]
      · have hOther : key ≠ .text new ∧ (old = new ∨ field? rest new = none) := by
          rcases hNew with rfl | hNone
          · exact ⟨hKey, Or.inl rfl⟩
          · rw [field?_cons] at hNone
            split at hNone
            · cases hNone
            · exact ⟨‹_›, Or.inr hNone⟩
        simp [hKey, field?_cons, ih hOther.2, hOther.1]

theorem field?_rekey_old (h : old ≠ new) : field? (rekey old new f entries) old = none := by
  induction entries with
  | nil => rfl
  | cons e rest ih =>
      obtain ⟨key, v⟩ := e
      change field? ((if key = .text old then _ else _) :: rekey old new f rest) old = _
      by_cases hKey : key = .text old
      · simp [hKey, field?_cons, ih, h.symm]
      · simp [hKey, field?_cons, ih]

/-! ### Extensions -/

open Text

theorem extensionsOf_cons_plain {v : Value} {rest : List (Scalar × Value)}
    (h : startsWith "x-" name = false) :
    extensionsOf ((.text name, v) :: rest) = extensionsOf rest := by
  rw [extensionsOf]
  cases extensionsOf rest <;> simp [Except.map, h]

/-- Extensions stay when no key of one is rewritten. -/
theorem extensionsOf_rekey (hOld : startsWith "x-" old = false) (hNew : startsWith "x-" new = false) :
    extensionsOf (rekey old new f entries) = extensionsOf entries := by
  induction entries with
  | nil => rfl
  | cons e rest ih =>
      obtain ⟨key, v⟩ := e
      change extensionsOf ((if key = .text old then _ else _) :: rekey old new f rest) = _
      by_cases hKey : key = .text old
      · simp [hKey, extensionsOf, ih, hOld, hNew]
      · rw [if_neg hKey]
        cases key with
        | text k => rw [extensionsOf, extensionsOf, ih]
        | _ => rfl

/-- Extensions stay when entries are dropped that have a plain key. -/
theorem extensionsOf_filter {p : Scalar × Value → Bool}
    (h : ∀ e, p e = false → ∃ key, e.1 = .text key ∧ startsWith "x-" key = false) :
    extensionsOf (entries.filter p) = extensionsOf entries := by
  induction entries with
  | nil => rfl
  | cons e rest ih =>
      obtain ⟨key, v⟩ := e
      cases hp : p (key, v) with
      | true =>
          rw [List.filter_cons, if_pos hp]
          cases key with
          | text k => rw [extensionsOf, extensionsOf, ih]
          | _ => rfl
      | false =>
          obtain ⟨k, hKey, hPlain⟩ := h _ hp
          simp only at hKey
          rw [List.filter_cons, hp, hKey, extensionsOf_cons_plain hPlain]
          exact ih

theorem extensionsOf_append_plain (v : Value) (h : startsWith "x-" name = false) :
    extensionsOf (entries ++ [(.text name, v)]) = extensionsOf entries := by
  induction entries with
  | nil => exact extensionsOf_cons_plain h
  | cons e rest ih =>
      obtain ⟨key, w⟩ := e
      cases key with
      | text k => rw [List.cons_append, extensionsOf, extensionsOf, ih]
      | _ => rfl

end ClientTypes.Document
