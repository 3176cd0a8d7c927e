import ClientTypes.Model.Reader
import ClientTypes.Model.Writer
import ClientTypes.Proofs.Checked
import Mathlib.Data.List.Forall2
import Mathlib.Data.List.Nodup

/-! Reading records from what was written of them. A field that is written under a name of its own
is read as it was, and one that is left out is read as its default. -/
namespace ClientTypes

open Checked Decimal

/-! ### Values of the text format -/

/-- A tree that the format with quoted keys has a text for, with nothing to be put in other words:
numbers are finite, keys are texts, no key is there twice, and every collection ends. -/
inductive Value.IsJson : Value → Prop
  | null : IsJson .null
  | bool (b : Bool) : IsJson (.bool b)
  | int (n : Int) : IsJson (.int n)
  | float {x : Binary64} (hFinite : x.isSpecial = false) : IsJson (.float x)
  | text (s : String) : IsJson (.text s)
  | list {items : List Value} (hItems : ∀ v ∈ items, IsJson v) : IsJson (.list items)
  | map {entries : List (Scalar × Value)} (hTexts : ∀ e ∈ entries, ∃ s, e.1 = .text s)
      (hKeys : (entries.map Prod.fst).Nodup) (hValues : ∀ e ∈ entries, IsJson e.2) :
      IsJson (.map entries)

/-! ### What is written of a record -/

/-- The fields that are written of a record, as entries of a mapping. -/
def Form.fields (form : Form) (entries : List Entry) : List (Scalar × Value) :=
  (form.pick entries).map fun e => (.text e.key, e.value)

theorem Form.write_eq (form : Form) (entries : List Entry) :
    form.write entries = .map (form.fields entries) := by
  simp [write, Value.record, fields]

theorem Form.write_ne_null (form : Form) (entries : List Entry) : form.write entries ≠ .null := by
  rw [write_eq]
  exact Value.noConfusion

theorem Form.mem_pick {form : Form} {entries : List Entry} {e : Entry} (h : e ∈ form.pick entries) :
    e ∈ entries := by
  cases form with
  | full => exact h
  | sparse => exact (List.mem_filter.mp h).1

theorem Form.mem_pick_of_given {form : Form} {entries : List Entry} {e : Entry} (h : e ∈ entries)
    (hGiven : e.isDefault = false) : e ∈ form.pick entries := by
  cases form with
  | full => exact h
  | sparse => exact List.mem_filter.mpr ⟨h, by simp [hGiven]⟩

/-- Different names and values of the text format make a value of the text format. -/
theorem Form.isJson_write (form : Form) {entries : List Entry} (hKeys : (entries.map (·.key)).Nodup)
    (hValues : ∀ e ∈ entries, e.value.IsJson) : (form.write entries).IsJson := by
  have hPicked : ((form.pick entries).map (·.key)).Nodup := by
    cases form with
    | full => exact hKeys
    | sparse => exact hKeys.sublist (List.filter_sublist.map _)
  rw [write_eq]
  refine .map ?_ ?_ ?_
  · simp [fields]
  · have hTexts : (form.fields entries).map Prod.fst =
        ((form.pick entries).map (·.key)).map Scalar.text := by
      simp [fields, Function.comp_def]
    rw [hTexts]
    exact List.Nodup.map (fun _ _ hSame => Scalar.text.inj hSame) hPicked
  · intro field hField
    obtain ⟨e, he, rfl⟩ := List.mem_map.mp hField
    exact hValues e (mem_pick he)

/-! ### Depth -/

theorem Value.depth_lt_list {items : List Value} {v : Value} (h : v ∈ items) :
    v.depth < (Value.list items).depth := by
  have hLe : v.depth ≤ depthOfItems items := by
    induction items with
    | nil => cases h
    | cons first rest ih =>
        rw [depthOfItems]
        rcases List.mem_cons.mp h with rfl | hRest
        · exact Nat.le_max_left _ _
        · exact Nat.le_trans (ih hRest) (Nat.le_max_right _ _)
  rw [Value.depth]
  omega

theorem Value.depth_lt_map {entries : List (Scalar × Value)} {e : Scalar × Value}
    (h : e ∈ entries) : e.2.depth < (Value.map entries).depth := by
  have hLe : e.2.depth ≤ depthOfEntries entries := by
    induction entries with
    | nil => cases h
    | cons first rest ih =>
        rw [depthOfEntries]
        rcases List.mem_cons.mp h with rfl | hRest
        · exact Nat.le_max_left _ _
        · exact Nat.le_trans (ih hRest) (Nat.le_max_right _ _)
  rw [Value.depth]
  omega

/-- What is written of a record is deeper than each of its fields. -/
theorem Form.depth_lt_write {form : Form} {entries : List Entry} {e : Entry} (h : e ∈ entries)
    (hGiven : e.isDefault = false) : e.value.depth < (form.write entries).depth := by
  rw [write_eq]
  exact Value.depth_lt_map (e := (.text e.key, e.value))
    (List.mem_map.mpr ⟨e, mem_pick_of_given h hGiven, rfl⟩)

/-! ### Looking up a field -/

variable {α β : Type}

theorem recordOf_write (read : List (Scalar × Value) → Checked α) (form : Form)
    (entries : List Entry) : recordOf read (form.write entries) = read (form.fields entries) := by
  rw [Form.write_eq]
  rfl

namespace Entry

/-- The entries of a name. -/
def named (entries : List Entry) (name : String) : List Entry := entries.filter (·.key == name)

@[simp] theorem named_nil (name : String) : named [] name = [] := rfl

@[simp] theorem named_cons (e : Entry) (entries : List Entry) (name : String) :
    named (e :: entries) name =
      if e.key = name then e :: named entries name else named entries name := by
  simp [named, List.filter_cons]

end Entry

theorem field?_fields (form : Form) (entries : List Entry) (name : String) :
    field? (form.fields entries) name =
      (form.pick (Entry.named entries name)).head?.map (·.value) := by
  induction entries with
  | nil => cases form <;> rfl
  | cons e rest ih =>
      cases form <;> by_cases hKey : e.key = name <;> cases hDefault : e.isDefault <;>
        simp_all [Form.fields, Form.pick, field?]

/-- Read a field from the entries of its name. -/
def Form.readBack (form : Form) (named : List Entry) (name : String) (check : Value → Checked α)
    (missing : Checked α) : Checked α :=
  match form.pick named with
  | e :: _ => (check e.value).inside (.field name)
  | [] => missing

section Fields

variable (form : Form) (entries : List Entry) (name : String) (default : α)
  (check : Value → Checked α)

@[simp] theorem needed_fields : needed (form.fields entries) name check =
    form.readBack (Entry.named entries name) name check
      ((refuse .missing).inside (.field name)) := by
  rw [needed, field?_fields, Form.readBack]
  cases form.pick (Entry.named entries name) <;> rfl

@[simp] theorem fieldOr_fields : fieldOr (form.fields entries) name default check =
    form.readBack (Entry.named entries name) name check (.valid default) := by
  rw [fieldOr, field?_fields, Form.readBack]
  cases form.pick (Entry.named entries name) <;> rfl

/-- Nothing is read under the second name of a field when nothing is written under it. -/
@[simp] theorem eitherOr_fields {second : String} (hSecond : Entry.named entries second = []) :
    eitherOr (form.fields entries) name second default check =
      form.readBack (Entry.named entries name) name check (.valid default) := by
  have hNone : field? (form.fields entries) second = none := by
    rw [field?_fields, hSecond]
    cases form <;> rfl
  rw [eitherOr, fieldOr, hNone, field?_fields, Form.readBack]
  cases form.pick (Entry.named entries name) <;> rfl

end Fields

/-! ### Fields of each kind -/

/-- The only entry of a name is read if its value is, and if its default is read when it is left
out. -/
theorem Form.readBack_sole {form : Form} {e : Entry} {name : String} {check : Value → Checked α}
    {missing : Checked α} {a : α} (hRead : check e.value = .valid a)
    (hMissing : form = .sparse → e.isDefault = true → missing = .valid a) :
    form.readBack [e] name check missing = .valid a := by
  cases form with
  | full => simp [readBack, pick, hRead]
  | sparse =>
      cases hDefault : e.isDefault with
      | true => simp [readBack, pick, hDefault, hMissing rfl hDefault]
      | false => simp [readBack, pick, hDefault, hRead]

theorem itemsFrom_map {check : Value → Checked β} {write : α → Value} {f : α → β} {items : List α}
    (h : ∀ a ∈ items, check (write a) = .valid (f a)) (place : Nat) :
    itemsFrom check place (items.map write) = .valid (items.map f) := by
  induction items generalizing place with
  | nil => rfl
  | cons a rest ih =>
      rw [List.forall_mem_cons] at h
      rw [List.map_cons, itemsFrom, h.1, ih h.2]
      rfl

theorem optional_of_ne_null {check : Value → Checked α} {v : Value} (h : v ≠ .null) :
    optional check v = (check v).map some := by
  unfold Checked.optional
  split
  · exact absurd rfl h
  · rfl

namespace Entry

variable (key : String) (form : Form)

@[simp] theorem key_always (v : Value) : (always key v).key = key := rfl

@[simp] theorem key_flag (b : Bool) : (flag key b).key = key := rfl

@[simp] theorem key_text (default s : String) : (text key default s).key = key := rfl

@[simp] theorem key_optionalText (s : Option String) : (optionalText key s).key = key := rfl

@[simp] theorem key_list (items : List Value) : (list key items).key = key := rfl

@[simp] theorem key_texts (items : List String) : (texts key items).key = key := rfl

@[simp] theorem key_optional (v : Option Value) : (optional key v).key = key := rfl

@[simp] theorem key_container (c : Option Container) : (Container.entry c).key = "container" := rfl

@[simp] theorem key_marks (entries : List Entry) : (marks form entries).key = "meta" := rfl

end Entry

namespace Form

variable (form : Form) (key : String)

theorem readBack_always {check : Value → Checked α} {v : Value} {a : α} {missing : Checked α}
    (hRead : check v = .valid a) : form.readBack [.always key v] key check missing = .valid a :=
  readBack_sole hRead fun _ hDefault => Bool.noConfusion hDefault

@[simp] theorem readBack_needed (s : String) (missing : Checked String) :
    form.readBack [.always key (.text s)] key text missing = .valid s :=
  form.readBack_always key rfl

@[simp] theorem readBack_any (v : Value) (missing : Checked Value) :
    form.readBack [.always key v] key any missing = .valid v :=
  form.readBack_always key rfl

@[simp] theorem readBack_kind (kind : ValuesKind) (missing : Checked ValuesKind) :
    form.readBack [.always key (.text kind.word)] key (oneOf ValuesKind.choices) missing =
      .valid kind :=
  form.readBack_always key (by cases kind <;> rfl)

@[simp] theorem readBack_flag (b : Bool) :
    form.readBack [.flag key b] key flag (.valid false) = .valid b :=
  readBack_sole rfl fun _ hDefault => by
    cases b with
    | true => cases hDefault
    | false => rfl

@[simp] theorem readBack_text (default s : String) :
    form.readBack [.text key default s] key text (.valid default) = .valid s :=
  readBack_sole rfl fun _ hDefault => congrArg valid (beq_iff_eq.mp hDefault).symm

@[simp] theorem readBack_optionalText (s : Option String) :
    form.readBack [.optionalText key s] key (optional text) (.valid none) = .valid s :=
  readBack_sole (by cases s <;> rfl) fun _ hDefault =>
    congrArg valid (Option.isNone_iff_eq_none.mp hDefault).symm

@[simp] theorem readBack_container (c : Option Container) :
    form.readBack [Container.entry c] "container" (optional (oneOf Container.choices))
      (.valid none) = .valid c := by
  refine readBack_sole ?_ fun _ hDefault => ?_
  · rcases c with _ | (_ | _) <;> rfl
  · cases c with
    | none => rfl
    | some _ => cases hDefault

theorem readBack_list {check : Value → Checked β} {write : α → Value} {f : α → β} (items : List α)
    (h : ∀ a ∈ items, check (write a) = .valid (f a)) :
    form.readBack [.list key (items.map write)] key (listOf check) (.valid []) =
      .valid (items.map f) :=
  readBack_sole (itemsFrom_map h 0) fun _ hDefault => by
    cases items with
    | nil => rfl
    | cons _ _ => cases hDefault

@[simp] theorem readBack_texts (items : List String) :
    form.readBack [.texts key items] key (listOf text) (.valid []) = .valid items := by
  have hTexts : ∀ s ∈ items, text (.text s) = .valid (id s) := fun _ _ => rfl
  simpa [Entry.texts] using form.readBack_list key items hTexts

theorem readBack_optional {check : Value → Checked β} {write : α → Value} {f : α → β}
    (given : Option α) (h : ∀ a, given = some a → check (write a) = .valid (f a))
    (hRecord : ∀ a, write a ≠ .null) :
    form.readBack [.optional key (given.map write)] key (optional check) (.valid none) =
      .valid (given.map f) := by
  refine readBack_sole ?_ fun _ hDefault => ?_
  · cases given with
    | none => rfl
    | some a =>
        change optional check (write a) = _
        rw [optional_of_ne_null (hRecord a), h a rfl]
        rfl
  · cases given with
    | none => rfl
    | some _ => cases hDefault

/-- Marks are left out when all of them are, and a record of which nothing is written is the
default. -/
theorem readBack_marks {form : Form} {check : Value → Checked α} {entries : List Entry}
    {default m : α} (hRead : check (form.write entries) = .valid m)
    (hEmpty : check (.map []) = .valid default) :
    form.readBack [.marks form entries] "meta" check (.valid default) = .valid m := by
  refine readBack_sole hRead fun hSparse hDefault => ?_
  have hNone : form.fields entries = [] := by
    simpa [hSparse, fields, pick, Entry.marks] using hDefault
  rw [← hEmpty, ← hRead, write_eq, hNone]

end Form

/-! ### Values of each kind -/

namespace Entry

variable (key : String)

@[simp] theorem isJson_flag (b : Bool) : (flag key b).value.IsJson := .bool b

@[simp] theorem isJson_text (default s : String) : (text key default s).value.IsJson := .text s

@[simp] theorem isJson_needed (s : String) : (always key (.text s)).value.IsJson := .text s

@[simp] theorem isJson_optionalText (s : Option String) : (optionalText key s).value.IsJson := by
  cases s with
  | none => exact .null
  | some s => exact .text s

@[simp] theorem isJson_container (c : Option Container) : (Container.entry c).value.IsJson :=
  isJson_optionalText _ _

@[simp] theorem isJson_texts (items : List String) : (texts key items).value.IsJson :=
  .list (by simpa using fun s _ => .text s)

theorem isJson_list {write : α → Value} (items : List α) (h : ∀ a ∈ items, (write a).IsJson) :
    (list key (items.map write)).value.IsJson :=
  .list (by simpa using h)

theorem isJson_optional {write : α → Value} (given : Option α)
    (h : ∀ a, given = some a → (write a).IsJson) :
    (optional key (given.map write)).value.IsJson := by
  cases given with
  | none => exact .null
  | some a => exact h a rfl

theorem isJson_marks {form : Form} {entries : List Entry} (h : (form.write entries).IsJson) :
    (marks form entries).value.IsJson := h

end Entry

/-! ### What is left out -/

/-- Two lists of entries name the same fields, and an entry of the first counts as the default exactly
when it has the value of the other. -/
def SameDefaults (entries defaults : List Entry) : Prop :=
  List.Forall₂ (fun e d => e.key = d.key ∧ (e.isDefault = true ↔ e.value = d.value)) entries defaults

namespace Entry

variable (key : String)

@[simp] theorem isDefault_flag (b : Bool) :
    (flag key b).isDefault = true ↔ (flag key b).value = (flag key false).value := by
  cases b <;> simp [flag]

@[simp] theorem isDefault_optionalText (s : Option String) : (optionalText key s).isDefault = true ↔
    (optionalText key s).value = (optionalText key none).value := by
  cases s <;> simp [optionalText, Value.optionalText]

@[simp] theorem isDefault_list (items : List Value) : (list key items).isDefault = true ↔
    (list key items).value = (list key []).value := by
  cases items <;> simp [list]

@[simp] theorem isDefault_texts (items : List String) : (texts key items).isDefault = true ↔
    (texts key items).value = (texts key []).value := by
  cases items <;> simp [texts, list]

end Entry

end ClientTypes
