import ClientTypes.Json.Reader
import ClientTypes.Proofs.Naming.Words
import ClientTypes.Proofs.Value.DistinctKeys
import ClientTypes.Value.Display
import Mathlib.Algebra.Group.Nat.Defs

/-! Values that have a text. An integer with too many digits is not written, and nothing else stands in the
way of a text. JSON text holds no such integer, because the reader would not read it. -/
namespace ClientTypes

open Decimal

/-- The scalar is no integer with too many digits. -/
def Scalar.Writable (s : Scalar) : Prop := ∀ n, s = .int n → isWritable n = true

/-- A tree with an end in which every integer can be written. -/
inductive Value.Writable : Value → Prop
  | scalar {s : Scalar} (h : s.Writable) : Writable (.scalar s)
  | list {items : List Value} (hItems : ∀ v ∈ items, Writable v) : Writable (.list items)
  | map {entries : List (Scalar × Value)} (hKeys : ∀ e ∈ entries, e.1.Writable)
      (hValues : ∀ e ∈ entries, Writable e.2) : Writable (.map entries)

/-! ### Texts -/

theorem Scalar.Writable.literal {s : Scalar} (h : s.Writable) : ∃ text, s.literal? = some text := by
  cases s with
  | bool b => cases b <;> exact ⟨_, rfl⟩
  | int n => exact ⟨toString n, if_pos (h n rfl)⟩
  | null | float | text | date | moment => exact ⟨_, rfl⟩

theorem Scalar.Writable.display {s : Scalar} (h : s.Writable) : ∃ text, s.display? = some text := by
  cases s with
  | text | date | moment => exact ⟨_, rfl⟩
  | null | bool | int | float => exact h.literal

/-- The items of a list have texts if each of them has one. -/
theorem itemLiterals_of_forall {around : List Nat} {items : List Value}
    (h : ∀ v ∈ items, ∃ text, v.literalInside? around = some text) :
    ∃ texts, itemLiterals? around items = some texts := by
  induction items with
  | nil => exact ⟨[], rfl⟩
  | cons v rest ih =>
      obtain ⟨⟨text, hText⟩, hRest⟩ := List.forall_mem_cons.mp h
      obtain ⟨texts, hTexts⟩ := ih hRest
      exact ⟨text :: texts, by simp [itemLiterals?, hText, hTexts]⟩

theorem entryLiterals_of_forall {around : List Nat} {entries : List (Scalar × Value)}
    (hKeys : ∀ e ∈ entries, e.1.Writable)
    (hValues : ∀ e ∈ entries, ∃ text, e.2.literalInside? around = some text) :
    ∃ texts, entryLiterals? around entries = some texts := by
  induction entries with
  | nil => exact ⟨[], rfl⟩
  | cons e rest ih =>
      obtain ⟨hKey, hRestKeys⟩ := List.forall_mem_cons.mp hKeys
      obtain ⟨⟨text, hText⟩, hRestValues⟩ := List.forall_mem_cons.mp hValues
      obtain ⟨key, hKeyText⟩ := hKey.literal
      obtain ⟨texts, hTexts⟩ := ih hRestKeys hRestValues
      exact ⟨(key ++ ": " ++ text) :: texts, by simp [entryLiterals?, hKeyText, hText, hTexts]⟩

theorem Value.Writable.literalInside {v : Value} (h : v.Writable) (around : List Nat) :
    ∃ text, v.literalInside? around = some text := by
  induction h with
  | scalar hScalar => exact hScalar.literal
  | list _ ih =>
      obtain ⟨texts, hTexts⟩ := itemLiterals_of_forall ih
      exact ⟨_, by rw [literalInside?, hTexts, Option.map_some]⟩
  | map hKeys _ ih =>
      obtain ⟨texts, hTexts⟩ := entryLiterals_of_forall hKeys ih
      exact ⟨_, by rw [literalInside?, hTexts, Option.map_some]⟩

theorem Value.Writable.display {v : Value} (h : v.Writable) : ∃ text, v.display? = some text := by
  cases h with
  | scalar hScalar => exact hScalar.display
  | list hItems => exact (Value.Writable.list hItems).literalInside []
  | map hKeys hValues => exact (Value.Writable.map hKeys hValues).literalInside []

/-! ### Reading JSON text -/

namespace Json

open Naming

theorem isWritable_of_natAbs_lt {n : Int} {count : Nat} (hReach : count ≤ integerReach)
    (h : n.natAbs < 10 ^ count) : isWritable n = true := by
  have hBound : n.natAbs < 10 ^ integerReach :=
    Nat.lt_of_lt_of_le h (Nat.pow_le_pow_right (by decide) hReach)
  simp [isWritable, hBound]

/-- Digits that follow a number `n` make less than `n + 1` with as many zeros. -/
theorem foldl_digits_lt {ds : List Char} (h : ∀ c ∈ ds, c.isDigit = true) (n : Nat) :
    ds.foldl (fun n c => n * 10 + (c.toNat - 48)) n < (n + 1) * 10 ^ ds.length := by
  induction ds generalizing n with
  | nil => simp
  | cons c rest ih =>
      obtain ⟨hDigit, hRest⟩ := List.forall_mem_cons.mp h
      have hRange := isDigit_iff.mp hDigit
      have hStep : n * 10 + (c.toNat - 48) + 1 ≤ (n + 1) * 10 := by omega
      calc rest.foldl (fun n c => n * 10 + (c.toNat - 48)) (n * 10 + (c.toNat - 48))
          < (n * 10 + (c.toNat - 48) + 1) * 10 ^ rest.length := ih hRest _
        _ ≤ (n + 1) * 10 * 10 ^ rest.length := Nat.mul_le_mul_right _ hStep
        _ = (n + 1) * 10 ^ (c :: rest).length := by
          rw [List.length_cons, Nat.pow_succ, Nat.mul_assoc, Nat.mul_comm 10]

theorem digitsValue_lt {ds : List Char} (h : ∀ c ∈ ds, c.isDigit = true) : digitsValue ds < 10 ^ ds.length := by
  simpa [digitsValue] using foldl_digits_lt h 0

/-- The number that a text spells, from its parts: an integer only if it has neither a fraction nor an
exponent, and then one of few enough digits. -/
theorem writable_of_parts {negative : Bool} {whole fraction last rest : List Char} {exponent : Option Int}
    {x : Binary64} {scalar : Scalar} (hWhole : ∀ c ∈ whole, c.isDigit = true)
    (h : (if fraction = [] ∧ exponent.isNone then
      if integerReach < whole.length then none
      else some (.int (if negative then -(digitsValue whole : Int) else digitsValue whole), last)
      else some (.float x, last)) = some (scalar, rest)) : scalar.Writable := by
  split at h
  · split at h
    · cases h
    next hReach =>
      cases h
      rintro n ⟨rfl⟩
      apply isWritable_of_natAbs_lt (Nat.le_of_not_lt hReach)
      split
      · rw [Int.natAbs_neg, Int.natAbs_natCast]
        exact digitsValue_lt hWhole
      · rw [Int.natAbs_natCast]
        exact digitsValue_lt hWhole
  · cases h
    exact nofun

theorem readNumber_writable {s rest : List Char} {scalar : Scalar} (h : readNumber s = some (scalar, rest)) :
    scalar.Writable := by
  unfold readNumber at h
  split at h
  next negative body _ =>
    extract_lets whole behind size finish at h
    have hWhole : ∀ c ∈ whole, c.isDigit = true := by
      unfold whole
      split
      · simp
      · exact List.all_eq_true.mp List.all_takeWhile
    split at h
    · cases h
    · obtain ⟨⟨exponent, last⟩, _, h⟩ := Option.bind_eq_some_iff.mp h
      exact writable_of_parts hWhole h
theorem readScalar_writable {s rest : List Char} {scalar : Scalar} (h : readScalar s = some (scalar, rest)) :
    scalar.Writable := by
  unfold readScalar at h
  split at h
  · obtain ⟨⟨text, behind⟩, _, hSame⟩ := Option.map_eq_some_iff.mp h
    cases hSame
    exact nofun
  · obtain ⟨behind, _, hSame⟩ := Option.map_eq_some_iff.mp h
    cases hSame
    exact nofun
  · obtain ⟨behind, _, hSame⟩ := Option.map_eq_some_iff.mp h
    cases hSame
    exact nofun
  · obtain ⟨behind, _, hSame⟩ := Option.map_eq_some_iff.mp h
    cases hSame
    exact nofun
  · exact readNumber_writable h

/-- The entries of a mapping that can be written. -/
structure WritableEntries (entries : List (Scalar × Value)) : Prop where
  keys : ∀ e ∈ entries, e.1.Writable
  values : ∀ e ∈ entries, e.2.Writable

theorem WritableEntries.putIn {entries : List (Scalar × Value)} {key : Scalar} {v : Value}
    (h : WritableEntries entries) (hKey : key.Writable) (hv : v.Writable) :
    WritableEntries (Scalar.putIn entries key v) where
  keys e he := by
    have hMem : e.1 ∈ (Scalar.putIn entries key v).map Prod.fst := List.mem_map_of_mem he
    have hOld : ∀ k ∈ entries.map Prod.fst, k.Writable := List.forall_mem_map.mpr h.keys
    rcases Scalar.keys_putIn entries key v with hSame | ⟨_, hAdded⟩
    · exact hOld _ (hSame ▸ hMem)
    · rw [hAdded, List.mem_append, List.mem_singleton] at hMem
      rcases hMem with hIn | hNew
      · exact hOld _ hIn
      · exact hNew ▸ hKey
  values e he := by
    rcases Scalar.mem_putIn he with hIn | hNew
    · exact h.values e hIn
    · exact hNew ▸ hv

/-- What is read with some fuel can be written: a value, the items of a list behind those that were read, and
the entries of a mapping behind those that were read. -/
theorem reading_writable (fuel : Nat) :
    (∀ {s rest v}, readValue fuel s = some (v, rest) → v.Writable) ∧
    (∀ {read s rest v}, (∀ item ∈ read, item.Writable) → readItems fuel read s = some (v, rest) → v.Writable) ∧
    (∀ {read s rest v}, WritableEntries read → readEntries fuel read s = some (v, rest) → v.Writable) := by
  induction fuel with
  | zero =>
      refine ⟨?_, ?_, ?_⟩
      · simp [readValue]
      · simp [readItems]
      · simp [readEntries]
  | succ fuel ih =>
      obtain ⟨ihValue, ihItems, ihEntries⟩ := ih
      refine ⟨?_, ?_, ?_⟩
      · intro s rest v h
        unfold readValue at h
        split at h
        · cases h
        next hFuel =>
          obtain rfl := Nat.succ.inj hFuel
          split at h
          · cases h
            exact .list (by simp)
          · exact ihItems (by simp) h
        next hFuel =>
          obtain rfl := Nat.succ.inj hFuel
          split at h
          · cases h
            exact .map (by simp) (by simp)
          · exact ihEntries ⟨by simp, by simp⟩ h
        · obtain ⟨⟨scalar, behind⟩, hScalar, hSame⟩ := Option.map_eq_some_iff.mp h
          cases hSame
          exact .scalar (readScalar_writable hScalar)
      · intro read s rest v hRead h
        rw [readItems, Option.bind_eq_bind, Option.bind_eq_some_iff] at h
        obtain ⟨⟨item, behind⟩, hItem, h⟩ := h
        have hMore : ∀ w ∈ item :: read, w.Writable := List.forall_mem_cons.mpr ⟨ihValue hItem, hRead⟩
        dsimp only at h
        split at h
        · exact ihItems hMore h
        · cases h
          exact .list fun w hw => hMore w (List.mem_reverse.mp hw)
        · cases h
      · intro read s rest v hRead h
        rw [readEntries, Option.bind_eq_bind, Option.bind_eq_some_iff] at h
        obtain ⟨⟨key, behind⟩, hKey, h⟩ := h
        dsimp only at h
        split at h
        · rw [Option.bind_eq_bind, Option.bind_eq_some_iff] at h
          obtain ⟨⟨item, more⟩, hItem, h⟩ := h
          have hMore : WritableEntries (Scalar.putIn read (.text key) item) :=
            hRead.putIn nofun (ihValue hItem)
          dsimp only at h
          split at h
          · exact ihEntries hMore h
          · cases h
            exact .map hMore.keys hMore.values
          · cases h
        · cases h

/-- What is read from JSON text can be written. -/
theorem writable_of_parse? {text : String} {v : Value} (h : parse? text = some v) : v.Writable := by
  rw [parse?, Option.bind_eq_bind, Option.bind_eq_some_iff] at h
  obtain ⟨⟨w, rest⟩, hRead, h⟩ := h
  dsimp only at h
  split at h
  · cases h
    exact (reading_writable _).1 hRead
  · cases h

end Json

end ClientTypes
