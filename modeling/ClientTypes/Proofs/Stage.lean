import ClientTypes.Stage
import ClientTypes.Proofs.Table
import Mathlib.Data.List.Induction

/-! Histories of a run. The stage and the table of friendly names are changed by three kinds of calls,
in any order and number. The first name of a placeholder wins, up to the call that closes the table;
stages are entered one by one; and a refusal changes nothing. -/
namespace ClientTypes.Progress

open Naming

/-- A call on the state of a run. -/
inductive Call where
  | enter (wanted : Stage)
  | register (placeholder friendly : String)
  | freeze

/-- The state after a call. After a refusal a caller goes on from the state that the call met. -/
def after (p : Progress) : Call → Progress
  | .enter wanted =>
    match p.enter wanted with
    | .ok next => next
    | .error _ => p
  | .register placeholder friendly => { p with hints := p.hints.register placeholder friendly }
  | .freeze => { p with hints := p.hints.freeze }

/-- The state of a new run after a history of calls. -/
def history (calls : List Call) : Progress := calls.foldl after {}

/-- The call closes the table of names: it does just that, or it enters the stage that renames models. -/
def Closes (p : Progress) (c : Call) : Prop :=
  c = .freeze ∨ (c = .enter .crossReference ∧ ∃ next, p.enter .crossReference = .ok next)

/-- One of the calls closes the table of names. -/
def HasClosed (calls : List Call) : Prop :=
  ∃ before c, before ++ [c] <+: calls ∧ Closes (history before) c

/-- The call registers a friendly name for a placeholder. Both are compared in camel case. -/
def Names (placeholder name : String) (c : Call) : Prop :=
  ∃ synthetic friendly, c = .register synthetic friendly ∧
    camelize synthetic = camelize placeholder ∧ camelize friendly = name

/-- The first call that registers a name for the placeholder comes before the table is closed, and
registers this name. -/
def FirstNamed (calls : List Call) (placeholder name : String) : Prop :=
  ∃ before c, before ++ [c] <+: calls ∧ Names placeholder name c ∧ ¬ HasClosed before ∧
    ∀ earlier ∈ before, ∀ other, ¬ Names placeholder other earlier

variable {calls : List Call} {c : Call} {p next : Progress} {wanted : Stage}

/-! ### One call -/

theorem enter_eq_ok_iff : p.enter wanted = .ok next ↔
    (wanted.rank = p.stage.rank ∨ wanted.rank = p.stage.rank + 1) ∧
      next = { stage := wanted
               hints := if Stage.crossReference.rank ≤ wanted.rank then p.hints.freeze else p.hints } := by
  unfold enter
  split
  next hLate =>
    refine ⟨nofun, fun h => ?_⟩
    omega
  next hLate =>
    split
    next hEarly =>
      refine ⟨nofun, fun h => ?_⟩
      omega
    next hEarly =>
      have hNear : wanted.rank = p.stage.rank ∨ wanted.rank = p.stage.rank + 1 := by omega
      simp only [hNear, true_and, Except.ok.injEq, eq_comm]

theorem after_enter_of_ok (h : p.enter wanted = .ok next) : p.after (.enter wanted) = next := by
  simp only [after, h]

theorem after_enter_of_error {fault : StageFault} (h : p.enter wanted = .error fault) :
    p.after (.enter wanted) = p := by
  simp only [after, h]

theorem register_of_frozen {h : Hints} (hFrozen : h.frozen = true) (placeholder friendly : String) :
    h.register placeholder friendly = h := if_pos hFrozen

@[simp] theorem frozen_register (h : Hints) (placeholder friendly : String) :
    (h.register placeholder friendly).frozen = h.frozen := by
  unfold Hints.register
  split <;> rfl

/-- Whatever is called, names are changed by registering only. -/
theorem names_after (p : Progress) (hc : ∀ placeholder friendly, c ≠ .register placeholder friendly) :
    (p.after c).hints.names = p.hints.names := by
  cases c with
  | enter wanted =>
      cases hEnter : p.enter wanted with
      | error fault => rw [after_enter_of_error hEnter]
      | ok next =>
          rw [after_enter_of_ok hEnter, (enter_eq_ok_iff.mp hEnter).2]
          dsimp only
          split <;> rfl
  | register placeholder friendly => exact absurd rfl (hc placeholder friendly)
  | freeze => rfl

/-- A closed table of names stays as it is. -/
theorem hints_after_of_frozen (hFrozen : p.hints.frozen = true) (c : Call) :
    (p.after c).hints = p.hints := by
  have hFreeze : p.hints.freeze = p.hints := by
    unfold Hints.freeze
    rw [← hFrozen]
  cases c with
  | enter wanted =>
      cases hEnter : p.enter wanted with
      | error fault => rw [after_enter_of_error hEnter]
      | ok next =>
          rw [after_enter_of_ok hEnter, (enter_eq_ok_iff.mp hEnter).2]
          dsimp only
          rw [hFreeze, ite_self]
  | register placeholder friendly => exact register_of_frozen hFrozen placeholder friendly
  | freeze => exact hFreeze

/-! ### Histories -/

theorem history_append (calls more : List Call) :
    history (calls ++ more) = more.foldl after (history calls) := List.foldl_append

@[simp] theorem history_concat (calls : List Call) (c : Call) :
    history (calls ++ [c]) = (history calls).after c := by
  rw [history_append]
  rfl

theorem hints_history_of_frozen (hFrozen : (history calls).hints.frozen = true) (more : List Call) :
    (history (calls ++ more)).hints = (history calls).hints := by
  induction more using List.reverseRecOn with
  | nil => rw [List.append_nil]
  | append_singleton more c ih =>
      rw [← List.append_assoc, history_concat, hints_after_of_frozen (by rwa [ih]), ih]

/-- Models are not renamed while the table of names is open. -/
theorem frozen_of_stage (calls : List Call)
    (hStage : Stage.crossReference.rank ≤ (history calls).stage.rank) :
    (history calls).hints.frozen = true := by
  induction calls using List.reverseRecOn with
  | nil => exact absurd hStage (by decide)
  | append_singleton calls c ih =>
      rw [history_concat] at hStage ⊢
      cases c with
      | enter wanted =>
          cases hEnter : (history calls).enter wanted with
          | error fault =>
              rw [after_enter_of_error hEnter] at hStage ⊢
              exact ih hStage
          | ok next =>
              rw [after_enter_of_ok hEnter, (enter_eq_ok_iff.mp hEnter).2] at hStage ⊢
              dsimp only at hStage ⊢
              rw [if_pos hStage]
              rfl
      | register placeholder friendly => exact (frozen_register ..).trans (ih hStage)
      | freeze => rfl

/-- What holds of the calls up to one of them holds of the last call, or of one before. -/
theorem exists_prefix_concat {P : List Call → Call → Prop} :
    (∃ before c', before ++ [c'] <+: calls ++ [c] ∧ P before c') ↔
      (∃ before c', before ++ [c'] <+: calls ∧ P before c') ∨ P calls c := by
  simp only [List.prefix_concat_iff]
  constructor
  · rintro ⟨before, c', hSame | hBefore, h⟩
    · obtain ⟨rfl, hLast⟩ := List.append_inj' hSame rfl
      cases hLast
      exact Or.inr h
    · exact Or.inl ⟨before, c', hBefore, h⟩
  · rintro (⟨before, c', hBefore, h⟩ | h)
    · exact ⟨before, c', Or.inr hBefore, h⟩
    · exact ⟨calls, c, Or.inl rfl, h⟩

theorem hasClosed_concat_iff : HasClosed (calls ++ [c]) ↔ HasClosed calls ∨ Closes (history calls) c :=
  exists_prefix_concat

theorem firstNamed_concat_iff {placeholder name : String} :
    FirstNamed (calls ++ [c]) placeholder name ↔ FirstNamed calls placeholder name ∨
      (Names placeholder name c ∧ ¬ HasClosed calls ∧
        ∀ earlier ∈ calls, ∀ other, ¬ Names placeholder other earlier) :=
  exists_prefix_concat

/-- A call leaves the table closed when it was closed before, or is closed by the call. -/
theorem frozen_after_iff (calls : List Call) (c : Call) :
    ((history calls).after c).hints.frozen = true ↔
      (history calls).hints.frozen = true ∨ Closes (history calls) c := by
  cases c with
  | freeze => simp [Closes, after, Hints.freeze]
  | register placeholder friendly => simp [Closes, after]
  | enter wanted =>
      cases hEnter : (history calls).enter wanted with
      | error fault =>
          have hOpen : ¬ Closes (history calls) (.enter wanted) := by
            rintro (hFreeze | ⟨hStage, next, hOk⟩)
            · cases hFreeze
            · cases hStage
              rw [hOk] at hEnter
              cases hEnter
          rw [after_enter_of_error hEnter]
          exact (or_iff_left hOpen).symm
      | ok next =>
          obtain ⟨hNear, hNext⟩ := enter_eq_ok_iff.mp hEnter
          rw [after_enter_of_ok hEnter, hNext]
          dsimp only
          by_cases hRenames : Stage.crossReference.rank ≤ wanted.rank
          · rw [if_pos hRenames]
            refine iff_of_true rfl ?_
            -- The stage that renames models is entered now, or it was entered before.
            rcases Nat.eq_or_lt_of_le hRenames with hNow | hPast
            · have hStage : wanted = .crossReference := by
                cases wanted <;> first | rfl | cases hNow
              exact Or.inr (Or.inr ⟨congrArg _ hStage, next, hStage ▸ hEnter⟩)
            · exact Or.inl (frozen_of_stage calls (by omega))
          · rw [if_neg hRenames]
            refine (or_iff_left ?_).symm
            rintro (hFreeze | ⟨hStage, _⟩)
            · cases hFreeze
            · cases hStage
              exact hRenames (Nat.le_refl _)

theorem frozen_history_iff (calls : List Call) :
    (history calls).hints.frozen = true ↔ HasClosed calls := by
  induction calls using List.reverseRecOn with
  | nil =>
      refine iff_of_false (by decide) ?_
      rintro ⟨before, c, hPrefix, _⟩
      simp at hPrefix
  | append_singleton calls c ih => rw [history_concat, frozen_after_iff, hasClosed_concat_iff, ih]

/-! ### Names -/

/-- As long as the table is open, a placeholder that some call names was named first by some call. -/
theorem firstNamed_of_named {placeholder other : String} (hOpen : ¬ HasClosed calls) (hc : c ∈ calls)
    (hNames : Names placeholder other c) : ∃ name, FirstNamed calls placeholder name := by
  induction calls using List.reverseRecOn generalizing c other with
  | nil => cases hc
  | append_singleton calls last ih =>
      have hBefore : ¬ HasClosed calls := fun h => hOpen (hasClosed_concat_iff.mpr (Or.inl h))
      by_cases hEarlier : ∃ c' ∈ calls, ∃ name, Names placeholder name c'
      · obtain ⟨c', hc', name, hName⟩ := hEarlier
        obtain ⟨first, hFirst⟩ := ih hBefore hc' hName
        exact ⟨first, firstNamed_concat_iff.mpr (Or.inl hFirst)⟩
      · have hLast : c = last := by
          rcases List.mem_append.mp hc with hIn | hIn
          · exact absurd ⟨c, hIn, other, hNames⟩ hEarlier
          · exact List.mem_singleton.mp hIn
        refine ⟨other, firstNamed_concat_iff.mpr (Or.inr ⟨hLast ▸ hNames, hBefore, ?_⟩)⟩
        exact fun c' hc' name hName => hEarlier ⟨c', hc', name, hName⟩

theorem FirstNamed.named {placeholder name : String} (h : FirstNamed calls placeholder name) :
    ∃ c ∈ calls, Names placeholder name c := by
  obtain ⟨before, c, hPrefix, hNames, _⟩ := h
  exact ⟨c, hPrefix.subset (by simp), hNames⟩

theorem unnamed_iff {placeholder : String} (hOpen : ¬ HasClosed calls) :
    (∀ c ∈ calls, ∀ other, ¬ Names placeholder other c) ↔
      ∀ name, ¬ FirstNamed calls placeholder name := by
  constructor
  · intro h name hFirst
    obtain ⟨c, hc, hNames⟩ := hFirst.named
    exact h c hc name hNames
  · intro h c hc other hNames
    obtain ⟨name, hFirst⟩ := firstNamed_of_named hOpen hc hNames
    exact h name hFirst

theorem names_register_iff {synthetic friendly placeholder name : String} :
    Names placeholder name (.register synthetic friendly) ↔
      camelize synthetic = camelize placeholder ∧ camelize friendly = name := by
  simp [Names]

theorem get?_register (h : Hints) (synthetic friendly placeholder : String) :
    (h.register synthetic friendly).get? placeholder =
      if h.frozen = false ∧ camelize synthetic = camelize placeholder then
        some ((h.get? placeholder).getD (camelize friendly))
      else h.get? placeholder := by
  unfold Hints.register Hints.get?
  cases hFrozen : h.frozen with
  | true => simp
  | false =>
      simp only [Bool.false_eq_true, if_false, Table.get?_putNew, true_and]
      by_cases hSame : camelize synthetic = camelize placeholder
      · simp [hSame]
      · simp [hSame, Ne.symm hSame]

/-- A call that registers nothing leaves the name of every placeholder, and names none. -/
theorem get?_after (p : Progress) (placeholder : String)
    (hc : ∀ synthetic friendly, c ≠ .register synthetic friendly) :
    (p.after c).hints.get? placeholder = p.hints.get? placeholder ∧
      ∀ name, ¬ Names placeholder name c := by
  refine ⟨by rw [Hints.get?, Hints.get?, names_after p hc], ?_⟩
  rintro name ⟨synthetic, friendly, hRegisters, _⟩
  exact hc synthetic friendly hRegisters

/-- The name that a placeholder has is the one that it was given first, and before the table was
closed. -/
theorem get?_history_iff (calls : List Call) (placeholder name : String) :
    (history calls).hints.get? placeholder = some name ↔ FirstNamed calls placeholder name := by
  induction calls using List.reverseRecOn generalizing name with
  | nil =>
      refine iff_of_false nofun fun h => ?_
      obtain ⟨c, hc, _⟩ := h.named
      cases hc
  | append_singleton calls c ih =>
      rw [history_concat, firstNamed_concat_iff, ← ih]
      have hOpen : ¬ HasClosed calls ↔ (history calls).hints.frozen = false := by
        rw [← frozen_history_iff, Bool.not_eq_true]
      cases c with
      | register synthetic friendly =>
          rw [show (history calls).after (.register synthetic friendly) =
            { history calls with hints := (history calls).hints.register synthetic friendly } from rfl,
            get?_register, names_register_iff]
          split
          next hWritten =>
            have hNone : (∀ c ∈ calls, ∀ other, ¬ Names placeholder other c) ↔
                (history calls).hints.get? placeholder = none := by
              rw [unnamed_iff (hOpen.mpr hWritten.1), Option.eq_none_iff_forall_ne_some]
              exact forall_congr' fun name => not_congr (ih name).symm
            rw [hNone, hOpen]
            cases (history calls).hints.get? placeholder with
            | none => simp [hWritten]
            | some old => simp
          next hWritten =>
            refine (or_iff_left ?_).symm
            rintro ⟨⟨hSame, _⟩, hStill, _⟩
            exact hWritten ⟨hOpen.mp hStill, hSame⟩
      | enter wanted =>
          obtain ⟨hKept, hNames⟩ := get?_after (c := .enter wanted) (history calls) placeholder nofun
          simp [hKept, hNames]
      | freeze =>
          obtain ⟨hKept, hNames⟩ := get?_after (c := .freeze) (history calls) placeholder nofun
          simp [hKept, hNames]

/-- Over all histories of a new run: a placeholder has the name that the first call for it gives it,
when that call comes before the table of names is closed, and has no name otherwise. The stage that is
entered is the one the run is in or the next one. A refusal leaves the state as it was, and a closed
table of names stays what it is. -/
theorem history_laws (calls : List Call) :
    (∀ placeholder name, (history calls).hints.get? placeholder = some name ↔
      FirstNamed calls placeholder name) ∧
    (∀ wanted next, (history calls).enter wanted = .ok next →
      history (calls ++ [.enter wanted]) = next ∧ next.stage = wanted ∧
        (wanted.rank = (history calls).stage.rank ∨ wanted.rank = (history calls).stage.rank + 1)) ∧
    (∀ wanted fault, (history calls).enter wanted = .error fault →
      history (calls ++ [.enter wanted]) = history calls) ∧
    ((history calls).hints.frozen = true →
      ∀ more, (history (calls ++ more)).hints = (history calls).hints) := by
  refine ⟨get?_history_iff calls, ?_, ?_, hints_history_of_frozen⟩
  · intro wanted next h
    obtain ⟨hNear, hNext⟩ := enter_eq_ok_iff.mp h
    exact ⟨by rw [history_concat, after_enter_of_ok h], by rw [hNext], hNear⟩
  · intro wanted fault h
    rw [history_concat, after_enter_of_error h]

/-- A stage that is refused does not close the table. What is registered after it is closed, and a
second name of a placeholder, are passed over. -/
def crowdedCalls : List Call :=
  [.register "body_1" "create_thing", .enter .crossReference, .register "body_2" "early",
   .register "Body1" "other", .freeze, .register "body_3" "late"]

theorem history_laws_crowded :
    FirstNamed crowdedCalls "body_1" "CreateThing" ∧ FirstNamed crowdedCalls "body_2" "Early" ∧
    ¬ FirstNamed crowdedCalls "body_3" "Late" ∧
    history (crowdedCalls ++ [.enter .link]) = history crowdedCalls := by
  obtain ⟨hNames, _, hRefused, _⟩ := history_laws crowdedCalls
  refine ⟨(hNames ..).mp (by decide +kernel), (hNames ..).mp (by decide +kernel), ?_, ?_⟩
  · exact fun hLate => absurd ((hNames ..).mpr hLate) (by decide +kernel)
  · exact hRefused .link (.tooEarly .link .operations) (by rfl)

end ClientTypes.Progress
