import ClientTypes.CrossReference.Renaming
import ClientTypes.Proofs.Naming.Identifier
import ClientTypes.Proofs.Table

/-! Renaming a type expression more than once. When every new name is ranked
below its old one, a second pass changes the expression exactly when the first
left an identifier that is renamed, and no number of further passes brings the
expression back. -/
namespace ClientTypes.Naming

open CrossReference (iterate)

variable {renames : Table String String}

theorem mem_identifiers {expression name : String} :
    name ∈ identifiers expression ↔ .identifier name.toList ∈ tokens expression := by
  simp only [identifiers, List.mem_filterMap]
  constructor
  · rintro ⟨t, hMem, hName⟩
    cases t with
    | mark c => cases hName
    | identifier chars =>
        cases hName
        rwa [String.toList_ofList]
  · intro hMem
    exact ⟨_, hMem, by simp⟩

theorem isIdentifier_of_mem {expression name : String} (h : name ∈ identifiers expression) :
    IsIdentifier name.toList :=
  (separated_tokensFrom _).isIdentifier (mem_identifiers.mp h)

/-- No identifier of the expression is renamed. -/
def Settled (renames : Table String String) (expression : String) : Prop :=
  ∀ name ∈ identifiers expression, renames.get? name = none

theorem renameIdentifiers_of_settled {expression : String} (h : Settled renames expression) :
    renameIdentifiers renames expression = expression := by
  have hTokens : (tokens expression).flatMap (·.rename renames) =
      (tokens expression).flatMap Token.text := by
    apply List.flatMap_congr
    intro t hMem
    cases t with
    | mark c => rfl
    | identifier name =>
        have hName : String.ofList name ∈ identifiers expression := by
          rw [mem_identifiers, String.toList_ofList]
          exact hMem
        exact Token.rename_unknown (h _ hName)
  rw [renameIdentifiers, hTokens, tokens_text, String.ofList_toList]

theorem renameIdentifiers_nil (expression : String) : renameIdentifiers [] expression = expression :=
  renameIdentifiers_of_settled fun _ _ => rfl

/-- The identifiers after renaming are those of the new names. -/
theorem mem_identifiers_renameIdentifiers (hWords : ToWords renames) {expression name : String} :
    name ∈ identifiers (renameIdentifiers renames expression) ↔
      ∃ old ∈ identifiers expression, name ∈ identifiers ((renames.get? old).getD old) := by
  rw [mem_identifiers, tokens_renameIdentifiers hWords, List.mem_flatMap]
  constructor
  · rintro ⟨t, hMem, hName⟩
    cases t with
    | mark c =>
        have hStart := (separated_tokensFrom expression.toList).starts_mark hMem
        simp [tokensFrom_mark hStart, tokensFrom] at hName
    | identifier old =>
        refine ⟨String.ofList old, by rwa [mem_identifiers, String.toList_ofList], ?_⟩
        rw [mem_identifiers]
        exact hName
  · rintro ⟨old, hOld, hName⟩
    refine ⟨_, mem_identifiers.mp hOld, ?_⟩
    rw [mem_identifiers] at hName
    simpa [Token.rename, tokens] using hName

theorem identifiers_of_isIdentifier {name : String} (h : IsIdentifier name.toList) :
    identifiers name = [name] := by
  simp [identifiers, tokens, tokensFrom_identifier_alone h]

/-- An identifier is renamed as a whole. -/
theorem renameIdentifiers_of_isIdentifier {name : String} (h : IsIdentifier name.toList) :
    renameIdentifiers renames name = (renames.get? name).getD name := by
  simp [renameIdentifiers, tokens, tokensFrom_identifier_alone h, Token.rename]

/-- One pass settles an expression when the new names of its identifiers hold no
identifier that is renamed. -/
theorem settled_renameIdentifiers_iff (hWords : ToWords renames) {expression : String} :
    Settled renames (renameIdentifiers renames expression) ↔
      ∀ old ∈ identifiers expression, ∀ new, renames.get? old = some new →
        Settled renames new := by
  constructor
  · intro h old hOld new hNew name hName
    apply h
    rw [mem_identifiers_renameIdentifiers hWords]
    exact ⟨old, hOld, by simpa [hNew] using hName⟩
  · intro h name hName
    obtain ⟨old, hOld, hMem⟩ := (mem_identifiers_renameIdentifiers hWords).mp hName
    cases hGet : renames.get? old with
    | some new => exact h old hOld new hGet name (by simpa [hGet] using hMem)
    | none =>
        rw [hGet, Option.getD_none, identifiers_of_isIdentifier (isIdentifier_of_mem hOld),
          List.mem_singleton] at hMem
        rw [hMem, hGet]

/-! ### Passes that change something never come back -/

/-- New names that are renamed again are ranked lower. -/
def Descends (renames : Table String String) (rank : String → Nat) : Prop :=
  ∀ old new, renames.get? old = some new → renames.get? new ≠ none → rank new < rank old

/-- Names that are written in an order in which no new name is an old name at the
same place or later are ranked by their places. -/
theorem descends_of_pairwise {t : Table String String}
    (hLater : t.Pairwise fun e later => e.2 ≠ later.1) (hOwn : ∀ e ∈ t, e.1 ≠ e.2) :
    Descends t fun name => t.keys.idxOf name := by
  induction t with
  | nil => simp [Descends, Table.get?]
  | cons e rest ih =>
      obtain ⟨k, v⟩ := e
      obtain ⟨hHead, hRest⟩ := List.pairwise_cons.mp hLater
      have hRanks := ih hRest fun e he => hOwn e (List.mem_cons_of_mem _ he)
      have hSelf : k ≠ v := hOwn (k, v) (List.mem_cons_self ..)
      intro old new hNew hAgain
      by_cases hOld : k = old
      · -- The first new name is no old name at all.
        have hValue : v = new := by simpa [Table.get?, hOld] using hNew
        have hKey : new ∈ Table.keys rest := by
          rw [Table.get?, if_neg (hValue ▸ hSelf)] at hAgain
          exact not_not.mp (mt Table.get?_eq_none_iff.mpr hAgain)
        obtain ⟨later, hMem, hSame⟩ := List.mem_map.mp hKey
        exact absurd (hValue.trans hSame.symm) (hHead later hMem)
      · have hTail : Table.get? rest old = some new := by simpa [Table.get?, hOld] using hNew
        simp only [Table.keys, List.map_cons, List.idxOf_cons_ne _ hOld]
        by_cases hFirst : k = new
        · simp [hFirst]
        · rw [List.idxOf_cons_ne _ hFirst]
          refine Nat.succ_lt_succ (hRanks old new hTail ?_)
          simpa [Table.get?, hFirst] using hAgain

/-- The number of marks among tokens. -/
def markCount : List Token → Nat
  | [] => 0
  | .mark _ :: rest => markCount rest + 1
  | .identifier _ :: rest => markCount rest

/-- The ranks of the identifiers that are still renamed, each counted once more. -/
def load (renames : Table String String) (rank : String → Nat) : List Token → Nat
  | [] => 0
  | .mark _ :: rest => load renames rank rest
  | .identifier name :: rest =>
    (if renames.get? (String.ofList name) = none then 0 else rank (String.ofList name) + 1) +
      load renames rank rest

@[simp] theorem markCount_append (ts us : List Token) :
    markCount (ts ++ us) = markCount ts + markCount us := by
  induction ts with
  | nil => simp [markCount]
  | cons t rest ih =>
      cases t with
      | mark c =>
          simp only [List.cons_append, markCount, ih]
          omega
      | identifier name => simpa only [List.cons_append, markCount] using ih

@[simp] theorem load_append (rank : String → Nat) (ts us : List Token) :
    load renames rank (ts ++ us) = load renames rank ts + load renames rank us := by
  induction ts with
  | nil => simp [load]
  | cons t rest ih =>
      cases t with
      | mark c => simpa only [List.cons_append, load] using ih
      | identifier name => simp only [List.cons_append, load, ih, Nat.add_assoc]

/-- A word without marks is one identifier, or empty. -/
theorem tokensFrom_word_cases {word : List Char} (h : IsWord word) :
    0 < markCount (tokensFrom [] word) ∨ word = [] ∨ tokensFrom [] word = [.identifier word] := by
  cases word with
  | nil => simp
  | cons c rest =>
      have hRest : IsWord rest := fun d hd => h d (List.mem_cons_of_mem _ hd)
      cases hStart : startsIdentifier c with
      | true => exact Or.inr (Or.inr (tokensFrom_identifier_alone ⟨c, rest, rfl, hStart, hRest⟩))
      | false =>
          refine Or.inl ?_
          rw [tokensFrom_mark hStart]
          exact Nat.succ_pos _

/-- From some tokens to others nothing is lost on the way: marks are not taken
off, and load is not added unless marks are. -/
structure NotBehind (renames : Table String String) (rank : String → Nat)
    (ts us : List Token) : Prop where
  marks : markCount ts ≤ markCount us
  load : markCount ts = markCount us → load renames rank us ≤ load renames rank ts

/-- Marks are added or load is taken off. -/
def Ahead (renames : Table String String) (rank : String → Nat) (ts us : List Token) : Prop :=
  markCount ts < markCount us ∨ load renames rank us < load renames rank ts

/-- Some identifier among the tokens is renamed. -/
def HasOld (renames : Table String String) (ts : List Token) : Prop :=
  ∃ name, .identifier name ∈ ts ∧ renames.get? (String.ofList name) ≠ none

variable {rank : String → Nat} {ts us ts' us' : List Token}

theorem NotBehind.refl (ts : List Token) : NotBehind renames rank ts ts :=
  ⟨Nat.le_refl _, fun _ => Nat.le_refl _⟩

theorem NotBehind.append (h : NotBehind renames rank ts us) (h' : NotBehind renames rank ts' us') :
    NotBehind renames rank (ts ++ ts') (us ++ us') := by
  obtain ⟨hMarks, hLoad⟩ := h
  obtain ⟨hMarks', hLoad'⟩ := h'
  constructor
  · simp only [markCount_append]
    omega
  · simp only [markCount_append, load_append]
    omega

theorem Ahead.append (h : NotBehind renames rank ts us) (h' : NotBehind renames rank ts' us')
    (hEither : Ahead renames rank ts us ∨ Ahead renames rank ts' us') :
    Ahead renames rank (ts ++ ts') (us ++ us') := by
  obtain ⟨hMarks, hLoad⟩ := h
  obtain ⟨hMarks', hLoad'⟩ := h'
  simp only [Ahead, markCount_append, load_append] at hEither ⊢
  omega

theorem NotBehind.trans (h : NotBehind renames rank ts us) (h' : NotBehind renames rank us us') :
    NotBehind renames rank ts us' := by
  obtain ⟨hMarks, hLoad⟩ := h
  obtain ⟨hMarks', hLoad'⟩ := h'
  exact ⟨by omega, by omega⟩

theorem NotBehind.trans_ahead (h : NotBehind renames rank ts us)
    (h' : NotBehind renames rank us us') (hAhead : Ahead renames rank us us') :
    Ahead renames rank ts us' := by
  obtain ⟨hMarks, hLoad⟩ := h
  obtain ⟨hMarks', hLoad'⟩ := h'
  simp only [Ahead] at hAhead ⊢
  omega

/-- Renaming one identifier adds marks or takes off load. -/
theorem rename_identifier_ahead (hWords : ToWords renames) (hDescends : Descends renames rank)
    {name : List Char} (hName : IsIdentifier name) {new : String}
    (hGet : renames.get? (String.ofList name) = some new) :
    Ahead renames rank [.identifier name] (tokensFrom [] new.toList) := by
  have hWord : IsWord new.toList := hWords _ _ hGet (by rwa [String.toList_ofList])
  have hLoad : load renames rank [.identifier name] = rank (String.ofList name) + 1 := by
    simp [load, hGet]
  rcases tokensFrom_word_cases hWord with hMarks | hEmpty | hOne
  · exact Or.inl hMarks
  · rw [hEmpty]
    exact Or.inr (hLoad ▸ Nat.succ_pos _)
  · right
    rw [hLoad, hOne]
    by_cases hAgain : renames.get? new = none
    · simp [load, hAgain]
    · simpa [load, hAgain] using hDescends _ _ hGet hAgain

theorem rename_token (hWords : ToWords renames) (hDescends : Descends renames rank) {t : Token}
    (hSep : Separated [t]) :
    NotBehind renames rank [t] (tokensFrom [] (t.rename renames)) ∧
      (HasOld renames [t] → Ahead renames rank [t] (tokensFrom [] (t.rename renames))) := by
  cases t with
  | mark c =>
      rw [Token.rename_mark, tokensFrom_mark hSep.1]
      exact ⟨.refl _, by simp [HasOld]⟩
  | identifier name =>
      cases hGet : renames.get? (String.ofList name) with
      | none =>
          rw [Token.rename_unknown hGet, tokensFrom_identifier_alone hSep.1]
          exact ⟨.refl _, by simp [HasOld, hGet]⟩
      | some new =>
          rw [Token.rename_known hGet]
          have hAhead := rename_identifier_ahead hWords hDescends hSep.1 hGet
          refine ⟨⟨Nat.zero_le _, fun hMarks => ?_⟩, fun _ => hAhead⟩
          exact Nat.le_of_lt (hAhead.resolve_left (by omega))

/-- A pass never falls behind, and gets ahead when some identifier is renamed. -/
theorem rename_ahead (hWords : ToWords renames) (hDescends : Descends renames rank)
    {ts : List Token} (hSep : Separated ts) :
    let us := ts.flatMap fun t => tokensFrom [] (t.rename renames)
    NotBehind renames rank ts us ∧ (HasOld renames ts → Ahead renames rank ts us) := by
  induction ts with
  | nil => exact ⟨.refl _, by simp [HasOld]⟩
  | cons t rest ih =>
      have hParts : Separated [t] ∧ Separated rest := by
        cases t with
        | mark c => exact ⟨⟨hSep.1, trivial⟩, hSep.2⟩
        | identifier name => exact ⟨⟨hSep.1, by simp [AtBoundary], trivial⟩, hSep.2.2⟩
      obtain ⟨hHead, hHeadOld⟩ := rename_token hWords hDescends hParts.1
      obtain ⟨hRest, hRestOld⟩ := ih hParts.2
      refine ⟨hHead.append hRest, ?_⟩
      rintro ⟨name, hMem, hGet⟩
      apply Ahead.append hHead hRest
      rcases List.mem_cons.mp hMem with hFirst | hLater
      · exact Or.inl (hHeadOld ⟨name, by simp [hFirst], hGet⟩)
      · exact Or.inr (hRestOld ⟨name, hLater, hGet⟩)

theorem not_settled_iff {expression : String} :
    ¬ Settled renames expression ↔ HasOld renames (tokens expression) := by
  simp only [Settled, not_forall, HasOld, exists_prop]
  constructor
  · rintro ⟨name, hMem, hGet⟩
    exact ⟨name.toList, mem_identifiers.mp hMem, by simpa using hGet⟩
  · rintro ⟨name, hMem, hGet⟩
    exact ⟨String.ofList name, by simpa [mem_identifiers] using hMem, hGet⟩

theorem renameIdentifiers_ahead (hWords : ToWords renames) (hDescends : Descends renames rank)
    (expression : String) :
    let next := renameIdentifiers renames expression
    NotBehind renames rank (tokens expression) (tokens next) ∧
      (¬ Settled renames expression → Ahead renames rank (tokens expression) (tokens next)) := by
  have hPass := rename_ahead hWords hDescends (separated_tokensFrom expression.toList)
  rw [not_settled_iff]
  dsimp only
  rw [tokens_renameIdentifiers hWords]
  exact hPass

theorem iterate_of_settled {expression : String} (h : Settled renames expression) (times : Nat) :
    iterate (renameIdentifiers renames) times expression = expression := by
  induction times with
  | zero => rfl
  | succ times ih => rw [iterate, renameIdentifiers_of_settled h, ih]

/-- After any number of further passes an unsettled expression is still ahead of
what it was. -/
theorem iterate_ahead (hWords : ToWords renames) (hDescends : Descends renames rank)
    (times : Nat) {expression : String} (h : ¬ Settled renames expression) :
    let later := iterate (renameIdentifiers renames) (times + 1) expression
    NotBehind renames rank (tokens expression) (tokens later) ∧
      Ahead renames rank (tokens expression) (tokens later) := by
  obtain ⟨hNext, hAhead⟩ := renameIdentifiers_ahead hWords hDescends expression
  specialize hAhead h
  induction times generalizing expression with
  | zero => exact ⟨hNext, hAhead⟩
  | succ times ih =>
      dsimp only
      rw [iterate]
      by_cases hDone : Settled renames (renameIdentifiers renames expression)
      · rw [iterate_of_settled hDone]
        exact ⟨hNext, hAhead⟩
      · obtain ⟨hMore, hMoreAhead⟩ := renameIdentifiers_ahead hWords hDescends
          (renameIdentifiers renames expression)
        obtain ⟨hLater, hLaterAhead⟩ := ih hDone hMore (hMoreAhead hDone)
        exact ⟨hNext.trans hLater, hNext.trans_ahead hLater hLaterAhead⟩

/-- Renaming several times gives what renaming once gives exactly when one pass
leaves no identifier that is renamed. -/
theorem iterate_eq_once_iff (hWords : ToWords renames) (hDescends : Descends renames rank)
    {times : Nat} (hTimes : 2 ≤ times) (expression : String) :
    iterate (renameIdentifiers renames) times expression = renameIdentifiers renames expression ↔
      Settled renames (renameIdentifiers renames expression) := by
  obtain ⟨more, rfl⟩ : ∃ more, times = more + 1 + 1 := ⟨times - 2, by omega⟩
  rw [iterate]
  constructor
  · intro hSame
    by_contra hUnsettled
    obtain ⟨_, hAhead⟩ := iterate_ahead hWords hDescends more hUnsettled
    rw [hSame] at hAhead
    simp [Ahead] at hAhead
  · intro hSettled
    exact iterate_of_settled hSettled _

end ClientTypes.Naming
