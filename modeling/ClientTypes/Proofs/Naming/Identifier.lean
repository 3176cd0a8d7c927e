import ClientTypes.Naming.Identifier
import Mathlib.Data.List.Basic

/-! The scan of a type expression. Scanning loses no character, and a text in
which identifiers are replaced by words scans piece by piece: what replaces an
identifier never joins its neighbours. -/
namespace ClientTypes.Naming

theorem continues_of_starts {c : Char} (h : startsIdentifier c = true) :
    continuesIdentifier c = true := by
  simp only [startsIdentifier, continuesIdentifier, Bool.or_eq_true, beq_iff_eq, Char.isAlphanum] at h ⊢
  tauto

/-- Every character can stand inside an identifier. A word may begin with digits. -/
def IsWord (cs : List Char) : Prop := ∀ c ∈ cs, continuesIdentifier c = true

instance (cs : List Char) : Decidable (IsWord cs) :=
  List.decidableBAll _ cs

theorem IsWord.append {cs ds : List Char} (h : IsWord cs) (h' : IsWord ds) : IsWord (cs ++ ds) := by
  intro c hc
  exact (List.mem_append.mp hc).elim (h c) (h' c)

/-- The text of an identifier. -/
def IsIdentifier (cs : List Char) : Prop :=
  ∃ c rest, cs = c :: rest ∧ startsIdentifier c = true ∧ IsWord rest

theorem IsIdentifier.isWord {cs : List Char} (h : IsIdentifier cs) : IsWord cs := by
  obtain ⟨c, rest, rfl, hStart, hRest⟩ := h
  intro d hd
  rcases List.mem_cons.mp hd with rfl | hTail
  · exact continues_of_starts hStart
  · exact hRest d hTail

/-- No identifier goes on into this text. -/
def AtBoundary (cs : List Char) : Prop := ∀ c rest, cs = c :: rest → continuesIdentifier c = false

/-! ### Scanning texts piece by piece -/

/-- The scan inside an identifier reads it up to the boundary. -/
theorem tokensFrom_reading {read word rest : List Char} (hRead : read ≠ []) (hWord : IsWord word)
    (hBoundary : AtBoundary rest) :
    tokensFrom read (word ++ rest) =
      .identifier (read.reverse ++ word) :: tokensFrom [] rest := by
  induction word generalizing read with
  | nil =>
      cases rest with
      | nil => simp [tokensFrom, hRead]
      | cons d more =>
          have hd : continuesIdentifier d = false := hBoundary d more rfl
          have hStart : startsIdentifier d = false := by
            rw [← Bool.not_eq_true]
            exact fun h => by simp [continues_of_starts h] at hd
          simp [tokensFrom, hRead, hd, hStart]
  | cons c more ih =>
      have hc : continuesIdentifier c = true := hWord c (List.mem_cons_self ..)
      have hMore : IsWord more := fun d hd => hWord d (List.mem_cons_of_mem _ hd)
      rw [List.cons_append, tokensFrom, if_neg hRead, if_pos hc, ih (List.cons_ne_nil _ _) hMore]
      simp

theorem tokensFrom_identifier {name rest : List Char} (hName : IsIdentifier name)
    (hBoundary : AtBoundary rest) :
    tokensFrom [] (name ++ rest) = .identifier name :: tokensFrom [] rest := by
  obtain ⟨c, more, rfl, hStart, hMore⟩ := hName
  rw [List.cons_append, tokensFrom, if_pos rfl, if_pos hStart,
    tokensFrom_reading (List.cons_ne_nil _ _) hMore hBoundary]
  rfl

theorem tokensFrom_mark {c : Char} (h : startsIdentifier c = false) (rest : List Char) :
    tokensFrom [] (c :: rest) = .mark c :: tokensFrom [] rest := by
  simp [tokensFrom, h]

/-- A mark separates what stands before it from what stands behind it. -/
theorem tokensFrom_append_mark {c : Char} (h : continuesIdentifier c = false) (read cs : List Char)
    (rest : List Char) :
    tokensFrom read (cs ++ c :: rest) = tokensFrom read cs ++ .mark c :: tokensFrom [] rest := by
  have hStart : startsIdentifier c = false := by
    rw [← Bool.not_eq_true]
    exact fun hs => by simp [continues_of_starts hs] at h
  induction cs generalizing read with
  | nil => by_cases hRead : read = [] <;> simp [tokensFrom, hRead, h, hStart]
  | cons d more ih =>
      simp only [List.cons_append, tokensFrom]
      split_ifs <;> simp [ih]

theorem tokens_append_mark {c : Char} (h : continuesIdentifier c = false) {s : String}
    (front back : String) (hSplit : s.toList = front.toList ++ c :: back.toList) :
    tokens s = tokens front ++ .mark c :: tokens back := by
  rw [tokens, hSplit, tokensFrom_append_mark h]
  rfl

/-- A word is scanned as it would be alone. -/
theorem tokensFrom_word {word rest : List Char} (hWord : IsWord word) (hBoundary : AtBoundary rest) :
    tokensFrom [] (word ++ rest) = tokensFrom [] word ++ tokensFrom [] rest := by
  induction word with
  | nil => rfl
  | cons c more ih =>
      have hMore : IsWord more := fun d hd => hWord d (List.mem_cons_of_mem _ hd)
      cases hStart : startsIdentifier c with
      | true =>
          have hName : IsIdentifier (c :: more) := ⟨c, more, rfl, hStart, hMore⟩
          have hAlone := @tokensFrom_identifier _ [] hName (by simp [AtBoundary])
          rw [List.append_nil] at hAlone
          rw [tokensFrom_identifier hName hBoundary, hAlone]
          rfl
      | false =>
          rw [List.cons_append, tokensFrom_mark hStart, tokensFrom_mark hStart, ih hMore]
          rfl

theorem tokensFrom_identifier_alone {name : List Char} (h : IsIdentifier name) :
    tokensFrom [] name = [.identifier name] := by
  have hScan := @tokensFrom_identifier _ [] h (by simp [AtBoundary])
  rwa [List.append_nil] at hScan

/-! ### What a scan gives -/

/-- Tokens as a scan gives them: no mark could begin an identifier, and no
identifier could go on. -/
def Separated : List Token → Prop
  | [] => True
  | .mark c :: rest => startsIdentifier c = false ∧ Separated rest
  | .identifier name :: rest =>
    IsIdentifier name ∧ AtBoundary (rest.flatMap Token.text) ∧ Separated rest

/-- A scan that is inside an identifier has read the front of one. -/
private def Reading (read : List Char) : Prop := read = [] ∨ IsIdentifier read.reverse

private theorem Reading.cons {read : List Char} {c : Char} (h : Reading read) (hRead : read ≠ [])
    (hc : continuesIdentifier c = true) : Reading (c :: read) := by
  obtain ⟨first, more, hSplit, hStart, hMore⟩ := h.resolve_left hRead
  refine Or.inr ⟨first, more ++ [c], by simp [hSplit], hStart, hMore.append ?_⟩
  simpa [IsWord] using hc

theorem tokensFrom_text (read cs : List Char) :
    (tokensFrom read cs).flatMap Token.text = read.reverse ++ cs := by
  fun_induction tokensFrom read cs with
  | case1 => simp
  | case2 read h => simp [Token.text]
  | case3 c rest hStart ih => simpa using ih
  | case4 c rest hStart ih => simpa [Token.text] using ih
  | case5 read c rest hRead hc ih => simpa using ih
  | case6 read c rest hRead hc ih => simpa [Token.text] using ih

/-- Scanning loses nothing. -/
theorem tokens_text (expression : String) :
    (tokens expression).flatMap Token.text = expression.toList := by
  rw [tokens, tokensFrom_text]
  rfl

private theorem separated_tokensFrom_of_reading {read : List Char} (h : Reading read)
    (cs : List Char) : Separated (tokensFrom read cs) := by
  fun_induction tokensFrom read cs with
  | case1 => trivial
  | case2 read hRead => exact ⟨h.resolve_left hRead, by simp [AtBoundary], trivial⟩
  | case3 c rest hStart ih =>
      exact ih (Or.inr ⟨c, [], rfl, hStart, by simp [IsWord]⟩)
  | case4 c rest hStart ih => exact ⟨by simpa using hStart, ih (Or.inl rfl)⟩
  | case5 read c rest hRead hc ih => exact ih (h.cons hRead hc)
  | case6 read c rest hRead hc ih =>
      have hEnd : continuesIdentifier c = false := by simpa using hc
      have hStart : startsIdentifier c = false := by
        rw [← Bool.not_eq_true]
        exact fun hs => by simp [continues_of_starts hs] at hEnd
      refine ⟨h.resolve_left hRead, ?_, hStart, ih (Or.inl rfl)⟩
      intro d more hSplit
      simp only [List.flatMap_cons, Token.text, List.cons_append, List.nil_append] at hSplit
      cases hSplit
      exact hEnd

theorem separated_tokensFrom (cs : List Char) : Separated (tokensFrom [] cs) :=
  separated_tokensFrom_of_reading (Or.inl rfl) cs

theorem Separated.isIdentifier {ts : List Token} (h : Separated ts) {name : List Char}
    (hMem : .identifier name ∈ ts) : IsIdentifier name := by
  induction ts with
  | nil => cases hMem
  | cons t rest ih =>
      cases t with
      | mark c => exact ih h.2 (by simpa using hMem)
      | identifier other =>
          rcases List.mem_cons.mp hMem with hSame | hTail
          · cases hSame
            exact h.1
          · exact ih h.2.2 hTail

theorem Separated.starts_mark {ts : List Token} (h : Separated ts) {c : Char}
    (hMem : .mark c ∈ ts) : startsIdentifier c = false := by
  induction ts with
  | nil => cases hMem
  | cons t rest ih =>
      cases t with
      | mark d =>
          rcases List.mem_cons.mp hMem with hSame | hTail
          · cases hSame
            exact h.1
          · exact ih h.2 hTail
      | identifier other => exact ih h.2.2 (by simpa using hMem)

/-! ### Renaming and scanning again -/

@[simp] theorem Token.rename_mark (renames : Table String String) (c : Char) :
    (Token.mark c).rename renames = [c] := rfl

theorem Token.rename_known {renames : Table String String} {name : List Char} {new : String}
    (h : renames.get? (String.ofList name) = some new) :
    (Token.identifier name).rename renames = new.toList := by
  simp [Token.rename, h]

theorem Token.rename_unknown {renames : Table String String} {name : List Char}
    (h : renames.get? (String.ofList name) = none) :
    (Token.identifier name).rename renames = name := by
  simp [Token.rename, h]

/-- Identifiers are renamed to words. -/
def ToWords (renames : Table String String) : Prop :=
  ∀ old new, renames.get? old = some new → IsIdentifier old.toList → IsWord new.toList

theorem ToWords.rename {renames : Table String String} (h : ToWords renames) {name : List Char}
    (hName : IsIdentifier name) : IsWord (Token.rename renames (.identifier name)) := by
  cases hGet : renames.get? (String.ofList name) with
  | none =>
      rw [Token.rename_unknown hGet]
      exact hName.isWord
  | some new =>
      rw [Token.rename_known hGet]
      exact h _ _ hGet (by rwa [String.toList_ofList])

/-- After renaming to words, the text scans as its renamed tokens do. -/
theorem tokensFrom_rename {renames : Table String String} (h : ToWords renames) {ts : List Token}
    (hSep : Separated ts) :
    tokensFrom [] (ts.flatMap (·.rename renames)) =
      ts.flatMap fun t => tokensFrom [] (t.rename renames) := by
  induction ts with
  | nil => rfl
  | cons t rest ih =>
      cases t with
      | mark c =>
          obtain ⟨hStart, hRest⟩ := hSep
          simp only [List.flatMap_cons, Token.rename_mark, List.cons_append, List.nil_append]
          rw [tokensFrom_mark hStart, tokensFrom_mark hStart, ih hRest]
          rfl
      | identifier name =>
          obtain ⟨hName, hBoundary, hRest⟩ := hSep
          have hNext : AtBoundary (rest.flatMap (·.rename renames)) := by
            -- An identifier cannot follow, so the next token is a mark, which stays.
            cases rest with
            | nil => simp [AtBoundary]
            | cons next more =>
                cases next with
                | mark d =>
                    have hd := hBoundary d (more.flatMap Token.text) (by simp [Token.text])
                    intro e tail hSplit
                    simp only [List.flatMap_cons, Token.rename_mark, List.cons_append,
                      List.nil_append] at hSplit
                    cases hSplit
                    exact hd
                | identifier other =>
                    obtain ⟨c, cs, rfl, hStart, _⟩ := hRest.1
                    have hc := hBoundary c (cs ++ more.flatMap Token.text) (by simp [Token.text])
                    simp [continues_of_starts hStart] at hc
          rw [List.flatMap_cons, tokensFrom_word (h.rename hName) hNext, ih hRest]
          rfl

theorem tokens_renameIdentifiers {renames : Table String String} (h : ToWords renames)
    (expression : String) :
    tokens (renameIdentifiers renames expression) =
      (tokens expression).flatMap fun t => tokensFrom [] (t.rename renames) := by
  rw [tokens, renameIdentifiers, String.toList_ofList]
  exact tokensFrom_rename h (separated_tokensFrom _)

end ClientTypes.Naming
