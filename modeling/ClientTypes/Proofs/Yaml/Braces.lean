import ClientTypes.Yaml.Reader
import ClientTypes.Proofs.Ensures

/-! Texts that begin with a brace. The first token decides what kind of collection a text is, and an opening
brace begins a mapping: in brackets, or as the key of a mapping by indentation. A tab in front of it is no
token at all. So such a text is read as a mapping if it is read. -/
namespace ClientTypes.Yaml

/-! ### Steps of the reader -/

section Steps

variable {α : Type} {p : Extent}

theorem ensures_here : Ensures here p fun c p' => c = p.cursor ∧ p' = p := by
  intro c p' hRun
  cases hRun
  exact ⟨rfl, rfl⟩

theorem ensures_isFresh : Ensures isFresh p fun _ p' => p' = p := by
  intro fresh p' hRun
  cases hRun
  rfl

theorem ensures_nextToken : Ensures nextToken p fun c p' => c = p.cursor.toToken ∧ p'.cursor = c := by
  unfold nextToken
  refine .bind ensures_here fun c p' hHere => ?_
  obtain ⟨rfl, rfl⟩ := hHere
  have hMoved : Ensures (moveTo p'.cursor.toToken) p' fun _ q => q.cursor = p'.cursor.toToken :=
    .modify rfl
  refine .bind hMoved fun _ q hq => ?_
  dsimp only
  split
  · have hFresh : Ensures (setFresh true) q fun _ q' => q'.cursor = p'.cursor.toToken := .modify hq
    exact .bind hFresh fun _ q' hq' => .pure ⟨rfl, hq'⟩
  · exact .pure ⟨rfl, hq⟩

/-- Nothing follows what is refused. -/
theorem ensures_refuse {P : α → Extent → Prop} : Ensures (refuse : Read α) p P := by
  unfold refuse
  refine .bind .any fun c p' _ => ?_
  dsimp only
  split
  · exact .bind .any fun _ _ _ => .throw
  · exact .throw

end Steps

/-! ### Mappings -/

def IsMap (node : Node) : Prop := ∃ entries, node = .map entries

theorem readMapEntries_isMap (fuel : Nat) (read : List (Node × Node)) (p : Extent) :
    Ensures (readMapEntries fuel read) p fun node _ => IsMap node := by
  induction fuel generalizing read p with
  | zero => exact .throw
  | succ fuel ih =>
      rw [readMapEntries]
      refine .bind .any fun c p' _ => ?_
      split
      · exact .bind .any fun _ _ _ => .pure ⟨_, rfl⟩
      · refine .bind .any fun pair p' _ => .bind .any fun c p' _ => ?_
        split
        · exact .bind .any fun _ p' _ => ih _ p'
        · exact .bind .any fun _ _ _ => .pure ⟨_, rfl⟩
        · exact ensures_refuse

theorem readEntries_isMap (fuel column : Nat) (key : Node) (read : List (Node × Node)) (p : Extent) :
    Ensures (readEntries fuel column key read) p fun node _ => IsMap node := by
  induction fuel generalizing key read p with
  | zero => exact .throw
  | succ fuel ih =>
      rw [readEntries]
      refine .bind .any fun value p' _ => .bind .any fun c p' _ => ?_
      split
      · exact .pure ⟨_, rfl⟩
      · refine .bind .any fun fresh p' _ => ?_
        split
        · exact ensures_refuse
        · exact .bind .any fun key p' _ => ih key _ p'

/-- What begins with a mapping is a mapping: that one, or the one that it is the first key of. -/
theorem readFrom_isMap {first : Node} (h : IsMap first) (fuel : Nat) (fresh alone : Bool) (start : Cursor)
    (p : Extent) : Ensures (readFrom fuel fresh alone start first) p fun node _ => IsMap node := by
  cases fuel with
  | zero => exact .throw
  | succ fuel =>
      rw [readFrom]
      refine .bind .any fun c p' _ => ?_
      split
      · split
        · exact readEntries_isMap fuel start.column first [] p'
        · exact ensures_refuse
      · split
        · exact .pure h
        · exact ensures_refuse

/-! ### Texts -/

/-- A brace or a tab comes next. -/
def Cursor.AtBraceOrTab (c : Cursor) : Prop := ∃ rest, c.rest = '\x7b' :: rest ∨ c.rest = '\t' :: rest

namespace Cursor.AtBraceOrTab

variable {c : Cursor}

/-- No other mark comes next. -/
theorem rest_eq (h : c.AtBraceOrTab) {mark : Char} (hBrace : mark ≠ '\x7b') (hTab : mark ≠ '\t') :
    ∃ first rest, c.rest = first :: rest ∧ (first == mark) = false := by
  obtain ⟨rest, hRest | hRest⟩ := h
  · exact ⟨_, rest, hRest, beq_false_of_ne hBrace.symm⟩
  · exact ⟨_, rest, hRest, beq_false_of_ne hTab.symm⟩

theorem not_atMark (h : c.AtBraceOrTab) {mark : Char} (hBrace : mark ≠ '\x7b') (hTab : mark ≠ '\t') :
    c.atMark mark = false := by
  obtain ⟨first, rest, hRest, hOther⟩ := h.rest_eq hBrace hTab
  simp only [atMark, hRest, hOther, Bool.false_and]

theorem not_atMarker (h : c.AtBraceOrTab) {mark : Char} (hBrace : mark ≠ '\x7b') (hTab : mark ≠ '\t') :
    c.atMarker mark = false := by
  obtain ⟨first, rest, hRest, hOther⟩ := h.rest_eq hBrace hTab
  rw [atMarker, hRest]
  split
  next hSame =>
    cases hSame
    simp only [hOther, Bool.false_and, Bool.and_false]
  next => rw [Bool.and_false]

theorem not_atBoundary (h : c.AtBraceOrTab) : c.atBoundary = false := by
  rw [atBoundary, h.not_atMarker (by decide) (by decide), h.not_atMarker (by decide) (by decide)]
  rfl

theorem not_atEnd (h : c.AtBraceOrTab) : c.atEnd = false := by
  rw [atEnd, h.not_atBoundary]
  obtain ⟨rest, hRest | hRest⟩ := h <;> rw [hRest] <;> rfl

theorem not_atBlock (h : c.AtBraceOrTab) : c.atBlock = false := by
  obtain ⟨rest, hRest | hRest⟩ := h <;> rw [atBlock, hRest] <;> rfl

end Cursor.AtBraceOrTab

section AtBraceOrTab

variable {p : Extent}

theorem readInline_isMap (h : p.cursor.AtBraceOrTab) (fuel : Nat) (parent : Option Nat) :
    Ensures (readInline fuel (.indented parent)) p fun node _ => IsMap node := by
  cases fuel with
  | zero => exact .throw
  | succ fuel =>
      rw [readInline]
      refine .bind ensures_here fun c p' hHere => ?_
      obtain ⟨rfl, rfl⟩ := hHere
      rw [h.not_atBoundary]
      obtain ⟨rest, hRest | hRest⟩ := h
      · simp only [hRest]
        exact .bind .any fun _ p' _ => readMapEntries_isMap fuel [] p'
      -- A tab begins no plain scalar either.
      · simp only [hRest]
        exact ensures_refuse

theorem readNode_isMap (h : p.cursor.AtBraceOrTab) (fuel : Nat) (place : Place) (hasName : Bool) :
    Ensures (readNode fuel place hasName) p fun node _ => IsMap node := by
  cases fuel with
  | zero => exact .throw
  | succ fuel =>
      rw [readNode]
      refine .bind ensures_here fun c p' hHere => ?_
      obtain ⟨rfl, rfl⟩ := hHere
      refine .bind ensures_isFresh fun fresh p hFresh => ?_
      subst hFresh
      rw [h.not_atMark (by decide) (by decide), h.not_atBlock]
      have hInline := readInline_isMap h fuel place.parent
      -- Neither character is the mark of a name, so the node is read within the line and then from its end on.
      have hGoesOn := hInline.bind fun first p' hFirst =>
        readFrom_isMap hFirst fuel fresh true p.cursor p'
      obtain ⟨rest, hRest | hRest⟩ := h
      · simp only [hRest]
        exact hGoesOn
      · simp only [hRest]
        exact hGoesOn

theorem readBelow_isMap (h : p.cursor.AtBraceOrTab) (fuel : Nat) (hasName : Bool) :
    Ensures (readBelow fuel {} hasName) p fun node _ => IsMap node := by
  cases fuel with
  | zero => exact .throw
  | succ fuel =>
      rw [readBelow]
      refine .bind ensures_here fun c p' hHere => ?_
      obtain ⟨rfl, rfl⟩ := hHere
      rw [h.not_atEnd]
      exact readNode_isMap h fuel {} hasName

/-- A directive begins with another mark. -/
theorem ensures_readDirectives (h : p.cursor.AtBraceOrTab) (fuel : Nat) (before : Directives) :
    Ensures (readDirectives fuel before) p fun directed p' => directed = false ∧ p' = p := by
  cases fuel with
  | zero => exact .throw
  | succ fuel =>
      rw [readDirectives]
      refine .bind ensures_here fun c p' hHere => ?_
      obtain ⟨rfl, rfl⟩ := hHere
      have hOther : (p'.cursor.rest.head? == some '%') = false := by
        obtain ⟨rest, hRest | hRest⟩ := h <;> rw [hRest] <;> rfl
      simp only [hOther, Bool.and_false]
      exact .pure ⟨rfl, rfl⟩

theorem readDocument_isMap (h : p.cursor.toToken.AtBraceOrTab) (fuel : Nat) :
    Ensures (readDocument fuel) p fun node _ => IsMap node := by
  unfold readDocument
  refine .bind ensures_nextToken fun c p' hToken => ?_
  obtain ⟨rfl, hCursor⟩ := hToken
  rw [← hCursor] at h
  refine .bind (ensures_readDirectives h fuel {}) fun directed q hDirected => ?_
  obtain ⟨rfl, rfl⟩ := hDirected
  refine .bind ensures_here fun c p' hHere => ?_
  obtain ⟨rfl, rfl⟩ := hHere
  rw [h.not_atMarker (by decide) (by decide), h.not_atMarker (by decide) (by decide)]
  refine .bind (readBelow_isMap h fuel false) fun node q hNode => ?_
  exact .bind .any fun _ _ _ => .pure hNode

end AtBraceOrTab

/-- Blanks lead to the brace behind them, or to a tab among them. -/
theorem tokenFrom_atBraceOrTab {blanks : List Char} (h : ∀ c ∈ blanks, c = ' ' ∨ c = '\t' ∨ c = '\n')
    (rest : List Char) (size offset line column : Nat) :
    (Cursor.tokenFrom size offset line column false (blanks ++ '\x7b' :: rest)).AtBraceOrTab := by
  induction blanks generalizing offset line column with
  | nil => exact ⟨rest, .inl rfl⟩
  | cons c blanks ih =>
      rw [List.forall_mem_cons] at h
      obtain ⟨rfl | rfl | rfl, hMore⟩ := h
      · exact ih hMore ..
      · exact ⟨_, .inr rfl⟩
      · exact ih hMore ..

/-! ### Values -/

theorem close_opened (b : Building) {v : Value} (h : v.opened = v) : (b.close v).1.opened = v := by
  unfold Building.close
  dsimp only
  split
  · exact h
  · exact h

theorem build_opened {node : Node} (h : IsMap node) (around : Meanings) (b : Building) :
    ∃ entries, (node.build around b).1.opened = .map entries := by
  obtain ⟨entries, rfl⟩ := h
  rw [Node.build]
  exact ⟨_, close_opened _ rfl⟩

theorem toValue_opened {node : Node} (h : IsMap node) {v : Value} (hValue : node.toValue = .ok v) :
    ∃ entries, v.opened = .map entries := by
  obtain ⟨_, _, hValue⟩ := ok_of_bind hValue
  dsimp only at hValue
  split at hValue
  · cases hValue
    exact build_opened h ..
  · cases hValue
    exact build_opened h ..

/-- A text whose first character behind the blanks is an opening brace is a mapping, if it is read. -/
theorem parse_braced {text : String} {blanks rest : List Char}
    (hBlanks : ∀ c ∈ blanks, c = ' ' ∨ c = '\t' ∨ c = '\n') (hText : text.toList = blanks ++ '\x7b' :: rest)
    {v : Value} (h : parse text = .ok v) : ∃ entries, v.opened = .map entries := by
  obtain ⟨node, hRead, hValue⟩ := ok_of_bind h
  unfold readText at hRead
  dsimp only at hRead
  split at hRead
  · obtain ⟨⟨_, last⟩, hRun, rfl⟩ := ok_of_map hRead
    have hStart : (Cursor.ofText text.toList).toToken.AtBraceOrTab := by
      rw [hText]
      exact tokenFrom_atBraceOrTab hBlanks ..
    exact toValue_opened (readDocument_isMap hStart _ _ _ hRun) hValue
  · cases hRead

end ClientTypes.Yaml
