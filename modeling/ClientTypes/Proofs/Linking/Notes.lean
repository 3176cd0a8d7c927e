import ClientTypes.Linking.Notes
import ClientTypes.Proofs.Text.Piece
import Mathlib.Algebra.Group.Nat.Even
import Mathlib.Data.List.TakeWhile

/-! Notes as documentation comments. A fence opens a block when an even number of fences stands before it.
Only the tags of opening fences change, each line stays where it is, and lines that were marked are left alone
when they are marked again. -/
namespace ClientTypes.Linking

open Text

/-! ### Blanks at the ends of a text -/

/-- Neither the first nor the last character is of the class. -/
structure Trimmed (cut : Char → Bool) (s : List Char) : Prop where
  head : ∀ c ∈ s.head?, cut c = false
  last : ∀ c ∈ s.getLast?, cut c = false

section Trim

variable {cut : Char → Bool} {s : List Char}

theorem dropWhile_eq_self_of_head (h : ∀ c ∈ s.head?, cut c = false) : s.dropWhile cut = s := by
  cases s with
  | nil => rfl
  | cons c rest => simp [h c rfl]

theorem head_dropWhile {c : Char} (h : c ∈ (s.dropWhile cut).head?) : cut c = false := by
  have := List.head?_dropWhile_not cut s
  rw [Option.mem_def] at h
  simpa [h] using this

theorem Trimmed.trimBoth_eq (h : Trimmed cut s) : trimBoth cut s = s := by
  have hLast : ∀ c ∈ s.reverse.head?, cut c = false := by simpa using h.last
  rw [trimBoth, trimStart, dropWhile_eq_self_of_head h.head, trimEnd, dropWhile_eq_self_of_head hLast,
    List.reverse_reverse]

theorem trimEnd_split (cut : Char → Bool) (s : List Char) :
    ∃ back, s = trimEnd cut s ++ back ∧ ∀ c ∈ back, cut c = true := by
  refine ⟨(s.reverse.takeWhile cut).reverse, ?_, fun c hc => ?_⟩
  · rw [trimEnd, ← List.reverse_append, List.takeWhile_append_dropWhile, List.reverse_reverse]
  · exact List.mem_takeWhile_imp (List.mem_reverse.mp hc)

/-- What is cut at both ends is of the class, and what is left does not begin or end with it. -/
theorem trimBoth_split (cut : Char → Bool) (s : List Char) :
    Trimmed cut (trimBoth cut s) ∧
      ∃ back, s = s.takeWhile cut ++ trimBoth cut s ++ back ∧ ∀ c ∈ back, cut c = true := by
  obtain ⟨back, hSplit, hBack⟩ := trimEnd_split cut (trimStart cut s)
  refine ⟨⟨fun c hc => ?_, fun c hc => ?_⟩, back, ?_, hBack⟩
  · have hHead : c ∈ (trimStart cut s).head? := by
      rw [hSplit]
      exact List.mem_head?_append_of_mem_head? hc
    exact head_dropWhile hHead
  · have hHead : c ∈ ((trimStart cut s).reverse.dropWhile cut).head? := by
      simpa [trimBoth, trimEnd] using hc
    exact head_dropWhile hHead
  · rw [List.append_assoc, trimBoth, ← hSplit, trimStart, List.takeWhile_append_dropWhile]

end Trim

/-! ### Fences -/

/-- The parts of a fence line: its indentation, and the tag behind the fence with blanks around it. -/
structure FenceParts (line indent tag : List Char) : Prop where
  split : ∃ before behind, line = indent ++ fence ++ (before ++ tag ++ behind) ∧
    (∀ c ∈ before, isBlank c = true) ∧ ∀ c ∈ behind, isBlank c = true
  indent : ∀ c ∈ indent, isBlank c = true
  tag : Trimmed isBlank tag

theorem isFence_iff {line : List Char} : isFence line = true ↔ fence <+: trimBoth isBlank line := by
  rw [isFence, Option.isSome_iff_exists]
  simp only [after?_eq_some_iff]
  exact ⟨fun ⟨rest, h⟩ => ⟨rest, h.symm⟩, fun ⟨rest, h⟩ => ⟨rest, h.symm⟩⟩

theorem fenceParts_of_isFence {line : List Char} (h : isFence line = true) :
    FenceParts line (line.takeWhile isBlank) (fenceTag line) := by
  obtain ⟨info, hInfo⟩ := isFence_iff.mp h
  have hTag : fenceTag line = trimBoth isBlank info := by
    rw [fenceTag, after?_eq_some_iff.mpr hInfo.symm]
    rfl
  obtain ⟨-, behind, hLine, hBehind⟩ := trimBoth_split isBlank line
  obtain ⟨hTrimmed, behindTag, hSplit, hBehindTag⟩ := trimBoth_split isBlank info
  rw [hTag]
  refine ⟨⟨info.takeWhile isBlank, behindTag ++ behind, ?_, ?_, ?_⟩, ?_, hTrimmed⟩
  · calc line = line.takeWhile isBlank ++ (fence ++ info) ++ behind := by rw [hInfo]; exact hLine
      _ = line.takeWhile isBlank ++ fence ++ (info ++ behind) := by simp only [List.append_assoc]
      _ = line.takeWhile isBlank ++ fence ++
          (info.takeWhile isBlank ++ trimBoth isBlank info ++ (behindTag ++ behind)) := by
        rw [← List.append_assoc _ behindTag, ← hSplit]
  · exact fun c hc => List.mem_takeWhile_imp hc
  · exact fun c hc => (List.mem_append.mp hc).elim (hBehindTag c) (hBehind c)
  · exact fun c hc => List.mem_takeWhile_imp hc

/-- A tag that ends in the tag of a block that is not compiled stays; any other gets it behind a comma, and no
tag becomes it. -/
theorem withSkipTag_eq (tag : List Char) :
    withSkipTag tag = if skipTag <:+ tag then tag
      else if tag = [] then skipTag else tag ++ ',' :: skipTag := by
  have hTest : (after? skipTag.reverse tag.reverse).isSome = true ↔ skipTag <:+ tag := by
    rw [Option.isSome_iff_exists, ← List.reverse_prefix]
    simp only [after?_eq_some_iff]
    exact ⟨fun ⟨rest, h⟩ => ⟨rest, h.symm⟩, fun ⟨rest, h⟩ => ⟨rest, h.symm⟩⟩
  simp only [withSkipTag, hTest]

theorem skipTag_suffix_withSkipTag (tag : List Char) : skipTag <:+ withSkipTag tag := by
  rw [withSkipTag_eq]
  split_ifs with hEnds
  · exact hEnds
  · exact List.suffix_rfl
  · exact ⟨tag ++ [','], by simp⟩

theorem withSkipTag_withSkipTag (tag : List Char) : withSkipTag (withSkipTag tag) = withSkipTag tag := by
  rw [withSkipTag_eq (withSkipTag tag), if_pos (skipTag_suffix_withSkipTag tag)]

theorem trimmed_withSkipTag {tag : List Char} (h : Trimmed isBlank tag) :
    Trimmed isBlank (withSkipTag tag) where
  head := by
    rw [withSkipTag_eq]
    split_ifs with hEnds hNone
    · exact h.head
    · rintro c ⟨⟩
      decide
    · obtain ⟨c, rest, rfl⟩ := List.exists_cons_of_ne_nil hNone
      exact h.head
  last := by
    obtain ⟨front, hFront⟩ := skipTag_suffix_withSkipTag tag
    have hLast : (withSkipTag tag).getLast? = some 'e' := by
      rw [← hFront, List.getLast?_append]
      rfl
    rw [hLast]
    rintro c ⟨⟩
    decide

/-- A fence with a trimmed tag right behind it is read as it was written. -/
theorem read_fence {indent tag : List Char} (hIndent : ∀ c ∈ indent, isBlank c = true)
    (hTag : Trimmed isBlank tag) :
    (indent ++ fence ++ tag).takeWhile isBlank = indent ∧
      trimBoth isBlank (indent ++ fence ++ tag) = fence ++ tag := by
  have hLine : Trimmed isBlank (fence ++ tag) := by
    refine ⟨fun c hc => ?_, fun c hc => ?_⟩
    · obtain rfl : '\x60' = c := Option.some.inj hc
      decide
    · rw [List.getLast?_append] at hc
      cases hLast : tag.getLast? with
      | none =>
          obtain rfl : '\x60' = c := by simpa [hLast, fence] using hc
          decide
      | some d =>
          obtain rfl : d = c := by simpa [hLast] using hc
          exact hTag.last d hLast
  rw [List.append_assoc]
  constructor
  · rw [List.takeWhile_append_of_pos hIndent]
    exact List.append_right_eq_self.mpr rfl
  · have hStart : trimStart isBlank (indent ++ (fence ++ tag)) = trimStart isBlank (fence ++ tag) :=
      List.dropWhile_append_of_pos hIndent
    rw [trimBoth, hStart, ← trimBoth, hLine.trimBoth_eq]

/-- An opening fence is still one after its tag was completed, and its tag is complete. -/
theorem openingFence_settled {line : List Char} (h : isFence line = true) :
    isFence (openingFence line) = true ∧ openingFence (openingFence line) = openingFence line := by
  obtain ⟨-, hIndent, hTag⟩ := fenceParts_of_isFence h
  have hMarked := trimmed_withSkipTag hTag
  obtain ⟨hFront, hTrimmed⟩ := read_fence hIndent hMarked
  have hFence : isFence (openingFence line) = true :=
    isFence_iff.mpr ⟨withSkipTag (fenceTag line), hTrimmed.symm⟩
  have hRead : fenceTag (openingFence line) = withSkipTag (fenceTag line) := by
    rw [fenceTag, openingFence, hTrimmed, after?_eq_some_iff.mpr rfl]
    exact hMarked.trimBoth_eq
  refine ⟨hFence, ?_⟩
  rw [openingFence, hRead, withSkipTag_withSkipTag]
  exact congrArg (· ++ fence ++ withSkipTag (fenceTag line)) hFront

/-! ### Lines -/

theorem length_markLines (inBlock : Bool) (lines : List (List Char)) :
    (markLines inBlock lines).length = lines.length := by
  induction lines generalizing inBlock with
  | nil => rfl
  | cons line rest ih => by_cases hFence : isFence line = true <;> simp [markLines, hFence, ih]

/-- Marking lines a second time changes nothing. -/
theorem markLines_markLines (inBlock : Bool) (lines : List (List Char)) :
    markLines inBlock (markLines inBlock lines) = markLines inBlock lines := by
  induction lines generalizing inBlock with
  | nil => rfl
  | cons line rest ih =>
      by_cases hFence : isFence line = true
      · cases inBlock with
        | true => simp [markLines, hFence, ih]
        | false =>
            obtain ⟨hStays, hSame⟩ := openingFence_settled hFence
            simp [markLines, hFence, hStays, hSame, ih]
      · simp [markLines, hFence, ih]

/-- A fence opens a block if an even number of fences stands before it, counted from outside of a block. -/
theorem getElem?_markLines (inBlock : Bool) (lines : List (List Char)) (place : Nat) :
    (markLines inBlock lines)[place]? = lines[place]?.map fun line =>
      if isFence line = true ∧ (inBlock = false ↔ Even ((lines.take place).countP isFence)) then
        openingFence line
      else line := by
  induction lines generalizing inBlock place with
  | nil => rfl
  | cons line rest ih =>
      cases place with
      | zero => by_cases hFence : isFence line = true <;> cases inBlock <;> simp [markLines, hFence]
      | succ place =>
          by_cases hFence : isFence line = true
          · cases inBlock <;> simp [markLines, hFence, ih, Nat.even_add_one]
          · simp [markLines, hFence, ih]

/-- The line is a fence that opens a block: before it every block that was opened is closed. -/
def Opens (lines : List (List Char)) (place : Nat) (line : List Char) : Prop :=
  isFence line = true ∧ Even ((lines.take place).countP isFence)

/-- Lines as they stand in a documentation comment, against the lines of the notes. -/
structure Rewritten (lines lines' : List (List Char)) : Prop where
  length_eq : lines'.length = lines.length
  /-- A line that opens no block stays as it is. -/
  kept : ∀ place line, lines[place]? = some line → ¬ Opens lines place line →
    lines'[place]? = some line
  /-- A line that opens a block keeps its indentation. Its tag gets the tag of a block that is not compiled, if
  it does not end in it. -/
  opened : ∀ place line, lines[place]? = some line → Opens lines place line →
    ∃ indent tag, FenceParts line indent tag ∧
      lines'[place]? = some (indent ++ fence ++
        if skipTag <:+ tag then tag else if tag = [] then skipTag else tag ++ ',' :: skipTag)
  settled : markLines false lines' = lines'

theorem markLines_rewritten (lines : List (List Char)) : Rewritten lines (markLines false lines) where
  length_eq := length_markLines false lines
  kept place line hLine hOther := by
    rw [getElem?_markLines, hLine, Option.map_some, if_neg]
    simpa [Opens] using hOther
  opened place line hLine hOpens := by
    refine ⟨_, _, fenceParts_of_isFence hOpens.1, ?_⟩
    rw [getElem?_markLines, hLine, ← withSkipTag_eq]
    simp [hOpens.1, hOpens.2, openingFence]
  settled := markLines_markLines false lines

/-- Notes are rewritten line by line. -/
theorem docComment_rewritten (notes : String) :
    ∃ lines', Rewritten (notes.toList.splitOn '\n') lines' ∧
      docComment notes = String.ofList (commentBreak.intercalate lines') := by
  refine ⟨_, markLines_rewritten _, ?_⟩
  rw [docComment, pieces_eq_splitOn]

end ClientTypes.Linking
