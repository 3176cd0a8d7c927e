import ClientTypes.Naming.Spelling
import Mathlib.Data.List.Chain

/-! The name of an operation and the group in front of it. What is cut from an id is the first run of
letters and digits with a slash behind it, wherever it stands; this is the group of the id exactly when
the group is a single word. -/
namespace ClientTypes.Naming

open Text

/-! ### The first word with a slash behind it -/

/-- No slash stands right behind a letter or digit. -/
def NoQualifier (s : List Char) : Prop := s.IsChain fun c d => isWordChar c = true → d ≠ '/'

/-- The first place of a text where a slash stands right behind a letter or digit, with the whole run of
letters and digits in front of the slash. -/
structure FirstQualifier (s front word rest : List Char) : Prop where
  split : s = front ++ word ++ '/' :: rest
  word_ne_nil : word ≠ []
  isWord : ∀ c ∈ word, isWordChar c = true
  /-- The run goes no farther to the front. -/
  boundary : ∀ c ∈ front.getLast?, isWordChar c = false
  first : NoQualifier front

theorem noQualifier_of_slash_notMem {s : List Char} (h : '/' ∉ s) : NoQualifier s := by
  rw [NoQualifier, List.isChain_iff_forall_rel_of_append_cons_cons]
  rintro c d before after rfl _ rfl
  exact h (by simp)

theorem slash_notMem_of_isWord {word : List Char} (h : ∀ c ∈ word, isWordChar c = true) : '/' ∉ word := by
  intro hSlash
  cases h _ hSlash

/-- A word and a character that is neither part of it nor a slash behind it are no qualifier. -/
theorem NoQualifier.prepend {word s : List Char} {c : Char} (hWord : ∀ d ∈ word, isWordChar d = true)
    (hc : isWordChar c = false) (hFree : ¬(c = '/' ∧ word ≠ [])) (h : NoQualifier s) :
    NoQualifier (word ++ c :: s) := by
  have hFront : NoQualifier word := noQualifier_of_slash_notMem (slash_notMem_of_isWord hWord)
  refine List.isChain_append.mpr ⟨hFront, ?_, ?_⟩
  · cases s with
    | nil => exact List.isChain_singleton c
    | cons d more =>
        refine List.isChain_cons_cons.mpr ⟨fun hWordChar => ?_, h⟩
        rw [hc] at hWordChar
        cases hWordChar
  · rintro d hd e he - rfl
    have hSlash : c = '/' := by simpa using he
    refine hFree ⟨hSlash, ?_⟩
    rintro rfl
    cases hd

theorem FirstQualifier.prepend {before s front word rest : List Char} {c : Char}
    (hBefore : ∀ d ∈ before, isWordChar d = true) (hc : isWordChar c = false)
    (hFree : ¬(c = '/' ∧ before ≠ [])) (h : FirstQualifier s front word rest) :
    FirstQualifier (before ++ c :: s) (before ++ c :: front) word rest where
  split := by simp [h.split]
  word_ne_nil := h.word_ne_nil
  isWord := h.isWord
  boundary := by
    intro d hd
    rw [List.getLast?_append, List.getLast?_cons] at hd
    cases hLast : front.getLast? with
    | none =>
        have hSame : c = d := by simpa [hLast] using hd
        rwa [← hSame]
    | some e =>
        have hSame : e = d := by simpa [hLast] using hd
        exact h.boundary d (by rw [hLast, hSame]; rfl)
  first := h.first.prepend hBefore hc hFree

/-- What is left of a text: all of it, or what stands around its first qualifier. -/
inductive CutAtFirst (s : List Char) : List Char → Prop
  | nothing (h : NoQualifier s) : CutAtFirst s s
  | word {front word rest : List Char} (h : FirstQualifier s front word rest) :
      CutAtFirst s (front ++ rest)

/-- The scan, with the run that it has read last in front of the text that is left. -/
theorem cutGroup_cuts {run : List Char} (hRun : ∀ c ∈ run, isWordChar c = true) (s : List Char) :
    CutAtFirst (run.reverse ++ s) (cutGroup run s) := by
  induction s generalizing run with
  | nil =>
      have hPlain : ∀ c ∈ run.reverse, isWordChar c = true := by simpa using hRun
      rw [cutGroup, List.append_nil]
      exact .nothing (noQualifier_of_slash_notMem (slash_notMem_of_isWord hPlain))
  | cons c rest ih =>
      have hPlain : ∀ d ∈ run.reverse, isWordChar d = true := by simpa using hRun
      unfold cutGroup
      split_ifs with hc hCut
      · have hMore : ∀ d ∈ c :: run, isWordChar d = true := List.forall_mem_cons.mpr ⟨hc, hRun⟩
        simpa using ih hMore
      · obtain ⟨rfl, hSome⟩ := hCut
        have hWhole : FirstQualifier (run.reverse ++ '/' :: rest) [] run.reverse rest :=
          ⟨rfl, by simpa using hSome, hPlain, by simp, List.isChain_nil⟩
        exact .word hWhole
      · rw [Bool.not_eq_true] at hc
        have hFree : ¬(c = '/' ∧ run.reverse ≠ []) := by simpa using hCut
        have hRest := ih (List.forall_mem_nil _)
        rw [List.reverse_nil, List.nil_append] at hRest
        generalize cutGroup [] rest = left at hRest
        cases hRest with
        | nothing h => exact .nothing (h.prepend hPlain hc hFree)
        | word h =>
            have hWhole := h.prepend hPlain hc hFree
            simpa using CutAtFirst.word hWhole

theorem operationName_cuts (id : String) : CutAtFirst id.toList (operationName id).toList := by
  simpa [operationName] using cutGroup_cuts (List.forall_mem_nil _) id.toList

/-! ### The group of an id -/

/-- A text has one first slash. -/
theorem first_slash_unique {x y z w : List Char} (hx : '/' ∉ x) (hy : '/' ∉ y)
    (h : x ++ '/' :: z = y ++ '/' :: w) : x = y ∧ z = w := by
  have hSplit (u v : List Char) (hu : '/' ∉ u) :
      (u ++ '/' :: v).takeWhile (· ≠ '/') = u ∧ (u ++ '/' :: v).dropWhile (· ≠ '/') = '/' :: v := by
    have hAll : ∀ c ∈ u, decide (c ≠ '/') = true :=
      fun c hc => decide_eq_true (ne_of_mem_of_not_mem hc hu)
    rw [List.takeWhile_append_of_pos hAll, List.dropWhile_append_of_pos hAll]
    simp
  have hFront := congrArg (List.takeWhile (· ≠ '/')) h
  have hBack := congrArg (List.dropWhile (· ≠ '/')) h
  rw [(hSplit x z hx).1, (hSplit y w hy).1] at hFront
  rw [(hSplit x z hx).2, (hSplit y w hy).2] at hBack
  exact ⟨hFront, (List.cons.inj hBack).2⟩

/-- A word at the front is cut together with the slash behind it. -/
theorem cutGroup_word {run word : List Char} (hWord : ∀ c ∈ word, isWordChar c = true)
    (hSome : run ≠ [] ∨ word ≠ []) (rest : List Char) : cutGroup run (word ++ '/' :: rest) = rest := by
  induction word generalizing run with
  | nil =>
      have hRun : run ≠ [] := by simpa using hSome
      simp [cutGroup, hRun, isWordChar]
  | cons c more ih =>
      rw [List.forall_mem_cons] at hWord
      rw [List.cons_append, cutGroup, if_pos hWord.1]
      exact ih hWord.2 (Or.inl (List.cons_ne_nil _ _))

/-- If a text with a word and a slash at its end is the same text with a group and a slash at its front, then
the word is the group. -/
theorem eq_group_of_shifted {front word group : List Char} (hWord : '/' ∉ word) (hGroup : '/' ∉ group)
    (h : front ++ word ++ ['/'] = group ++ '/' :: front) : word = group := by
  by_cases hSlash : '/' ∈ front
  · -- The first slash of the text is that of the group, so the group can be taken off at both sides.
    obtain ⟨first, more, hFront, hFirst⟩ := List.eq_append_cons_of_mem hSlash
    have hAgain : first ++ '/' :: (more ++ word ++ ['/']) = group ++ '/' :: front := by
      rw [← h, hFront]
      simp
    obtain ⟨rfl, hRest⟩ := first_slash_unique hFirst hGroup hAgain
    rw [hFront] at hRest
    exact eq_group_of_shifted hWord hGroup hRest
  · have hPlain : '/' ∉ front ++ word := by simp [hSlash, hWord]
    obtain ⟨hSame, hNone⟩ := first_slash_unique hPlain hGroup h
    rwa [← hNone] at hSame
termination_by front.length
decreasing_by
  rw [hFront]
  simp
  omega

/-- `result` is what is left of an id without its group: the id itself if it has no slash, and otherwise
what follows the first slash. -/
structure DropsGroup (id result : String) : Prop where
  suffix : result.toList <:+ id.toList
  unqualified : '/' ∉ id.toList → result = id
  qualified : ∀ group rest, id.toList = group ++ '/' :: rest → '/' ∉ group → result.toList = rest

/-- The group of an id, if it has one, is a word of letters and digits. -/
def HasWordAsGroup (id : String) : Prop :=
  ∀ group rest, id.toList = group ++ '/' :: rest → '/' ∉ group →
    group ≠ [] ∧ ∀ c ∈ group, isWordChar c = true

theorem HasWordAsGroup.dropsGroup {id : String} (h : HasWordAsGroup id) :
    DropsGroup id (operationName id) := by
  have hQualified (group rest : List Char) (hSplit : id.toList = group ++ '/' :: rest)
      (hGroup : '/' ∉ group) : (operationName id).toList = rest := by
    obtain ⟨hSome, hWord⟩ := h group rest hSplit hGroup
    rw [operationName, String.toList_ofList, hSplit]
    exact cutGroup_word hWord (Or.inr hSome) rest
  by_cases hSlash : '/' ∈ id.toList
  · obtain ⟨group, rest, hSplit, hGroup⟩ := List.eq_append_cons_of_mem hSlash
    refine ⟨?_, fun hNone => absurd hSlash hNone, hQualified⟩
    rw [hQualified group rest hSplit hGroup, hSplit]
    exact ⟨group ++ ['/'], by simp⟩
  · have hSame : operationName id = id := by
      have hCut := operationName_cuts id
      generalize hLeft : (operationName id).toList = left at hCut
      cases hCut with
      | nothing => exact String.toList_inj.mp hLeft
      | word hFirst => exact absurd (by simp [hFirst.split]) hSlash
    exact ⟨by simp only [hSame, List.suffix_rfl], fun _ => hSame, hQualified⟩

theorem DropsGroup.hasWordAsGroup {id : String} (h : DropsGroup id (operationName id)) :
    HasWordAsGroup id := by
  intro group rest hSplit hGroup
  have hLeft := h.qualified group rest hSplit hGroup
  have hCut := operationName_cuts id
  rw [hLeft, hSplit] at hCut
  generalize hText : group ++ '/' :: rest = text at hCut
  cases hCut with
  | nothing =>
      have hLength := congrArg List.length hText
      rw [List.length_append, List.length_cons] at hLength
      omega
  | @word front word behind hFirst =>
      have hSame : front ++ word ++ ['/'] ++ behind = group ++ '/' :: front ++ behind := by
        simpa using (hText.trans hFirst.split).symm
      have hShifted := List.append_cancel_right hSame
      have hSlash : '/' ∉ word := slash_notMem_of_isWord hFirst.isWord
      obtain rfl := eq_group_of_shifted hSlash hGroup hShifted
      exact ⟨hFirst.word_ne_nil, hFirst.isWord⟩

/-- The group is dropped from an id exactly when it is a word, or there is none. In any case what is cut is
the first word with a slash behind it. -/
theorem group_dropped_iff (id : String) :
    (DropsGroup id (operationName id) ↔ HasWordAsGroup id) ∧
      CutAtFirst id.toList (operationName id).toList :=
  ⟨⟨DropsGroup.hasWordAsGroup, HasWordAsGroup.dropsGroup⟩, operationName_cuts id⟩

/-- Of a group with an underscore only the end is cut, in the middle of the id. -/
theorem group_cut_in_part : operationName "my_group/list" = "my_list" ∧
    ¬ DropsGroup "my_group/list" (operationName "my_group/list") := by
  have hName : operationName "my_group/list" = "my_list" := by decide +kernel
  refine ⟨hName, fun h => ?_⟩
  have hRest := h.qualified "my_group".toList "list".toList (by decide +kernel) (by decide +kernel)
  rw [hName] at hRest
  exact absurd hRest (by decide +kernel)

end ClientTypes.Naming
