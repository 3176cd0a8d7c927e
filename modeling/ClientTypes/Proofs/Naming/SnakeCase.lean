import ClientTypes.Naming.Spelling
import ClientTypes.Proofs.Naming.Words
import Mathlib

/-! Snake case. A name in upper snake case is its words joined by underscores, and the words can be read
back; so two texts have one name exactly when they have the same words. Which characters separate the
words, and which case they were written in, is lost. -/
namespace ClientTypes.Naming

open Text

/-! ### Raising letters -/

theorem toUpper_ne_underscore {c : Char} (h : isWordChar c = true) : c.toUpper ≠ '_' := by
  intro hIs
  have hWord := isWordChar_toUpper h
  rw [hIs] at hWord
  cases hWord

theorem toLower_ne_underscore {c : Char} (h : isWordChar c = true) : c.toLower ≠ '_' := by
  intro hIs
  have hRaised := Char.toUpper_toLower_eq_toUpper c
  rw [hIs] at hRaised
  exact toUpper_ne_underscore h hRaised.symm

/-! ### Words joined by underscores -/

/-- The words of a name in upper snake case: its words, cut also where the case changes. -/
def snakeWords (name : List Char) : List (List Char) :=
  (words (markBoundaries none name)).map (·.map Char.toUpper)

def joined (ws : List (List Char)) : List Char := ['_'].intercalate ws

/-- A list of words: none of them is empty, and none has an underscore in it. -/
def AreWords (ws : List (List Char)) : Prop := ∀ w ∈ ws, w ≠ [] ∧ '_' ∉ w

theorem areWords_map {f : Char → Char} (hf : ∀ c, isWordChar c = true → f c ≠ '_') (cs : List Char) :
    AreWords ((words cs).map (·.map f)) := by
  intro w hw
  obtain ⟨original, hOriginal, rfl⟩ := List.mem_map.mp hw
  obtain ⟨hSome, hChars⟩ := mem_wordsFrom (by simp) hOriginal
  refine ⟨by simpa using hSome, fun hMem => ?_⟩
  obtain ⟨c, hc, hIs⟩ := List.mem_map.mp hMem
  exact hf c (hChars c hc) hIs

theorem areWords_snakeWords (name : List Char) : AreWords (snakeWords name) :=
  areWords_map (fun _ hc => toUpper_ne_underscore hc) _

theorem joined_cons_cons (w v : List Char) (more : List (List Char)) :
    joined (w :: v :: more) = w ++ '_' :: joined (v :: more) := by
  simp [joined, List.intercalate_cons_cons]

theorem joined_ne_nil {ws : List (List Char)} (h : AreWords ws) (hSome : ws ≠ []) : joined ws ≠ [] := by
  cases ws with
  | nil => exact absurd rfl hSome
  | cons w more =>
      have hw := (h w (List.mem_cons_self ..)).1
      cases more with
      | nil => simpa [joined] using hw
      | cons v rest => simp [joined_cons_cons]

/-- The words can be read back from the text that joins them. -/
theorem joined_injective {ws vs : List (List Char)} (h : AreWords ws) (h' : AreWords vs)
    (hSame : joined ws = joined vs) : ws = vs := by
  have hBack (us : List (List Char)) (hWords : AreWords us) (hSome : us ≠ []) :
      (joined us).splitOn '_' = us :=
    List.splitOn_intercalate '_' (fun w hw => (hWords w hw).2) hSome
  by_cases hNone : ws = []
  · by_contra hOther
    have hSome : vs ≠ [] := fun hEmpty => hOther (hNone.trans hEmpty.symm)
    exact joined_ne_nil h' hSome (by rw [← hSame, hNone]; rfl)
  · have hSome : vs ≠ [] := by
      rintro rfl
      exact joined_ne_nil h hNone hSame
    rw [← hBack ws h hNone, hSame, hBack vs h' hSome]

theorem map_joined {f : Char → Char} (hf : f '_' = '_') (ws : List (List Char)) :
    (joined ws).map f = joined (ws.map (·.map f)) := by
  induction ws with
  | nil => rfl
  | cons w more ih =>
      cases more with
      | nil => simp [joined]
      | cons v rest =>
          rw [joined_cons_cons, List.map_append, List.map_cons, hf, ih]
          simp [joined_cons_cons]

/-! ### What stands at the ends -/

/-- One underscore, or nothing. -/
def IsMargin (cs : List Char) : Prop := cs = [] ∨ cs = ['_']

theorem dropWhile_margin {margin : List Char} (h : IsMargin margin) {c : Char} (hc : c ≠ '_')
    (rest : List Char) : (margin ++ c :: rest).dropWhile (· == '_') = c :: rest := by
  rcases h with rfl | rfl <;> simp [hc]

theorem joined_head {ws : List (List Char)} (h : AreWords ws) {c : Char} {rest : List Char}
    (hSplit : joined ws = c :: rest) : c ≠ '_' := by
  cases ws with
  | nil => cases hSplit
  | cons w more =>
      obtain ⟨hSome, hPlain⟩ := h w (List.mem_cons_self ..)
      obtain ⟨d, ds, rfl⟩ := List.exists_cons_of_ne_nil hSome
      have hd : d = c := by
        cases more with
        | nil => simp_all [joined]
        | cons v others =>
            rw [joined_cons_cons] at hSplit
            exact (List.cons.inj hSplit).1
      rw [← hd]
      exact fun hIs => hPlain (by simp [hIs])

theorem joined_last {ws : List (List Char)} (h : AreWords ws) {c : Char} {rest : List Char}
    (hSplit : (joined ws).reverse = c :: rest) : c ≠ '_' := by
  induction ws generalizing rest with
  | nil => cases hSplit
  | cons w more ih =>
      cases more with
      | nil =>
          have hMem : c ∈ w := by
            have hReversed : c ∈ (joined [w]).reverse := hSplit ▸ List.mem_cons_self ..
            simpa [joined] using hReversed
          exact fun hIs => (h w (List.mem_cons_self ..)).2 (hIs ▸ hMem)
      | cons v others =>
          have hRest : AreWords (v :: others) := fun u hu => h u (List.mem_cons_of_mem _ hu)
          have hSome : (joined (v :: others)).reverse ≠ [] := by
            simpa using joined_ne_nil hRest (List.cons_ne_nil _ _)
          obtain ⟨d, ds, hLast⟩ := List.exists_cons_of_ne_nil hSome
          have hd : d = c := by
            rw [joined_cons_cons, List.reverse_append, List.reverse_cons, hLast] at hSplit
            exact (List.cons.inj hSplit).1
          rw [hd] at hLast
          exact ih hRest hLast

/-- Words joined by underscores are what is left when the margins are cut. -/
theorem trimBoth_joined {front back : List Char} {ws : List (List Char)} (hWords : AreWords ws)
    (hFront : IsMargin front) (hBack : IsMargin back) (hNone : ws = [] → back = []) :
    trimBoth (· == '_') (front ++ joined ws ++ back) = joined ws := by
  by_cases hEmpty : ws = []
  · rw [hNone hEmpty, hEmpty]
    rcases hFront with rfl | rfl <;> rfl
  · obtain ⟨c, rest, hHead⟩ := List.exists_cons_of_ne_nil (joined_ne_nil hWords hEmpty)
    obtain ⟨d, before, hLast⟩ : ∃ d before, (joined ws).reverse = d :: before :=
      List.exists_cons_of_ne_nil (by simpa using joined_ne_nil hWords hEmpty)
    have hStart : trimStart (· == '_') (front ++ joined ws ++ back) = joined ws ++ back := by
      rw [trimStart, hHead, List.append_assoc]
      exact dropWhile_margin hFront (joined_head hWords hHead) _
    have hMargin : IsMargin back.reverse := by
      rcases hBack with rfl | rfl
      · exact Or.inl rfl
      · exact Or.inr rfl
    rw [trimBoth, hStart, trimEnd, List.reverse_append, hLast,
      dropWhile_margin hMargin (joined_last hWords hLast), ← hLast, List.reverse_reverse]

/-! ### Snake case by words -/

theorem wordsFrom_ne_nil {word : List Char} (h : word ≠ []) (cs : List Char) : wordsFrom word cs ≠ [] := by
  induction cs generalizing word with
  | nil => simp [wordsFrom, h]
  | cons c rest ih =>
      unfold wordsFrom
      split_ifs
      · exact ih (List.cons_ne_nil _ _)
      · exact List.cons_ne_nil _ _

/-- Replacing runs of separators leaves the words, with one underscore between two of them. The first
claim is about a text after a word that is being read, the second one about a text after a separator. -/
theorem joinRuns_words (cs : List Char) :
    (∀ word ≠ [], ∃ back, IsMargin back ∧
      word.reverse ++ joinRuns false cs = joined (wordsFrom word cs) ++ back) ∧
    ∃ back, IsMargin back ∧ (wordsFrom [] cs = [] → back = []) ∧
      joinRuns true cs = joined (wordsFrom [] cs) ++ back := by
  induction cs with
  | nil =>
      refine ⟨fun word hWord => ⟨[], Or.inl rfl, ?_⟩, [], Or.inl rfl, fun _ => rfl, ?_⟩
      · simp [joinRuns, wordsFrom, hWord, joined]
      · simp [joinRuns, wordsFrom, joined]
  | cons c rest ih =>
      obtain ⟨ihWord, back, hBack, hNone, ihRun⟩ := ih
      by_cases hc : isWordChar c = true
      · refine ⟨fun word hWord => ?_, ?_⟩
        · obtain ⟨back', hBack', hEq⟩ := ihWord (c :: word) (List.cons_ne_nil _ _)
          exact ⟨back', hBack', by simpa [joinRuns, wordsFrom, hc] using hEq⟩
        · obtain ⟨back', hBack', hEq⟩ := ihWord [c] (List.cons_ne_nil _ _)
          have hSome := wordsFrom_ne_nil (List.cons_ne_nil c []) rest
          exact ⟨back', hBack', by simp [wordsFrom, hc, hSome],
            by simpa [joinRuns, wordsFrom, hc] using hEq⟩
      · refine ⟨fun word hWord => ?_, back, hBack, ?_, ?_⟩
        · cases hWords : wordsFrom [] rest with
          | nil =>
              rw [hWords, hNone hWords] at ihRun
              exact ⟨['_'], Or.inr rfl, by simp [joinRuns, wordsFrom, hc, hWord, hWords, ihRun, joined]⟩
          | cons w more =>
              rw [hWords] at ihRun
              exact ⟨back, hBack, by simp [joinRuns, wordsFrom, hc, hWord, hWords, ihRun, joined_cons_cons]⟩
        · simpa [wordsFrom, hc] using hNone
        · simpa [joinRuns, wordsFrom, hc] using ihRun

/-- A whole name: its words joined, between two margins. -/
theorem joinRuns_eq_words (cs : List Char) : ∃ front back, IsMargin front ∧ IsMargin back ∧
    (words cs = [] → back = []) ∧ joinRuns false cs = front ++ joined (words cs) ++ back := by
  cases cs with
  | nil => exact ⟨[], [], Or.inl rfl, Or.inl rfl, fun _ => rfl, rfl⟩
  | cons c rest =>
      obtain ⟨hWord, back, hBack, hNone, hRun⟩ := joinRuns_words rest
      by_cases hc : isWordChar c = true
      · obtain ⟨back', hBack', hEq⟩ := hWord [c] (List.cons_ne_nil _ _)
        have hSome := wordsFrom_ne_nil (List.cons_ne_nil c []) rest
        exact ⟨[], back', Or.inl rfl, hBack', by simp [words, wordsFrom, hc, hSome],
          by simpa [joinRuns, words, wordsFrom, hc] using hEq⟩
      · exact ⟨['_'], back, Or.inr rfl, hBack, by simpa [words, wordsFrom, hc] using hNone,
          by simp [joinRuns, words, wordsFrom, hc, hRun]⟩

/-- Upper snake case joins the words. -/
theorem upperSnakeChars_eq (name : List Char) : upperSnakeChars name = joined (snakeWords name) := by
  obtain ⟨front, back, hFront, hBack, hNone, hRuns⟩ := joinRuns_eq_words (markBoundaries none name)
  have hMargin {margin : List Char} (h : IsMargin margin) : IsMargin (margin.map Char.toLower) := by
    rcases h with rfl | rfl
    · exact Or.inl rfl
    · exact Or.inr rfl
  have hLowered : AreWords ((words (markBoundaries none name)).map (·.map Char.toLower)) :=
    areWords_map (fun _ hc => toLower_ne_underscore hc) _
  rw [upperSnakeChars, bareSnakeChars, snakeChars, hRuns, List.map_append, List.map_append,
    map_joined rfl, trimBoth_joined hLowered (hMargin hFront) (hMargin hBack) (by simpa using hNone),
    map_joined rfl, List.map_map, snakeWords]
  congr 1
  apply List.map_congr_left
  intro w _
  simp [Function.comp_def]

/-! ### Names with the same words -/

/-- Two texts have the same name in upper snake case exactly when they have the same words. -/
theorem upperSnake_eq_iff {a b : String} :
    upperSnake a = upperSnake b ↔ snakeWords a.toList = snakeWords b.toList := by
  rw [upperSnake, upperSnake, String.ofList_inj, upperSnakeChars_eq, upperSnakeChars_eq]
  exact ⟨joined_injective (areWords_snakeWords _) (areWords_snakeWords _), congrArg joined⟩

/-- The words that the member of an enumeration is named by. A text without words counts as `EMPTY`. -/
def memberWords (text : String) : List (List Char) :=
  if snakeWords text.toList = [] then ["EMPTY".toList] else snakeWords text.toList

theorem areWords_memberWords (text : String) : AreWords (memberWords text) := by
  unfold memberWords
  split
  · simp [AreWords]
  · exact areWords_snakeWords _

/-- Put an underscore before a leading digit. -/
def guarded (name : List Char) : List Char := if startsWithDigit name then '_' :: name else name

theorem memberName_eq (text : String) :
    memberName text = String.ofList (guarded (joined (memberWords text))) := by
  unfold memberName memberWords guarded
  rw [upperSnakeChars_eq]
  by_cases hNone : snakeWords text.toList = []
  · simp only [hNone, if_true]
    rfl
  · have hSome := joined_ne_nil (areWords_snakeWords text.toList) hNone
    simp only [hNone, hSome, if_false]
    split_ifs
    · rw [String.ofList_cons]
      rfl
    · rfl

/-- A name does not begin with an underscore of its own, so a guarded one is told apart. -/
theorem guarded_injective {ws vs : List (List Char)} (h : AreWords ws) (h' : AreWords vs)
    (hSame : guarded (joined ws) = guarded (joined vs)) : joined ws = joined vs := by
  unfold guarded at hSame
  split_ifs at hSame with hDigit hDigit' hDigit'
  · exact (List.cons.inj hSame).2
  · exact absurd rfl (joined_head h' hSame.symm)
  · exact absurd rfl (joined_head h hSame)
  · exact hSame

/-- Two texts name the same member exactly when they have the same words. -/
theorem memberName_eq_iff {a b : String} : memberName a = memberName b ↔ memberWords a = memberWords b := by
  rw [memberName_eq, memberName_eq, String.ofList_inj]
  refine ⟨fun hSame => ?_, fun hSame => by rw [hSame]⟩
  have hWords := areWords_memberWords a
  have hWords' := areWords_memberWords b
  exact joined_injective hWords hWords' (guarded_injective hWords hWords' hSame)

end ClientTypes.Naming
