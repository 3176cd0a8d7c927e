import ClientTypes.Document.Hoisting
import Mathlib.Data.List.Count
import Mathlib.Data.List.Nodup

/-! The numbered names of inline schemas. Bodies are counted together and responses
for each code, so a schema is named by its origin and by how many schemas of that
origin come before it. Two such names agree only where a code already ends with the
number that another code is given. -/
namespace ClientTypes.Document

/-- What an inline schema describes. -/
inductive Origin where
  | body
  | response (code : String)
deriving DecidableEq

/-- An origin, and the number of schemas of that origin that were named before. -/
structure Place where
  origin : Origin
  earlier : Nat
deriving DecidableEq

def Place.name : Place → String
  | ⟨.body, n⟩ => bodyName (n + 1)
  | ⟨.response code, n⟩ => responseName code n

/-- The places of schemas in order, when schemas of some origins were named before. -/
def placesFrom (named : List Origin) : List Origin → List Place
  | [] => []
  | o :: rest => ⟨o, named.count o⟩ :: placesFrom (named ++ [o]) rest

def places (origins : List Origin) : List Place := placesFrom [] origins

theorem placesFrom_append (named origins more : List Origin) :
    placesFrom named (origins ++ more) =
      placesFrom named origins ++ placesFrom (named ++ origins) more := by
  induction origins generalizing named with
  | nil => simp [placesFrom]
  | cons o rest ih => simp [placesFrom, ih]

theorem places_append_singleton (origins : List Origin) (o : Origin) :
    places (origins ++ [o]) = places origins ++ [⟨o, origins.count o⟩] := by
  simp [places, placesFrom_append, placesFrom]

theorem mem_placesFrom {named origins : List Origin} {p : Place} :
    p ∈ placesFrom named origins ↔
      named.count p.origin ≤ p.earlier ∧
        p.earlier < named.count p.origin + origins.count p.origin := by
  induction origins generalizing named with
  | nil => simp [placesFrom]
  | cons o rest ih =>
      obtain ⟨own, n⟩ := p
      rw [placesFrom, List.mem_cons, ih]
      by_cases h : own = o
      · subst h
        simp only [Place.mk.injEq, true_and, List.count_append, List.count_cons_self,
          List.count_nil]
        omega
      · have hOther : List.count own [o] = 0 := by simp [Ne.symm h]
        simp [h, hOther, List.count_cons_of_ne (Ne.symm h)]

theorem mem_places {origins : List Origin} {p : Place} :
    p ∈ places origins ↔ p.earlier < origins.count p.origin := by
  simp [places, mem_placesFrom]

theorem nodup_placesFrom (named origins : List Origin) : (placesFrom named origins).Nodup := by
  induction origins generalizing named with
  | nil => simp [placesFrom]
  | cons o rest ih =>
      refine List.nodup_cons.mpr ⟨fun hAgain => ?_, ih _⟩
      have hLater := (mem_placesFrom.mp hAgain).1
      simp only [List.count_append, List.count_singleton_self] at hLater
      omega

theorem nodup_places (origins : List Origin) : (places origins).Nodup := nodup_placesFrom [] origins

/-! ### When two names agree -/

theorem toList_number (n : Nat) : (toString n).toList = Nat.toDigits 10 n := by simp

theorem number_inj {n n' : Nat} (h : toString n = toString n') : n = n' := by
  have hDigits := congrArg String.toList h
  rw [toList_number, toList_number] at hDigits
  simpa using congrArg (Nat.ofDigitChars 10 · 0) hDigits

theorem underscore_not_mem_number (n : Nat) : '_' ∉ (toString n).toList := by
  intro h
  rw [toList_number] at h
  exact absurd (Nat.isDigit_of_mem_toDigits (by decide) (by decide) h) (by decide)

/-- A text is cut at its last underscore in only one way. -/
theorem cut_inj {front front' back back' : List Char}
    (h : front ++ '_' :: back = front' ++ '_' :: back') (hBack : '_' ∉ back) (hBack' : '_' ∉ back') :
    front = front' ∧ back = back' := by
  rcases List.append_eq_append_iff.mp h with ⟨more, rfl, hRest⟩ | ⟨more, rfl, hRest⟩
  all_goals
    cases more with
    | nil => simp_all
    | cons c more =>
        rw [List.cons_append, List.cons.injEq] at hRest
        simp [hRest.2] at hBack hBack'

theorem numbered_inj {code code' : String} {n n' : Nat}
    (h : code ++ "_" ++ toString n = code' ++ "_" ++ toString n') : code = code' ∧ n = n' := by
  have hChars : code.toList ++ '_' :: (toString n).toList =
      code'.toList ++ '_' :: (toString n').toList := by
    simpa [String.toList_append] using congrArg String.toList h
  obtain ⟨hCode, hNumber⟩ :=
    cut_inj hChars (underscore_not_mem_number n) (underscore_not_mem_number n')
  exact ⟨String.toList_injective hCode, number_inj (String.toList_injective hNumber)⟩

theorem bodyName_ne_responseName (number : Nat) (code : String) (count : Nat) :
    bodyName number ≠ responseName code count := by
  intro h
  have hChars := congrArg String.toList h
  unfold bodyName responseName at hChars
  split at hChars <;> simp [String.toList_append] at hChars

/-- A code as it stands in the name of a response: the first response of a code is named by
the code alone, and each further one by the code with a number behind it. -/
def codeWith (code : String) : Nat → String
  | 0 => code
  | n + 1 => code ++ "_" ++ toString (n + 1)

theorem responseName_eq (code : String) (count : Nat) :
    responseName code count = "inline_response_" ++ codeWith code count := by
  cases count with
  | zero => rfl
  | succ n => simp [responseName, codeWith, String.append_assoc]

/-- The second place is the first one of a code that ends with the number of the other. -/
def Collides (p q : Place) : Prop :=
  ∃ code, p.origin = .response code ∧ 0 < p.earlier ∧
    q = ⟨.response (codeWith code p.earlier), 0⟩

theorem codeWith_eq_iff {code code' : String} {n n' : Nat} :
    codeWith code n = codeWith code' n' ↔ (code = code' ∧ n = n') ∨
      (0 < n ∧ n' = 0 ∧ code' = codeWith code n) ∨ (0 < n' ∧ n = 0 ∧ code = codeWith code' n') := by
  cases n with
  | zero =>
      cases n' with
      | zero => simp [codeWith]
      | succ k' => simp [codeWith]
  | succ k =>
      cases n' with
      | zero => simp [codeWith, eq_comm]
      | succ k' =>
          have hBoth : codeWith code (k + 1) = codeWith code' (k' + 1) ↔ code = code' ∧ k + 1 = k' + 1 :=
            ⟨numbered_inj, fun h => by rw [h.1, h.2]⟩
          simp [hBoth]

/-- Two places have one name only when they are one, or when the code of one ends with the
number of the other. -/
theorem Place.name_eq_iff {p q : Place} :
    p.name = q.name ↔ p = q ∨ Collides p q ∨ Collides q p := by
  obtain ⟨origin, n⟩ := p
  obtain ⟨origin', n'⟩ := q
  cases origin with
  | body =>
      cases origin' with
      | body =>
          have hNumber : bodyName (n + 1) = bodyName (n' + 1) ↔ n = n' :=
            ⟨fun h => Nat.succ.inj (number_inj ((String.append_right_inj _).mp h)),
              fun h => h ▸ rfl⟩
          simp [Place.name, Collides, hNumber]
      | response code => simp [Place.name, bodyName_ne_responseName, Collides]
  | response code =>
      cases origin' with
      | body => simp [Place.name, (bodyName_ne_responseName _ _ _).symm, Collides]
      | response code' =>
          have hName : responseName code n = responseName code' n' ↔
              codeWith code n = codeWith code' n' := by
            rw [responseName_eq, responseName_eq, String.append_right_inj]
          simp only [Place.name, hName, codeWith_eq_iff, Collides, Place.mk.injEq, Origin.response.injEq]
          grind

/-- No response has a code that ends with the number of a further response of another code. -/
def CodesApart (origins : List Origin) : Prop :=
  ∀ code n, 0 < n → n < origins.count (.response code) → .response (codeWith code n) ∉ origins

theorem codesApart_iff {origins : List Origin} :
    CodesApart origins ↔ ∀ p ∈ places origins, ∀ q ∈ places origins, ¬ Collides p q := by
  constructor
  · rintro hApart ⟨origin, n⟩ hp q hq ⟨code, rfl, hn, rfl⟩
    exact hApart code n hn (mem_places.mp hp) (List.count_pos_iff.mp (mem_places.mp hq))
  · intro hNone code n hn hCount hMem
    exact hNone ⟨.response code, n⟩ (mem_places.mpr hCount) ⟨.response (codeWith code n), 0⟩
      (mem_places.mpr (List.count_pos_iff.mpr hMem)) ⟨code, rfl, hn, rfl⟩

/-- The names of schemas are distinct exactly when their codes are apart. -/
theorem nodup_names_iff {origins : List Origin} :
    ((places origins).map Place.name).Nodup ↔ CodesApart origins := by
  rw [codesApart_iff, List.nodup_map_iff_inj_on (nodup_places origins)]
  constructor
  · rintro hInj p hp q hq ⟨code, hOrigin, hEarlier, rfl⟩
    have hSame := hInj p hp _ hq (Place.name_eq_iff.mpr (Or.inr (Or.inl ⟨code, hOrigin, hEarlier, rfl⟩)))
    rw [hSame] at hEarlier
    exact absurd hEarlier (Nat.lt_irrefl 0)
  · intro hNone p hp q hq hName
    rcases Place.name_eq_iff.mp hName with hSame | hCollides | hCollides
    · exact hSame
    · exact absurd hCollides (hNone p hp q hq)
    · exact absurd hCollides (hNone q hq p hp)

instance (origins : List Origin) : Decidable (CodesApart origins) :=
  decidable_of_iff _ nodup_names_iff

example : CodesApart [.response "200", .body, .response "200", .response "201"] := by decide +kernel

example : ¬ CodesApart [.response "200", .response "200", .response "200_1"] := by decide +kernel

end ClientTypes.Document
