import ResourceTables.Proofs.Identifier.Words

/-!
# Words apart

What is known of a name when its words have been parted. A small letter or digit stays, and a
capital behind one is parted from it, so the result has no capitals, and a result without any
underscore comes from a name whose capitals all stand in front of its small letters. A name that a
module can spell is spelled in words apart, too, unless a reserved word comes out.

## Main definitions

* `RaisesReserved`: a reserved word, with capitals in front.

## Main results

* `partWords_cons_cases`: what one character of a name turns into.
* `partWords_eq_small_iff`: when the result is a word of small letters.
* `isIdentifier_snakeCase_iff`: when the result can be spelled.
-/

namespace ResourceTables

open Text

/-- A small letter or a digit, from which a capital behind it is parted. -/
def isSmall (c : Char) : Bool :=
  c.isLower || c.isDigit

variable {c : Char} {small word text : List Char}

theorem isSmall_of_isLower (h : c.isLower = true) : isSmall c = true := by
  rw [isSmall, h, Bool.true_or]

theorem isAlphanum_of_isSmall (h : isSmall c = true) : c.isAlphanum = true := by
  rw [isSmall, Bool.or_eq_true] at h
  exact isAlphanum_iff.mpr (.inr h)

theorem isUpper_of_isSmall (h : isSmall c = true) : c.isUpper = false := by
  rw [isSmall, Bool.or_eq_true, isLower_eq_true_iff, isDigit_eq_true_iff] at h
  rw [Bool.eq_false_iff, ne_eq, isUpper_eq_true_iff]
  omega

/-! ## One character -/

/-- A capital becomes small, behind an underscore if it is parted from what is in front of it; a
dash or space becomes an underscore; and any other character stays. -/
theorem partWords_cons_cases (afterSmall : Bool) (c : Char) (rest : List Char) :
    (c.isUpper = true ∧ partWords afterSmall (c :: rest) =
      (if afterSmall then ['_'] else []) ++ c.toLower :: partWords false rest) ∨
    ((c = '-' ∨ c = ' ') ∧ partWords afterSmall (c :: rest) = '_' :: partWords false rest) ∨
    (c.isUpper = false ∧ c ≠ '-' ∧ c ≠ ' ' ∧
      partWords afterSmall (c :: rest) = c :: partWords (isSmall c) rest) := by
  rw [partWords]
  split
  · next hUpper =>
    refine .inl ⟨hUpper, ?_⟩
    cases afterSmall <;> rfl
  · next hUpper =>
    rw [Bool.not_eq_true] at hUpper
    split
    · next hBreak => exact .inr (.inl ⟨by simpa using hBreak, rfl⟩)
    · next hBreak =>
      simp only [Bool.or_eq_true, decide_eq_true_eq, not_or] at hBreak
      exact .inr (.inr ⟨hUpper, hBreak.1, hBreak.2, rfl⟩)

theorem partWords_capital (h : c.isUpper = true) (afterSmall : Bool) (rest : List Char) :
    partWords afterSmall (c :: rest) =
      (if afterSmall then ['_'] else []) ++ c.toLower :: partWords false rest := by
  rcases partWords_cons_cases afterSmall c rest with ⟨-, hStep⟩ | ⟨hBreak, -⟩ | ⟨hUpper, -⟩
  · exact hStep
  · rcases hBreak with rfl | rfl <;> cases h
  · rw [h] at hUpper
    cases hUpper

theorem partWords_cons_small (h : isSmall c = true) (afterSmall : Bool) (rest : List Char) :
    partWords afterSmall (c :: rest) = c :: partWords true rest := by
  rcases partWords_cons_cases afterSmall c rest with ⟨hUpper, -⟩ | ⟨hBreak, -⟩ | ⟨-, -, -, hStep⟩
  · rw [isUpper_of_isSmall h] at hUpper
    cases hUpper
  · rcases hBreak with rfl | rfl <;> cases h
  · rw [hStep, h]

/-! ## Words -/

/-- Small letters and digits stay as they are. -/
theorem partWords_small_append (h : ∀ c ∈ small, isSmall c = true) (rest : List Char) :
    partWords true (small ++ rest) = small ++ partWords true rest := by
  induction small with
  | nil => rfl
  | cons c small ih =>
    obtain ⟨hc, hSmall⟩ := List.forall_mem_cons.mp h
    rw [List.cons_append, partWords_cons_small hc, ih hSmall, List.cons_append]

theorem partWords_small (h : ∀ c ∈ small, isSmall c = true) (afterSmall : Bool) :
    partWords afterSmall small = small := by
  cases small with
  | nil => rfl
  | cons c small =>
    obtain ⟨hc, hSmall⟩ := List.forall_mem_cons.mp h
    have hRest := partWords_small_append hSmall []
    rw [List.append_nil, partWords, List.append_nil] at hRest
    rw [partWords_cons_small hc, hRest]

/-- Capitals in a row are not parted from each other. -/
theorem partWords_capitals (h : ∀ c ∈ word, c.isLower = true) (rest : List Char) :
    partWords false (word.map Char.toUpper ++ rest) = word ++ partWords false rest := by
  induction word with
  | nil => rfl
  | cons c word ih =>
    obtain ⟨hc, hWord⟩ := List.forall_mem_cons.mp h
    have hSame : c.toUpper.toLower = c := by
      rw [toLower_toUpper, toLower_of_isUpper_eq_false (isUpper_of_isSmall (isSmall_of_isLower hc))]
    rw [List.map_cons, List.cons_append, partWords_capital (isUpper_toUpper hc), hSame, ih hWord]
    rfl

theorem partWords_eq_nil_iff {afterSmall : Bool} : partWords afterSmall text = [] ↔ text = [] := by
  cases text with
  | nil => simp [partWords]
  | cons c rest =>
    rcases partWords_cons_cases afterSmall c rest with
      ⟨-, hStep⟩ | ⟨-, hStep⟩ | ⟨-, -, -, hStep⟩ <;> simp [hStep]

/-- No capital is left when words are parted. -/
theorem isUpper_of_mem_partWords {afterSmall : Bool} (h : c ∈ partWords afterSmall text) :
    c.isUpper = false := by
  induction text generalizing afterSmall with
  | nil => cases h
  | cons first rest ih =>
    rcases partWords_cons_cases afterSmall first rest with
      ⟨hUpper, hStep⟩ | ⟨-, hStep⟩ | ⟨hUpper, -, -, hStep⟩ <;> rw [hStep] at h
    · rcases List.mem_append.mp h with hBreak | hRest
      · split at hBreak
        · rw [List.mem_singleton.mp hBreak]
          rfl
        · cases hBreak
      · rcases List.mem_cons.mp hRest with rfl | hRest
        · exact isUpper_toLower first
        · exact ih hRest
    · rcases List.mem_cons.mp h with rfl | hRest
      · rfl
      · exact ih hRest
    · rcases List.mem_cons.mp h with rfl | hRest
      · exact hUpper
      · exact ih hRest

/-! ## Words of small letters -/

/-- Behind a small letter a capital would be parted, so a result without underscores is the name. -/
theorem partWords_true_eq_small_iff (hWord : ∀ c ∈ word, c.isLower = true) :
    partWords true text = word ↔ text = word := by
  constructor
  · intro h
    induction text generalizing word with
    | nil => exact h
    | cons c rest ih =>
      rcases partWords_cons_cases true c rest with
        ⟨-, hStep⟩ | ⟨-, hStep⟩ | ⟨-, -, -, hStep⟩ <;> rw [hStep] at h <;> subst h
      · cases hWord '_' List.mem_cons_self
      · cases hWord '_' List.mem_cons_self
      · obtain ⟨hc, hRest⟩ := List.forall_mem_cons.mp hWord
        rw [isSmall_of_isLower hc] at hRest ⊢
        rw [← ih hRest rfl]
  · rintro rfl
    exact partWords_small (fun c hc => isSmall_of_isLower (hWord c hc)) true

/-- A word of small letters comes from itself with letters raised from the front on. -/
theorem partWords_eq_small_iff (hWord : ∀ c ∈ word, c.isLower = true) :
    partWords false text = word ↔
      ∃ capitals small, word = capitals ++ small ∧ text = capitals.map Char.toUpper ++ small := by
  constructor
  · intro h
    induction text generalizing word with
    | nil => exact ⟨[], [], h.symm, rfl⟩
    | cons c rest ih =>
      rcases partWords_cons_cases false c rest with
        ⟨hUpper, hStep⟩ | ⟨-, hStep⟩ | ⟨-, -, -, hStep⟩ <;> rw [hStep] at h <;> subst h
      · obtain ⟨capitals, small, hSplit, rfl⟩ := ih (List.forall_mem_cons.mp hWord).2 rfl
        refine ⟨c.toLower :: capitals, small, ?_, ?_⟩
        · rw [hSplit]
          rfl
        · rw [List.map_cons, toUpper_toLower hUpper, List.cons_append]
      -- An underscore is no small letter, and behind a small letter nothing was raised.
      · cases hWord '_' List.mem_cons_self
      · obtain ⟨hc, hRest⟩ := List.forall_mem_cons.mp hWord
        rw [isSmall_of_isLower hc] at hRest ⊢
        obtain hSame := (partWords_true_eq_small_iff hRest).mp rfl
        exact ⟨[], c :: rest, by rw [← hSame]; rfl, rfl⟩
  · rintro ⟨capitals, small, rfl, rfl⟩
    obtain ⟨hCapitals, hSmall⟩ := List.forall_mem_append.mp hWord
    rw [partWords_capitals hCapitals,
      partWords_small (fun c hc => isSmall_of_isLower (hSmall c hc))]

/-! ## Identifiers -/

/-- The name is a reserved word with some letters raised, from the front on: all of them, or only
the first, or none. -/
def RaisesReserved (name : String) : Prop :=
  ∃ word ∈ reservedWords, ∃ count ≤ word.toList.length,
    name.toList = (word.toList.take count).map Char.toUpper ++ word.toList.drop count

instance (name : String) : Decidable (RaisesReserved name) :=
  inferInstanceAs (Decidable (∃ word ∈ reservedWords, ∃ count ≤ word.toList.length,
    name.toList = (word.toList.take count).map Char.toUpper ++ word.toList.drop count))

/-- The reserved words are words of small letters, but for one. -/
theorem reservedWords_small : ∀ word ∈ reservedWords, word ≠ "Self" →
    word.toList.all Char.isLower = true := by
  have hAll : reservedWords.all (fun word => word == "Self" || word.toList.all Char.isLower) =
      true := by
    decide
  simpa [or_iff_not_imp_left] using hAll

/-- The word with a capital is raised from one without. -/
theorem self_raised : ∀ count ≤ "Self".toList.length, count ≠ 0 →
    ("Self".toList.take count).map Char.toUpper ++ "Self".toList.drop count =
      ("self".toList.take count).map Char.toUpper ++ "self".toList.drop count := by
  decide

/-- A reserved word comes out of a name that can be spelled exactly if the name raises one. -/
theorem snakeCase_mem_reservedWords_iff {name : String} (h : isIdentifier name = true) :
    snakeCase name ∈ reservedWords ↔ RaisesReserved name := by
  constructor
  · intro hReserved
    by_cases hSelf : snakeCase name = "Self"
    · have hCapital : 'S' ∈ (snakeCase name).toList := by
        rw [hSelf]
        decide
      rw [snakeCase, String.toList_ofList] at hCapital
      cases isUpper_of_mem_partWords hCapital
    · have hWord : partWords false name.toList = (snakeCase name).toList := by
        rw [snakeCase, String.toList_ofList]
      have hSmall := List.all_eq_true.mp (reservedWords_small _ hReserved hSelf)
      obtain ⟨capitals, small, hSplit, hName⟩ := (partWords_eq_small_iff hSmall).mp hWord
      refine ⟨snakeCase name, hReserved, capitals.length, ?_, ?_⟩
      · rw [hSplit, List.length_append]
        exact Nat.le_add_right _ _
      · rw [hSplit, List.take_left, List.drop_left, hName]
  · have hRaised : ∀ word ∈ reservedWords, word ≠ "Self" →
        ∀ count, name.toList = (word.toList.take count).map Char.toUpper ++ word.toList.drop count →
          snakeCase name ∈ reservedWords := by
      intro word hReserved hSelf count hName
      have hSmall := List.all_eq_true.mp (reservedWords_small word hReserved hSelf)
      have hWord := (partWords_eq_small_iff hSmall).mpr
        ⟨_, _, (List.take_append_drop count word.toList).symm, hName⟩
      rwa [snakeCase, hWord, String.ofList_toList]
    rintro ⟨word, hReserved, count, hCount, hName⟩
    by_cases hSelf : word = "Self"
    · subst hSelf
      -- The name cannot be the reserved word itself, so its first letter has been raised.
      have hCapitals : count ≠ 0 := by
        rintro rfl
        obtain rfl : name = "Self" := String.toList_inj.mp hName
        revert h
        decide
      rw [self_raised count hCount hCapitals] at hName
      exact hRaised "self" (by simp [reservedWords]) (by decide) count hName
    · exact hRaised word hReserved hSelf count hName

theorem isIdentifier_iff_of_toList {name : String} {rest : List Char}
    (h : name.toList = c :: rest) :
    isIdentifier name = true ↔
      isWordStart c = true ∧ (∀ d ∈ rest, isWordPart d = true) ∧ name ≠ "_" ∧
        name ∉ reservedWords := by
  rw [isIdentifier, h]
  simp [and_assoc]

/-- The first character stays one that an identifier may begin with. -/
theorem exists_partWords_eq_cons (h : isWordStart c = true) (rest : List Char) :
    ∃ first more afterSmall, partWords false (c :: rest) = first :: more ∧
      more = partWords afterSmall rest ∧ isWordStart first = true ∧ (first = '_' → c = '_') := by
  rcases partWords_cons_cases false c rest with
    ⟨hUpper, hStep⟩ | ⟨hBreak, -⟩ | ⟨-, -, -, hStep⟩
  · have hLower := isLower_toLower hUpper
    refine ⟨c.toLower, _, false, hStep, rfl, ?_, ?_⟩
    · rw [isWordStart, isAlpha_iff.mpr (.inr hLower), Bool.or_true]
    · intro hMark
      rw [hMark] at hLower
      cases hLower
  · rcases hBreak with rfl | rfl <;> cases h
  · exact ⟨c, _, isSmall c, hStep, rfl, h, id⟩

/-- Parted words of an identifier can be spelled, unless they are a reserved word. -/
theorem isIdentifier_snakeCase_iff {name : String} (h : isIdentifier name = true) :
    isIdentifier (snakeCase name) = true ↔ ¬RaisesReserved name := by
  obtain ⟨c, rest, hName⟩ : ∃ c rest, name.toList = c :: rest := by
    refine List.exists_cons_of_ne_nil fun hNone => ?_
    rw [isIdentifier, hNone] at h
    cases h
  obtain ⟨hStart, -, hMark, -⟩ := (isIdentifier_iff_of_toList hName).mp h
  obtain ⟨first, more, afterSmall, hParted, hMore, hFirst, hSame⟩ :=
    exists_partWords_eq_cons hStart rest
  have hSnake : (snakeCase name).toList = first :: more := by
    rw [snakeCase, String.toList_ofList, hName, hParted]
  have hParts : ∀ d ∈ more, isWordPart d = true := by
    intro d hd
    by_contra hPart
    refine notMem_snakeCase h (eq_false_of_ne_true hPart) ?_
    rw [hSnake]
    exact List.mem_cons_of_mem _ hd
  -- A lone underscore would come from a lone underscore, which is no identifier.
  have hOwnMark : snakeCase name ≠ "_" := by
    intro hEq
    rw [hEq] at hSnake
    obtain ⟨hFirstMark, hNone⟩ := List.cons.inj (show '_' :: [] = first :: more from hSnake)
    rw [← hNone, eq_comm, partWords_eq_nil_iff] at hMore
    refine hMark (String.toList_inj.mp ?_)
    rw [hName, hMore, hSame hFirstMark.symm]
    rfl
  rw [isIdentifier_iff_of_toList hSnake, ← snakeCase_mem_reservedWords_iff h]
  exact ⟨fun hIdentifier => hIdentifier.2.2.2,
    fun hReserved => ⟨hFirst, hParts, hOwnMark, hReserved⟩⟩

end ResourceTables
