import Mathlib.Data.List.TakeWhile
import ResourceTables.Proofs.Identifier.Spelling

/-!
# Words run together

What is known of a key when its words have been run together. A word break vanishes in front of a
letter or digit, which is raised, so a small letter of the result stands in the key as it is, and
only a capital or a digit can stand behind word breaks.

## Main results

* `joinWords_breaks`: word breaks vanish, and the letter behind them is raised.
* `mem_pascalCase`: which characters of a key stay in the name of its type.
* `joinWords_eq_small_iff`: a word of small letters is the spelling of itself alone.
* `pascalCase_eq_option_iff`: the keys that have the type name `Option`.
-/

namespace ResourceTables

open Text

theorem isWordBreak_of_isAlphanum {c : Char} (h : c.isAlphanum = true) :
    isWordBreak c = false := by
  have hUnderscore : c ≠ '_' := by
    rintro rfl
    exact absurd h (by decide)
  have hDash : c ≠ '-' := by
    rintro rfl
    exact absurd h (by decide)
  simp [isWordBreak, hUnderscore, hDash, isBlank_of_isAlphanum h]

theorem joinsWord_breaks {breaks : List Char} (hBreaks : ∀ b ∈ breaks, isWordBreak b = true)
    {c : Char} (hc : c.isAlphanum = true) (rest : List Char) :
    joinsWord (breaks ++ c :: rest) = true := by
  rw [joinsWord, List.dropWhile_append_of_pos hBreaks,
    List.dropWhile_cons_of_neg (by simp [isWordBreak_of_isAlphanum hc])]
  exact hc

/-- Word breaks vanish in front of a letter or digit, which is raised if there are any. -/
theorem joinWords_breaks {breaks : List Char} (hBreaks : ∀ b ∈ breaks, isWordBreak b = true)
    {c : Char} (hc : c.isAlphanum = true) (raised : Bool) (rest : List Char) :
    joinWords raised (breaks ++ c :: rest) =
      (if raised = true ∨ breaks ≠ [] then c.toUpper else c) :: joinWords false rest := by
  induction breaks generalizing raised with
  | nil => simp [joinWords, isWordBreak_of_isAlphanum hc]
  | cons b breaks ih =>
    obtain ⟨hb, hBreaks⟩ := List.forall_mem_cons.mp hBreaks
    rw [List.cons_append, joinWords, hb, joinsWord_breaks hBreaks hc, ih hBreaks]
    simp

/-- The first character of the result stands behind word breaks that have vanished, and is raised
if there are any. -/
theorem exists_of_joinWords_eq_cons {raised : Bool} {text tail : List Char} {x : Char}
    (h : joinWords raised text = x :: tail) : ∃ breaks c rest, text = breaks ++ c :: rest ∧
      (∀ b ∈ breaks, isWordBreak b = true) ∧
      x = (if raised = true ∨ breaks ≠ [] then c.toUpper else c) ∧
      joinWords false rest = tail := by
  induction text generalizing raised with
  | nil => cases h
  | cons first text ih =>
    rw [joinWords] at h
    split at h
    · next hVanishes =>
      obtain ⟨breaks, c, rest, rfl, hBreaks, hx, hRest⟩ := ih h
      refine ⟨first :: breaks, c, rest, rfl, ?_, by simpa using hx, hRest⟩
      exact List.forall_mem_cons.mpr ⟨(Bool.and_eq_true _ _ ▸ hVanishes).1, hBreaks⟩
    · rw [List.cons.injEq] at h
      exact ⟨[], first, text, rfl, by simp, by simpa using h.1.symm, h.2⟩

theorem isAlphanum_of_isLower {c : Char} (h : c.isLower = true) : c.isAlphanum = true :=
  isAlphanum_iff.mpr (.inr (.inl h))

/-- A text that goes on with a letter or digit is not lost. -/
theorem joinWords_ne_nil {text : List Char} (h : joinsWord text = true) (raised : Bool) :
    joinWords raised text ≠ [] := by
  rw [joinsWord] at h
  rw [← List.takeWhile_append_dropWhile (p := isWordBreak) (l := text)]
  cases hRest : text.dropWhile isWordBreak with
  | nil =>
    rw [hRest] at h
    cases h
  | cons c rest =>
    rw [hRest] at h
    rw [joinWords_breaks (fun b hb => List.mem_takeWhile_imp hb) h]
    exact List.cons_ne_nil _ _

theorem joinWords_eq_nil_iff {raised : Bool} {text : List Char} :
    joinWords raised text = [] ↔ text = [] := by
  constructor
  · intro h
    cases text with
    | nil => rfl
    | cons c rest =>
      rw [joinWords] at h
      split at h
      · next hVanishes =>
        rw [Bool.and_eq_true] at hVanishes
        exact absurd h (joinWords_ne_nil hVanishes.2 true)
      · cases h
  · rintro rfl
    rfl

/-- A character stays that is not raised and does not break words. -/
theorem mem_joinWords {c : Char} (hBreak : isWordBreak c = false) (hSame : c.toUpper = c)
    {text : List Char} (h : c ∈ text) (raised : Bool) : c ∈ joinWords raised text := by
  induction text generalizing raised with
  | nil => cases h
  | cons first rest ih =>
    rw [joinWords]
    split
    · next hVanishes =>
      rcases List.mem_cons.mp h with rfl | hRest
      · rw [hBreak] at hVanishes
        cases hVanishes
      · exact ih hRest true
    · rcases List.mem_cons.mp h with rfl | hRest
      · rw [hSame, ite_self]
        exact List.mem_cons_self
      · exact List.mem_cons_of_mem _ (ih hRest false)

/-- A word of small letters is the spelling of itself alone. -/
theorem joinWords_eq_small_iff {word : List Char} (hWord : ∀ c ∈ word, c.isLower = true)
    {text : List Char} : joinWords false text = word ↔ text = word := by
  induction word generalizing text with
  | nil => exact joinWords_eq_nil_iff
  | cons x tail ih =>
    obtain ⟨hx, hTail⟩ := List.forall_mem_cons.mp hWord
    constructor
    · intro h
      obtain ⟨breaks, c, rest, rfl, -, hRaised, hRest⟩ := exists_of_joinWords_eq_cons h
      obtain rfl := (ih hTail).mp hRest
      by_cases hBreaks : breaks = []
      · simp [hBreaks, hRaised]
      · -- Behind word breaks there would be a capital.
        rw [if_pos (.inr hBreaks)] at hRaised
        rw [hRaised, isLower_toUpper] at hx
        cases hx
    · rintro rfl
      have hJoined : joinWords false ([] ++ x :: tail) = _ :=
        joinWords_breaks (by simp) (isAlphanum_of_isLower hx) false tail
      simpa [(ih hTail).mpr rfl] using hJoined

/-! ## Capitals -/

/-- The letter `O` is the upper case of itself and of the small letter. -/
theorem eq_of_toUpper_eq_capital {c : Char} (h : c.toUpper = 'O') : c = 'o' ∨ c = 'O' := by
  have hCode : c.toUpper.toNat = 79 := congrArg Char.toNat h
  rcases toNat_toUpper c with ⟨-, -, hMoved⟩ | ⟨-, hSame⟩
  · have hSmall : c.toNat = 111 := by omega
    exact .inl (Char.toNat_inj.mp hSmall)
  · exact .inr (Char.toNat_inj.mp (hSame.symm.trans hCode))

/-- No run and no sequence of the upper case leads to the letter `O`. -/
theorem upperRuns_beside_capital : ∀ run ∈ upperRuns,
    run.last + run.shift < 79 ∨ 79 < run.first + run.shift := by
  decide +kernel

theorem upperSequences_beside_capital : ∀ entry ∈ upperSequences,
    (entry.2.map Char.ofNat).head? ≠ some 'O' := by
  decide +kernel

/-- Nor does the upper case of any other character begin with it. -/
theorem eq_of_upperChar_eq_cons {c : Char} {more : List Char} (h : upperChar c = 'O' :: more) :
    (c = 'o' ∨ c = 'O') ∧ more = [] := by
  rw [upperChar] at h
  split at h
  · rw [List.cons.injEq] at h
    exact ⟨eq_of_toUpper_eq_capital h.1, h.2.symm⟩
  · next hBeyond =>
    split at h
    · next codes hLookup =>
      exact absurd (by rw [h]; rfl) (upperSequences_beside_capital _ (mem_of_lookup hLookup))
    · rw [List.cons.injEq] at h
      cases hImage : imageIn? upperRuns c.toNat with
      | none =>
        rw [hImage] at h
        exact ⟨.inr h.1, h.2.symm⟩
      | some image =>
        rw [hImage, Option.map_some, Option.getD_some] at h
        have hBeside : image < 79 ∨ 79 < image :=
          imageIn_beside (by decide) upperRuns_beside_capital hImage
        rcases toNat_ofNat_or image with hCode | hCode
        · have hLetter : (Char.ofNat image).toNat = 79 := by
            rw [h.1]
            rfl
          omega
        · rw [hCode] at h
          exact absurd h.1 (by decide)

theorem pascalCase_of_joinWords {key : String} {c : Char} {rest : List Char}
    (h : joinWords false key.toList = c :: rest) :
    pascalCase key = String.ofList (upperChar c ++ rest) := by
  rw [pascalCase, h]

/-- A character stays in the name of a type if it has no other upper case and does not break
words. -/
theorem mem_pascalCase {c : Char} (hBreak : isWordBreak c = false) (hSame : c.toUpper = c)
    (hUpper : upperChar c = [c]) {key : String} (h : c ∈ key.toList) :
    c ∈ (pascalCase key).toList := by
  have hMem := mem_joinWords hBreak hSame h false
  cases hJoined : joinWords false key.toList with
  | nil =>
    rw [hJoined] at hMem
    cases hMem
  | cons first rest =>
    rw [hJoined] at hMem
    rw [pascalCase_of_joinWords hJoined, String.toList_ofList, List.mem_append]
    rcases List.mem_cons.mp hMem with rfl | hRest
    · exact .inl (hUpper ▸ List.mem_singleton_self _)
    · exact .inr hRest

/-- The name of a type does not begin with a small letter. -/
theorem isLower_eq_false_of_head?_pascalCase {key : String} {c : Char}
    (h : (pascalCase key).toList.head? = some c) : c.isLower = false := by
  cases hJoined : joinWords false key.toList with
  | nil =>
    rw [pascalCase, hJoined] at h
    cases h
  | cons first rest =>
    obtain ⟨capital, more, hUpper⟩ := List.exists_cons_of_ne_nil (upperChar_ne_nil first)
    rw [pascalCase_of_joinWords hJoined, String.toList_ofList, hUpper] at h
    obtain rfl := Option.some.inj h
    exact isLower_eq_false_of_mem_upperChar (hUpper ▸ List.mem_cons_self)

/-- The type of a table is named `Option` if its joined words are, but for the case of the letter in
front. -/
theorem pascalCase_eq_option_iff_joinWords {table : String} : pascalCase table = "Option" ↔
    ∃ c, (c = 'o' ∨ c = 'O') ∧ joinWords false table.toList = c :: "ption".toList := by
  constructor
  · intro h
    cases hJoined : joinWords false table.toList with
    | nil =>
      rw [pascalCase, hJoined] at h
      exact absurd h (by decide)
    | cons first rest =>
      obtain ⟨capital, more, hUpper⟩ := List.exists_cons_of_ne_nil (upperChar_ne_nil first)
      rw [pascalCase_of_joinWords hJoined, hUpper, ← String.toList_inj, String.toList_ofList,
        List.cons_append] at h
      obtain ⟨rfl, hTail⟩ :=
        List.cons.inj (show capital :: (more ++ rest) = 'O' :: "ption".toList from h)
      obtain ⟨hFirst, rfl⟩ := eq_of_upperChar_eq_cons hUpper
      exact ⟨first, hFirst, congrArg (first :: ·) hTail⟩
  · rintro ⟨c, hLetter, hJoined⟩
    rw [pascalCase_of_joinWords hJoined]
    rcases hLetter with rfl | rfl <;> decide

/-- The joined words of a text are so if it is spelled so, behind any word breaks. -/
theorem exists_joinWords_eq_option_iff {text : List Char} :
    (∃ c, (c = 'o' ∨ c = 'O') ∧ joinWords false text = c :: "ption".toList) ↔
      ∃ breaks c, (∀ b ∈ breaks, isWordBreak b = true) ∧ (c = 'o' ∨ c = 'O') ∧
        text = breaks ++ c :: "ption".toList := by
  have hSmall : ∀ c ∈ "ption".toList, c.isLower = true := List.all_eq_true.mp (by decide)
  constructor
  · rintro ⟨first, hFirst, hJoined⟩
    obtain ⟨breaks, c, rest, hText, hBreaks, hRaised, hRest⟩ := exists_of_joinWords_eq_cons hJoined
    obtain rfl := (joinWords_eq_small_iff hSmall).mp hRest
    refine ⟨breaks, c, hBreaks, ?_, hText⟩
    -- The letter in front is a capital or not, and certainly a capital if it has been raised.
    by_cases hNone : breaks = []
    · rw [if_neg (by simp [hNone])] at hRaised
      exact hRaised ▸ hFirst
    · rw [if_pos (.inr hNone)] at hRaised
      rcases hFirst with hFirst | hFirst
      · have hNot := isLower_toUpper c
        rw [← hRaised, hFirst] at hNot
        cases hNot
      · exact eq_of_toUpper_eq_capital (hRaised ▸ hFirst)
  · rintro ⟨breaks, c, hBreaks, hLetter, rfl⟩
    have hAlphanum : c.isAlphanum = true := by
      rcases hLetter with rfl | rfl <;> decide
    have hJoined := joinWords_breaks hBreaks hAlphanum false "ption".toList
    rw [(joinWords_eq_small_iff hSmall).mpr rfl] at hJoined
    refine ⟨_, ?_, hJoined⟩
    -- Raised or not, the letter stays what it is but for its case.
    split <;> rcases hLetter with rfl | rfl <;> decide

/-- A table has the type name `Option` if it is spelled so, in small letters or with a capital,
behind any word breaks. -/
theorem pascalCase_eq_option_iff {table : String} : pascalCase table = "Option" ↔
    ∃ breaks : List Char, (∀ b ∈ breaks, isWordBreak b = true) ∧
      (table.toList = breaks ++ "option".toList ∨ table.toList = breaks ++ "Option".toList) := by
  rw [pascalCase_eq_option_iff_joinWords, exists_joinWords_eq_option_iff]
  constructor
  · rintro ⟨breaks, c, hBreaks, rfl | rfl, hTable⟩
    · exact ⟨breaks, hBreaks, .inl hTable⟩
    · exact ⟨breaks, hBreaks, .inr hTable⟩
  · rintro ⟨breaks, hBreaks, hTable | hTable⟩
    · exact ⟨breaks, 'o', hBreaks, .inl rfl, hTable⟩
    · exact ⟨breaks, 'O', hBreaks, .inr rfl, hTable⟩

end ResourceTables
