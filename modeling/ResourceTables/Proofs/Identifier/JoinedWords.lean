import Mathlib.Data.List.Chain
import ResourceTables.Proofs.Identifier.Words

/-!
# A key whose words have been joined

Words are joined in one pass, and nothing is left to join after it: where a word break has stayed,
what comes next is no letter or digit, and it has stayed as well. So the pass changes nothing when
it is done again. It loses word breaks alone, and keeps those that no letter or digit follows.

## Main definitions

* `WordsJoined`: a text in which no word break stands in front of a letter or digit.

## Main results

* `wordsJoined_joinWords`, `joinWords_eq_self`: what one pass comes to is left as it is.
* `joinWords_keeps`: the word breaks that stay.
* `camelCase_normal`: the spelling with words run together is a normal form.
-/

namespace ResourceTables

open Text

variable {c : Char} {text front rest : List Char}

/-- No word break stands directly in front of a letter or digit. -/
def WordsJoined (text : List Char) : Prop :=
  text.IsChain fun b c => isWordBreak b = true → c.isAlphanum = false

/-! ## One character -/

theorem isWordBreak_toUpper (c : Char) : isWordBreak c.toUpper = isWordBreak c := by
  cases hLower : c.isLower with
  | true =>
    have hCapital : c.toUpper.isAlphanum = true :=
      isAlphanum_iff.mpr (.inl (isUpper_toUpper hLower))
    have hSmall := isWordBreak_of_isAlphanum (isAlphanum_of_isLower hLower)
    rw [isWordBreak_of_isAlphanum hCapital, hSmall]
  | false => rw [toUpper_of_isLower_eq_false hLower]

theorem toUpper_eq_self (h : c.isAlphanum = false) : c.toUpper = c := by
  refine toUpper_of_isLower_eq_false (Bool.eq_false_iff.mpr fun hLower => ?_)
  rw [isAlphanum_of_isLower hLower] at h
  cases h

/-! ## Where a text goes on with a letter or digit -/

theorem joinsWord_cons_of_break (h : isWordBreak c = true) (rest : List Char) :
    joinsWord (c :: rest) = joinsWord rest := by
  rw [joinsWord, List.dropWhile_cons_of_pos h, joinsWord]

theorem joinsWord_cons_of_not_break (h : isWordBreak c = false) (rest : List Char) :
    joinsWord (c :: rest) = c.isAlphanum := by
  rw [joinsWord, List.dropWhile_cons_of_neg (by simp [h])]
  rfl

theorem isAlphanum_of_not_joinsWord (h : joinsWord (c :: rest) = false) : c.isAlphanum = false := by
  by_contra hAlphanum
  rw [Bool.not_eq_false] at hAlphanum
  rw [joinsWord_cons_of_not_break (isWordBreak_of_isAlphanum hAlphanum), hAlphanum] at h
  cases h

/-- Behind a text it makes no difference to a word what does not go on with one. -/
theorem joinsWord_append (h : joinsWord rest = false) (front : List Char) :
    joinsWord (front ++ rest) = joinsWord front := by
  induction front with
  | nil => exact h
  | cons c front ih =>
    rw [List.cons_append]
    cases hBreak : isWordBreak c with
    | true => rw [joinsWord_cons_of_break hBreak, joinsWord_cons_of_break hBreak, ih]
    | false => rw [joinsWord_cons_of_not_break hBreak, joinsWord_cons_of_not_break hBreak]

/-- Behind a word break in a text whose words have been joined there is no word to be joined. -/
theorem WordsJoined.not_joinsWord (h : WordsJoined (c :: rest)) (hBreak : isWordBreak c = true) :
    joinsWord rest = false := by
  induction rest generalizing c with
  | nil => rfl
  | cons d rest ih =>
    obtain ⟨hNext, hRest⟩ := List.isChain_cons_cons.mp h
    cases hAnother : isWordBreak d with
    | true => rw [joinsWord_cons_of_break hAnother, ih hRest hAnother]
    | false => rw [joinsWord_cons_of_not_break hAnother, hNext hBreak]

/-! ## One pass -/

/-- A character vanishes if it is a word break with a word behind it, and else it stays. -/
theorem joinWords_cons_cases (raised : Bool) (c : Char) (rest : List Char) :
    (isWordBreak c = true ∧ joinsWord rest = true ∧
      joinWords raised (c :: rest) = joinWords true rest) ∨
    ((isWordBreak c = true → joinsWord rest = false) ∧
      joinWords raised (c :: rest) =
        (if raised then c.toUpper else c) :: joinWords false rest) := by
  rw [joinWords]
  split
  · next hVanishes =>
    rw [Bool.and_eq_true] at hVanishes
    exact .inl ⟨hVanishes.1, hVanishes.2, rfl⟩
  · next hStays =>
    rw [Bool.and_eq_true, not_and, Bool.not_eq_true] at hStays
    exact .inr ⟨hStays, rfl⟩

theorem isWordBreak_raise (raised : Bool) (c : Char) :
    isWordBreak (if raised then c.toUpper else c) = isWordBreak c := by
  cases raised with
  | true => exact isWordBreak_toUpper c
  | false => rfl

/-- What does not go on with a letter or digit stays at the front. -/
theorem joinWords_of_not_joinsWord (h : joinsWord (c :: rest) = false) (raised : Bool) :
    joinWords raised (c :: rest) = c :: joinWords false rest := by
  rcases joinWords_cons_cases raised c rest with ⟨hBreak, hWord, -⟩ | ⟨-, hJoined⟩
  · rw [joinsWord_cons_of_break hBreak, hWord] at h
    cases h
  · rw [hJoined, toUpper_eq_self (isAlphanum_of_not_joinsWord h), ite_self]

/-- After one pass no word break is left in front of a letter or digit. -/
theorem wordsJoined_joinWords (raised : Bool) (text : List Char) :
    WordsJoined (joinWords raised text) := by
  induction text generalizing raised with
  | nil => exact .nil
  | cons c rest ih =>
    rcases joinWords_cons_cases raised c rest with ⟨-, -, hJoined⟩ | ⟨hStays, hJoined⟩
    · rw [hJoined]
      exact ih true
    · rw [hJoined]
      refine List.isChain_cons.mpr ⟨fun next hNext hBreak => ?_, ih false⟩
      -- The word break has stayed, so what follows it has stayed, too.
      rw [isWordBreak_raise] at hBreak
      cases rest with
      | nil => cases hNext
      | cons d rest =>
        rw [joinWords_of_not_joinsWord (hStays hBreak), List.head?_cons, Option.mem_some_iff]
          at hNext
        exact hNext ▸ isAlphanum_of_not_joinsWord (hStays hBreak)

/-- A text whose words have been joined is left as it is. -/
theorem joinWords_eq_self (h : WordsJoined text) : joinWords false text = text := by
  induction text with
  | nil => rfl
  | cons c rest ih =>
    rcases joinWords_cons_cases false c rest with ⟨hBreak, hWord, -⟩ | ⟨-, hJoined⟩
    · rw [h.not_joinsWord hBreak] at hWord
      cases hWord
    · rw [hJoined, ih (List.isChain_cons.mp h).2]
      rfl

/-- All characters but word breaks stay, in their order, and differ in their case at most. -/
theorem map_toLower_filter_joinWords (raised : Bool) (text : List Char) :
    ((joinWords raised text).filter (!isWordBreak ·)).map Char.toLower =
      (text.filter (!isWordBreak ·)).map Char.toLower := by
  induction text generalizing raised with
  | nil => rfl
  | cons c rest ih =>
    rcases joinWords_cons_cases raised c rest with ⟨hBreak, -, hJoined⟩ | ⟨-, hJoined⟩
    · rw [hJoined, ih true, List.filter_cons_of_neg (by simp [hBreak])]
    · have hCase : (if raised then c.toUpper else c).toLower = c.toLower := by
        cases raised with
        | true => exact toLower_toUpper c
        | false => rfl
      rw [hJoined, List.filter_cons, List.filter_cons, isWordBreak_raise]
      split
      · rw [List.map_cons, List.map_cons, hCase, ih false]
      · exact ih false

/-- A text can be cut where it does not go on with a letter or digit. -/
theorem joinWords_append (h : joinsWord rest = false) (raised : Bool) (front : List Char) :
    joinWords raised (front ++ rest) = joinWords raised front ++ joinWords false rest := by
  induction front generalizing raised with
  | nil =>
    cases rest with
    | nil => rfl
    | cons c rest =>
      rw [List.nil_append, joinWords_of_not_joinsWord h, joinWords_of_not_joinsWord h]
      rfl
  | cons c front ih =>
    rw [List.cons_append, joinWords, joinWords, joinsWord_append h]
    split
    · exact ih true
    · rw [ih false, List.cons_append]

/-- Word breaks stay that no letter or digit follows. -/
theorem joinWords_breaks_append {breaks : List Char} (hBreaks : ∀ b ∈ breaks, isWordBreak b = true)
    (h : joinsWord rest = false) :
    joinsWord (breaks ++ rest) = false ∧
      joinWords false (breaks ++ rest) = breaks ++ joinWords false rest := by
  induction breaks with
  | nil => exact ⟨h, rfl⟩
  | cons b breaks ih =>
    obtain ⟨hBreak, hBreaks⟩ := List.forall_mem_cons.mp hBreaks
    obtain ⟨hWord, hJoined⟩ := ih hBreaks
    have hAll : joinsWord (b :: (breaks ++ rest)) = false := by
      rw [joinsWord_cons_of_break hBreak, hWord]
    exact ⟨hAll, by rw [List.cons_append, joinWords_of_not_joinsWord hAll, hJoined]; rfl⟩

/-! ## The spelling of a key -/

theorem toList_camelCase (key : String) : (camelCase key).toList = joinWords false key.toList :=
  String.toList_ofList

/-- Words run together are a normal form: they are left as they are when they are run together
again, and no word break stands in front of a letter or digit. Of a key they have all characters but
word breaks, with another case at most, and the word breaks that something else follows, or
nothing. -/
theorem camelCase_normal (key : String) :
    camelCase (camelCase key) = camelCase key ∧
      WordsJoined (camelCase key).toList ∧
      ((camelCase key).toList.filter (!isWordBreak ·)).map Char.toLower =
        (key.toList.filter (!isWordBreak ·)).map Char.toLower ∧
      ∀ front breaks rest : String, key = front ++ breaks ++ rest →
        (∀ b ∈ breaks.toList, isWordBreak b = true) →
        (∀ c ∈ rest.toList.head?, isWordBreak c = false ∧ c.isAlphanum = false) →
        camelCase key = camelCase front ++ breaks ++ camelCase rest := by
  have hJoined : WordsJoined (camelCase key).toList := by
    rw [toList_camelCase]
    exact wordsJoined_joinWords false key.toList
  refine ⟨?_, hJoined, ?_, fun front breaks rest hKey hBreaks hRest => ?_⟩
  · rw [← String.toList_inj, toList_camelCase, joinWords_eq_self hJoined]
  · rw [toList_camelCase]
    exact map_toLower_filter_joinWords false key.toList
  · have hWord : joinsWord rest.toList = false := by
      cases hText : rest.toList with
      | nil => rfl
      | cons c others =>
        obtain ⟨hBreak, hOther⟩ := hRest c (by rw [hText]; rfl)
        rw [joinsWord_cons_of_not_break hBreak, hOther]
    obtain ⟨hCut, hKept⟩ := joinWords_breaks_append hBreaks hWord
    rw [← String.toList_inj, hKey]
    simp only [toList_camelCase, String.toList_append, List.append_assoc]
    rw [joinWords_append hCut, hKept]

/-- Word breaks in front of a letter beyond ASCII stay, and those at the end. -/
theorem camelCase_normal_page :
    camelCase "page_size_-\u00e9 x\u00a0" = "pageSize_-\u00e9X\u00a0" ∧
      camelCase "pageSize_-\u00e9X\u00a0" = "pageSize_-\u00e9X\u00a0" := by
  obtain ⟨hAgain, -, -, hKept⟩ := camelCase_normal "page_size_-\u00e9 x\u00a0"
  have hBreaks : ∀ b ∈ "_-".toList, isWordBreak b = true := List.all_eq_true.mp (by decide)
  have hRest : ∀ c ∈ "\u00e9 x\u00a0".toList.head?,
      isWordBreak c = false ∧ c.isAlphanum = false := by
    intro c hc
    obtain rfl : '\u00e9' = c := Option.some.inj hc
    decide
  have hParts := hKept "page_size" "_-" "\u00e9 x\u00a0" (by decide) hBreaks hRest
  have hSpelled : camelCase "page_size" ++ "_-" ++ camelCase "\u00e9 x\u00a0" =
      "pageSize_-\u00e9X\u00a0" := by
    decide
  rw [hParts, hSpelled] at hAgain
  exact ⟨hParts.trans hSpelled, hAgain⟩

end ResourceTables
