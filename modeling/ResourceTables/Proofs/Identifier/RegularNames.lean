import ResourceTables.Proofs.Identifier.PartedWords

/-!
# Regular names

Names that are made of words with a capital each. Parting such a name finds its words: every one of
them ends in a small letter or digit, so the capital behind it is parted from it. Running the parted
words together raises what stands behind the underscores and gives the name back.

## Main definitions

* `CapitalWords`: words with a capital each, from which a regular name is made.

## Main results

* `snakeCase_join`: the parted words of a regular name.
* `pascalCase_snakeCase_join`: a regular name is given back.
-/

namespace ResourceTables

open Text

/-- A capital, and behind it small letters or digits only. -/
def isCapitalWord (word : String) : Bool :=
  match word.toList with
  | [] => false
  | c :: rest => c.isUpper && rest.all isSmall

/-- Words with a capital each. All but the last have more than the capital. -/
inductive CapitalWords : List String → Prop where
  | last {word : String} (hWord : isCapitalWord word = true) : CapitalWords [word]
  | cons {word : String} {words : List String} (hWord : isCapitalWord word = true)
      (hLong : 2 ≤ word.length) (hWords : CapitalWords words) : CapitalWords (word :: words)

variable {word : String} {words : List String}

theorem CapitalWords.ne_nil (h : CapitalWords words) : words ≠ [] := by
  cases h <;> exact List.cons_ne_nil _ _

theorem exists_of_isCapitalWord (h : isCapitalWord word = true) :
    ∃ capital small, word.toList = capital :: small ∧ capital.isUpper = true ∧
      ∀ c ∈ small, isSmall c = true := by
  rw [isCapitalWord] at h
  split at h
  · cases h
  · next capital small hWord =>
    rw [Bool.and_eq_true, List.all_eq_true] at h
    exact ⟨capital, small, hWord, h.1, h.2⟩

/-! ## Lower case -/

theorem toNat_lt_of_isAlphanum {c : Char} (h : c.isAlphanum = true) : c.toNat < 0x80 := by
  rw [isAlphanum_iff, isUpper_eq_true_iff, isLower_eq_true_iff, isDigit_eq_true_iff] at h
  omega

theorem flatMap_lowerChar {small : List Char} (h : ∀ c ∈ small, isSmall c = true) :
    small.flatMap lowerChar = small := by
  induction small with
  | nil => rfl
  | cons c small ih =>
    obtain ⟨hc, hSmall⟩ := List.forall_mem_cons.mp h
    have hSame : c.toLower = c := toLower_of_isUpper_eq_false (isUpper_of_isSmall hc)
    rw [List.flatMap_cons, lowerChar, if_pos (toNat_lt_of_isAlphanum (isAlphanum_of_isSmall hc)),
      hSame, ih hSmall, List.singleton_append]

/-- In lower case only the capital has changed. -/
theorem toList_toLower_of_isCapitalWord {capital : Char} {small : List Char}
    (hWord : word.toList = capital :: small) (hCapital : capital.isUpper = true)
    (hSmall : ∀ c ∈ small, isSmall c = true) :
    (toLower word).toList = capital.toLower :: small := by
  have hAlphanum : capital.isAlphanum = true := isAlphanum_iff.mpr (.inl hCapital)
  rw [toLower, String.toList_ofList, hWord, List.flatMap_cons, lowerChar,
    if_pos (toNat_lt_of_isAlphanum hAlphanum), flatMap_lowerChar hSmall, List.singleton_append]

/-! ## Words apart -/

/-- A word that ends in a small letter or digit is parted from the capital behind it. -/
theorem partWords_word_append (hWord : isCapitalWord word = true) (hLong : 2 ≤ word.length)
    (afterSmall : Bool) (rest : List Char) :
    partWords afterSmall (word.toList ++ rest) =
      (if afterSmall then ['_'] else []) ++ ((toLower word).toList ++ partWords true rest) := by
  obtain ⟨capital, small, hSplit, hCapital, hSmall⟩ := exists_of_isCapitalWord hWord
  rw [toList_toLower_of_isCapitalWord hSplit hCapital hSmall, hSplit, List.cons_append,
    partWords_capital hCapital]
  cases small with
  | nil =>
    rw [← String.length_toList, hSplit] at hLong
    simp at hLong
  | cons c small =>
    obtain ⟨hc, hRest⟩ := List.forall_mem_cons.mp hSmall
    rw [List.cons_append, partWords_cons_small hc, partWords_small_append hRest]
    rfl

theorem partWords_word (hWord : isCapitalWord word = true) (afterSmall : Bool) :
    partWords afterSmall word.toList =
      (if afterSmall then ['_'] else []) ++ (toLower word).toList := by
  obtain ⟨capital, small, hSplit, hCapital, hSmall⟩ := exists_of_isCapitalWord hWord
  rw [toList_toLower_of_isCapitalWord hSplit hCapital hSmall, hSplit, partWords_capital hCapital,
    partWords_small hSmall]

theorem partWords_join (h : CapitalWords words) (afterSmall : Bool) :
    partWords afterSmall (String.join words).toList =
      (if afterSmall then ['_'] else []) ++ ("_".intercalate (words.map toLower)).toList := by
  induction h generalizing afterSmall with
  | @last word hWord =>
    rw [String.join_cons, String.join_nil, String.append_empty, partWords_word hWord]
    rfl
  | @cons word words hWord hLong hWords ih =>
    rw [String.join_cons, String.toList_append, partWords_word_append hWord hLong, ih true,
      List.map_cons, String.intercalate_cons_of_ne_nil (by simpa using hWords.ne_nil)]
    simp

theorem snakeCase_join (h : CapitalWords words) :
    snakeCase (String.join words) = "_".intercalate (words.map toLower) := by
  rw [snakeCase, partWords_join h, if_neg Bool.false_ne_true, List.nil_append,
    String.ofList_toList]

/-! ## Words run together again -/

theorem joinWords_cons {c : Char} (h : c.isAlphanum = true) (rest : List Char) :
    joinWords false (c :: rest) = c :: joinWords false rest := by
  have hStep : joinWords false ([] ++ c :: rest) = _ := joinWords_breaks (by simp) h false rest
  simpa using hStep

/-- The letter behind an underscore is raised. -/
theorem joinWords_underscore {c : Char} (h : c.isAlphanum = true) (rest : List Char) :
    joinWords false ('_' :: c :: rest) = c.toUpper :: joinWords false rest := by
  have hStep : joinWords false (['_'] ++ c :: rest) = _ :=
    joinWords_breaks (List.forall_mem_singleton.mpr rfl) h false rest
  simpa using hStep

theorem joinWords_small_append {small : List Char} (h : ∀ c ∈ small, isSmall c = true)
    (rest : List Char) : joinWords false (small ++ rest) = small ++ joinWords false rest := by
  induction small with
  | nil => rfl
  | cons c small ih =>
    obtain ⟨hc, hSmall⟩ := List.forall_mem_cons.mp h
    rw [List.cons_append, joinWords_cons (isAlphanum_of_isSmall hc), ih hSmall, List.cons_append]

/-- Behind an underscore a word gets its capital back. -/
theorem joinWords_word_append (hWord : isCapitalWord word = true) (rest : List Char) :
    joinWords false ('_' :: ((toLower word).toList ++ rest)) =
      word.toList ++ joinWords false rest := by
  obtain ⟨capital, small, hSplit, hCapital, hSmall⟩ := exists_of_isCapitalWord hWord
  have hLetter : capital.toLower.isAlphanum = true :=
    isAlphanum_of_isLower (isLower_toLower hCapital)
  rw [toList_toLower_of_isCapitalWord hSplit hCapital hSmall, hSplit, List.cons_append,
    joinWords_underscore hLetter, toUpper_toLower hCapital, joinWords_small_append hSmall,
    List.cons_append]

theorem joinWords_intercalate (h : CapitalWords words) :
    joinWords false ('_' :: ("_".intercalate (words.map toLower)).toList) =
      (String.join words).toList := by
  induction h with
  | @last word hWord =>
    have hLast := joinWords_word_append hWord []
    rw [List.append_nil, joinWords, List.append_nil] at hLast
    rw [List.map_singleton, String.intercalate_singleton, hLast, String.join_cons,
      String.join_nil, String.append_empty]
  | @cons word words hWord hLong hWords ih =>
    have hText : ("_".intercalate ((word :: words).map toLower)).toList =
        (toLower word).toList ++ '_' :: ("_".intercalate (words.map toLower)).toList := by
      rw [List.map_cons, String.intercalate_cons_of_ne_nil (by simpa using hWords.ne_nil)]
      simp
    rw [hText, joinWords_word_append hWord, ih, String.join_cons, String.toList_append]

/-- A type name begins as if an underscore stood in front of the key. -/
theorem toList_pascalCase {key : String} {c : Char} {rest : List Char}
    (hKey : key.toList = c :: rest) (h : c.isAlphanum = true) :
    (pascalCase key).toList = joinWords false ('_' :: key.toList) := by
  have hJoined : joinWords false key.toList = c :: joinWords false rest := by
    rw [hKey, joinWords_cons h]
  rw [pascalCase_of_joinWords hJoined, String.toList_ofList, hKey, joinWords_underscore h,
    upperChar, if_pos (toNat_lt_of_isAlphanum h), List.singleton_append]

theorem exists_intercalate_eq_cons (h : CapitalWords words) :
    ∃ c rest, ("_".intercalate (words.map toLower)).toList = c :: rest ∧
      c.isAlphanum = true := by
  obtain ⟨word, others, rfl, hWord⟩ : ∃ word others, words = word :: others ∧
      isCapitalWord word = true := by
    cases h with
    | last hWord => exact ⟨_, [], rfl, hWord⟩
    | cons hWord => exact ⟨_, _, rfl, hWord⟩
  obtain ⟨capital, small, hSplit, hCapital, hSmall⟩ := exists_of_isCapitalWord hWord
  have hLower := toList_toLower_of_isCapitalWord hSplit hCapital hSmall
  obtain ⟨tail, hTail⟩ : ∃ tail, ("_".intercalate ((word :: others).map toLower)).toList =
      (toLower word).toList ++ tail := by
    cases others with
    | nil => exact ⟨[], by simp⟩
    | cons other others =>
      exact ⟨("_" ++ "_".intercalate (toLower other :: others.map toLower)).toList, by
        rw [List.map_cons, List.map_cons, String.intercalate_cons_cons, String.append_assoc,
          String.toList_append]⟩
  rw [hLower, List.cons_append] at hTail
  exact ⟨_, _, hTail, isAlphanum_of_isLower (isLower_toLower hCapital)⟩

theorem pascalCase_snakeCase_join (h : CapitalWords words) :
    pascalCase (snakeCase (String.join words)) = String.join words := by
  obtain ⟨c, rest, hText, hLetter⟩ := exists_intercalate_eq_cons h
  rw [snakeCase_join h, ← String.toList_inj, toList_pascalCase hText hLetter,
    joinWords_intercalate h]

end ResourceTables
