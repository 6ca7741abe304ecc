import ResourceTables.Identifier
import ResourceTables.Identifier.Spelling
import ResourceTables.Proofs.Entries
import ResourceTables.Proofs.Text.Letters

/-!
# What a spelling keeps

A key in upper case has no small letter of ASCII left, no character of a key vanishes, and a line
feed stays. For characters beyond ASCII this is read off the case mappings: no run of them and no
sequence leads to a small letter of ASCII. Words that are parted gain nothing but underscores and
small letters.
-/

namespace ResourceTables

namespace Text

theorem isBlank_of_isAlphanum {c : Char} (h : c.isAlphanum = true) : isBlank c = false := by
  rw [isAlphanum_iff, isUpper_eq_true_iff, isLower_eq_true_iff, isDigit_eq_true_iff] at h
  simp only [isBlank, Bool.or_eq_false_iff, Bool.and_eq_false_iff, decide_eq_false_iff_not,
    beq_eq_false_iff_ne]
  omega

/-- A number that is no code point stands for the character NUL. -/
theorem toNat_ofNat_or (code : Nat) :
    (Char.ofNat code).toNat = code ∨ Char.ofNat code = '\x00' := by
  by_cases hValid : code.isValidChar
  · have hCode : Char.ofNat code = Char.ofNatAux code hValid := dif_pos hValid
    exact .inl (by rw [hCode]; rfl)
  · exact .inr (dif_neg hValid)

theorem isLower_ofNat_eq_false {code : Nat} (h : code < 97 ∨ 122 < code) :
    (Char.ofNat code).isLower = false := by
  rw [Bool.eq_false_iff, ne_eq, isLower_eq_true_iff]
  rcases toNat_ofNat_or code with hCode | hCode
  · omega
  · rw [hCode]
    decide

/-- The runs of the upper case lead beside the small letters of ASCII. -/
theorem upperRuns_beside_small : ∀ run ∈ upperRuns,
    run.last + run.shift < 97 ∨ 122 < run.first + run.shift := by
  decide +kernel

/-- The sequences of the upper case have characters, and no small letter of ASCII among them. -/
theorem upperSequences_beside_small : ∀ entry ∈ upperSequences,
    entry.2 ≠ [] ∧ ∀ code ∈ entry.2, code < 97 ∨ 122 < code := by
  decide

/-- Where every run leads beside some code points, so does the mapping. -/
theorem imageIn_beside {runs : List CaseRun} {low high code image : Nat} (hLow : 0 < low)
    (hRuns : ∀ run ∈ runs, run.last + run.shift < low ∨ high < run.first + run.shift)
    (h : imageIn? runs code = some image) : image < low ∨ high < image := by
  obtain ⟨run, hRun, hImage⟩ := List.exists_of_findSome?_eq_some h
  have hBeside := hRuns run hRun
  rw [CaseRun.image?] at hImage
  split at hImage
  · next hWithin =>
    simp only [Bool.and_eq_true, decide_eq_true_eq] at hWithin
    obtain rfl := Option.some.inj hImage
    omega
  · cases hImage

theorem upperChar_ne_nil (c : Char) : upperChar c ≠ [] := by
  rw [upperChar]
  split
  · simp
  · split
    · next codes hLookup =>
      simpa using (upperSequences_beside_small _ (mem_of_lookup hLookup)).1
    · simp

theorem isLower_eq_false_of_mem_upperChar {c d : Char} (h : d ∈ upperChar c) :
    d.isLower = false := by
  rw [upperChar] at h
  split at h
  · rw [List.mem_singleton.mp h, isLower_toUpper]
  · next hBeyond =>
    -- Beyond ASCII there is a sequence, or the image under a run, or the character itself.
    split at h
    · next codes hLookup =>
      obtain ⟨code, hCode, rfl⟩ := List.mem_map.mp h
      have hBeside := (upperSequences_beside_small _ (mem_of_lookup hLookup)).2
      exact isLower_ofNat_eq_false (hBeside code hCode)
    · rw [List.mem_singleton.mp h]
      cases hImage : imageIn? upperRuns c.toNat with
      | none =>
        rw [Option.map_none, Option.getD_none, Bool.eq_false_iff, ne_eq, isLower_eq_true_iff]
        omega
      | some image =>
        exact isLower_ofNat_eq_false (imageIn_beside (by decide) upperRuns_beside_small hImage)

end Text

open Text

theorem toList_constantCase (key : String) : (constantCase key).toList =
    (key.toList.map fun c => if c = '-' then '_' else c).flatMap upperChar := by
  simp [constantCase, toUpper]

theorem isLower_eq_false_of_mem_constantCase {key : String} {c : Char}
    (h : c ∈ (constantCase key).toList) : c.isLower = false := by
  rw [toList_constantCase] at h
  obtain ⟨spelled, -, hUpper⟩ := List.mem_flatMap.mp h
  exact isLower_eq_false_of_mem_upperChar hUpper

/-- Only the empty key vanishes in upper case. -/
theorem constantCase_eq_empty_iff {key : String} : constantCase key = "" ↔ key = "" := by
  rw [← String.toList_inj, toList_constantCase, String.toList_empty, List.flatMap_eq_nil_iff,
    ← String.toList_inj, String.toList_empty]
  constructor
  · intro h
    cases hKey : key.toList with
    | nil => rfl
    | cons c rest =>
      exact absurd (h _ (by rw [hKey]; exact List.mem_cons_self)) (upperChar_ne_nil _)
  · intro h
    simp [h]

/-- A line feed of a key stays in upper case. -/
theorem lineFeed_mem_constantCase {key : String} (h : '\n' ∈ key.toList) :
    '\n' ∈ (constantCase key).toList := by
  rw [toList_constantCase, List.mem_flatMap]
  exact ⟨'\n', List.mem_map.mpr ⟨'\n', h, rfl⟩, List.mem_singleton.mpr rfl⟩

theorem isWordPart_of_mem_identifier {name : String} (h : isIdentifier name = true) {c : Char}
    (hc : c ∈ name.toList) : isWordPart c = true := by
  rw [isIdentifier] at h
  split at h
  · cases h
  · next first rest hName =>
    simp only [Bool.and_eq_true] at h
    obtain ⟨⟨⟨hFirst, hRest⟩, -⟩, -⟩ := h
    rw [hName] at hc
    rcases List.mem_cons.mp hc with rfl | hc
    · simp only [isWordStart, isWordPart, Char.isAlphanum, Bool.or_eq_true] at hFirst ⊢
      exact hFirst.imp_right .inl
    · exact List.all_eq_true.mp hRest c hc

/-- Words that are parted gain no characters but underscores and small letters. -/
theorem notMem_partWords {c : Char} (hBreak : c ≠ '_') (hSmall : c.isLower = false)
    {text : List Char} (h : c ∉ text) (afterSmall : Bool) : c ∉ partWords afterSmall text := by
  induction text generalizing afterSmall with
  | nil => exact List.not_mem_nil
  | cons first rest ih =>
    rw [List.mem_cons, not_or] at h
    obtain ⟨hFirst, hRest⟩ := h
    rw [partWords]
    split
    · next hUpper =>
      have hLower : c ≠ first.toLower := by
        rintro rfl
        rw [isLower_toLower hUpper] at hSmall
        cases hSmall
      split <;> simp [hLower, hBreak, ih hRest]
    · split <;> simp [hFirst, hBreak, ih hRest]

/-- The parted words of an identifier have no characters but those of words. -/
theorem notMem_snakeCase {name : String} (h : isIdentifier name = true) {c : Char}
    (hWord : isWordPart c = false) : c ∉ (snakeCase name).toList := by
  have hBreak : c ≠ '_' := by
    rintro rfl
    cases hWord
  have hSmall : c.isLower = false := by
    refine Bool.eq_false_iff.mpr fun hLower => ?_
    rw [isWordPart, isAlphanum_iff.mpr (.inr (.inl hLower)), Bool.or_true] at hWord
    cases hWord
  have hName : c ∉ name.toList := by
    intro hMem
    rw [isWordPart_of_mem_identifier h hMem] at hWord
    cases hWord
  rw [snakeCase, String.toList_ofList]
  exact notMem_partWords hBreak hSmall hName false

end ResourceTables
