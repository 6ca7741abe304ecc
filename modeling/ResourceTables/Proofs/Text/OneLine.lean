import ResourceTables.GeneratedModule.Rendering
import ResourceTables.Text.Lines

/-!
# Texts on one line

A text without a line feed stays on the line that it is written to. Numbers and quoted literals are
such texts, and lines that are such texts are found again in a file that is made of them.

## Main definitions

* `Text.OneLine`: a text without a line feed.
-/

namespace ResourceTables

namespace Text

/-- A text without a line feed. -/
def OneLine (text : String) : Prop :=
  '\n' ∉ text.toList

instance : DecidablePred OneLine :=
  fun text => inferInstanceAs (Decidable ('\n' ∉ text.toList))

/-- A text is on one line if none of its characters is a line feed. For a fixed text this is checked
on its characters as they are written, which is much faster than taking it apart. -/
theorem oneLine_ofList (text : List Char) : OneLine (String.ofList text) ↔ '\n' ∉ text := by
  rw [OneLine, String.toList_ofList]

@[simp] theorem oneLine_append (s t : String) : OneLine (s ++ t) ↔ OneLine s ∧ OneLine t := by
  simp [OneLine, not_or]

theorem oneLine_intercalate_iff {separator : String} (hSeparator : OneLine separator)
    (texts : List String) :
    OneLine (separator.intercalate texts) ↔ ∀ text ∈ texts, OneLine text := by
  induction texts with
  | nil => simp [OneLine]
  | cons text rest ih =>
    cases rest with
    | nil => simp
    | cons next rest =>
      rw [String.intercalate_cons_cons, oneLine_append, oneLine_append, ih, List.forall_mem_cons]
      simp [hSeparator]

/-! ## Numbers and literals -/

/-- What holds of the digits below a base holds of all digits of a number. -/
theorem forall_mem_toDigits {base : Nat} (hBase : 1 < base) {p : Char → Prop}
    (hDigit : ∀ digit < base, p (Nat.digitChar digit)) (n : Nat) :
    ∀ c ∈ Nat.toDigits base n, p c := by
  -- The last digit is below the base, and the digits in front of it are those of a smaller number.
  induction n using Nat.strongRecOn with
  | ind n ih =>
    rw [Nat.toDigits_eq_if hBase]
    split
    · next hSmall => exact List.forall_mem_singleton.mpr (hDigit n hSmall)
    · next hLarge =>
      rw [List.forall_mem_append]
      exact ⟨ih (n / base) (Nat.div_lt_self (by omega) hBase),
        List.forall_mem_singleton.mpr (hDigit _ (Nat.mod_lt n (by omega)))⟩

theorem isAlphanum_of_mem_toDigits {base n : Nat} (hBase : 1 < base ∧ base ≤ 16) {c : Char}
    (h : c ∈ Nat.toDigits base n) : c.isAlphanum = true := by
  have hDigit : ∀ digit < 16, (Nat.digitChar digit).isAlphanum = true := by decide
  exact forall_mem_toDigits (p := fun c => c.isAlphanum = true) hBase.1
    (fun digit hSmall => hDigit digit (Nat.lt_of_lt_of_le hSmall hBase.2)) n c h

@[simp] theorem oneLine_toString (n : Nat) : OneLine (toString n) := by
  intro h
  rw [Nat.toString_eq_ofList_toDigits, String.toList_ofList] at h
  exact absurd (isAlphanum_of_mem_toDigits (by decide) h) (by decide)

theorem lineFeed_notMem_escapeChar (shown : Char → Bool) (c : Char) :
    '\n' ∉ escapeChar shown c := by
  rw [escapeChar]
  repeat' split
  · decide
  · decide
  · decide
  · decide
  · decide
  · decide
  · next hFeed _ _ _ => simpa using Ne.symm hFeed
  · simp only [List.mem_append, not_or]
    refine ⟨⟨by decide, fun h => ?_⟩, by decide⟩
    exact absurd (isAlphanum_of_mem_toDigits (by decide) h) (by decide)

/-- A literal is on one line, whichever characters it shows. -/
@[simp] theorem oneLine_quote (shown : Char → Bool) (text : String) :
    OneLine (quote shown text) := by
  simp only [OneLine, quote, String.toList_ofList, List.mem_cons, List.mem_append, escape,
    List.mem_flatMap, not_or]
  refine ⟨by decide, ?_, by decide, List.not_mem_nil⟩
  rintro ⟨c, -, hc⟩
  exact lineFeed_notMem_escapeChar shown c hc

/-! ## Lines of a file -/

/-- A piece of a text between line feeds has none. -/
theorem lineFeed_notMem_of_mem_feedLines {text : List Char} {line : List Char × Bool}
    (h : line ∈ feedLines text) : '\n' ∉ line.1 := by
  induction text generalizing line with
  | nil => cases h
  | cons c rest ih =>
    rw [feedLines] at h
    split at h
    · rcases List.mem_cons.mp h with rfl | hRest
      · exact List.not_mem_nil
      · exact ih hRest
    · next hFeed =>
      split at h
      · rw [List.mem_singleton.mp h]
        simpa using Ne.symm hFeed
      · next first fed lines hLines =>
        rw [hLines] at ih
        rcases List.mem_cons.mp h with rfl | hRest
        · have hFirst := ih List.mem_cons_self
          simpa using ⟨Ne.symm hFeed, hFirst⟩
        · exact ih (List.mem_cons_of_mem _ hRest)

theorem feedLines_append {line : List Char} (h : '\n' ∉ line) (rest : List Char) :
    feedLines (line ++ '\n' :: rest) = (line, true) :: feedLines rest := by
  induction line with
  | nil => rfl
  | cons c line ih =>
    rw [List.mem_cons, not_or] at h
    obtain ⟨hFeed, hLine⟩ := h
    rw [List.cons_append, feedLines, if_neg (Ne.symm hFeed), ih hLine]

end Text

open Text

theorem toList_unlines (lines : List String) :
    (unlines lines).toList = lines.flatMap fun line => line.toList ++ ['\n'] := by
  simp [unlines, String.toList_join, List.flatMap_map]

/-- The lines of a file are the lines it is made of if each of these is on one line. -/
theorem feedLines_unlines_iff (lines : List String) :
    (feedLines (unlines lines).toList = lines.map fun line => (line.toList, true)) ↔
      ∀ line ∈ lines, OneLine line := by
  constructor
  · intro h line hLine
    have hFed : (line.toList, true) ∈ feedLines (unlines lines).toList := by
      rw [h]
      exact List.mem_map_of_mem hLine
    exact lineFeed_notMem_of_mem_feedLines hFed
  · intro h
    rw [toList_unlines]
    induction lines with
    | nil => rfl
    | cons line rest ih =>
      obtain ⟨hLine, hRest⟩ := List.forall_mem_cons.mp h
      rw [List.flatMap_cons, List.append_assoc, List.singleton_append, feedLines_append hLine,
        ih hRest, List.map_cons]

end ResourceTables
