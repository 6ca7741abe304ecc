import Mathlib.Data.List.DropRight
import ResourceTables.Text.Blank

/-!
# Blank ends

A text without its blank ends is a part of the text that holds all of its characters that are not
blank. It is empty or begins and ends with such a character, so that there is nothing to take off it
a second time.

## Main results

* `trim_of_dropWhile`: the first character that is not blank begins what is left.
* `trim_isInfix`, `mem_trim`, `trim_eq_nil_iff`: what is taken off and what is left.
* `trim_trim`: blank ends are taken off once.
-/

namespace ResourceTables.Text

variable {text : List Char} {c : Char} {rest : List Char}

/-! ## One end -/

theorem isBlank_of_dropWhile (h : text.dropWhile isBlank = c :: rest) : isBlank c = false := by
  have hFront := List.head?_dropWhile_not isBlank text
  rw [h] at hFront
  simpa using hFront

/-- Blanks behind a character that is none do not reach over it. -/
theorem trimEnd_cons (hc : isBlank c = false) (rest : List Char) :
    trimEnd (c :: rest) = c :: trimEnd rest := by
  have hLast : [c].dropWhile isBlank = [c] := List.dropWhile_cons_of_neg (by simp [hc])
  rw [trimEnd, List.reverse_cons, List.dropWhile_append, trimEnd, hLast]
  split
  · next hBlank =>
    rw [List.isEmpty_iff.mp hBlank]
    rfl
  · rw [List.reverse_append, List.reverse_singleton, List.singleton_append]

theorem trimEnd_isPrefix (text : List Char) : trimEnd text <+: text :=
  List.rdropWhile_prefix isBlank text

theorem trimEnd_trimEnd (text : List Char) : trimEnd (trimEnd text) = trimEnd text :=
  List.rdropWhile_idempotent isBlank text

theorem trimEnd_append (h : ∀ c ∈ rest, isBlank c = true) (text : List Char) :
    trimEnd (text ++ rest) = trimEnd text := by
  rw [trimEnd, trimEnd, List.reverse_append,
    List.dropWhile_append_of_pos fun c hc => h c (List.mem_reverse.mp hc)]

/-! ## Both ends -/

/-- What is left begins with the first character that is not blank. -/
theorem trim_of_dropWhile (h : text.dropWhile isBlank = c :: rest) :
    trim text = c :: trimEnd rest := by
  rw [trim, trimStart, h, trimEnd_cons (isBlank_of_dropWhile h)]

/-- Blanks are taken off the end alone where the text does not begin with any. -/
theorem trim_cons (hc : isBlank c = false) (rest : List Char) :
    trim (c :: rest) = trimEnd (c :: rest) := by
  rw [trim, trimStart, List.dropWhile_cons_of_neg (by simp [hc])]

theorem trim_isInfix (text : List Char) : trim text <:+: text :=
  (trimEnd_isPrefix _).isInfix.trans (List.dropWhile_suffix isBlank).isInfix

theorem trim_of_forall (h : ∀ c ∈ text, isBlank c = false) : trim text = text := by
  have hDrop : ∀ {text : List Char}, (∀ c ∈ text, isBlank c = false) →
      text.dropWhile isBlank = text := by
    intro text h
    cases text with
    | nil => rfl
    | cons c text => exact List.dropWhile_cons_of_neg (by simp [h c List.mem_cons_self])
  rw [trim, trimStart, hDrop h, trimEnd, hDrop fun c hc => h c (List.mem_reverse.mp hc),
    List.reverse_reverse]

theorem mem_trim (hBlank : isBlank c = false) (h : c ∈ text) : c ∈ trim text := by
  have hDrop : ∀ {text : List Char}, c ∈ text → c ∈ text.dropWhile isBlank := by
    intro text h
    induction text with
    | nil => exact h
    | cons d text ih =>
      rw [List.dropWhile_cons]
      split
      · next hDropped =>
        rcases List.mem_cons.mp h with rfl | hLater
        · rw [hBlank] at hDropped
          cases hDropped
        · exact ih hLater
      · exact h
  exact List.mem_reverse.mpr (hDrop (List.mem_reverse.mpr (hDrop h)))

theorem trim_eq_nil_iff : trim text = [] ↔ ∀ c ∈ text, isBlank c = true := by
  constructor
  · intro h c hc
    by_contra hBlank
    have hMem := mem_trim (eq_false_of_ne_true hBlank) hc
    rw [h] at hMem
    cases hMem
  · intro h
    rw [trim, trimStart, List.dropWhile_eq_nil_iff.mpr h]
    rfl

/-- A text that holds more than blanks has a first character that is not blank. -/
theorem exists_dropWhile_of_trim_ne_nil (h : trim text ≠ []) :
    ∃ c rest, text.dropWhile isBlank = c :: rest := by
  refine List.exists_cons_of_ne_nil fun hNone => h ?_
  rw [trim, trimStart, hNone]
  rfl

/-- A trimmed text does not begin with a blank. -/
theorem isBlank_of_trim_eq_cons (h : trim text = c :: rest) : isBlank c = false := by
  obtain ⟨d, more, hText⟩ := exists_dropWhile_of_trim_ne_nil (h ▸ List.cons_ne_nil c rest)
  rw [trim_of_dropWhile hText, List.cons.injEq] at h
  exact h.1 ▸ isBlank_of_dropWhile hText

theorem trim_trim (text : List Char) : trim (trim text) = trim text := by
  cases hText : trim text with
  | nil => rfl
  | cons c rest =>
    have hEnd : trimEnd (trim text) = trim text := trimEnd_trimEnd _
    rw [hText] at hEnd
    rw [trim_cons (isBlank_of_trim_eq_cons hText), hEnd]

/-- Text behind a character that is not blank does not change where the trimmed text begins. -/
theorem head?_trim_append (h : trim text ≠ []) (rest : List Char) :
    (trim (text ++ rest)).head? = (trim text).head? := by
  obtain ⟨c, more, hText⟩ := exists_dropWhile_of_trim_ne_nil h
  have hAppend : (text ++ rest).dropWhile isBlank = c :: (more ++ rest) := by
    rw [List.dropWhile_append, hText]
    rfl
  rw [trim_of_dropWhile hText, trim_of_dropWhile hAppend, List.head?_cons, List.head?_cons]

/-- Blanks behind a text are taken off with those at its end. -/
theorem trim_append (h : ∀ c ∈ rest, isBlank c = true) (text : List Char) :
    trim (text ++ rest) = trim text := by
  rw [trim, trim, trimStart, trimStart, List.dropWhile_append]
  split
  · next hNone =>
    rw [List.isEmpty_iff.mp hNone, List.dropWhile_eq_nil_iff.mpr h]
  · exact trimEnd_append h _

end ResourceTables.Text
