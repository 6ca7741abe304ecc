import ResourceTables.Text.Split

/-!
# Pieces of a text

What the pieces of a text between occurrences of a character are: none of them holds the character,
a text without the character is its only piece, and an occurrence parts the pieces in front of it
from those behind it.
-/

namespace ResourceTables.Text

variable {sep : Char}

theorem consHead_ne_nil (c : Char) (pieces : List (List Char)) : consHead c pieces ≠ [] := by
  cases pieces <;> simp [consHead]

theorem consHead_append (c : Char) {pieces : List (List Char)} (h : pieces ≠ [])
    (rest : List (List Char)) : consHead c (pieces ++ rest) = consHead c pieces ++ rest := by
  cases pieces with
  | nil => exact absurd rfl h
  | cons piece pieces => rfl

theorem splitOnChar_ne_nil (sep : Char) (text : List Char) : splitOnChar sep text ≠ [] := by
  cases text with
  | nil => simp [splitOnChar]
  | cons c rest =>
    rw [splitOnChar]
    split
    · simp
    · exact consHead_ne_nil c _

/-- A text without the character is its only piece. -/
theorem splitOnChar_of_notMem {text : List Char} (h : sep ∉ text) :
    splitOnChar sep text = [text] := by
  induction text with
  | nil => rfl
  | cons c rest ih =>
    rw [List.mem_cons, not_or] at h
    rw [splitOnChar, if_neg (Ne.symm h.1), ih h.2]
    rfl

/-- An occurrence of the character parts the pieces in front of it from those behind it. -/
theorem splitOnChar_append_cons (front rest : List Char) :
    splitOnChar sep (front ++ sep :: rest) = splitOnChar sep front ++ splitOnChar sep rest := by
  induction front with
  | nil => simp [splitOnChar]
  | cons c front ih =>
    rw [List.cons_append, splitOnChar, splitOnChar, ih]
    split
    · rfl
    · exact consHead_append c (splitOnChar_ne_nil sep front) _

/-- The first piece ends with the text, or where the character occurs first. -/
theorem eq_of_splitOnChar_cons {text piece : List Char} {pieces : List (List Char)}
    (h : splitOnChar sep text = piece :: pieces) :
    sep ∉ piece ∧ (pieces = [] ∧ text = piece ∨
      ∃ rest, text = piece ++ sep :: rest ∧ splitOnChar sep rest = pieces) := by
  induction text generalizing piece with
  | nil =>
    rw [splitOnChar, List.cons.injEq] at h
    obtain ⟨rfl, rfl⟩ := h
    exact ⟨List.not_mem_nil, .inl ⟨rfl, rfl⟩⟩
  | cons c text ih =>
    rw [splitOnChar] at h
    split at h
    · next hSep =>
      rw [List.cons.injEq] at h
      obtain ⟨rfl, hRest⟩ := h
      exact ⟨List.not_mem_nil, .inr ⟨text, by rw [hSep, List.nil_append], hRest⟩⟩
    · next hSep =>
      obtain ⟨first, more, hSplit⟩ := List.exists_cons_of_ne_nil (splitOnChar_ne_nil sep text)
      rw [hSplit, consHead, List.cons.injEq] at h
      obtain ⟨rfl, rfl⟩ := h
      obtain ⟨hFirst, hText⟩ := ih hSplit
      refine ⟨by simp [Ne.symm hSep, hFirst], ?_⟩
      rcases hText with ⟨rfl, rfl⟩ | ⟨rest, rfl, hRest⟩
      · exact .inl ⟨rfl, rfl⟩
      · exact .inr ⟨rest, rfl, hRest⟩

theorem notMem_of_mem_splitOnChar {text piece : List Char} (h : piece ∈ splitOnChar sep text) :
    sep ∉ piece := by
  generalize hSplit : splitOnChar sep text = pieces at h
  induction pieces generalizing text with
  | nil => cases h
  | cons first rest ih =>
    obtain ⟨hFirst, hText⟩ := eq_of_splitOnChar_cons hSplit
    rcases List.mem_cons.mp h with rfl | hRest
    · exact hFirst
    · rcases hText with ⟨rfl, -⟩ | ⟨behind, -, hBehind⟩
      · cases hRest
      · exact ih hBehind hRest

/-- The characters of the text, but for the one that parts it, are those of the pieces. -/
theorem mem_iff_exists_mem_splitOnChar {c : Char} (hc : c ≠ sep) {text : List Char} :
    c ∈ text ↔ ∃ piece ∈ splitOnChar sep text, c ∈ piece := by
  generalize hSplit : splitOnChar sep text = pieces
  induction pieces generalizing text with
  | nil => exact absurd hSplit (splitOnChar_ne_nil sep text)
  | cons piece pieces ih =>
    obtain ⟨-, ⟨rfl, rfl⟩ | ⟨rest, rfl, hRest⟩⟩ := eq_of_splitOnChar_cons hSplit
    · simp
    · rw [List.mem_append, List.mem_cons, ih hRest]
      simp [hc]

/-- A piece is a part of the text. -/
theorem isInfix_of_mem_splitOnChar {text piece : List Char} (h : piece ∈ splitOnChar sep text) :
    piece <:+: text := by
  generalize hSplit : splitOnChar sep text = pieces at h
  induction pieces generalizing text with
  | nil => cases h
  | cons first rest ih =>
    obtain ⟨-, ⟨rfl, rfl⟩ | ⟨behind, rfl, hBehind⟩⟩ := eq_of_splitOnChar_cons hSplit
    · exact (List.mem_singleton.mp h).symm ▸ List.infix_rfl
    · rcases List.mem_cons.mp h with rfl | hRest
      · exact (List.prefix_append _ _).isInfix
      · exact (ih hBehind hRest).trans
          ((List.suffix_cons sep behind).trans (List.suffix_append first _)).isInfix

end ResourceTables.Text
