import Mathlib.Data.List.Basic
import ResourceTables.Text.Split

/-!
# Occurrences of a pattern

A text is cut around the first occurrence of a pattern. So text in front is kept as it is if no
occurrence starts there, and text behind an occurrence changes nothing. A character that the pattern
lacks keeps occurrences apart: none reaches over it.

## Main results

* `cutAround?_append_cons`: a text without an occurrence, up to a character that the pattern lacks.
* `cutAround?_append_right`: more text behind an occurrence.
* `infix_append_cons_iff`, `infix_append_pair_iff`: occurrences in front of or behind a separator.
-/

namespace ResourceTables.Text

variable {pattern : List Char}

/-! ## Beginnings of a text -/

theorem afterStart?_append (pattern rest : List Char) :
    afterStart? pattern (pattern ++ rest) = some rest := by
  induction pattern with
  | nil => rfl
  | cons c pattern ih => simpa [afterStart?] using ih

theorem eq_of_afterStart? {text rest : List Char} (h : afterStart? pattern text = some rest) :
    text = pattern ++ rest := by
  induction pattern generalizing text with
  | nil => exact Option.some.inj h
  | cons p pattern ih =>
    cases text with
    | nil => cases h
    | cons c text =>
      rw [afterStart?] at h
      split at h
      · next hSame => rw [ih h, hSame, List.cons_append]
      · cases h

theorem afterStart?_eq_none_iff {text : List Char} :
    afterStart? pattern text = none ↔ ¬pattern <+: text := by
  constructor
  · rintro h ⟨rest, rfl⟩
    rw [afterStart?_append] at h
    cases h
  · intro h
    cases hStart : afterStart? pattern text with
    | none => rfl
    | some rest => exact absurd ⟨rest, (eq_of_afterStart? hStart).symm⟩ h

/-! ## Cuts -/

theorem cutAt?_append_cons {sep : Char} {line : List Char} (h : sep ∉ line) (rest : List Char) :
    cutAt? sep (line ++ sep :: rest) = some (line, rest) := by
  induction line with
  | nil => simp [cutAt?]
  | cons c line ih =>
    rw [List.mem_cons, not_or] at h
    rw [List.cons_append, cutAt?, if_neg (Ne.symm h.1), ih h.2]
    rfl

theorem cutAt?_eq_none_iff {sep : Char} {text : List Char} :
    cutAt? sep text = none ↔ sep ∉ text := by
  constructor
  · intro hNone hMem
    obtain ⟨before, after, rfl, hBefore⟩ := List.eq_append_cons_of_mem hMem
    rw [cutAt?_append_cons hBefore] at hNone
    cases hNone
  · intro hSep
    rw [Option.eq_none_iff_forall_ne_some]
    rintro ⟨before, after⟩ hCut
    rw [(eq_of_cutAt? hCut).1] at hSep
    exact hSep (by simp)

/-- The first occurrence of a character is at one place only. -/
theorem append_cons_inj_of_notMem_front {c : Char} {front back front' back' : List Char}
    (hFront : c ∉ front) (hFront' : c ∉ front') (h : front ++ c :: back = front' ++ c :: back') :
    front = front' ∧ back = back' := by
  have hCut := congrArg (cutAt? c) h
  rwa [cutAt?_append_cons hFront, cutAt?_append_cons hFront', Option.some.injEq,
    Prod.mk.injEq] at hCut

/-- The last occurrence of a character is at one place only. -/
theorem append_cons_inj_of_notMem_back {c : Char} {front back front' back' : List Char}
    (hBack : c ∉ back) (hBack' : c ∉ back') (h : front ++ c :: back = front' ++ c :: back') :
    front = front' ∧ back = back' := by
  have hReverse : back.reverse ++ c :: front.reverse = back'.reverse ++ c :: front'.reverse := by
    simpa using congrArg List.reverse h
  obtain ⟨hSame, hSame'⟩ := append_cons_inj_of_notMem_front (by simpa using hBack)
    (by simpa using hBack') hReverse
  exact ⟨List.reverse_inj.mp hSame', List.reverse_inj.mp hSame⟩

theorem cutAround?_append_self (pattern rest : List Char) :
    cutAround? pattern (pattern ++ rest) = some ([], rest) := by
  have hStart := afterStart?_append pattern rest
  cases hText : pattern ++ rest with
  | nil =>
    rw [hText] at hStart
    rw [cutAround?, hStart]
    rfl
  | cons c text =>
    rw [hText] at hStart
    rw [cutAround?, hStart]

/-- Text in which no occurrence starts is kept in front of a cut. -/
theorem cutAround?_append {front rest : List Char}
    (h : ∀ skipped back, front = skipped ++ back → back ≠ [] → ¬pattern <+: back ++ rest) :
    cutAround? pattern (front ++ rest) =
      (cutAround? pattern rest).map fun cut => (front ++ cut.1, cut.2) := by
  induction front with
  | nil => simp
  | cons c front ih =>
    have hHere := h [] (c :: front) rfl (List.cons_ne_nil c front)
    rw [List.cons_append, afterStart?_eq_none_iff.symm] at hHere
    rw [List.cons_append, cutAround?, hHere, ih fun skipped back hFront =>
      h (c :: skipped) back (by rw [hFront, List.cons_append])]
    simp [Option.map_map, Function.comp_def]

theorem cutAround?_append_of_notMem {c : Char} {front : List Char} (h : c ∉ front)
    (rest : List Char) :
    cutAround? (c :: pattern) (front ++ rest) =
      (cutAround? (c :: pattern) rest).map fun cut => (front ++ cut.1, cut.2) := by
  refine cutAround?_append ?_
  rintro skipped (- | ⟨d, back⟩) rfl hBack hStart
  · exact hBack rfl
  · rw [List.cons_append, List.cons_prefix_cons] at hStart
    exact h (by simp [hStart.1])

theorem prefix_of_prefix_append_cons {sep : Char} (hSep : sep ∉ pattern) {front rest : List Char}
    (h : pattern <+: front ++ sep :: rest) : pattern <+: front := by
  obtain ⟨more, hText⟩ := h
  rcases List.append_eq_append_iff.mp hText with ⟨beyond, hFront, -⟩ | ⟨beyond, hPattern, hBeyond⟩
  · exact ⟨beyond, hFront.symm⟩
  · cases beyond with
    | nil => exact ⟨[], by rw [hPattern, List.append_nil, List.append_nil]⟩
    | cons d beyond =>
      rw [List.cons_append, List.cons.injEq] at hBeyond
      exact absurd (by simp [hPattern, hBeyond.1]) hSep

theorem eq_nil_of_prefix_cons {sep : Char} (hSep : sep ∉ pattern) {rest : List Char}
    (h : pattern <+: sep :: rest) : pattern = [] := by
  cases pattern with
  | nil => rfl
  | cons c pattern => simp [(List.cons_prefix_cons.mp h).1] at hSep

/-- Text without an occurrence is kept in front of a cut, up to a character that the pattern
lacks. -/
theorem cutAround?_append_cons {sep : Char} (hSep : sep ∉ pattern) {front : List Char}
    (h : ¬pattern <:+: front) (rest : List Char) :
    cutAround? pattern (front ++ sep :: rest) =
      (cutAround? pattern rest).map fun cut => (front ++ sep :: cut.1, cut.2) := by
  have hCut : cutAround? pattern ((front ++ [sep]) ++ rest) =
      (cutAround? pattern rest).map fun cut => ((front ++ [sep]) ++ cut.1, cut.2) := by
    refine cutAround?_append fun skipped back hFront hBack hStart => ?_
    -- The rest of the front ends with the separator, which no occurrence reaches over.
    obtain ⟨inner, last, rfl⟩ := List.eq_nil_or_concat' back |>.resolve_left hBack
    rw [← List.append_assoc] at hFront
    obtain ⟨hInner, hLast⟩ := List.append_inj' hFront rfl
    obtain rfl := List.singleton_inj.mp hLast
    rw [List.append_assoc, List.singleton_append] at hStart
    have hWithin := prefix_of_prefix_append_cons hSep hStart
    exact h (hInner ▸ hWithin.isInfix.trans (List.suffix_append skipped inner).isInfix)
  simpa using hCut

/-- Only the empty pattern occurs in the empty text. -/
theorem eq_nil_of_cutAround?_nil {before after : List Char}
    (h : cutAround? pattern [] = some (before, after)) :
    before = [] ∧ pattern = [] ∧ after = [] := by
  obtain ⟨rest, hStart, hCut⟩ := Option.map_eq_some_iff.mp h
  obtain ⟨rfl, rfl⟩ := Prod.mk.inj hCut
  exact ⟨rfl, List.append_eq_nil_iff.mp (eq_of_afterStart? hStart).symm⟩

/-- A text is cut where it begins with the pattern, and otherwise further behind. -/
theorem cutAround?_cons_cases {c : Char} {text before after : List Char}
    (h : cutAround? pattern (c :: text) = some (before, after)) :
    before = [] ∧ c :: text = pattern ++ after ∨
      ¬pattern <+: c :: text ∧
        ∃ front, before = c :: front ∧ cutAround? pattern text = some (front, after) := by
  rw [cutAround?] at h
  cases hStart : afterStart? pattern (c :: text) with
  | some rest =>
    simp only [hStart, Option.some.injEq, Prod.mk.injEq] at h
    obtain ⟨rfl, rfl⟩ := h
    exact .inl ⟨rfl, eq_of_afterStart? hStart⟩
  | none =>
    simp only [hStart, Option.map_eq_some_iff] at h
    obtain ⟨⟨front, rest⟩, hCut, hPair⟩ := h
    obtain ⟨rfl, rfl⟩ := Prod.mk.inj hPair
    exact .inr ⟨afterStart?_eq_none_iff.mp hStart, front, rfl, hCut⟩

theorem eq_of_cutAround? {text before after : List Char}
    (h : cutAround? pattern text = some (before, after)) : text = before ++ pattern ++ after := by
  induction text generalizing before with
  | nil =>
    obtain ⟨rfl, rfl, rfl⟩ := eq_nil_of_cutAround?_nil h
    rfl
  | cons c text ih =>
    rcases cutAround?_cons_cases h with ⟨rfl, hText⟩ | ⟨-, front, rfl, hCut⟩
    · exact hText
    · rw [ih hCut]
      rfl

theorem exists_cutAround? {text : List Char} (h : pattern <:+: text) :
    ∃ before after, cutAround? pattern text = some (before, after) := by
  induction text with
  | nil =>
    obtain rfl := List.infix_nil.mp h
    exact ⟨[], [], rfl⟩
  | cons c text ih =>
    rw [cutAround?]
    cases hStart : afterStart? pattern (c :: text) with
    | some after => exact ⟨[], after, rfl⟩
    | none =>
      have hLater := (List.infix_cons_iff.mp h).resolve_left (afterStart?_eq_none_iff.mp hStart)
      obtain ⟨before, after, hCut⟩ := ih hLater
      exact ⟨c :: before, after, by rw [hCut]; rfl⟩

/-- More text behind an occurrence changes nothing in front of it. -/
theorem cutAround?_append_right {text before after : List Char}
    (h : cutAround? pattern text = some (before, after)) (more : List Char) :
    cutAround? pattern (text ++ more) = some (before, after ++ more) := by
  induction text generalizing before with
  | nil =>
    obtain ⟨rfl, rfl, rfl⟩ := eq_nil_of_cutAround?_nil h
    exact cutAround?_append_self [] more
  | cons c text ih =>
    rcases cutAround?_cons_cases h with ⟨rfl, hText⟩ | ⟨hStart, front, rfl, hCut⟩
    · rw [hText, List.append_assoc, cutAround?_append_self]
    · -- An occurrence at this place would be in the text without more, which has room for one.
      have hLength : pattern.length ≤ (c :: text).length := by
        simp [eq_of_cutAround? hCut]
        omega
      have hNone : afterStart? pattern (c :: (text ++ more)) = none := by
        rw [afterStart?_eq_none_iff]
        exact fun hMore => hStart <| List.prefix_of_prefix_length_le hMore
          (List.prefix_append (c :: text) more) hLength
      rw [List.cons_append, cutAround?, hNone, ih hCut]
      rfl

/-! ## Occurrences around a separator -/

/-- An occurrence does not reach over a character that the pattern lacks. -/
theorem infix_append_cons_iff {sep : Char} (hSep : sep ∉ pattern) {front rest : List Char} :
    pattern <:+: front ++ sep :: rest ↔ pattern <:+: front ∨ pattern <:+: rest := by
  constructor
  · intro h
    rcases List.infix_append_iff.mp h with hFront | hRest | ⟨first, second, rfl, hFirst, hSecond⟩
    · exact .inl hFront
    · rcases List.infix_cons_iff.mp hRest with hHere | hLater
      · rw [eq_nil_of_prefix_cons hSep hHere]
        exact .inl List.nil_infix
      · exact .inr hLater
    · rw [List.mem_append, not_or] at hSep
      rw [eq_nil_of_prefix_cons hSep.2 hSecond, List.append_nil]
      exact .inl hFirst.isInfix
  · rintro (hFront | hRest)
    · exact hFront.trans (List.prefix_append _ _).isInfix
    · exact hRest.trans ((List.suffix_cons _ _).trans (List.suffix_append _ _)).isInfix

/-- An occurrence does not reach over a pair of characters that the pattern lacks, and reaches into
it from the front only. -/
theorem infix_append_pair_iff {c sep : Char} (hStart : c ≠ sep)
    (hPair : ¬[sep, sep] <:+: c :: pattern) {front rest : List Char} :
    c :: pattern <:+: front ++ sep :: sep :: rest ↔
      c :: pattern <:+: front ++ [sep] ∨ c :: pattern <:+: rest := by
  have hSplit : front ++ sep :: sep :: rest = (front ++ [sep]) ++ sep :: rest := by simp
  have hNot : ∀ text, ¬c :: pattern <+: sep :: text := fun text h =>
    hStart (List.cons_prefix_cons.mp h).1
  rw [hSplit]
  constructor
  · intro h
    rcases List.infix_append_iff.mp h with hFront | hRest | ⟨first, second, hText, hFirst, hSecond⟩
    · exact .inl hFront
    · exact .inr ((List.infix_cons_iff.mp hRest).resolve_left (hNot rest))
    · rcases List.eq_nil_or_concat' first with rfl | ⟨init, last, rfl⟩
      · exact absurd (hText ▸ hSecond) (hNot rest)
      · cases second with
        | nil =>
          rw [hText, List.append_nil]
          exact .inl hFirst.isInfix
        | cons next second =>
          -- The pattern would end its first part and begin its second one with the separator.
          obtain rfl := (List.cons_prefix_cons.mp hSecond).1
          obtain ⟨skipped, hFront⟩ := hFirst
          rw [← List.append_assoc] at hFront
          obtain rfl := List.singleton_inj.mp (List.append_inj' hFront rfl).2
          exact absurd ⟨init, second, by rw [hText]; simp⟩ hPair
  · rintro (hFront | hRest)
    · exact hFront.trans (List.prefix_append _ _).isInfix
    · exact hRest.trans ((List.suffix_cons _ _).trans (List.suffix_append _ _)).isInfix

/-- An occurrence starts behind text that lacks the first character of the pattern. -/
theorem infix_append_of_notMem_iff {c : Char} {front : List Char} (h : c ∉ front)
    {rest : List Char} : c :: pattern <:+: front ++ rest ↔ c :: pattern <:+: rest := by
  induction front with
  | nil => rfl
  | cons d front ih =>
    rw [List.mem_cons, not_or] at h
    rw [List.cons_append, List.infix_cons_iff, ih h.2, or_iff_right]
    exact fun hHere => h.1 (List.cons_prefix_cons.mp hHere).1

end ResourceTables.Text
