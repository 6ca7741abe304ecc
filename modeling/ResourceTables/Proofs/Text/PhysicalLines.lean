import ResourceTables.Proofs.Text.Occurrences
import ResourceTables.Proofs.Text.OneLine

/-!
# Physical lines

The physical lines of a text are what stands between its line feeds, and the number of a line is
told by the line feeds in front of it.

## Main definitions

* `LineAt`: a line of a text, by its number.

## Main results

* `getElem?_physicalLines_iff`: the physical lines of a text, one after the other, are the lines
  with the numbers from 1 on.
-/

namespace ResourceTables.Text

theorem physicalLines_append {line : List Char} (h : '\n' ∉ line) (rest : List Char) :
    physicalLines (line ++ '\n' :: rest) = dropReturn line :: physicalLines rest := by
  rw [physicalLines, feedLines_append h, List.map_cons]
  rfl

theorem physicalLines_of_notMem {text : List Char} (h : '\n' ∉ text) (hText : text ≠ []) :
    physicalLines text = [text] := by
  have hLines : feedLines text = [(text, false)] := by
    induction text with
    | nil => exact absurd rfl hText
    | cons c rest ih =>
      rw [List.mem_cons, not_or] at h
      rw [feedLines, if_neg (Ne.symm h.1)]
      cases rest with
      | nil => rfl
      | cons d rest => rw [ih h.2 (List.cons_ne_nil _ _)]
  rw [physicalLines, hLines]
  rfl

/-! ## Lines by their numbers -/

/-- A line of a text, by its number from 1 on: what stands between line feeds, without a carriage
return right before the line feed that ends it. Text behind the last line feed is a line as it is,
if there is any. -/
def LineAt (text : List Char) (number : Nat) (line : List Char) : Prop :=
  ∃ before raw after, text = before ++ raw ++ after ∧ number = before.count '\n' + 1 ∧
    (before = [] ∨ before.getLast? = some '\n') ∧ '\n' ∉ raw ∧
    (after.head? = some '\n' ∧ line = dropReturn raw ∨ after = [] ∧ raw ≠ [] ∧ line = raw)

theorem lineAt_of_notMem {text : List Char} (h : '\n' ∉ text) {number : Nat} {line : List Char} :
    LineAt text number line ↔ number = 1 ∧ text ≠ [] ∧ line = text := by
  constructor
  · rintro ⟨before, raw, after, rfl, rfl, hBefore, -, hAfter⟩
    rw [List.mem_append, List.mem_append, not_or, not_or] at h
    obtain rfl : before = [] :=
      hBefore.resolve_right fun hLast => h.1.1 (List.mem_of_getLast? hLast)
    obtain ⟨hHead, -⟩ | ⟨rfl, hRaw, rfl⟩ := hAfter
    · exact absurd (List.mem_of_head? hHead) h.2
    · simpa using hRaw
  · rintro ⟨rfl, hText, rfl⟩
    exact ⟨[], line, [], by simp, rfl, .inl rfl, h, .inr ⟨rfl, hText, rfl⟩⟩

/-- Behind a first line, the lines of the rest count on. -/
theorem lineAt_append {first : List Char} (h : '\n' ∉ first) {rest : List Char} {number : Nat}
    {line : List Char} :
    LineAt (first ++ '\n' :: rest) number line ↔
      number = 1 ∧ line = dropReturn first ∨ ∃ own, number = own + 1 ∧ LineAt rest own line := by
  constructor
  · rintro ⟨before, raw, after, hText, rfl, hBefore, hRaw, hAfter⟩
    -- A line with nothing in front is the first. In front of any other stands a text that ends with
    -- a line feed, from which the first line is taken.
    obtain rfl | hLast := hBefore
    · obtain ⟨hHead, rfl⟩ | ⟨rfl, -, -⟩ := hAfter
      · obtain ⟨more, rfl⟩ := List.head?_eq_some_iff.mp hHead
        obtain ⟨rfl, -⟩ := append_cons_inj_of_notMem_front h hRaw hText
        exact .inl ⟨rfl, rfl⟩
      · have hFeed : '\n' ∈ first ++ '\n' :: rest := by simp
        rw [hText] at hFeed
        exact absurd (by simpa using hFeed) hRaw
    · obtain ⟨front, back, rfl, hFront⟩ := List.eq_append_cons_of_mem (List.mem_of_getLast? hLast)
      rw [List.append_assoc, List.append_assoc, List.cons_append] at hText
      obtain ⟨rfl, rfl⟩ := append_cons_inj_of_notMem_front h hFront hText
      have hCount : (first ++ '\n' :: back).count '\n' = back.count '\n' + 1 := by
        rw [List.count_append, List.count_eq_zero_of_not_mem h, List.count_cons_self, Nat.zero_add]
      have hBack : back = [] ∨ back.getLast? = some '\n' := by
        rw [List.getLast?_append_of_ne_nil _ (List.cons_ne_nil _ _), List.getLast?_cons] at hLast
        cases hEnd : back.getLast? with
        | none => exact .inl (List.getLast?_eq_none_iff.mp hEnd)
        | some c =>
          rw [hEnd] at hLast
          exact .inr hLast
      exact .inr ⟨_, congrArg (· + 1) hCount,
        back, raw, after, (List.append_assoc ..).symm, rfl, hBack, hRaw, hAfter⟩
  · rintro (⟨rfl, rfl⟩ | ⟨own, rfl, before, raw, after, rfl, rfl, hBefore, hRaw, hAfter⟩)
    · exact ⟨[], first, '\n' :: rest, rfl, rfl, .inl rfl, h, .inl ⟨rfl, rfl⟩⟩
    · refine ⟨first ++ '\n' :: before, raw, after, by simp, ?_, .inr ?_, hRaw, hAfter⟩
      · rw [List.count_append, List.count_eq_zero_of_not_mem h, List.count_cons_self, Nat.zero_add]
      · rw [List.getLast?_append_of_ne_nil _ (List.cons_ne_nil _ _), List.getLast?_cons]
        obtain rfl | hLast := hBefore
        · rfl
        · rw [hLast]
          rfl

/-- The lines of a text are what stands between its line feeds. The induction is on the length of
the text, from which the first line is taken. -/
theorem getElem?_physicalLines_iff {text : List Char} {index : Nat} {line : List Char} :
    (physicalLines text)[index]? = some line ↔ LineAt text (index + 1) line := by
  induction hLength : text.length using Nat.strongRecOn generalizing text index with
  | ind length ih =>
    by_cases hFeed : '\n' ∈ text
    · obtain ⟨first, rest, rfl, hFirst⟩ := List.eq_append_cons_of_mem hFeed
      rw [physicalLines_append hFirst, lineAt_append hFirst]
      have hShorter : rest.length < length := by
        rw [← hLength, List.length_append, List.length_cons]
        omega
      cases index with
      | zero =>
        have hOther : ¬∃ own, 0 + 1 = own + 1 ∧ LineAt rest own line := by
          rintro ⟨own, hOwn, before, -, -, -, rfl, -⟩
          omega
        rw [List.getElem?_cons_zero, Option.some.injEq, or_iff_left hOther, eq_comm]
        exact (and_iff_right rfl).symm
      | succ index =>
        have hFirst : ¬(index + 1 + 1 = 1 ∧ line = dropReturn first) := by
          rintro ⟨hNumber, -⟩
          omega
        rw [List.getElem?_cons_succ, ih _ hShorter rfl, or_iff_right hFirst]
        simp only [Nat.add_right_cancel_iff, exists_eq_left']
    · rw [lineAt_of_notMem hFeed]
      by_cases hText : text = []
      · subst hText
        simp [physicalLines, feedLines]
      · rw [physicalLines_of_notMem hFeed hText]
        cases index <;> simp [hText, eq_comm]

theorem LineAt.lineFeed_notMem {text : List Char} {number : Nat} {line : List Char}
    (h : LineAt text number line) : '\n' ∉ line := by
  obtain ⟨-, raw, -, -, -, -, hRaw, ⟨-, rfl⟩ | ⟨-, -, rfl⟩⟩ := h
  · rw [dropReturn]
    split
    · exact fun hFeed => hRaw (List.dropLast_subset raw hFeed)
    · exact hRaw
  · exact hRaw

theorem LineAt.eq {text : List Char} {number : Nat} {line other : List Char}
    (h : LineAt text number line) (hOther : LineAt text number other) : line = other := by
  obtain ⟨index, rfl⟩ : ∃ index, number = index + 1 := by
    obtain ⟨before, -, -, -, hNumber, -⟩ := h
    exact ⟨_, hNumber⟩
  exact Option.some.inj
    ((getElem?_physicalLines_iff.mpr h).symm.trans (getElem?_physicalLines_iff.mpr hOther))

end ResourceTables.Text
