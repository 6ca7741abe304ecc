/-!
# Cutting a text

Cutting a text at a character, at a pair of colons, or at the first place where another text
occurs in it.

## Main definitions

* `cutAt?`: the text before and after the first occurrence of a character.
* `splitOnColons`: the pieces of a text between pairs of colons.
* `cutAround?`: the text before and after the first occurrence of a text.
-/

namespace ResourceTables.Text

/-- The text before and after the first occurrence of a character, if it occurs. -/
def cutAt? (sep : Char) : List Char → Option (List Char × List Char)
  | [] => none
  | c :: rest =>
    if c = sep then some ([], rest)
    else (cutAt? sep rest).map fun (before, after) => (c :: before, after)

/-- Puts a character in front of the first of some pieces. -/
def consHead (c : Char) : List (List Char) → List (List Char)
  | [] => [[c]]
  | piece :: pieces => (c :: piece) :: pieces

/-- The pieces of a text between pairs of colons, found from the left. -/
def splitOnColons : List Char → List (List Char)
  | [] => [[]]
  | ':' :: ':' :: rest => [] :: splitOnColons rest
  | c :: rest => consHead c (splitOnColons rest)

/-- The pieces of a text between occurrences of a character. -/
def splitOnChar (sep : Char) : List Char → List (List Char)
  | [] => [[]]
  | c :: rest => if c = sep then [] :: splitOnChar sep rest else consHead c (splitOnChar sep rest)

/-- The text after a given beginning, if it begins so. -/
def afterStart? : List Char → List Char → Option (List Char)
  | [], text => some text
  | _ :: _, [] => none
  | p :: pattern, c :: text => if p = c then afterStart? pattern text else none

/-- The text before and after the first occurrence of a pattern, if it occurs. -/
def cutAround? (pattern : List Char) : List Char → Option (List Char × List Char)
  | [] => (afterStart? pattern []).map fun after => ([], after)
  | c :: rest =>
    match afterStart? pattern (c :: rest) with
    | some after => some ([], after)
    | none => (cutAround? pattern rest).map fun (before, after) => (c :: before, after)

/-- A cut leaves out one occurrence of the character and nothing else. -/
theorem eq_of_cutAt? {sep : Char} {text before after : List Char}
    (h : cutAt? sep text = some (before, after)) :
    text = before ++ sep :: after ∧ sep ∉ before := by
  induction text generalizing before with
  | nil => simp [cutAt?] at h
  | cons c rest ih =>
    by_cases hc : c = sep
    · simp only [cutAt?, hc, if_true, Option.some.injEq, Prod.mk.injEq] at h
      simp [← h.1, ← h.2, hc]
    · simp only [cutAt?, if_neg hc, Option.map_eq_some_iff, Prod.exists, Prod.mk.injEq] at h
      obtain ⟨b, a, hCut, rfl, rfl⟩ := h
      have := ih hCut
      exact ⟨by simp [← this.1], by simp [this.2, Ne.symm hc]⟩

end ResourceTables.Text
