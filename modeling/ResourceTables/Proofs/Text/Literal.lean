import ResourceTables.Proofs.Text.OneLine
import ResourceTables.Text.Reader

/-!
# Reading literals back

A string literal is read character by character, by the grammar of the language that generated
modules are written in: a backslash begins an escape, a double quote ends the literal, and every
other character stands for itself. Line ends must be escaped here, though the grammar lets a line
feed stand for itself as well; so whatever is read lies on one line.

The literal of a text is read as this text, whichever characters the writer chose to show.

## Main definitions

* `Text.LiteralPlace`: where in a literal a reader stands.
* `Text.readQuoted`: the text of a literal from such a place on, and what comes after its end.

## Main results

* `Text.readDigits_toDigits`: digits stand for the number that they were made from.
* `Text.readQuoted_escape`: an escaped text is read as the text.
-/

namespace ResourceTables.Text

/-! ## Digits -/

section Digits

variable {base : Nat}

theorem digitValue_digitChar {digit : Nat} (h : digit < 16) :
    digitValue (Nat.digitChar digit) = digit := by
  revert digit
  decide

theorem isHexDigit_digitChar {digit : Nat} (h : digit < 16) :
    isHexDigit (Nat.digitChar digit) = true := by
  revert digit
  decide

/-- The digits of a number stand for it. -/
theorem readDigits_toDigits (hBase : 1 < base ∧ base ≤ 16) (n : Nat) :
    readDigits base (Nat.toDigits base n) = n := by
  induction n using Nat.strongRecOn with
  | ind n ih =>
    rw [Nat.toDigits_eq_if hBase.1]
    split
    · next hSmall =>
      rw [readDigits, List.foldl_cons, List.foldl_nil, digitValue_digitChar (by omega)]
      omega
    · next hLarge =>
      have hFront := ih (n / base) (Nat.div_lt_self (by omega) hBase.1)
      rw [readDigits] at hFront
      have hLast := Nat.mod_lt n (show 0 < base by omega)
      rw [readDigits, List.foldl_append, hFront, List.foldl_cons, List.foldl_nil,
        digitValue_digitChar (by omega)]
      exact Nat.div_add_mod' n base

/-- Six digits of base 16 are enough for a code point. -/
theorem length_toDigits_toNat (c : Char) : (Nat.toDigits 16 c.toNat).length ≤ 6 := by
  rw [Nat.length_toDigits_le_iff (by decide) (by decide)]
  have hCode : c.toNat = c.val.toNat := rfl
  rcases c.valid with hLow | ⟨-, hHigh⟩ <;> omega

end Digits

/-! ## Literals -/

/-- Where in a literal a reader stands. -/
inductive LiteralPlace where
  /-- In front of a character that may stand for itself. -/
  | plain
  /-- After a backslash. -/
  | escape
  /-- After a backslash and a `u`. -/
  | codePoint
  /-- Among the digits of a code point, after so many of them, which stand for a number. -/
  | digits (count value : Nat)

/-- The character that an escape of one character stands for. -/
def escaped? : Char → Option Char
  | '0' => some '\x00'
  | 't' => some '\t'
  | 'r' => some '\r'
  | 'n' => some '\n'
  | '"' => some '"'
  | '\\' => some '\\'
  | _ => none

/-- The character with a code point. -/
def charOf? (code : Nat) : Option Char :=
  if code.isValidChar then some (Char.ofNat code) else none

/-- The text of a literal from a place on, and what comes after its end. -/
def readQuoted : LiteralPlace → List Char → Option (List Char × List Char)
  | _, [] => none
  | .plain, c :: rest =>
    if c = '"' then some ([], rest)
    else if c = '\\' then readQuoted .escape rest
    else if c = '\n' ∨ c = '\r' then none
    else (readQuoted .plain rest).map fun (text, after) => (c :: text, after)
  | .escape, c :: rest =>
    if c = 'u' then readQuoted .codePoint rest
    else match escaped? c with
      | none => none
      | some own => (readQuoted .plain rest).map fun (text, after) => (own :: text, after)
  | .codePoint, c :: rest => if c = '\x7b' then readQuoted (.digits 0 0) rest else none
  | .digits count value, c :: rest =>
    if c = '\x7d' then
      if count = 0 then none
      else match charOf? value with
        | none => none
        | some own => (readQuoted .plain rest).map fun (text, after) => (own :: text, after)
    else if isHexDigit c ∧ count < 6 then
      readQuoted (.digits (count + 1) (value * 16 + digitValue c)) rest
    else none

/-- Digits of a code point are read one after the other. -/
theorem readQuoted_digits {digits : List Char} (hDigits : ∀ c ∈ digits, isHexDigit c = true)
    {count : Nat} (hLength : count + digits.length ≤ 6) (value : Nat) (rest : List Char) :
    readQuoted (.digits count value) (digits ++ rest) =
      readQuoted (.digits (count + digits.length)
        (digits.foldl (fun n c => n * 16 + digitValue c) value)) rest := by
  induction digits generalizing count value with
  | nil => rfl
  | cons c digits ih =>
    obtain ⟨hDigit, hDigits⟩ := List.forall_mem_cons.mp hDigits
    rw [List.length_cons] at hLength
    have hClose : c ≠ '\x7d' := by
      rintro rfl
      exact absurd hDigit (by decide)
    rw [List.cons_append, readQuoted, if_neg hClose, if_pos ⟨hDigit, by omega⟩,
      ih hDigits (by omega), List.foldl_cons, List.length_cons]
    congr 2
    omega

/-- A character is found again by its code point. -/
theorem charOf?_toNat (c : Char) : charOf? c.toNat = some c := by
  have hValid : c.toNat.isValidChar := c.valid
  rw [charOf?, if_pos hValid, Char.ofNat_toNat]

/-- A code point between braces stands for its character. -/
theorem readQuoted_codePoint (c : Char) (rest : List Char) :
    readQuoted .codePoint ('\x7b' :: (Nat.toDigits 16 c.toNat ++ '\x7d' :: rest)) =
      (readQuoted .plain rest).map fun (text, after) => (c :: text, after) := by
  have hDigits : ∀ digit ∈ Nat.toDigits 16 c.toNat, isHexDigit digit = true :=
    forall_mem_toDigits (show 1 < 16 by decide) (fun digit => isHexDigit_digitChar) c.toNat
  have hCount : (Nat.toDigits 16 c.toNat).length ≠ 0 := by
    rw [Ne, List.length_eq_zero_iff]
    exact Nat.toDigits_ne_nil
  have hLength := length_toDigits_toNat c
  have hCode : (Nat.toDigits 16 c.toNat).foldl (fun n c => n * 16 + digitValue c) 0 = c.toNat :=
    readDigits_toDigits (by decide) c.toNat
  rw [readQuoted, if_pos rfl, readQuoted_digits hDigits (by omega), hCode, readQuoted, if_pos rfl,
    if_neg (by omega), charOf?_toNat]

/-- What stands in a literal for a character is read as it, whether or not it is shown. -/
theorem readQuoted_escapeChar (shown : Char → Bool) (c : Char) (rest : List Char) :
    readQuoted .plain (escapeChar shown c ++ rest) =
      (readQuoted .plain rest).map fun (text, after) => (c :: text, after) := by
  rw [escapeChar]
  repeat' split
  · next h => subst h; rfl
  · next h => subst h; rfl
  · next h => subst h; rfl
  · next h => subst h; rfl
  · next h => subst h; rfl
  · next h => subst h; rfl
  · next hReturn hFeed hQuote hBackslash _ =>
    simp [readQuoted, hQuote, hBackslash, hFeed, hReturn]
  · rw [List.append_assoc, List.append_assoc]
    exact readQuoted_codePoint c rest

/-- An escaped text is read as the text. -/
theorem readQuoted_escape (shown : Char → Bool) (text rest : List Char) :
    readQuoted .plain (escape shown text ++ '"' :: rest) = some (text, rest) := by
  induction text with
  | nil => rfl
  | cons c text ih =>
    rw [escape, List.flatMap_cons, List.append_assoc, readQuoted_escapeChar, ← escape, ih]
    rfl

end ResourceTables.Text
