/-!
# Encoded texts

Texts that come as bytes: a byte order mark in front is no part of the text, and bytes that are no
encoding of a text can still be read as one, with a replacement character for what is damaged.

## Main definitions

* `dropMark`: the text after a byte order mark.
* `readFollowers`: the bytes that complete a character.
* `repairedText`: the text in bytes that may be damaged.
-/

namespace ResourceTables.Text

/-- The text after a byte order mark, if there is one in front. -/
def dropMark (text : String) : String :=
  match text.toList with
  | '\uFEFF' :: rest => String.ofList rest
  | _ => text

/-- The bits of a character that its first byte holds, and the ranges that the bytes after it must
be in. The ranges leave out what has a shorter encoding and what is no character. -/
def leadingByte? (byte : Nat) : Option (Nat × List (Nat × Nat)) :=
  let follower := (0x80, 0xBF)
  if byte < 0x80 then some (byte, [])
  else if byte < 0xC2 then none
  else if byte < 0xE0 then some (byte % 32, [follower])
  else if byte = 0xE0 then some (byte % 16, [(0xA0, 0xBF), follower])
  else if byte = 0xED then some (byte % 16, [(0x80, 0x9F), follower])
  else if byte < 0xF0 then some (byte % 16, [follower, follower])
  else if byte = 0xF0 then some (byte % 8, [(0x90, 0xBF), follower, follower])
  else if byte < 0xF4 then some (byte % 8, [follower, follower, follower])
  else if byte = 0xF4 then some (byte % 8, [(0x80, 0x8F), follower, follower])
  else none

/-- Completes the bits of a character from bytes in given ranges; `none` if a byte is missing or out
of its range. That byte and those after it are left over. -/
def readFollowers (bits : Nat) : List (Nat × Nat) → List UInt8 → Option Nat × List UInt8
  | [], rest => (some bits, rest)
  | _ :: _, [] => (none, [])
  | (least, greatest) :: ranges, byte :: rest =>
    if least ≤ byte.toNat ∧ byte.toNat ≤ greatest then
      readFollowers (bits * 64 + byte.toNat % 64) ranges rest
    else (none, byte :: rest)

/-- No bytes are left over that were not there. -/
theorem length_readFollowers_le (bits : Nat) (ranges : List (Nat × Nat)) (bytes : List UInt8) :
    (readFollowers bits ranges bytes).2.length ≤ bytes.length := by
  fun_induction readFollowers bits ranges bytes with
  | case3 bits least greatest ranges byte rest _ ih =>
    exact Nat.le_trans ih (Nat.le_succ _)
  | _ => simp

/-- The characters that bytes encode. The longest front of an encoded character that is cut short,
or else a byte that begins none, is read as a replacement character. -/
def repairedChars : List UInt8 → List Char
  | [] => []
  | byte :: rest =>
    match leadingByte? byte.toNat with
    | none => '\uFFFD' :: repairedChars rest
    | some (bits, ranges) =>
      let completed := readFollowers bits ranges rest
      ((completed.1.map Char.ofNat).getD '\uFFFD') :: repairedChars completed.2
termination_by bytes => bytes.length
decreasing_by
  · simp
  · exact Nat.lt_succ_of_le (length_readFollowers_le bits ranges rest)

/-- The text in bytes that may be damaged. -/
def repairedText (bytes : List UInt8) : String :=
  String.ofList (repairedChars bytes)

end ResourceTables.Text
