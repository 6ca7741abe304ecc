/-!
# SHA-256

The secure hash of 256 bits of a sequence of bytes.

## Main definitions

* `Sha256.padded`: the message with its end mark and length.
* `Sha256.compress`: one block worked into the state.
* `Sha256.digest`: the hash of a message.
-/

namespace ResourceTables.Sha256

/-- The eight words that the hash of no blocks consists of. -/
def initial : List UInt32 :=
  [0x6a09e667, 0xbb67ae85, 0x3c6ef372, 0xa54ff53a, 0x510e527f, 0x9b05688c, 0x1f83d9ab, 0x5be0cd19]

/-- The constants of the 64 rounds. -/
def roundConstants : List UInt32 :=
  [0x428a2f98, 0x71374491, 0xb5c0fbcf, 0xe9b5dba5, 0x3956c25b, 0x59f111f1, 0x923f82a4, 0xab1c5ed5,
   0xd807aa98, 0x12835b01, 0x243185be, 0x550c7dc3, 0x72be5d74, 0x80deb1fe, 0x9bdc06a7, 0xc19bf174,
   0xe49b69c1, 0xefbe4786, 0x0fc19dc6, 0x240ca1cc, 0x2de92c6f, 0x4a7484aa, 0x5cb0a9dc, 0x76f988da,
   0x983e5152, 0xa831c66d, 0xb00327c8, 0xbf597fc7, 0xc6e00bf3, 0xd5a79147, 0x06ca6351, 0x14292967,
   0x27b70a85, 0x2e1b2138, 0x4d2c6dfc, 0x53380d13, 0x650a7354, 0x766a0abb, 0x81c2c92e, 0x92722c85,
   0xa2bfe8a1, 0xa81a664b, 0xc24b8b70, 0xc76c51a3, 0xd192e819, 0xd6990624, 0xf40e3585, 0x106aa070,
   0x19a4c116, 0x1e376c08, 0x2748774c, 0x34b0bcb5, 0x391c0cb3, 0x4ed8aa4a, 0x5b9cca4f, 0x682e6ff3,
   0x748f82ee, 0x78a5636f, 0x84c87814, 0x8cc70208, 0x90befffa, 0xa4506ceb, 0xbef9a3f7, 0xc67178f2]

/-- A word turned right. -/
def rotate (word amount : UInt32) : UInt32 :=
  (word >>> amount) ||| (word <<< (32 - amount))

/-- A length as eight bytes, the highest first. -/
def lengthBytes (bits : Nat) : List UInt8 :=
  (List.range 8).map fun i => UInt8.ofNat (bits >>> (8 * (7 - i)))

/-- The message with its end mark, zeros, and its length in bits, in whole blocks of 64 bytes. -/
def padded (message : List UInt8) : List UInt8 :=
  let length := message.length
  message ++ [0x80] ++ List.replicate ((119 - length % 64) % 64) 0 ++ lengthBytes (8 * length)

/-- Four bytes as a word, the highest first. -/
def wordOf (bytes : List UInt8) : UInt32 :=
  bytes.foldl (fun word byte => (word <<< 8) ||| byte.toUInt32) 0

/-- The words of some bytes. -/
def wordsOf : List UInt8 → List UInt32
  | a :: b :: c :: d :: rest => wordOf [a, b, c, d] :: wordsOf rest
  | _ => []

/-- The next word of a schedule, whose last sixteen words are given, the latest first. -/
def nextWord (latest : List UInt32) : UInt32 :=
  let word (back : Nat) : UInt32 := latest.getD (back - 1) 0
  let low := rotate (word 15) 7 ^^^ rotate (word 15) 18 ^^^ (word 15 >>> 3)
  let high := rotate (word 2) 17 ^^^ rotate (word 2) 19 ^^^ (word 2 >>> 10)
  word 16 + low + word 7 + high

/-- The 64 words of the schedule of a block of sixteen words. -/
def schedule (block : List UInt32) : List UInt32 :=
  ((List.range 48).foldl (fun latest _ => nextWord latest :: latest) block.reverse).reverse

/-- One round on the eight words of the state. -/
def round (state : List UInt32) (input : UInt32 × UInt32) : List UInt32 :=
  match state with
  | [a, b, c, d, e, f, g, h] =>
    let high := rotate e 6 ^^^ rotate e 11 ^^^ rotate e 25
    let choice := (e &&& f) ^^^ ((~~~e) &&& g)
    let first := h + high + choice + input.1 + input.2
    let low := rotate a 2 ^^^ rotate a 13 ^^^ rotate a 22
    let majority := (a &&& b) ^^^ (a &&& c) ^^^ (b &&& c)
    [first + (low + majority), a, b, c, d + first, e, f, g]
  | other => other

/-- One block worked into the state. -/
def compress (state block : List UInt32) : List UInt32 :=
  List.zipWith (· + ·) state ((roundConstants.zip (schedule block)).foldl round state)

/-- The blocks of some words. -/
def blocks (words : List UInt32) : List (List UInt32) :=
  (List.range (words.length / 16)).map fun i => (words.drop (16 * i)).take 16

/-- The hash of a message. -/
def digest (message : List UInt8) : List UInt32 :=
  (blocks (wordsOf (padded message))).foldl compress initial

/-- A word as eight hexadecimal digits. -/
def hexOfWord (word : UInt32) : List Char :=
  let digits := Nat.toDigits 16 word.toNat
  List.replicate (8 - digits.length) '0' ++ digits

/-- The hash of a message in hexadecimal digits. -/
def hex (message : List UInt8) : String :=
  String.ofList ((digest message).flatMap hexOfWord)

end ResourceTables.Sha256
