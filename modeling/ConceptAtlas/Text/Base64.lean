/-!
# Base 64

Bytes as text with six bits to a character, and back. Reading skips the characters that stand for
nothing, and ends at the equals sign that completes a group of four.
-/

namespace ConceptAtlas.Text.Base64

/-- The characters that stand for the numbers below 64. -/
def alphabet : List Char :=
  "ABCDEFGHIJKLMNOPQRSTUVWXYZabcdefghijklmnopqrstuvwxyz0123456789+/".toList

/-- The number that a character stands for. -/
def value? (c : Char) : Option Nat :=
  let i := alphabet.idxOf c
  if i < 64 then some i else none

/-- The character of a number below 64. -/
def char (n : Nat) : Char := alphabet.getD n '='

/-- The bytes that the rest of a text spells. `filled` is how many characters of the current group
of four came before, `held` the bits of the last one that no byte has yet, and `signs` the number of
equals signs since it. -/
def decodeFrom (filled held signs : Nat) : List Char → Option (List UInt8)
  | [] => if filled = 0 then some [] else none
  | c :: cs =>
    if c == '=' then
      if 2 ≤ filled ∧ 4 ≤ filled + signs + 1 then some []
      else decodeFrom filled held (if 2 ≤ filled then signs + 1 else signs) cs
    else
      match value? c with
      | none => decodeFrom filled held signs cs
      | some n =>
        if filled = 0 then decodeFrom 1 n 0 cs
        else if filled = 1 then
          (decodeFrom 2 (n % 16) 0 cs).map ((held * 4 + n / 16).toUInt8 :: ·)
        else if filled = 2 then
          (decodeFrom 3 (n % 4) 0 cs).map ((held * 16 + n / 4).toUInt8 :: ·)
        else (decodeFrom 0 0 0 cs).map ((held * 64 + n).toUInt8 :: ·)

/-- The bytes that a text spells; nothing if its last group is not complete. -/
def decode? (cs : List Char) : Option (List UInt8) := decodeFrom 0 0 0 cs

/-- The text that spells bytes, with equals signs that complete the last group. -/
def encode : List UInt8 → List Char
  | [] => []
  | [a] => [char (a.toNat / 4), char (a.toNat % 4 * 16), '=', '=']
  | [a, b] =>
    [char (a.toNat / 4), char (a.toNat % 4 * 16 + b.toNat / 16), char (b.toNat % 16 * 4), '=']
  | a :: b :: c :: rest =>
    char (a.toNat / 4) :: char (a.toNat % 4 * 16 + b.toNat / 16) ::
      char (b.toNat % 16 * 4 + c.toNat / 64) :: char (c.toNat % 64) :: encode rest

end ConceptAtlas.Text.Base64
