import ConceptAtlas.Text.Hex

/-!
# SHA-256

The digest of a byte sequence. The message is padded to whole blocks (`length_pad_mod`), and each
block is mixed into eight words in 64 rounds. The rounds see the message through a window of sixteen
words that moves on by one word a round.
-/

namespace ConceptAtlas.Sha256

/-! ### Padding -/

/-- The number of zero bytes between the message with its closing bit and its length. -/
def zerosFor (length : Nat) : Nat := (119 - length % 64) % 64

/-- The low bytes of a number, the most significant first. -/
def bigEndian : (width : Nat) → Nat → List UInt8
  | 0, _ => []
  | w + 1, n => bigEndian w (n / 256) ++ [n.toUInt8]

theorem length_bigEndian (w n : Nat) : (bigEndian w n).length = w := by
  induction w generalizing n with
  | zero => rfl
  | succ w ih => simp [bigEndian, ih]

/-- A message with its closing bit, zeros, and its length in bits. -/
def pad (message : List UInt8) : List UInt8 :=
  message ++ 0x80 :: List.replicate (zerosFor message.length) 0 ++ bigEndian 8 (8 * message.length)

/-- A padded message is a whole number of blocks. -/
theorem length_pad_mod (message : List UInt8) : (pad message).length % 64 = 0 := by
  simp only [pad, List.length_append, List.length_cons, List.length_replicate, length_bigEndian,
    zerosFor]
  omega

/-! ### Rounds -/

/-- The constants of the rounds. -/
def constants : List UInt32 :=
  [0x428a2f98, 0x71374491, 0xb5c0fbcf, 0xe9b5dba5, 0x3956c25b, 0x59f111f1, 0x923f82a4, 0xab1c5ed5,
    0xd807aa98, 0x12835b01, 0x243185be, 0x550c7dc3, 0x72be5d74, 0x80deb1fe, 0x9bdc06a7, 0xc19bf174,
    0xe49b69c1, 0xefbe4786, 0x0fc19dc6, 0x240ca1cc, 0x2de92c6f, 0x4a7484aa, 0x5cb0a9dc, 0x76f988da,
    0x983e5152, 0xa831c66d, 0xb00327c8, 0xbf597fc7, 0xc6e00bf3, 0xd5a79147, 0x06ca6351, 0x14292967,
    0x27b70a85, 0x2e1b2138, 0x4d2c6dfc, 0x53380d13, 0x650a7354, 0x766a0abb, 0x81c2c92e, 0x92722c85,
    0xa2bfe8a1, 0xa81a664b, 0xc24b8b70, 0xc76c51a3, 0xd192e819, 0xd6990624, 0xf40e3585, 0x106aa070,
    0x19a4c116, 0x1e376c08, 0x2748774c, 0x34b0bcb5, 0x391c0cb3, 0x4ed8aa4a, 0x5b9cca4f, 0x682e6ff3,
    0x748f82ee, 0x78a5636f, 0x84c87814, 0x8cc70208, 0x90befffa, 0xa4506ceb, 0xbef9a3f7, 0xc67178f2]

/-- The eight words that blocks are mixed into. -/
structure Words where
  a : UInt32
  b : UInt32
  c : UInt32
  d : UInt32
  e : UInt32
  f : UInt32
  g : UInt32
  h : UInt32

namespace Words

/-- The words before the first block. -/
def start : Words :=
  ⟨0x6a09e667, 0xbb67ae85, 0x3c6ef372, 0xa54ff53a, 0x510e527f, 0x9b05688c, 0x1f83d9ab, 0x5be0cd19⟩

/-- The sums of the words of two states. -/
def add (x y : Words) : Words :=
  ⟨x.a + y.a, x.b + y.b, x.c + y.c, x.d + y.d, x.e + y.e, x.f + y.f, x.g + y.g, x.h + y.h⟩

/-- The words in order. -/
def toList (x : Words) : List UInt32 := [x.a, x.b, x.c, x.d, x.e, x.f, x.g, x.h]

end Words

/-- A word turned to the right. -/
def turn (x : UInt32) (n : UInt32) : UInt32 := (x >>> n) ||| (x <<< (32 - n))

/-- One round with a constant and a word of the message. -/
def round (s : Words) (constant word : UInt32) : Words :=
  let choice := (s.e &&& s.f) ^^^ (~~~s.e &&& s.g)
  let majority := (s.a &&& s.b) ^^^ (s.a &&& s.c) ^^^ (s.b &&& s.c)
  let x := s.h + (turn s.e 6 ^^^ turn s.e 11 ^^^ turn s.e 25) + choice + constant + word
  let y := (turn s.a 2 ^^^ turn s.a 13 ^^^ turn s.a 22) + majority
  ⟨x + y, s.a, s.b, s.c, s.d + x, s.e, s.f, s.g⟩

/-- The window of sixteen words moved on by one. -/
def slide (window : List UInt32) : List UInt32 :=
  let w (i : Nat) : UInt32 := window.getD i 0
  let small₀ := turn (w 1) 7 ^^^ turn (w 1) 18 ^^^ (w 1 >>> 3)
  let small₁ := turn (w 14) 17 ^^^ turn (w 14) 19 ^^^ (w 14 >>> 10)
  window.drop 1 ++ [w 0 + small₀ + w 9 + small₁]

/-- The words after a block of sixteen words. -/
def mix (s : Words) (block : List UInt32) : Words :=
  let final := constants.foldl
    (fun (acc : Words × List UInt32) k ↦ (round acc.1 k (acc.2.headD 0), slide acc.2)) (s, block)
  s.add final.1

/-! ### Digests -/

/-- The words that bytes spell, four bytes to a word. -/
def wordsOf : List UInt8 → List UInt32
  | a :: b :: c :: d :: rest =>
    (a.toUInt32 <<< 24 ||| b.toUInt32 <<< 16 ||| c.toUInt32 <<< 8 ||| d.toUInt32) :: wordsOf rest
  | _ => []

/-- The words after the blocks of a sequence of words. -/
def mixAll (s : Words) (words : List UInt32) : Words :=
  if _h : words = [] then s else mixAll (mix s (words.take 16)) (words.drop 16)
termination_by words.length
decreasing_by
  rw [List.length_drop]
  have := List.length_pos_iff.2 _h
  omega

/-- The digest of a message, as 64 hexadecimal digits. -/
def hex (message : List UInt8) : String :=
  String.ofList <| (mixAll .start (wordsOf (pad message))).toList.flatMap fun w ↦
    Text.hexDigits 8 w.toNat

end ConceptAtlas.Sha256
