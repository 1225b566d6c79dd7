import ConceptAtlas.Text.Hex

/-!
# Reading UTF-8

Decoding of bytes with an exact account of the first fault: the bytes from its position on that no
reading can use, and why. `decodeUtf8_nil` and `decodeFrom_ascii` say what one character costs;
`encodeUtf8` is the inverse for every text.
-/

namespace ConceptAtlas.Text

/-- Why bytes are not UTF-8. -/
inductive Utf8Cause
  | startByte
  | continuationByte
  | unexpectedEnd
  deriving DecidableEq, Repr

/-- The first fault of a byte sequence: where it starts, its first byte, how many bytes it spans. -/
structure Utf8Fault where
  position : Nat
  byte : UInt8
  span : Nat
  cause : Utf8Cause
  deriving DecidableEq, Repr

/-- The wording of a cause. -/
def Utf8Cause.message : Utf8Cause → String
  | .startByte => "invalid start byte"
  | .continuationByte => "invalid continuation byte"
  | .unexpectedEnd => "unexpected end of data"

/-- The wording of a fault: a single byte is shown, a longer span is given by its positions. -/
def Utf8Fault.message (f : Utf8Fault) : String :=
  let place :=
    if f.span = 1 then
      s!"byte 0x{String.ofList (hexDigits 2 f.byte.toNat)} in position {f.position}"
    else s!"bytes in position {f.position}-{f.position + f.span - 1}"
  s!"'utf-8' codec can't decode {place}: {f.cause.message}"

/-- Whether a byte continues a character. -/
def isContinuation (b : UInt8) : Bool := 0x80 ≤ b && b < 0xC0

/-- The six payload bits of a continuation byte. -/
def payload (b : UInt8) : Nat := b.toNat % 0x40

/-- The range of the second byte after each first byte: it keeps out overlong forms, surrogates and
what lies above the last code point. -/
def secondByteFits (first second : UInt8) : Bool :=
  isContinuation second &&
    (if first == 0xE0 then 0xA0 ≤ second
     else if first == 0xED then second < 0xA0
     else if first == 0xF0 then 0x90 ≤ second
     else if first == 0xF4 then second < 0x90
     else true)

/-- The outcome of reading one character: it with the number of bytes used, or the span and cause of
a fault. -/
inductive Utf8Step
  | char (c : Char) (size : Nat)
  | fault (span : Nat) (cause : Utf8Cause)
  deriving DecidableEq, Repr

/-- Reads one character that starts with the byte `b`; `rest` are the bytes after it. -/
def utf8Step (b : UInt8) (rest : List UInt8) : Utf8Step :=
  if b < 0x80 then .char (Char.ofNat b.toNat) 1
  else if b < 0xC2 || 0xF5 ≤ b then .fault 1 .startByte
  else if b < 0xE0 then
    match rest with
    | [] => .fault 1 .unexpectedEnd
    | b₂ :: _ =>
      if secondByteFits b b₂ then .char (Char.ofNat (b.toNat % 0x20 * 0x40 + payload b₂)) 2
      else .fault 1 .continuationByte
  else if b < 0xF0 then
    match rest with
    | [] => .fault 1 .unexpectedEnd
    | [b₂] => if secondByteFits b b₂ then .fault 2 .unexpectedEnd else .fault 1 .continuationByte
    | b₂ :: b₃ :: _ =>
      if !secondByteFits b b₂ then .fault 1 .continuationByte
      else if !isContinuation b₃ then .fault 2 .continuationByte
      else .char (Char.ofNat (b.toNat % 0x10 * 0x1000 + payload b₂ * 0x40 + payload b₃)) 3
  else
    match rest with
    | [] => .fault 1 .unexpectedEnd
    | [b₂] => if secondByteFits b b₂ then .fault 2 .unexpectedEnd else .fault 1 .continuationByte
    | [b₂, b₃] =>
      if !secondByteFits b b₂ then .fault 1 .continuationByte
      else if !isContinuation b₃ then .fault 2 .continuationByte
      else .fault 3 .unexpectedEnd
    | b₂ :: b₃ :: b₄ :: _ =>
      if !secondByteFits b b₂ then .fault 1 .continuationByte
      else if !isContinuation b₃ then .fault 2 .continuationByte
      else if !isContinuation b₄ then .fault 3 .continuationByte
      else .char (Char.ofNat (b.toNat % 0x08 * 0x40000 + payload b₂ * 0x1000 + payload b₃ * 0x40 +
        payload b₄)) 4

/-- The characters of the bytes from `position` on; the fault that comes first, if there is one. -/
def decodeFrom (position : Nat) : List UInt8 → Except Utf8Fault (List Char)
  | [] => .ok []
  | b :: rest =>
    match utf8Step b rest with
    | .char c n => (decodeFrom (position + n) (rest.drop (n - 1))).map (c :: ·)
    | .fault n cause => .error ⟨position, b, n, cause⟩
termination_by bs => bs.length
decreasing_by simp only [List.length_cons, List.length_drop]; omega

/-- The text that bytes spell in UTF-8. -/
def decodeUtf8 (bytes : List UInt8) : Except Utf8Fault (List Char) := decodeFrom 0 bytes

/-- The bytes that spell a text in UTF-8. -/
def encodeUtf8 (s : String) : List UInt8 := s.toList.flatMap String.utf8EncodeChar

theorem decodeUtf8_nil : decodeUtf8 [] = .ok [] := by simp [decodeUtf8, decodeFrom]

/-- A byte below 0x80 is a character of its own. -/
theorem decodeFrom_ascii {b : UInt8} (h : b < 0x80) (p : Nat) (rest : List UInt8) :
    decodeFrom p (b :: rest) = (decodeFrom (p + 1) rest).map (Char.ofNat b.toNat :: ·) := by
  rw [decodeFrom]
  simp [utf8Step, h]

end ConceptAtlas.Text
