import ConceptAtlas.Text.Hex
import ConceptAtlas.Text.Printable

/-!
# Quoted literals

A text as a literal between quotes: in single quotes, unless it holds a single quote and no double
one; the quote in use, the backslash and what is not printable are escaped. Bytes are written in
the same way after the letter `b`, with every byte outside printable ASCII escaped.
-/

namespace ConceptAtlas.Text

/-- The quote that a literal of these characters stands between. -/
def literalQuote (cs : List Char) : Char :=
  if cs.contains '\'' && !cs.contains '"' then '"' else '\''

/-- The escape of a character that is not printable, with as few digits as its code point allows. -/
def escapeCode (c : Char) : List Char :=
  let n := c.toNat
  if n ≤ 0xFF then ['\\', 'x'] ++ hexDigits 2 n
  else if n ≤ 0xFFFF then ['\\', 'u'] ++ hexDigits 4 n
  else ['\\', 'U'] ++ hexDigits 8 n

/-- A character inside a literal that stands between the quotes `q`. -/
def literalChar (q c : Char) : List Char :=
  if c == q || c == '\\' then ['\\', c]
  else if c == '\n' then ['\\', 'n']
  else if c == '\r' then ['\\', 'r']
  else if c == '\t' then ['\\', 't']
  else if isPrintable c then [c]
  else escapeCode c

/-- A text as a literal. -/
def literal (s : String) : String :=
  let cs := s.toList
  let q := literalQuote cs
  String.ofList (q :: cs.flatMap (literalChar q) ++ [q])

/-- A byte inside a literal that stands between the quotes `q`. -/
def literalByte (q : Char) (b : UInt8) : List Char :=
  let n := b.toNat
  if n < 0x80 then
    let c := Char.ofNat n
    if c == q || c == '\\' || c == '\n' || c == '\r' || c == '\t' || isPrintable c then
      literalChar q c
    else ['\\', 'x'] ++ hexDigits 2 n
  else ['\\', 'x'] ++ hexDigits 2 n

/-- Bytes as a literal. -/
def bytesLiteral (bs : List UInt8) : String :=
  let q := literalQuote (bs.map fun b ↦ Char.ofNat b.toNat)
  String.ofList ('b' :: q :: bs.flatMap (literalByte q) ++ [q])

end ConceptAtlas.Text
