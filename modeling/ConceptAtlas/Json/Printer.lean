import ConceptAtlas.Decimal.Layout
import ConceptAtlas.Json.Basic
import ConceptAtlas.Text.Hex

/-!
# Writing JSON

JSON texts with one item or field a line, each level indented by two more spaces. A text keeps
characters outside ASCII or escapes them as UTF-16 units; quotes, backslashes and the characters
below the space are escaped in both.
-/

namespace ConceptAtlas.Json

/-- Which characters a text may show. -/
inductive Charset
  | unicode
  | ascii
  deriving DecidableEq, Repr

/-- The escape of a UTF-16 unit. -/
def unitEscape (n : Nat) : List Char := ['\\', 'u'] ++ Text.hexDigits 4 n

/-- The UTF-16 units of a code point. -/
def units (n : Nat) : List Nat :=
  if n < 0x10000 then [n] else [0xD800 + (n - 0x10000) / 0x400, 0xDC00 + (n - 0x10000) % 0x400]

/-- A character inside a JSON text. -/
def escapeChar (charset : Charset) (c : Char) : List Char :=
  if c == '"' then ['\\', '"']
  else if c == '\\' then ['\\', '\\']
  else if c == '\n' then ['\\', 'n']
  else if c == '\r' then ['\\', 'r']
  else if c == '\t' then ['\\', 't']
  else if c == '\x08' then ['\\', 'b']
  else if c == '\x0C' then ['\\', 'f']
  else if c.toNat < 0x20 then unitEscape c.toNat
  else if charset = .ascii ∧ 0x7F ≤ c.toNat then (units c.toNat).flatMap unitEscape
  else [c]

/-- A text between quotes. -/
def quote (charset : Charset) (s : String) : List Char :=
  '"' :: s.toList.flatMap (escapeChar charset) ++ ['"']

/-- Doubles have the plain layout, with names for what is no finite number. -/
def floatLayout : Decimal.Layout :=
  { Decimal.plainLayout with
    nanText := "NaN", infinityText := "Infinity", negativeInfinityText := "-Infinity" }

/-- The text of a double. -/
def floatText (x : Float) : List Char := (floatLayout.text x).toList

/-- A new line at a level of indentation. -/
def newline (level : Nat) : List Char := '\n' :: List.replicate (2 * level) ' '

mutual

/-- The text of a value whose closing bracket stands at a level of indentation. -/
def render (charset : Charset) (level : Nat) : Json → List Char
  | .null => "null".toList
  | .bool b => (if b then "true" else "false").toList
  | .int n => (toString n).toList
  | .float x => floatText x
  | .str s => quote charset s
  | .arr [] => ['[', ']']
  | .arr (j :: js) =>
    '[' :: newline (level + 1) ++ render charset (level + 1) j ++
      renderItems charset (level + 1) js ++ newline level ++ [']']
  | .obj [] => ['{', '}']
  | .obj ((k, j) :: fs) =>
    '{' :: newline (level + 1) ++ quote charset k ++ [':', ' '] ++ render charset (level + 1) j ++
      renderFields charset (level + 1) fs ++ newline level ++ ['}']

/-- The items after the first, each after a comma and on a line of its own. -/
def renderItems (charset : Charset) (level : Nat) : List Json → List Char
  | [] => []
  | j :: js => ',' :: newline level ++ render charset level j ++ renderItems charset level js

/-- The fields after the first, each after a comma and on a line of its own. -/
def renderFields (charset : Charset) (level : Nat) : List (String × Json) → List Char
  | [] => []
  | (k, j) :: fs =>
    ',' :: newline level ++ quote charset k ++ [':', ' '] ++ render charset level j ++
      renderFields charset level fs

end

/-- The text of a value. -/
def pretty (charset : Charset) (j : Json) : String := String.ofList (render charset 0 j)

end ConceptAtlas.Json
