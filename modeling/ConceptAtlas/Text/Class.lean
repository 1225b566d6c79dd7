/-!
# Classes of characters

White space, decimal digits and letter case. White space are the characters of Unicode with that
property together with the four ASCII information separators; `isBlank_of_isWhitespace` says that
nothing the core library counts as white space is missing. The decimal digits of Unicode, the
property `Nd`, come in runs of ten, from the zero of a script to its nine;
`decimalValue?_of_isDigit` says that the table has the ASCII digits.

Lower case is that of ASCII letters. Names are compared in upper case, and two letters outside
ASCII, the dotless `ı` and the long `ſ`, have an ASCII capital.
-/

namespace ConceptAtlas.Text

/-! ### White space -/

/-- White space: the Unicode property `White_Space` and the separators U+001C to U+001F. -/
def isBlank (c : Char) : Bool :=
  let n := c.toNat
  (0x09 ≤ n && n ≤ 0x0D) || (0x1C ≤ n && n ≤ 0x20) || n == 0x85 || n == 0xA0 || n == 0x1680 ||
    (0x2000 ≤ n && n ≤ 0x200A) || n == 0x2028 || n == 0x2029 || n == 0x202F || n == 0x205F ||
    n == 0x3000

/-- The characters that core counts as white space are blank. -/
theorem isBlank_of_isWhitespace {c : Char} (h : c.isWhitespace = true) : isBlank c = true := by
  simp only [Char.isWhitespace, Bool.or_eq_true, decide_eq_true_eq] at h
  rcases h with ((rfl | rfl) | rfl) | rfl <;> decide

/-- The text without the blanks at either end. -/
def trim (cs : List Char) : List Char :=
  ((cs.dropWhile isBlank).reverse.dropWhile isBlank).reverse

/-! ### Decimal digits -/

/-- The code points of the zeros. -/
def zeros : List Nat :=
  [0x0030, 0x0660, 0x06F0, 0x07C0, 0x0966, 0x09E6, 0x0A66, 0x0AE6, 0x0B66, 0x0BE6, 0x0C66, 0x0CE6,
    0x0D66, 0x0DE6, 0x0E50, 0x0ED0, 0x0F20, 0x1040, 0x1090, 0x17E0, 0x1810, 0x1946, 0x19D0, 0x1A80,
    0x1A90, 0x1B50, 0x1BB0, 0x1C40, 0x1C50, 0xA620, 0xA8D0, 0xA900, 0xA9D0, 0xA9F0, 0xAA50, 0xABF0,
    0xFF10, 0x104A0, 0x10D30, 0x11066, 0x110F0, 0x11136, 0x111D0, 0x112F0, 0x11450, 0x114D0,
    0x11650, 0x116C0, 0x11730, 0x118E0, 0x11950, 0x11C50, 0x11D50, 0x11DA0, 0x16A60, 0x16AC0,
    0x16B50, 0x1D7CE, 0x1D7D8, 0x1D7E2, 0x1D7EC, 0x1D7F6, 0x1E140, 0x1E2F0, 0x1E950, 0x1FBF0]

/-- The value of a decimal digit of any script. -/
def decimalValue? (c : Char) : Option Nat :=
  (zeros.find? fun z ↦ z ≤ c.toNat && c.toNat < z + 10).map (c.toNat - ·)

/-- The value of an ASCII digit is its distance from the zero. -/
theorem decimalValue?_of_isDigit {c : Char} (h : c.isDigit = true) :
    decimalValue? c = some (c.toNat - 0x30) := by
  have h₁ : 0x30 ≤ c.toNat ∧ c.toNat < 0x30 + 10 := by
    simp only [Char.isDigit, Bool.and_eq_true, decide_eq_true_eq, ge_iff_le] at h
    have a : (48 : UInt32).toNat ≤ c.val.toNat := UInt32.le_iff_toNat_le.1 h.1
    have b : c.val.toNat ≤ (57 : UInt32).toNat := UInt32.le_iff_toNat_le.1 h.2
    have e₁ : (48 : UInt32).toNat = 48 := rfl
    have e₂ : (57 : UInt32).toNat = 57 := rfl
    simp only [Char.toNat]
    omega
  simp [decimalValue?, zeros, h₁]

/-- A character as the ASCII one that numbers are written with: a digit of any script is a digit,
white space is a space, and what is neither is a question mark. -/
def numeralChar (c : Char) : Char :=
  if c.toNat < 0x80 then c
  else if isBlank c then ' '
  else ((decimalValue? c).map Nat.digitChar).getD '?'

/-- Whether an ASCII character may stand around a number. -/
def isNumeralBlank (c : Char) : Bool := c == ' ' || (0x09 ≤ c.toNat && c.toNat ≤ 0x0D)

/-- The characters of a number in ASCII, without what stands around them. -/
def numeralText (cs : List Char) : List Char :=
  let ascii := (cs.map numeralChar).dropWhile isNumeralBlank
  (ascii.reverse.dropWhile isNumeralBlank).reverse

/-! ### Letter case -/

/-- The text with ASCII capitals made small. -/
def toLower (s : String) : String := s.map Char.toLower

/-- The capital of a letter that has an ASCII capital. -/
def capital (c : Char) : Char :=
  if c == 'ı' then 'I' else if c == 'ſ' then 'S' else c.toUpper

/-- The text with every letter that has an ASCII capital written as that capital. -/
def toUpper (s : String) : String := s.map capital

end ConceptAtlas.Text
