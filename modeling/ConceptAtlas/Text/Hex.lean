/-!
# Hexadecimal digits

Digits of a number in base sixteen with a fixed width, and the number that digits spell. Escapes
such as `\u00e9` spell a UTF-16 unit with four hexadecimal digits; two units of a surrogate pair
spell one character. Half a pair alone spells no character and reads as U+FFFD.
-/

namespace ConceptAtlas.Text

/-- The small hexadecimal digit of a number below sixteen. -/
def hexDigit (n : Nat) : Char := Nat.digitChar (n % 16)

/-- The last `width` hexadecimal digits of a number, the most significant first. -/
def hexDigits : (width : Nat) → Nat → List Char
  | 0, _ => []
  | w + 1, n => hexDigits w (n / 16) ++ [hexDigit n]

theorem length_hexDigits (w n : Nat) : (hexDigits w n).length = w := by
  induction w generalizing n with
  | zero => rfl
  | succ w ih => simp [hexDigits, ih]

/-- The value of a hexadecimal digit of either case. -/
def hexValue? (c : Char) : Option Nat :=
  if '0' ≤ c ∧ c ≤ '9' then some (c.toNat - '0'.toNat)
  else if 'a' ≤ c ∧ c ≤ 'f' then some (c.toNat - 'a'.toNat + 10)
  else if 'A' ≤ c ∧ c ≤ 'F' then some (c.toNat - 'A'.toNat + 10)
  else none

/-- Capital hexadecimal digits. -/
def hexDigitsUpper (width n : Nat) : List Char := (hexDigits width n).map Char.toUpper

/-! ### UTF-16 units -/

/-- The number that hexadecimal digits spell, if all of them are digits. -/
def hexNumber? (ds : List Char) : Option Nat :=
  ds.foldlM (fun n c ↦ (hexValue? c).map (16 * n + ·)) 0

/-- The number that four hexadecimal digits spell. -/
def hexUnit? (a b c d : Char) : Option Nat := hexNumber? [a, b, c, d]

/-- The character of a UTF-16 unit; half a surrogate pair has none. -/
def unitChar (n : Nat) : Char := if 0xD800 ≤ n ∧ n < 0xE000 then '\uFFFD' else Char.ofNat n

/-- Whether a unit is the first half of a surrogate pair. -/
def isHighUnit (n : Nat) : Bool := 0xD800 ≤ n && n < 0xDC00

/-- The character of a surrogate pair. -/
def pairChar (high low : Nat) : Char :=
  Char.ofNat (0x10000 + (high - 0xD800) * 0x400 + (low - 0xDC00))

/-- The second unit of a surrogate pair, if the text goes on with one, and what follows it. -/
def lowUnit? : List Char → Option (Nat × List Char)
  | '\\' :: 'u' :: a :: b :: c :: d :: cs =>
    match hexUnit? a b c d with
    | some n => if 0xDC00 ≤ n ∧ n < 0xE000 then some (n, cs) else none
    | none => none
  | _ => none

theorem lowUnit?_length {cs rest : List Char} {n : Nat} (h : lowUnit? cs = some (n, rest)) :
    rest.length < cs.length := by
  unfold lowUnit? at h
  split at h
  · split at h
    · split at h
      · simp only [Option.some.injEq, Prod.mk.injEq] at h
        obtain ⟨-, rfl⟩ := h
        simp only [List.length_cons]
        omega
      · simp at h
    · simp at h
  · simp at h

end ConceptAtlas.Text
