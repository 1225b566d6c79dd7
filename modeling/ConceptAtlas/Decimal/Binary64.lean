/-!
# Doubles as exact ratios

A finite double is `mantissa · 2 ^ exponent`. `Binary64.ofRatio?` goes the other way: it rounds a
quotient of natural numbers to the nearest double, half to even, and has none when the quotient is
too large. Both directions use natural numbers alone.
-/

namespace ConceptAtlas.Decimal

/-- The quotient rounded to the nearest natural number, a half to the even neighbour. -/
def roundDiv (num den : Nat) : Nat :=
  let q := num / den
  let r := num % den
  if 2 * r < den then q
  else if den < 2 * r then q + 1
  else if q % 2 = 0 then q else q + 1

/-- The magnitude of a finite double: `mantissa · 2 ^ exponent`. -/
structure Binary64 where
  mantissa : Nat
  exponent : Int
  deriving DecidableEq, Repr

namespace Binary64

/-- The exponent of the smallest positive double. -/
def minExponent : Int := -1074

/-- The exponent of the largest doubles. -/
def maxExponent : Int := 971

/-- What a double is. -/
inductive Kind
  | finite (negative : Bool) (magnitude : Binary64)
  | infinite (negative : Bool)
  | notANumber
  deriving DecidableEq, Repr

/-- Reads the sign, exponent and fraction fields of a double. -/
def classify (x : Float) : Kind :=
  let bits := x.toBits.toNat
  let negative := bits / Nat.pow 2 63 == 1
  let field : Nat := bits / Nat.pow 2 52 % 2048
  let fraction : Nat := bits % Nat.pow 2 52
  if field = 2047 then
    if fraction = 0 then .infinite negative else .notANumber
  else if field = 0 then .finite negative ⟨fraction, minExponent⟩
  else .finite negative ⟨fraction + Nat.pow 2 52, (field : Int) - 1075⟩

/-- The numerator and denominator of a magnitude. -/
def ratio (b : Binary64) : Nat × Nat :=
  if 0 ≤ b.exponent then (b.mantissa * Nat.pow 2 b.exponent.toNat, 1)
  else (b.mantissa, Nat.pow 2 (-b.exponent).toNat)

/-- The exponent at which the quotient has a mantissa of 53 bits, or the least exponent. -/
def ratioExponent (num den : Nat) : Int :=
  let e : Int := (num.log2 : Int) - den.log2 - 53
  let short : Bool :=
    if 0 ≤ e then num < den * Nat.pow 2 (e.toNat + 53)
    else num * Nat.pow 2 (-e).toNat < den * Nat.pow 2 53
  max minExponent (if short then e else e + 1)

/-- The double nearest to a quotient; none when it is too large. -/
def ofRatio? (num den : Nat) : Option Binary64 :=
  if num = 0 ∨ den = 0 then some ⟨0, minExponent⟩
  else
    let e := ratioExponent num den
    let m :=
      if 0 ≤ e then roundDiv num (den * Nat.pow 2 e.toNat)
      else roundDiv (num * Nat.pow 2 (-e).toNat) den
    let b : Binary64 := if m = Nat.pow 2 53 then ⟨Nat.pow 2 52, e + 1⟩ else ⟨m, e⟩
    if maxExponent < b.exponent then none else some b

/-- The double with a sign and a magnitude. -/
def toFloat (negative : Bool) (b : Binary64) : Float :=
  let field := if b.mantissa < Nat.pow 2 52 then 0 else (b.exponent + 1075).toNat
  let sign := if negative then Nat.pow 2 63 else 0
  let bits := sign + field * Nat.pow 2 52 + b.mantissa % Nat.pow 2 52
  Float.ofBits (UInt64.ofNat bits)

end Binary64

/-- Positive or negative infinity. -/
def infinity (negative : Bool) : Float :=
  Float.ofBits (UInt64.ofNat ((if negative then Nat.pow 2 63 else 0) + 2047 * Nat.pow 2 52))

/-- The double that is not a number. -/
def notANumber : Float := Float.ofBits (UInt64.ofNat (2047 * Nat.pow 2 52 + Nat.pow 2 51))

/-- The double nearest to the quotient of two natural numbers. -/
def quotient (num den : Nat) : Float :=
  match Binary64.ofRatio? num den with
  | some b => b.toFloat false
  | none => infinity false

/-- The double nearest to an integer; none when the integer is too large for one. -/
def ofInt? (n : Int) : Option Float :=
  (Binary64.ofRatio? n.natAbs 1).map (Binary64.toFloat (decide (n < 0)))

/-- The double nearest to `±digits · 10 ^ exponent`; a number that is too large is infinite. The
power of ten is computed only where it decides anything. -/
def ofDecimal (negative : Bool) (digits : Nat) (exponent : Int) : Float :=
  let size : Int := (Nat.toDigits 10 digits).length
  if digits = 0 ∨ size + exponent < -400 then Binary64.toFloat negative ⟨0, Binary64.minExponent⟩
  else if 400 < size + exponent then infinity negative
  else
    let r := if 0 ≤ exponent then (digits * Nat.pow 10 exponent.toNat, 1)
      else (digits, Nat.pow 10 (-exponent).toNat)
    match Binary64.ofRatio? r.1 r.2 with
    | some b => b.toFloat negative
    | none => infinity negative

end ConceptAtlas.Decimal
