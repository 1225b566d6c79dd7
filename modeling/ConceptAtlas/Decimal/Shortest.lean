import ConceptAtlas.Decimal.Binary64

/-!
# Shortest decimals

The decimal with the fewest digits that reads back as a given double, and the nearest of those. For
one, two, … seventeen digits the two neighbours of the value on that decimal grid are tried in
exact arithmetic; the first grid with a hit wins. No shorter decimal can read back: if a point of a
grid lies in the interval of reals that round to the double, so does one of the value's neighbours.
-/

namespace ConceptAtlas.Decimal

/-- A positive decimal `digits · 10 ^ exponent`. -/
structure Digits where
  digits : Nat
  exponent : Int
  deriving DecidableEq, Repr

/-- The reals that round to a double, in units of a quarter of its last place. -/
structure RoundingInterval where
  low : Nat
  value : Nat
  high : Nat
  closed : Bool
  unit : Int
  deriving DecidableEq, Repr

/-- The gap below a power of two is half the gap above it, except at the least exponent; the ends
round to the double exactly when its mantissa is even. -/
def RoundingInterval.of (b : Binary64) : RoundingInterval :=
  let narrow := b.mantissa == Nat.pow 2 52 && Binary64.minExponent < b.exponent
  { low := 4 * b.mantissa - (if narrow then 1 else 2)
    value := 4 * b.mantissa
    high := 4 * b.mantissa + 2
    closed := b.mantissa % 2 == 0
    unit := b.exponent - 2 }

/-- Both sides of a comparison of `n · 2 ^ p` with `m · 10 ^ k`, as natural numbers. -/
def scaled (n : Nat) (p : Int) (m : Nat) (k : Int) : Nat × Nat :=
  (n * Nat.pow 2 p.toNat * Nat.pow 10 (-k).toNat, m * Nat.pow 10 k.toNat * Nat.pow 2 (-p).toNat)

/-- Whether a decimal reads back as the double of the interval. -/
def RoundingInterval.accepts (i : RoundingInterval) (d : Nat) (k : Int) : Bool :=
  let (l, x) := scaled i.low i.unit d k
  let (h, y) := scaled i.high i.unit d k
  if i.closed then l ≤ x && y ≤ h else l < x && y < h

/-- The power of ten of the first digit of a positive quotient. -/
def leadingExponent (num den : Nat) : Int :=
  if den ≤ num then ((Nat.toDigits 10 (num / den)).length : Int) - 1
  else
    let k := (Nat.toDigits 10 (den / num)).length - 1
    if num * Nat.pow 10 k = den then -k else -(k + 1)

/-- Of the two neighbours `d` and `d + 1` of the value on the grid of `10 ^ k`, the one that reads
back, and the nearer if both do; a value in the middle takes the even one. -/
def RoundingInterval.hit? (i : RoundingInterval) (k : Int) : Option Digits :=
  let (n, u) := scaled i.value i.unit 1 k
  let d := n / u
  let down := i.accepts d k && d != 0
  let up := i.accepts (d + 1) k
  if down && up then
    let r := n % u
    if 2 * r < u then some ⟨d, k⟩
    else if u < 2 * r then some ⟨d + 1, k⟩
    else if d % 2 = 0 then some ⟨d, k⟩ else some ⟨d + 1, k⟩
  else if down then some ⟨d, k⟩
  else if up then some ⟨d + 1, k⟩
  else none

/-- The shortest decimal of a positive double. -/
def shortest (b : Binary64) : Digits :=
  let i := RoundingInterval.of b
  let r := b.ratio
  let first := leadingExponent r.1 r.2
  ((List.range 17).findSome? fun n : Nat ↦ i.hit? (first - (n : Int))).getD ⟨b.mantissa, 0⟩

end ConceptAtlas.Decimal
