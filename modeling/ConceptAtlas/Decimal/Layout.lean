import ConceptAtlas.Decimal.Shortest

/-!
# Number texts

How a double is written: with its shortest digits, positional or with an exponent, or with a fixed
number of places. What a format decides stands in one `Layout`.
-/

namespace ConceptAtlas.Decimal

/-- The decisions of a number format. The first digit of a number that is written positionally has
its power of ten between `least` and `greatest`. -/
structure Layout where
  least : Int
  greatest : Int
  exponentWidth : Nat
  nanText : String
  infinityText : String
  negativeInfinityText : String

/-- The digits of a natural number, padded with zeros to a width. -/
def padded (width n : Nat) : String :=
  let ds := Nat.toDigits 10 n
  String.ofList (List.replicate (width - ds.length) '0' ++ ds)

/-- Digits with a point before the power of ten `point`, and at least one digit on either side. -/
def positional (ds : List Char) (point : Int) : String :=
  if point ≤ 0 then
    String.ofList ('0' :: '.' :: List.replicate (-point).toNat '0' ++ ds)
  else
    let n := point.toNat
    let whole := ds.take n ++ List.replicate (n - ds.length) '0'
    let fraction := ds.drop n
    String.ofList (whole ++ '.' :: (if fraction.isEmpty then ['0'] else fraction))

/-- Digits in scientific form: a point after the first one if more follow, and the exponent with its
sign. -/
def scientific (width : Nat) (ds : List Char) (exponent : Int) : String :=
  let fraction := ds.drop 1
  let head := ds.take 1 ++ (if fraction.isEmpty then [] else '.' :: fraction)
  let sign := if exponent < 0 then "-" else "+"
  s!"{String.ofList head}e{sign}{padded width exponent.natAbs}"

/-- The text of a magnitude in a layout. -/
def Layout.magnitude (l : Layout) (b : Binary64) : String :=
  if b.mantissa = 0 then positional ['0'] 1
  else
    let d := shortest b
    let all := Nat.toDigits 10 d.digits
    let leading : Int := d.exponent + all.length - 1
    let ds := (all.reverse.dropWhile (· == '0')).reverse
    if l.least ≤ leading ∧ leading ≤ l.greatest then positional ds (leading + 1)
    else scientific l.exponentWidth ds leading

/-- The text of a double in a layout. -/
def Layout.text (l : Layout) (x : Float) : String :=
  match Binary64.classify x with
  | .notANumber => l.nanText
  | .infinite negative => if negative then l.negativeInfinityText else l.infinityText
  | .finite negative b => (if negative then "-" else "") ++ l.magnitude b

/-- Numbers are positional from 0.0001 up to, not including, 10 ^ 16, and keep a point or an
exponent of at least two digits. -/
def plainLayout : Layout := ⟨-4, 15, 2, "nan", "inf", "-inf"⟩

/-- A double with two places, a half going to the even neighbour. -/
def twoPlaces (x : Float) : String :=
  match Binary64.classify x with
  | .notANumber => plainLayout.nanText
  | .infinite negative =>
    if negative then plainLayout.negativeInfinityText else plainLayout.infinityText
  | .finite negative b =>
    let r := b.ratio
    let n := roundDiv (r.1 * 100) r.2
    let sign := if negative then "-" else ""
    s!"{sign}{n / 100}.{padded 2 (n % 100)}"

end ConceptAtlas.Decimal
