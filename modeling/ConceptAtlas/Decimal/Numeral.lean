import ConceptAtlas.Decimal.Binary64
import ConceptAtlas.Text.Class
import ConceptAtlas.Text.Hex
import ConceptAtlas.Text.Parts

/-!
# Reading numbers

Integers in a base and decimal numbers as people write them: with white space around them, a sign,
digits of any script, and in an integer single underscores between the digits. An integer in base
two, eight or sixteen may say so by `0b`, `0o` or `0x`.
-/

namespace ConceptAtlas.Decimal

/-- Why a text is not an integer. -/
inductive NumeralFault
  | malformed
  | tooLong (digits : Nat)
  deriving DecidableEq, Repr

/-- The greatest number of digits of an integer in base ten. -/
def maxDigits : Nat := 4300

/-- The number that digits spell in a base. -/
def ofDigits (base : Nat) (ds : List Nat) : Nat := ds.foldl (fun n d ↦ n * base + d) 0

/-- The value of a digit in a base. -/
def digitValue? (base : Nat) (c : Char) : Option Nat :=
  match Text.hexValue? c with
  | some d => if d < base then some d else none
  | none => none

/-- A sign at the start of a text: whether it is a minus, and what follows. -/
def takeSign : List Char → Bool × List Char
  | '-' :: cs => (true, cs)
  | '+' :: cs => (false, cs)
  | cs => (false, cs)

/-- The letter that announces a base after a zero. -/
def baseLetter? (base : Nat) : Option Char :=
  if base = 2 then some 'b' else if base = 8 then some 'o' else if base = 16 then some 'x' else none

/-- A text without the announcement of its base. -/
def dropBase (base : Nat) (cs : List Char) : List Char :=
  match cs, baseLetter? base with
  | '0' :: c :: rest, some letter =>
    if c.toLower == letter then (if rest.head? == some '_' then rest.drop 1 else rest) else cs
  | _, _ => cs

/-- The integer that a text spells in a base. -/
def integer (base : Nat) (text : List Char) : Except NumeralFault Int :=
  let (negative, unsigned) := takeSign (Text.numeralText text)
  let cs := dropBase base unsigned
  let isDigit (c : Char) : Bool := (digitValue? base c).isSome
  let run := cs.takeWhile fun c ↦ isDigit c || c == '_'
  let digits := run.filterMap (digitValue? base)
  if (Text.parts '_' run).any (·.isEmpty) then .error .malformed
  else if base = 10 ∧ maxDigits < digits.length then .error (.tooLong digits.length)
  else if run.length < cs.length then .error .malformed
  else
    let n : Int := ofDigits base digits
    .ok (if negative then -n else n)

/-- The names of numbers that are not finite, in small letters. -/
def namedNumber? (negative : Bool) (cs : List Char) : Option Float :=
  let name := String.ofList (cs.map Char.toLower)
  if name == "inf" || name == "infinity" then some (infinity negative)
  else if name == "nan" then some notANumber
  else none

/-- The exponent that ends a number: nothing stands for zero. -/
def exponentPart? : List Char → Option Int
  | [] => some 0
  | e :: cs =>
    let (negative, ds) := takeSign cs
    if (e == 'e' || e == 'E') && !ds.isEmpty && ds.all Char.isDigit then
      let n : Int := ofDigits 10 (ds.filterMap (digitValue? 10))
      some (if negative then -n else n)
    else none

/-- The double nearest to the decimal number that a text spells. -/
def decimal? (text : List Char) : Option Float :=
  let (negative, cs) := takeSign (Text.numeralText text)
  match namedNumber? negative cs with
  | some x => some x
  | none =>
    let whole := cs.takeWhile Char.isDigit
    let afterWhole := cs.dropWhile Char.isDigit
    let (places, rest) :=
      match afterWhole with
      | '.' :: more => (more.takeWhile Char.isDigit, more.dropWhile Char.isDigit)
      | _ => ([], afterWhole)
    if whole.isEmpty && places.isEmpty then none
    else
      (exponentPart? rest).map fun e ↦
        ofDecimal negative (ofDigits 10 ((whole ++ places).filterMap (digitValue? 10)))
          (e - places.length)

end ConceptAtlas.Decimal
