import ConceptAtlas.Decimal.Numeral
import ConceptAtlas.Text.Base64
import ConceptAtlas.Yaml.Resolution

/-!
# Scalars as values

What the text of a scalar stands for under a tag. A text that does not fit its tag stands for
nothing: it breaks the reading down rather than making it malformed, with bytes as the one
exception.
-/

namespace ConceptAtlas.Yaml

/-- The integer that a text spells in a base. -/
def integer (base : Nat) (cs : List Char) : Except Refusal Int :=
  (Decimal.integer base cs).mapError fun f ↦
    match f with
    | .malformed => .breakdown (.numeral (String.ofList cs) base)
    | .tooLong n => .breakdown (.integerTooLong n)

/-- The first character of a text, and the text after the sign that it may be. -/
def signed (cs : List Char) : Except Refusal (Bool × List Char) :=
  match cs with
  | [] => .error (.breakdown .noNumeral)
  | c :: rest => .ok (c == '-', if c == '-' || c == '+' then rest else cs)

/-- The value of an integer's text. -/
def intValue (text : List Char) : Except Refusal Int := do
  let (negative, cs) ← signed (text.filter (· != '_'))
  let n ←
    match cs with
    | [] => .error (.breakdown .noNumeral)
    | ['0'] => .ok 0
    | '0' :: 'b' :: ds => integer 2 ds
    | '0' :: 'x' :: ds => integer 16 ds
    | '0' :: _ => integer 8 cs
    | _ =>
      if cs.contains ':' then do
        let digits ← (Text.parts ':' cs).mapM (integer 10)
        Except.ok (digits.foldl (fun n d ↦ 60 * n + d) 0)
      else integer 10 cs
  return if negative then -n else n

/-- The double that a text spells. -/
def decimal (cs : List Char) : Except Refusal Float :=
  match Decimal.decimal? cs with
  | some x => .ok x
  | none => .error (.breakdown (.decimal (String.ofList cs)))

/-- A double times sixty to a power, which has to fit a double. -/
def timesSixty (x : Float) (power : Nat) : Except Refusal Float :=
  match Decimal.ofInt? (Nat.pow 60 power) with
  | some y => .ok (x * y)
  | none => .error (.breakdown .sixtiethsTooLarge)

/-- The value of a double's text. The parts of a number in base sixty are added from the last one
on. -/
def floatValue (text : List Char) : Except Refusal Float := do
  let (negative, cs) ← signed ((text.filter (· != '_')).map Char.toLower)
  let sign : Float := if negative then -1 else 1
  if cs == ".inf".toList then return sign * Decimal.infinity false
  else if cs == ".nan".toList then return Decimal.notANumber
  else if cs.contains ':' then
    let digits ← (Text.parts ':' cs).mapM decimal
    let sum ← digits.reverse.zipIdx.foldlM (fun x d ↦ (timesSixty d.1 d.2).map (x + ·)) 0
    return sign * sum
  else return sign * (← decimal cs)

/-- The value of a truth value's text. -/
def boolValue (text : List Char) : Except Refusal Bool :=
  let name := String.ofList (text.map Char.toLower)
  if ["yes", "true", "on"].contains name then .ok true
  else if ["no", "false", "off"].contains name then .ok false
  else .error (.breakdown (.truthName name))

/-- The number that ASCII digits spell. -/
def digitsNumber (ds : List Char) : Nat :=
  Decimal.ofDigits 10 (ds.filterMap (Decimal.digitValue? 10))

/-- The minutes of an offset from universal time. -/
def offsetMinutes (cs : List Char) : Int :=
  match cs with
  | s :: rest =>
    let hours := rest.takeWhile Char.isDigit
    let minutes := (rest.dropWhile Char.isDigit).drop 1
    let n : Int := digitsNumber hours * 60 + digitsNumber minutes
    if s == '-' then -n else n
  | [] => 0

/-- The value of a date's or moment's text. A fraction of a second is cut off after six places. -/
def timestampValue (text : List Char) : Except Refusal Value :=
  match writtenMoment? (dropFinalBreak text) with
  | none => .error (.breakdown .timestamp)
  | some w =>
    let date : Date := ⟨digitsNumber w.year, digitsNumber w.month, digitsNumber w.day⟩
    match w.clock with
    | none =>
      match date.check? with
      | some fault => .error (.breakdown (.calendar fault))
      | none => .ok (.date date)
    | some (hour, minute, second, fraction, offset) =>
      let places := fraction.take 6
      let microsecond := digitsNumber (places ++ List.replicate (6 - places.length) '0')
      let moment : Moment := {
        date := date
        hour := digitsNumber hour
        minute := digitsNumber minute
        second := digitsNumber second
        microsecond := if fraction.isEmpty then 0 else microsecond
        offset := offset.map offsetMinutes }
      match moment.check? with
      | some fault => .error (.breakdown (.calendar fault))
      | none => .ok (.moment moment)

/-- The bytes that a text spells in base 64; they are malformed where it has other characters than
ASCII ones. -/
def binaryValue (text : List Char) : Except Refusal Value :=
  if text.all (·.toNat < 0x80) then
    match Text.Base64.decode? text with
    | some bytes => .ok (.bytes bytes)
    | none => .error .malformed
  else .error .malformed

/-- What a scalar's text stands for under a tag. -/
def atom (tag : Tag) (text : String) : Except Refusal Value :=
  let cs := text.toList
  match tag with
  | .str => .ok (.str text)
  | .null => .ok .null
  | .bool => (boolValue cs).map .bool
  | .int => (intValue cs).map .int
  | .float => (floatValue cs).map .float
  | .timestamp => timestampValue cs
  | .binary => binaryValue cs
  | _ => .error .malformed

end ConceptAtlas.Yaml
