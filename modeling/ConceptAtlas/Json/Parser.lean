import ConceptAtlas.Decimal.Binary64
import ConceptAtlas.Json.Basic
import ConceptAtlas.Text.Hex

/-!
# Reading JSON

A reader for JSON texts that also takes `NaN`, `Infinity` and `-Infinity` as numbers. Integers have
no bound, but a reader may be told how many digits it takes at most; a number with a point or an
exponent is a double, and a repeated key keeps its first position and takes its last value.

Two things are simpler here than in readers that keep UTF-16 units or run on a bounded stack. An
escape of half a surrogate pair reads as the replacement character, whichever half it is, since a
text has whole characters only. And a value may be nested as deeply as the text goes.
-/

namespace ConceptAtlas.Json

/-- Why a text cannot be read. -/
inductive ParseFault
  | malformed
  | integerTooLong (digits : Nat)
  deriving DecidableEq, Repr

/-- The greatest number of digits of an integer, if nothing else is said. -/
def maxIntegerDigits : Nat := 4300

/-- Whether a limit lets a number of digits through. -/
def fits (limit : Option Nat) (digits : Nat) : Bool := limit.all (digits ≤ ·)

/-- The four characters that may stand between the parts of a text. -/
def isBlank (c : Char) : Bool := c == ' ' || c == '\t' || c == '\n' || c == '\r'

/-- The text from the first character that is not blank. -/
def skipBlanks (cs : List Char) : List Char := cs.dropWhile isBlank

/-- What is left of a text after a given start. -/
def dropStart? : (start cs : List Char) → Option (List Char)
  | [], cs => some cs
  | a :: start, c :: cs => if a == c then dropStart? start cs else none
  | _ :: _, [] => none

/-! ### Strings -/

/-- The character that a single letter after a backslash stands for. -/
def simpleEscape? (c : Char) : Option Char :=
  if c == '"' || c == '\\' || c == '/' then some c
  else if c == 'n' then some '\n'
  else if c == 'r' then some '\r'
  else if c == 't' then some '\t'
  else if c == 'b' then some '\x08'
  else if c == 'f' then some '\x0C'
  else none

/-- The characters of a string up to its closing quote, and what follows it. -/
def stringBody : List Char → Option (List Char × List Char)
  | [] => none
  | '"' :: cs => some ([], cs)
  | '\\' :: 'u' :: a :: b :: c :: d :: cs =>
    match Text.hexUnit? a b c d with
    | none => none
    | some n =>
      if Text.isHighUnit n then
        match _h : Text.lowUnit? cs with
        | some (m, rest) =>
          (stringBody rest).map fun r ↦ (Text.pairChar n m :: r.1, r.2)
        | none => (stringBody cs).map fun r ↦ (Text.unitChar n :: r.1, r.2)
      else (stringBody cs).map fun r ↦ (Text.unitChar n :: r.1, r.2)
  | '\\' :: e :: cs =>
    match simpleEscape? e with
    | some c => (stringBody cs).map fun r ↦ (c :: r.1, r.2)
    | none => none
  | c :: cs =>
    if c == '\\' || c.toNat < 0x20 then none
    else (stringBody cs).map fun r ↦ (c :: r.1, r.2)
termination_by cs => cs.length
decreasing_by
  all_goals simp only [List.length_cons]
  · have := Text.lowUnit?_length _h
    omega
  all_goals omega

/-! ### Numbers -/

/-- The number that decimal digits spell. -/
def digitsValue (ds : List Char) : Nat := ds.foldl (fun n c ↦ 10 * n + (c.toNat - '0'.toNat)) 0

/-- The fraction of a number, if a point and a digit come first. -/
def fraction : List Char → List Char × List Char
  | '.' :: cs =>
    let ds := cs.takeWhile Char.isDigit
    if ds.isEmpty then ([], '.' :: cs) else (ds, cs.dropWhile Char.isDigit)
  | cs => ([], cs)

/-- The sign of an exponent. -/
def exponentSign : List Char → Bool × List Char
  | '-' :: cs => (true, cs)
  | '+' :: cs => (false, cs)
  | cs => (false, cs)

/-- The exponent of a number, if its letter, perhaps a sign, and a digit come first. -/
def exponent? : List Char → Option (Int × List Char)
  | c :: cs =>
    if c == 'e' || c == 'E' then
      let (negative, rest) := exponentSign cs
      let ds := rest.takeWhile Char.isDigit
      if ds.isEmpty then none
      else
        let n : Int := digitsValue ds
        some (if negative then -n else n, rest.dropWhile Char.isDigit)
    else none
  | [] => none

/-- The digits before the point: a zero alone, or digits that start with another one. -/
def wholePart : List Char → List Char × List Char
  | '0' :: cs => (['0'], cs)
  | cs => (cs.takeWhile Char.isDigit, cs.dropWhile Char.isDigit)

/-- The number at the start of a text, after its sign. -/
def unsignedNumber (limit : Option Nat) (negative : Bool) (cs : List Char) :
    Except ParseFault (Json × List Char) :=
  let (whole, afterWhole) := wholePart cs
  let (places, afterFraction) := fraction afterWhole
  if whole.isEmpty then .error .malformed
  else
    match exponent? afterFraction with
    | some (e, rest) =>
      .ok (.float (Decimal.ofDecimal negative (digitsValue (whole ++ places)) (e - places.length)),
        rest)
    | none =>
      if places.isEmpty then
        if fits limit whole.length then
          let n : Int := digitsValue whole
          .ok (.int (if negative then -n else n), afterWhole)
        else .error (.integerTooLong whole.length)
      else
        .ok (.float (Decimal.ofDecimal negative (digitsValue (whole ++ places)) (-places.length)),
          afterFraction)

/-- The number or negative infinity at the start of a text. -/
def number (limit : Option Nat) (cs : List Char) : Except ParseFault (Json × List Char) :=
  match cs with
  | '-' :: rest =>
    match dropStart? "Infinity".toList rest with
    | some after => .ok (.float (Decimal.infinity true), after)
    | none => unsignedNumber limit true rest
  | _ => unsignedNumber limit false cs

/-! ### Values -/

/-- The names that stand for values. -/
def names : List (List Char × Json) :=
  [("null".toList, .null), ("true".toList, .bool true), ("false".toList, .bool false),
    ("NaN".toList, .float Decimal.notANumber), ("Infinity".toList, .float (Decimal.infinity false))]

/-- The named value at the start of a text. -/
def named? (cs : List Char) : Option (Json × List Char) :=
  names.findSome? fun n ↦ (dropStart? n.1 cs).map fun rest ↦ (n.2, rest)

/-- The value at the start of a text that has neither quotes nor brackets. -/
def word (limit : Option Nat) (cs : List Char) : Except ParseFault (Json × List Char) :=
  match named? cs with
  | some r => .ok r
  | none => number limit cs

mutual

/-- The value at the start of a text, and what follows it. The fuel bounds the calls. -/
def readValue (limit : Option Nat) :
    (fuel : Nat) → List Char → Except ParseFault (Json × List Char)
  | 0, _ => .error .malformed
  | fuel + 1, cs =>
    match cs with
    | '"' :: rest =>
      match stringBody rest with
      | some (s, after) => .ok (.str (String.ofList s), after)
      | none => .error .malformed
    | '[' :: rest =>
      match skipBlanks rest with
      | ']' :: after => .ok (.arr [], after)
      | inner => do
        let (items, after) ← readItems limit fuel inner
        return (.arr items, after)
    | '{' :: rest =>
      match skipBlanks rest with
      | '}' :: after => .ok (.obj [], after)
      | inner => do
        let (fields, after) ← readFields limit fuel inner
        return (ofFields fields, after)
    | _ => word limit cs

/-- The items of an array up to its closing bracket. -/
def readItems (limit : Option Nat) :
    (fuel : Nat) → List Char → Except ParseFault (List Json × List Char)
  | 0, _ => .error .malformed
  | fuel + 1, cs => do
    let (j, rest) ← readValue limit fuel cs
    match skipBlanks rest with
    | ']' :: after => return ([j], after)
    | ',' :: more =>
      let (js, after) ← readItems limit fuel (skipBlanks more)
      return (j :: js, after)
    | _ => .error .malformed

/-- The fields of an object up to its closing brace, as they stand in the text. -/
def readFields (limit : Option Nat) :
    (fuel : Nat) → List Char → Except ParseFault (List (String × Json) × List Char)
  | 0, _ => .error .malformed
  | fuel + 1, cs =>
    match cs with
    | '"' :: rest =>
      match stringBody rest with
      | none => .error .malformed
      | some (k, afterKey) =>
        match skipBlanks afterKey with
        | ':' :: afterColon => do
          let (j, rest) ← readValue limit fuel (skipBlanks afterColon)
          match skipBlanks rest with
          | '}' :: after => return ([(String.ofList k, j)], after)
          | ',' :: more =>
            let (fs, after) ← readFields limit fuel (skipBlanks more)
            return ((String.ofList k, j) :: fs, after)
          | _ => .error .malformed
        | _ => .error .malformed
    | _ => .error .malformed

end

/-- The value of a JSON text, whose integers have no more digits than a limit allows. -/
def parseWithin (limit : Option Nat) (s : String) : Except ParseFault Json := do
  let cs := skipBlanks s.toList
  let (j, rest) ← readValue limit (2 * cs.length + 2) cs
  if (skipBlanks rest).isEmpty then return j else .error .malformed

/-- The value of a JSON text. -/
def parse (s : String) : Except ParseFault Json := parseWithin (some maxIntegerDigits) s

end ConceptAtlas.Json
