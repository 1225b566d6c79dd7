import ConceptAtlas.Text.Parts
import ConceptAtlas.Yaml.Basic

/-!
# Tags

What kind of value a node stands for. A node that names no tag has the tag of its shape; a plain
scalar has the tag that its text looks like: a truth value, a number in one of five spellings, a
date or moment, null, or else a text.
-/

namespace ConceptAtlas.Yaml

/-- The kinds of values, and the two marks with a meaning inside mappings. -/
inductive Tag
  | null
  | bool
  | int
  | float
  | binary
  | timestamp
  | omap
  | pairs
  | set
  | str
  | seq
  | map
  | merge
  | value
  | other (name : String)
  deriving DecidableEq, Repr

namespace Tag

/-- What the full names of the tags start with. -/
def start : String := "tag:yaml.org,2002:"

/-- The names of the tags. -/
def names : List (String × Tag) :=
  [("null", .null), ("bool", .bool), ("int", .int), ("float", .float), ("binary", .binary),
    ("timestamp", .timestamp), ("omap", .omap), ("pairs", .pairs), ("set", .set), ("str", .str),
    ("seq", .seq), ("map", .map), ("merge", .merge), ("value", .value)]

/-- The tag of a full name. -/
def ofName (name : String) : Tag :=
  ((names.find? fun p ↦ start ++ p.1 == name).map Prod.snd).getD (.other name)

/-- Whether a value with the tag is a collection, which cannot be a key. -/
def isCollection : Tag → Bool
  | .seq | .map | .set | .omap | .pairs => true
  | _ => false

end Tag

/-! ### What plain scalars look like -/

/-- Whether a text is not empty and all its characters are in a class. -/
def spells (p : Char → Bool) (cs : List Char) : Bool := !cs.isEmpty && cs.all p

/-- A text without the sign that it may start with. -/
def dropSign (cs : List Char) : List Char :=
  if cs.head? == some '-' || cs.head? == some '+' then cs.drop 1 else cs

/-- Whether a character is a digit or an underscore. -/
def isDigitOrLow (c : Char) : Bool := c.isDigit || c == '_'

/-- Whether a text starts with a digit and goes on with digits and underscores. -/
def isDigitRun (cs : List Char) : Bool :=
  (cs.head?.map Char.isDigit).getD false && cs.all isDigitOrLow

/-- Whether a text is a number below sixty. -/
def isSixtieth : List Char → Bool
  | [d] => d.isDigit
  | [d, e] => '0' ≤ d && d ≤ '5' && e.isDigit
  | _ => false

/-- Whether a text is an integer: binary, octal, decimal, hexadecimal, or in base sixty. -/
def isInt (cs : List Char) : Bool :=
  let u := dropSign cs
  match u with
  | '0' :: 'b' :: ds => spells (fun c ↦ c == '0' || c == '1' || c == '_') ds
  | '0' :: 'x' :: ds => spells (fun c ↦ (Text.hexValue? c).isSome || c == '_') ds
  | ['0'] => true
  | '0' :: ds => spells (fun c ↦ ('0' ≤ c && c ≤ '7') || c == '_') ds
  | _ =>
    match Text.parts ':' u with
    | whole :: rest => isDigitRun whole && rest.all isSixtieth
    | [] => false

/-- Whether a text is an exponent with its sign. -/
def isExponent : List Char → Bool
  | e :: s :: ds => (e == 'e' || e == 'E') && (s == '-' || s == '+') && spells Char.isDigit ds
  | _ => false

/-- Whether a text is places after a point and perhaps an exponent. -/
def isFraction (cs : List Char) : Bool :=
  let rest := cs.dropWhile isDigitOrLow
  rest.isEmpty || isExponent rest

/-- Whether a text is a number with a point, in base ten or sixty, infinity, or no number. -/
def isFloat (cs : List Char) : Bool :=
  let u := dropSign cs
  [".inf", ".Inf", ".INF"].contains (String.ofList u) ||
    [".nan", ".NaN", ".NAN"].contains (String.ofList cs) ||
    match cs with
    | '.' :: places => (places.head?.map Char.isDigit).getD false && isFraction places
    | _ =>
      let whole := u.takeWhile (· != '.')
      match u.dropWhile (· != '.') with
      | '.' :: places =>
        (isDigitRun whole && isFraction places) ||
          match Text.parts ':' whole with
          | first :: second :: rest =>
            isDigitRun first && (second :: rest).all isSixtieth && places.all isDigitOrLow
          | _ => false
      | _ => false

/-- Whether a text is a truth value. -/
def isBool (cs : List Char) : Bool :=
  ["yes", "Yes", "YES", "no", "No", "NO", "true", "True", "TRUE", "false", "False", "FALSE", "on",
    "On", "ON", "off", "Off", "OFF"].contains (String.ofList cs)

/-- Whether a text is null. -/
def isNull (cs : List Char) : Bool := ["", "~", "null", "Null", "NULL"].contains (String.ofList cs)

/-! ### Dates and moments -/

/-- The fields of a date or moment as they are written. -/
structure WrittenMoment where
  year : List Char
  month : List Char
  day : List Char
  clock : Option (List Char × List Char × List Char × List Char × Option (List Char))

/-- The digits at the start of a text, two at most, and what follows them. -/
def takeDigits (most : Nat) (cs : List Char) : List Char × List Char :=
  let ds := (cs.take most).takeWhile Char.isDigit
  (ds, cs.drop ds.length)

/-- Two digits at the start of a text, and what follows them. -/
def twoDigits? (cs : List Char) : Option (List Char × List Char) :=
  let (ds, rest) := takeDigits 2 cs
  if ds.length = 2 then some (ds, rest) else none

/-- One or two digits at the start of a text, and what follows them. -/
def oneOrTwoDigits? (cs : List Char) : Option (List Char × List Char) :=
  let (ds, rest) := takeDigits 2 cs
  if ds.isEmpty then none else some (ds, rest)

/-- What follows a character. -/
def dropChar? (c : Char) : List Char → Option (List Char)
  | [] => none
  | d :: cs => if d == c then some cs else none

/-- Whether a text is an offset: `Z`, or a sign, hours, and perhaps minutes. -/
def isOffset (cs : List Char) : Bool :=
  match cs with
  | ['Z'] => true
  | s :: rest =>
    (s == '-' || s == '+') &&
      match oneOrTwoDigits? rest with
      | none => false
      | some (_, []) => true
      | some (_, rest) =>
        match (dropChar? ':' rest).bind twoDigits? with
        | some (_, rest) => rest.isEmpty
        | none => false
  | [] => false

/-- Whether a character is a space or a tab. -/
def isSpaceOrTab (c : Char) : Bool := c == ' ' || c == '\t'

/-- The time of day after a date: hour, minute, second, fraction, and offset. -/
def writtenClock? (cs : List Char) :
    Option (List Char × List Char × List Char × List Char × Option (List Char)) := do
  let rest ←
    match cs with
    | c :: rest =>
      if c == 'T' || c == 't' then some rest
      else if isSpaceOrTab c then some (rest.dropWhile isSpaceOrTab) else none
    | [] => none
  let (hour, rest) ← oneOrTwoDigits? rest
  let (minute, rest) ← twoDigits? (← dropChar? ':' rest)
  let (second, rest) ← twoDigits? (← dropChar? ':' rest)
  let (fraction, rest) :=
    match rest with
    | '.' :: places => (places.takeWhile Char.isDigit, places.dropWhile Char.isDigit)
    | _ => ([], rest)
  let offset := rest.dropWhile isSpaceOrTab
  if rest.isEmpty then return (hour, minute, second, fraction, none)
  else if isOffset offset then return (hour, minute, second, fraction, some offset)
  else none

/-- The date or moment that a text writes. -/
def writtenMoment? (cs : List Char) : Option WrittenMoment := do
  let (year, rest) := takeDigits 4 cs
  if year.length < 4 then none
  else
    let (month, rest) ← oneOrTwoDigits? (← dropChar? '-' rest)
    let (day, rest) ← oneOrTwoDigits? (← dropChar? '-' rest)
    if rest.isEmpty then return ⟨year, month, day, none⟩
    else return ⟨year, month, day, some (← writtenClock? rest)⟩

/-- Whether a text is a date with two digits for month and day, or a moment. -/
def isTimestamp (cs : List Char) : Bool :=
  match writtenMoment? cs with
  | some w => w.clock.isSome || (w.month.length = 2 && w.day.length = 2)
  | none => false

/-- A text without the line break that it may end with. -/
def dropFinalBreak (cs : List Char) : List Char :=
  if cs.getLast? == some '\n' then cs.dropLast else cs

/-- The tag that a plain scalar looks like. A final line break, which only a scalar in quotes can
have, does not count. -/
def Tag.ofPlain (text : List Char) : Tag :=
  let cs := dropFinalBreak text
  if text.isEmpty then .null
  else if isBool cs then .bool
  else if isFloat cs then .float
  else if isInt cs then .int
  else if cs == "<<".toList then .merge
  else if isNull cs && !cs.isEmpty then .null
  else if isTimestamp cs then .timestamp
  else if cs == ['='] then .value
  else if cs == ['!'] || cs == ['&'] || cs == ['*'] then .other (Tag.start ++ "yaml")
  else .str

end ConceptAtlas.Yaml
