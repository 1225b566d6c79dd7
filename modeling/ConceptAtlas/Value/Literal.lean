import ConceptAtlas.Decimal.Numeral
import ConceptAtlas.Text.Quoted
import ConceptAtlas.Value.Basic

/-!
# Values as text

The two texts of a dynamic value. Its literal shows what kind of value it is: texts stand between
quotes, dates and moments name their fields. Its plain text differs for texts, dates and moments
alone, which then stand for themselves; inside a list or mapping every value is a literal. Dots
stand for a collection that starts over.
-/

namespace ConceptAtlas

/-- A date as a literal. -/
def Date.literal (d : Date) : String := s!"datetime.date({d.year}, {d.month}, {d.day})"

/-- An offset from universal time as a literal. -/
def Moment.offsetLiteral (minutes : Int) : String :=
  if minutes = 0 then "datetime.timezone.utc"
  else
    let days := minutes / 1440
    let seconds := minutes % 1440 * 60
    let parts := (if days = 0 then [] else [s!"days={days}"]) ++
      (if seconds = 0 then [] else [s!"seconds={seconds}"])
    let length := ", ".intercalate parts
    s!"datetime.timezone(datetime.timedelta({length}))"

/-- A moment as a literal; seconds and microseconds are left out from the end while they are zero.
-/
def Moment.literal (m : Moment) : String :=
  let small := if m.microsecond ≠ 0 then [m.second, m.microsecond]
    else if m.second ≠ 0 then [m.second] else []
  let numbers := [m.date.year, m.date.month, m.date.day, m.hour, m.minute] ++ small
  let zone := (m.offset.map fun o ↦ s!"tzinfo={Moment.offsetLiteral o}").toList
  let fields := ", ".intercalate (numbers.map toString ++ zone)
  s!"datetime.datetime({fields})"

namespace Value

/-- Parts between brackets, separated by commas. -/
def bracketed (opening closing : String) (parts : List String) : String :=
  opening ++ ", ".intercalate parts ++ closing

mutual

/-- The literal of a value. -/
def literal : Value → String
  | .null => "None"
  | .bool b => if b then "True" else "False"
  | .int n => toString n
  | .float x => Decimal.plainLayout.text x
  | .str s => Text.literal s
  | .date d => d.literal
  | .moment m => m.literal
  | .bytes bs => Text.bytesLiteral bs
  | .list items => bracketed "[" "]" (literals items)
  | .pair a b => bracketed "(" ")" [literal a, literal b]
  | .set [] => "set()"
  | .set (v :: vs) => bracketed "\x7b" "\x7d" (literal v :: literals vs)
  | .map entries => bracketed "\x7b" "\x7d" (entryLiterals entries)
  | .again isMapping => if isMapping then "\x7b...\x7d" else "[...]"

/-- The literals of the items of a list. -/
def literals : List Value → List String
  | [] => []
  | v :: vs => literal v :: literals vs

/-- The literals of the entries of a mapping, key before value. -/
def entryLiterals : List (Value × Value) → List String
  | [] => []
  | (k, v) :: es => (literal k ++ ": " ++ literal v) :: entryLiterals es

end

/-- The plain text of a value. -/
def text : Value → String
  | .str s => s
  | .date d => d.text
  | .moment m => m.text " "
  | v => v.literal

mutual

/-- Whether a value can be written: no integer in it has too many digits. -/
def isWritable : Value → Bool
  | .int n => decide ((Nat.toDigits 10 n.natAbs).length ≤ Decimal.maxDigits)
  | .list items => areWritable items
  | .pair a b => isWritable a && isWritable b
  | .set members => areWritable members
  | .map entries => areEntriesWritable entries
  | _ => true

/-- Whether all of some items can be written. -/
def areWritable : List Value → Bool
  | [] => true
  | v :: vs => isWritable v && areWritable vs

/-- Whether keys and values of some entries can be written. -/
def areEntriesWritable : List (Value × Value) → Bool
  | [] => true
  | (k, v) :: es => isWritable k && isWritable v && areEntriesWritable es

end

end Value

/-- The literal of a JSON value. -/
def Json.literal (j : Json) : String := (Value.ofJson j).literal

/-- The plain text of a JSON value. -/
def Json.text (j : Json) : String := (Value.ofJson j).text

/-- Whether a JSON value can be written: no integer in it has too many digits. -/
def Json.isWritable (j : Json) : Bool := (Value.ofJson j).isWritable

end ConceptAtlas
