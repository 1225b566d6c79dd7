import ConceptAtlas.Assoc
import ConceptAtlas.Calendar
import ConceptAtlas.Json.Basic

/-!
# Dynamic values

The values of front matter and configuration: what JSON has, and besides it dates, moments, bytes,
pairs, sets, and mappings whose keys are any scalar. `sameKey` says when two keys are one: numbers
and truth values are compared as numbers, so `1`, `1.0` and `true` are the same key.

A list or a mapping may stand inside itself. There the value has no end, so only the mark `again` is
written: here the collection around it starts over.
-/

namespace ConceptAtlas

/-- A dynamic value. -/
inductive Value
  | null
  | bool (b : Bool)
  | int (n : Int)
  | float (x : Float)
  | str (s : String)
  | date (d : Date)
  | moment (m : Moment)
  | bytes (bs : List UInt8)
  | list (items : List Value)
  | pair (first second : Value)
  | set (members : List Value)
  | map (entries : List (Value × Value))
  | again (isMapping : Bool)
  deriving Inhabited

namespace Value

/-- A key that counts as a number: a truth value is one or zero. -/
def integerKey? : Value → Option Int
  | .bool b => some (if b then 1 else 0)
  | .int n => some n
  | _ => none

/-- Whether a double is an integer, without rounding. -/
def floatIsInt (x : Float) (n : Int) : Bool :=
  match Decimal.Binary64.classify x with
  | .finite negative b =>
    let r := b.ratio
    r.1 == n.natAbs * r.2 && (n == 0 || decide (n < 0) == negative)
  | _ => false

/-- Whether two scalars are the same key of a mapping. Two values that are not a number are the same
key. -/
def sameKey : Value → Value → Bool
  | .null, .null => true
  | .str s, .str t => s == t
  | .date d, .date e => d == e
  | .moment m, .moment n => m.same n
  | .bytes bs, .bytes cs => bs == cs
  | .float x, .float y => x == y || (x.isNaN && y.isNaN)
  | .float x, w => (w.integerKey?.map (floatIsInt x)).getD false
  | v, .float y => (v.integerKey?.map (floatIsInt y)).getD false
  | v, w =>
    match v.integerKey?, w.integerKey? with
    | some m, some n => m == n
    | _, _ => false

/-- A mapping from pairs; a repeated key keeps its first position and spelling, and takes its last
value. -/
def ofEntries (entries : List (Value × Value)) : Value := .map (Assoc.ofPairsBy sameKey entries)

/-- A set from its members; of members that are the same key the first one stays. -/
def ofMembers (members : List Value) : Value :=
  .set ((Assoc.ofPairsBy sameKey (members.map fun v ↦ (v, ()))).map Prod.fst)

/-- The value under a text key of a mapping's entries. -/
def value? (key : String) (entries : List (Value × Value)) : Option Value :=
  Assoc.findBy? sameKey (.str key) entries

/-- The value under a text key, null if it is missing. -/
def valueOrNull (key : String) (entries : List (Value × Value)) : Value :=
  (value? key entries).getD .null

/-- Whether a value counts as present: not null, false, zero, or without content. -/
def isTruthy : Value → Bool
  | .null => false
  | .bool b => b
  | .int n => n != 0
  | .float x => x != 0
  | .str s => !s.isEmpty
  | .bytes bs => !bs.isEmpty
  | .list items => !items.isEmpty
  | .set members => !members.isEmpty
  | .map entries => !entries.isEmpty
  | .date _ | .moment _ | .pair _ _ | .again _ => true

/-- The name of a value's kind. -/
def kindName : Value → String
  | .null => "NoneType"
  | .bool _ => "bool"
  | .int _ => "int"
  | .float _ => "float"
  | .str _ => "str"
  | .date _ => "date"
  | .moment _ => "datetime"
  | .bytes _ => "bytes"
  | .list _ => "list"
  | .pair _ _ => "tuple"
  | .set _ => "set"
  | .map _ => "dict"
  | .again isMapping => if isMapping then "dict" else "list"

mutual

/-- A JSON value as a dynamic value. -/
def ofJson : Json → Value
  | .null => .null
  | .bool b => .bool b
  | .int n => .int n
  | .float x => .float x
  | .str s => .str s
  | .arr items => .list (ofItems items)
  | .obj fields => .map (ofFields fields)

/-- The items of a JSON array as dynamic values. -/
def ofItems : List Json → List Value
  | [] => []
  | j :: js => ofJson j :: ofItems js

/-- The fields of a JSON object as entries under text keys. -/
def ofFields : List (String × Json) → List (Value × Value)
  | [] => []
  | (k, j) :: fs => (.str k, ofJson j) :: ofFields fs

end

end Value

end ConceptAtlas
