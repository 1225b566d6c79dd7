import ConceptAtlas.Assoc

/-!
# JSON values

The values of a JSON text. Integers and doubles are different values, integers have no bound, and
the fields of an object keep their order.
-/

namespace ConceptAtlas

/-- A JSON value. -/
inductive Json
  | null
  | bool (b : Bool)
  | int (n : Int)
  | float (x : Float)
  | str (s : String)
  | arr (items : List Json)
  | obj (fields : List (String × Json))
  deriving Inhabited

namespace Json

/-- The value of a field, if the value is an object that has it. -/
def field? (key : String) : Json → Option Json
  | .obj fields => Assoc.find? key fields
  | _ => none

/-- The value of a field, null if it is missing. -/
def fieldOrNull (key : String) (j : Json) : Json := (j.field? key).getD .null

/-- An object from pairs; a repeated key keeps its first position and its last value. -/
def ofFields (fields : List (String × Json)) : Json := .obj (Assoc.ofPairs fields)

/-- A text or null. -/
def ofText? : Option String → Json
  | some s => .str s
  | none => .null

end Json

end ConceptAtlas
