import ConceptAtlas.Text.Parts
import ConceptAtlas.Value.Basic

/-!
# Environment references

Texts of a configuration may refer to environment variables as `${NAME}`. All references of a text
are found first (`references`); then each of them, in order, is replaced wherever it stands in the
text by then, so a value that holds a later reference is replaced in turn. A variable that is not
set is replaced by nothing.
-/

namespace ConceptAtlas

/-- The environment variables that are set. -/
abbrev Environment := List (String × String)

namespace Environment

/-- The value of a variable. -/
def value? (env : Environment) (name : String) : Option String := Assoc.find? name env

/-- The name of the reference that a text starts with: all up to the first closing brace, which may
not be nothing. -/
def nameAtStart? : List Char → Option (List Char)
  | '$' :: '\x7b' :: cs =>
    let name := cs.takeWhile (· != '\x7d')
    if !name.isEmpty && name.length < cs.length then some name else none
  | _ => none

/-- The names of the references in a text, from left to right. -/
def references (cs : List Char) : List (List Char) :=
  match cs with
  | [] => []
  | c :: rest =>
    match nameAtStart? (c :: rest) with
    | some name => name :: references (rest.drop (name.length + 2))
    | none => references rest
termination_by cs.length
decreasing_by all_goals simp only [List.length_cons, List.length_drop]; omega

/-- A reference as it is written. -/
def reference (name : List Char) : List Char := ['$', '\x7b'] ++ name ++ ['\x7d']

/-- What takes the place of a reference: the value of the variable, or nothing. -/
def valueOf (env : Environment) (name : List Char) : List Char :=
  ((env.value? (String.ofList name)).getD "").toList

/-- A text with the references to one variable replaced, wherever they stand in it. -/
def replaceName (env : Environment) (cs name : List Char) : List Char :=
  Text.replaceAll (reference name) (env.valueOf name) cs

/-- A text with its references replaced. -/
def expandText (env : Environment) (s : String) : String :=
  String.ofList ((references s.toList).foldl env.replaceName s.toList)

mutual

/-- A value with the references replaced in its texts, also in those of lists and under the keys of
mappings; keys stay as they are. -/
def expand (env : Environment) (v : Value) : Value :=
  match v with
  | .str s => .str (env.expandText s)
  | .list items => .list (expandItems env items)
  | .map entries => .map (expandEntries env entries)
  | v => v

/-- Items with the references replaced in their texts. -/
def expandItems (env : Environment) : List Value → List Value
  | [] => []
  | v :: vs => expand env v :: expandItems env vs

/-- Entries with the references replaced in the texts of their values. -/
def expandEntries (env : Environment) : List (Value × Value) → List (Value × Value)
  | [] => []
  | (k, v) :: es => (k, expand env v) :: expandEntries env es

end

mutual

/-- Whether replacing references in a value comes to no end, because a collection that it goes into
stands inside itself. -/
def isEndless : Value → Bool
  | .list items => anyEndless items
  | .map entries => anyEntryEndless entries
  | .again _ => true
  | _ => false

/-- Whether replacing references in one of some items comes to no end. -/
def anyEndless : List Value → Bool
  | [] => false
  | v :: vs => isEndless v || anyEndless vs

/-- Whether replacing references in the value of one of some entries comes to no end. -/
def anyEntryEndless : List (Value × Value) → Bool
  | [] => false
  | (_, v) :: es => isEndless v || anyEntryEndless es

end

end Environment

end ConceptAtlas
