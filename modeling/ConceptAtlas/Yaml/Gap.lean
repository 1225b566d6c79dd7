import ConceptAtlas.Yaml.Basic

/-!
# White space inside a scalar

Between two words of a scalar there may be spaces, which are kept, or line breaks, which are folded:
one alone becomes a space, of several the first is dropped. Spaces next to a line break are lost.
-/

namespace ConceptAtlas.Yaml

/-- The white space since the last character that is part of the text. `column` counts the spaces
since the last line break. -/
inductive Gap
  | none
  | spaces (cs : List Char)
  | breaks (first : Option Char) (more : List Char) (column : Nat)
  deriving DecidableEq, Repr

namespace Gap

/-- The gap with one more space or tab. -/
def space (c : Char) : Gap → Gap
  | .none => .spaces [c]
  | .spaces cs => .spaces (cs ++ [c])
  | .breaks first more column => .breaks first more (column + 1)

/-- The gap with one more line break, which is the character `b`. -/
def lineBreak (b : Char) : Gap → Gap
  | .none => .breaks (some b) [] 0
  | .spaces _ => .breaks (some b) [] 0
  | .breaks first more _ => .breaks first (more ++ [b]) 0

/-- A gap that starts with a line break that leaves no trace. -/
def joined : Gap := .breaks Option.none [] 0

/-- What the gap reads as. -/
def text : Gap → List Char
  | .none => []
  | .spaces cs => cs
  | .breaks Option.none more _ => more
  | .breaks (some b) more _ =>
    if b != '\n' then b :: more else if more.isEmpty then [' '] else more

/-- Whether the gap reaches over a line break. -/
def isBroken : Gap → Bool
  | .breaks _ _ _ => true
  | _ => false

end Gap

end ConceptAtlas.Yaml
