import ConceptAtlas.Yaml.Basic

/-!
# Places in a text

Where a character stands: how many come before it, on which line, and in which column. A line break
written with two characters counts when the second one is passed.
-/

namespace ConceptAtlas.Yaml

/-- A place in a text. -/
structure Place where
  index : Nat
  line : Nat
  column : Nat
  deriving DecidableEq, Repr

namespace Place

/-- The place of the first character. -/
def start : Place := ⟨0, 0, 0⟩

/-- The place after a character that `next` follows; a byte order mark takes no column. -/
def after (p : Place) (c : Char) (next : List Char) : Place :=
  if isBreak c && !(c == '\r' && next.head? == some '\n') then ⟨p.index + 1, p.line + 1, 0⟩
  else if c == byteOrderMark then ⟨p.index + 1, p.line, p.column⟩
  else ⟨p.index + 1, p.line, p.column + 1⟩

/-- The place after `n` characters of a text. -/
def past (p : Place) : Nat → List Char → Place
  | 0, _ => p
  | _, [] => p
  | n + 1, c :: cs => (p.after c cs).past n cs

/-- The place where the end part `rest` of a text starts that starts itself at `p`. -/
def atRest (p : Place) (cs rest : List Char) : Place := p.past (cs.length - rest.length) cs

end Place

end ConceptAtlas.Yaml
