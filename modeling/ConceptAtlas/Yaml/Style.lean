import ConceptAtlas.Value.Basic
import ConceptAtlas.Yaml.Resolution

/-!
# Styles of scalars

How a scalar is written: plain if its text alone tells what it is, else between single quotes if it
needs no escapes, else between double quotes. Bytes have lines of their own.
-/

namespace ConceptAtlas.Yaml

/-- The ways to write a scalar. -/
inductive Style
  | plain
  | single
  | double
  | literal
  deriving DecidableEq, Repr

namespace Style

/-- Whether a character can be written as it is: a line break, or a printable ASCII character. -/
def isOrdinary (c : Char) : Bool := c == '\n' || (' ' ≤ c && c ≤ '~')

/-- Whether two characters stand side by side in a text. -/
def hasAdjacent (p q : Char → Bool) (cs : List Char) : Bool :=
  (cs.zip (cs.drop 1)).any fun ab ↦ p ab.1 && q ab.2

/-- Whether a text can stand between single quotes. -/
def allowsSingle (cs : List Char) : Bool :=
  cs.all isOrdinary && !hasAdjacent isBreak (· == ' ') cs && !hasAdjacent (· == ' ') isBreak cs

/-- Whether a text reads as a mark of a block instead of a text: where it starts with one, or holds
a colon before a space or a number sign after one. -/
def looksMarked (cs : List Char) : Bool :=
  let startsWith (s : String) : Bool := s.toList.isPrefixOf cs
  let startsMarked : Bool :=
    match cs with
    | [] => false
    | c :: rest =>
      ("#,[]\x7b\x7d&*!|>'\"%@\x60".toList).contains c ||
        ((c == '?' || c == '-') && atBlank rest)
  startsWith "---" || startsWith "..." || startsMarked ||
    hasAdjacent (· == ':') isBlank cs || cs.getLast? == some ':' ||
    hasAdjacent isBlank (· == '#') cs

/-- Whether a text can stand without quotes. -/
def allowsPlain (cs : List Char) : Bool :=
  cs.all isOrdinary && !cs.any isBreak && cs.head? != some ' ' && cs.getLast? != some ' ' &&
    !looksMarked cs

/-- The style of a scalar with a tag. -/
def ofScalar (tag : Tag) (isKey : Bool) (cs : List Char) : Style :=
  let isMultiline := cs.any isBreak
  if tag = .binary then (if isKey || cs.isEmpty then .double else .literal)
  else if Tag.ofPlain cs = tag && allowsPlain cs && !(isKey && (cs.isEmpty || isMultiline)) then
    .plain
  else if allowsSingle cs && !(isKey && isMultiline) then .single
  else .double

end Style

end ConceptAtlas.Yaml
