import ConceptAtlas.Yaml.Gap

/-!
# Plain scalars

The text of a scalar without quotes. It ends before a comment, before a colon that ends a key,
before a document marker, in brackets before what delimits them, and outside of brackets before a
line that is not indented far enough.
-/

namespace ConceptAtlas.Yaml

/-- Whether a plain scalar can start with this text. -/
def startsPlain (inFlow : Bool) : List Char → Bool
  | [] => false
  | c :: cs =>
    if isBlank c then false
    else if indicators.contains c then
      !atBlank cs && (c == '-' || (!inFlow && (c == '?' || c == ':')))
    else true

/-- Whether a plain scalar ends before this text, whatever stands before it. -/
def endsPlain (inFlow : Bool) : List Char → Bool
  | [] => true
  | c :: cs =>
    isBlank c ||
      (c == ':' && (atBlank cs || (inFlow && (cs.head?.map isFlowIndicator).getD false))) ||
      (inFlow && (c == '?' || isFlowIndicator c))

/-- A plain scalar: its text, what follows it, and whether white space after it that reaches over a
line break was passed. -/
structure PlainScan where
  text : List Char
  rest : List Char
  broken : Bool

/-- A scan with characters put before its text. -/
def PlainScan.before (cs : List Char) (s : PlainScan) : PlainScan := { s with text := cs ++ s.text }

/-- Scans a plain scalar; `gap` is the white space that comes before, and `indent` the least column
of a line that goes on with it. -/
def plain (inFlow : Bool) (indent : Nat) (gap : Gap) : List Char → PlainScan
  | [] => ⟨[], [], gap.isBroken⟩
  | '\r' :: '\n' :: cs =>
    if atMarker cs then ⟨[], cs, true⟩ else plain inFlow indent (gap.lineBreak '\n') cs
  | c :: cs =>
    if c == ' ' then plain inFlow indent (gap.space c) cs
    else if isBreak c then
      if atMarker cs then ⟨[], cs, true⟩ else plain inFlow indent (gap.lineBreak (breakChar c)) cs
    else if endsHere c cs then ⟨[], c :: cs, gap.isBroken⟩
    else (plain inFlow indent .none cs).before (gap.text ++ [c])
where
  /-- Whether the scalar ends before the next character, given the gap before it. -/
  endsHere (c : Char) (cs : List Char) : Bool :=
    endsPlain inFlow (c :: cs) ||
      match gap with
      | .none => false
      | .spaces _ => c == '#'
      | .breaks _ _ column => c == '#' || (!inFlow && column < indent)

end ConceptAtlas.Yaml
