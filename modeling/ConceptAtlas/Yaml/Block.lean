import ConceptAtlas.Yaml.Basic

/-!
# Block scalars

The text of a scalar that stands on lines of its own after `|` or `>`. Its indentation is that of
its first line, or given by a digit; line breaks are kept after `|` and folded after `>`; a sign
says what becomes of the line breaks at its end.
-/

namespace ConceptAtlas.Yaml

/-- What becomes of the line breaks at the end of a block scalar. -/
inductive Chomping
  | strip
  | clip
  | keep
  deriving DecidableEq, Repr

/-- What stands after the mark of a block scalar. -/
structure BlockHeader where
  chomping : Chomping
  increment : Option Nat

/-- The chomping that a sign asks for. -/
def Chomping.ofSign? (c : Char) : Option Chomping :=
  if c == '+' then some .keep else if c == '-' then some .strip else none

/-- The chomping at the start of a text, and what follows it. -/
def takeChomping (cs : List Char) : Option Chomping × List Char :=
  match cs with
  | c :: rest =>
    match Chomping.ofSign? c with
    | some k => (some k, rest)
    | none => (none, cs)
  | [] => (none, cs)

/-- The digit at the start of a text, and what follows it. -/
def takeIncrement (cs : List Char) : Option Nat × List Char :=
  match cs with
  | c :: rest => if c.isDigit then (some (c.toNat - '0'.toNat), rest) else (none, cs)
  | [] => (none, cs)

/-- The header of a block scalar, a sign and a digit in either order, and what follows its line. -/
def blockHeader (cs : List Char) : Except Refusal (BlockHeader × List Char) := do
  let (chomping, increment, rest) :=
    match takeChomping cs with
    | (some k, rest) =>
      let (n, rest) := takeIncrement rest
      (some k, n, rest)
    | (none, rest) =>
      let (n, rest) := takeIncrement rest
      match n with
      | none => (none, none, rest)
      | some n =>
        let (k, rest) := takeChomping rest
        (k, some n, rest)
  if increment == some 0 || !atSpace rest then .error .malformed
  else return (⟨chomping.getD .clip, increment⟩, ← endOfLine rest)

/-- The blank lines at the start of a block scalar: their breaks, the greatest number of spaces on a
line, and on the last one, and what follows. -/
def leadingLines (column greatest : Nat) : List Char → List Char × Nat × Nat × List Char
  | ' ' :: cs => leadingLines (column + 1) (max greatest (column + 1)) cs
  | '\r' :: '\n' :: cs =>
    let r := leadingLines 0 greatest cs
    ('\n' :: r.1, r.2)
  | c :: cs =>
    if isBreak c then
      let r := leadingLines 0 greatest cs
      (breakChar c :: r.1, r.2)
    else ([], greatest, column, c :: cs)
  | [] => ([], greatest, column, [])

/-- The blank lines before the next line of a block scalar: their breaks, the column reached, which
is `indent` at most, and what follows. -/
def blankLines (indent column : Nat) : List Char → List Char × Nat × List Char
  | '\r' :: '\n' :: cs =>
    let r := blankLines indent 0 cs
    ('\n' :: r.1, r.2)
  | c :: cs =>
    if isBreak c then
      let r := blankLines indent 0 cs
      (breakChar c :: r.1, r.2)
    else if c == ' ' && column < indent then blankLines indent (column + 1) cs
    else ([], column, c :: cs)
  | [] => ([], column, [])

theorem blankLines_length (indent column : Nat) (cs : List Char) :
    (blankLines indent column cs).2.2.length ≤ cs.length := by
  fun_induction blankLines indent column cs <;>
    simp +zetaDelta only [List.length_cons, List.length_nil] <;>
    omega

/-- Whether a line starts with a space or a tab. -/
def startsBlank (cs : List Char) : Bool := cs.head? == some ' ' || cs.head? == some '\t'

/-- The lines of a block scalar, the first of which starts here: their text without the break after
the last one, that break, the breaks of the blank lines after it, and what follows. `indented` says
that the current line starts with a space or a tab. -/
def blockLines (folded : Bool) (indent : Nat) (indented : Bool) (cs : List Char) :
    List Char × List Char × List Char × List Char :=
  match _h : lineBreak? cs with
  | some (b, rest) =>
    let blank := blankLines indent 0 rest
    let next := blank.2.2
    if blank.2.1 == indent && !next.isEmpty then
      let glue :=
        if folded && b == '\n' && !indented && !startsBlank next then
          (if blank.1.isEmpty then [' '] else [])
        else [b]
      let r := blockLines folded indent (startsBlank next) next
      (glue ++ blank.1 ++ r.1, r.2)
    else ([], [b], blank.1, next)
  | none =>
    match cs with
    | [] => ([], [], [], [])
    | c :: rest =>
      let r := blockLines folded indent indented rest
      (c :: r.1, r.2)
termination_by cs.length
decreasing_by
  · have h₁ := lineBreak?_length _h
    have h₂ := blankLines_length indent 0 rest
    exact Nat.lt_of_le_of_lt h₂ h₁
  · simp

/-- A block scalar after its mark: its text and what follows. `least` is the least column that its
lines can have. -/
def block (folded : Bool) (least : Nat) (cs : List Char) :
    Except Refusal (List Char × List Char) := do
  let (header, rest) ← blockHeader cs
  let (breaks, column, indent, body) :=
    match header.increment with
    | some n =>
      let indent := least + n - 1
      let (breaks, column, body) := blankLines indent 0 rest
      (breaks, column, indent, body)
    | none =>
      let (breaks, greatest, column, body) := leadingLines 0 0 rest
      (breaks, column, max least greatest, body)
  if column == indent && !body.isEmpty then
    let (text, last, after, rest) := blockLines folded indent (startsBlank body) body
    let ending :=
      match header.chomping with
      | .strip => []
      | .clip => last
      | .keep => last ++ after
    return (breaks ++ text ++ ending, rest)
  else return (if header.chomping == .keep then breaks else [], body)

end ConceptAtlas.Yaml
