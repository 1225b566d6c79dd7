import ConceptAtlas.Decimal.Layout
import ConceptAtlas.Text.Base64
import ConceptAtlas.Yaml.Style

/-!
# Writing YAML

A value as a YAML text in block style: an entry or an item a line, two spaces for a level, and only
empty collections in brackets. A sequence under a key is not indented. Text in quotes or without
them is folded at a space once a line has more than 80 columns.
-/

namespace ConceptAtlas.Yaml

/-! ### Pens -/

/-- A text that is being written. `spaced` says that what comes next needs no space before it, and
`fresh` that its last line has nothing but indentation and marks so far. -/
structure Pen where
  written : String
  column : Nat
  spaced : Bool
  fresh : Bool

namespace Pen

/-- A pen that has written nothing. -/
def start : Pen := ⟨"", 0, true, true⟩

/-- Writes characters. -/
def put (cs : List Char) (p : Pen) : Pen :=
  { p with written := p.written ++ String.ofList cs, column := p.column + cs.length }

/-- Starts a new line. -/
def newLine (p : Pen) : Pen := ⟨p.written.push '\n', 0, true, true⟩

/-- Goes to a column, on a new line unless this one has room before it. -/
def indentTo (column : Nat) (p : Pen) : Pen :=
  let full := !p.fresh || column < p.column || (p.column == column && !p.spaced)
  let p := if full then p.newLine else p
  if p.column < column then
    { p.put (List.replicate (column - p.column) ' ') with spaced := true }
  else p

/-- Writes a mark, after a space where one is needed. -/
def mark (s : String) (p : Pen) : Pen :=
  { p.put (if p.spaced then s.toList else ' ' :: s.toList) with spaced := false, fresh := false }

/-- Writes a mark that starts a line or comes after one that does. -/
def lead (s : String) (p : Pen) : Pen := { p.mark s with fresh := p.fresh }

/-- Writes a mark that needs no space before it. -/
def close (s : String) (p : Pen) : Pen := { p.put s.toList with spaced := false, fresh := false }

end Pen

/-! ### Texts -/

/-- The column after which a text is folded. -/
def bestWidth : Nat := 80

/-- A text cut into runs of spaces, of line breaks, and of anything else. -/
def runs : List Char → List (List Char)
  | [] => []
  | c :: cs =>
    match runs cs with
    | (d :: r) :: rs =>
      if (c == ' ') = (d == ' ') ∧ isBreak c = isBreak d then (c :: d :: r) :: rs
      else [c] :: (d :: r) :: rs
    | rs => [c] :: rs

/-- Writes the runs of a text without quotes or between single ones. -/
def putRuns (fold quoted : Bool) (column : Nat) (first : Bool) : List (List Char) → Pen → Pen
  | [], p => p
  | r :: rs, p =>
    let inner := !first && !rs.isEmpty
    let p :=
      if r == [' '] && bestWidth < p.column && fold && inner then
        let p := p.indentTo column
        if quoted then p else { p with spaced := false, fresh := false }
      -- A single line break would be read as a space, so there is one more than the text has.
      else if r.any isBreak then (r.foldl (fun p _ ↦ p.newLine) p.newLine).indentTo column
      else p.put (if quoted then r.flatMap fun c ↦ if c == '\'' then ['\'', '\''] else [c] else r)
    putRuns fold quoted column false rs p

/-- The letter of an escape after a backslash. -/
def escapeLetters : List (Char × Char) :=
  [('\x00', '0'), ('\x07', 'a'), ('\x08', 'b'), ('\t', 't'), ('\n', 'n'), ('\x0B', 'v'),
    ('\x0C', 'f'), ('\r', 'r'), ('\x1B', 'e'), ('"', '"'), ('\\', '\\'), ('\u0085', 'N'),
    ('\u00A0', '_'), ('\u2028', 'L'), ('\u2029', 'P')]

/-- The escape of a character that has to be escaped between double quotes. -/
def escape? (c : Char) : Option (List Char) :=
  if c != '"' && c != '\\' && ' ' ≤ c && c ≤ '~' then none
  else
    match Assoc.find? c escapeLetters with
    | some letter => some ['\\', letter]
    | none =>
      let n := c.toNat
      some (if n ≤ 0xFF then '\\' :: 'x' :: Text.hexDigitsUpper 2 n
        else if n ≤ 0xFFFF then '\\' :: 'u' :: Text.hexDigitsUpper 4 n
        else '\\' :: 'U' :: Text.hexDigitsUpper 8 n)

/-- Folds a line between double quotes; a space that comes next is escaped. -/
def foldDouble (column : Nat) (next : Option Char) (p : Pen) : Pen :=
  let p := { (p.put ['\\']).indentTo column with spaced := false, fresh := false }
  if next == some ' ' then p.put ['\\'] else p

/-- Writes the characters of a text between double quotes. `held` are those that come next but are
not written yet, the last one first. -/
def putDouble (fold : Bool) (column : Nat) (first : Bool) (held : List Char) :
    List Char → Pen → Pen
  | [], p => p.put held.reverse
  | c :: cs, p =>
    let inner := fold && !first && !cs.isEmpty
    match escape? c with
    | some e =>
      let p := (p.put held.reverse).put e
      let p := if inner && bestWidth < p.column - 1 then foldDouble column cs.head? p else p
      putDouble fold column false [] cs p
    | none =>
      if inner && (c == ' ' || held.isEmpty) && bestWidth < p.column + held.length then
        putDouble fold column false [c] cs (foldDouble column (some c) (p.put held.reverse))
      else putDouble fold column false (c :: held) cs p

/-- Writes the lines of a text, each at a column. -/
def putLines (column : Nat) (ls : List (List Char)) (p : Pen) : Pen :=
  ls.foldl (fun p l ↦ ((p.indentTo column).put l).newLine) p

/-- Bytes in base 64 in lines of 76 characters. -/
def binaryLines (bytes : List UInt8) : List (List Char) :=
  if _h : bytes = [] then []
  else Text.Base64.encode (bytes.take 57) :: binaryLines (bytes.drop 57)
termination_by bytes.length
decreasing_by
  rw [List.length_drop]
  have := List.length_pos_iff.2 _h
  omega

/-! ### Scalars -/

/-- A scalar's tag and text. Doubles have a point before an exponent. -/
def scalarOf? : Value → Option (Tag × List Char)
  | .null => some (.null, "null".toList)
  | .bool b => some (.bool, (if b then "true" else "false").toList)
  | .int n => some (.int, (toString n).toList)
  | .float x => some (.float, floatText x)
  | .str s => some (.str, s.toList)
  | .date d => some (.timestamp, d.text.toList)
  | .moment m => some (.timestamp, (m.text " ").toList)
  | .bytes bs => some (.binary, (binaryLines bs).flatMap (· ++ ['\n']))
  | _ => none
where
  /-- The text of a double. -/
  floatText (x : Float) : List Char :=
    let cs := (Decimal.Layout.text ⟨-4, 15, 2, ".nan", ".inf", "-.inf"⟩ x).toList
    if cs.contains 'e' && !cs.contains '.' then
      cs.takeWhile (· != 'e') ++ ".0".toList ++ cs.dropWhile (· != 'e')
    else cs

/-- The name of a tag that is written. -/
def tagName? (t : Tag) : Option String := (Tag.names.find? (·.2 = t)).map Prod.fst

/-- Writes a scalar whose lines start at a column. A tag is written where the style does not tell.
-/
def putScalar (tag : Tag) (cs : List Char) (isKey : Bool) (column : Nat) (p : Pen) : Pen :=
  let style := Style.ofScalar tag isKey cs
  let p := if style = .plain || tag = .str then p else p.mark ("!!" ++ (tagName? tag).getD "")
  match style with
  | .plain =>
    let p := { p.put (if p.spaced then [] else [' ']) with spaced := false, fresh := false }
    putRuns (!isKey) false column true (runs cs) p
  | .single => (putRuns (!isKey) true column true (runs cs) (p.mark "'")).close "'"
  | .double => (putDouble (!isKey) column true [] cs (p.mark "\"")).close "\""
  | .literal => putLines column ((Text.parts '\n' cs).dropLast) (p.mark "|").newLine

/-- The greatest length of a key that needs no question mark, its tag counted. -/
def maxSimpleKey : Nat := 127

/-- Whether a key needs no question mark: it is short and on one line, or an empty collection. -/
def isSimpleKey (v : Value) : Bool :=
  match scalarOf? v with
  | some (tag, cs) =>
    ((tagName? tag).getD "").length + 2 + cs.length ≤ maxSimpleKey && !cs.isEmpty &&
      !cs.any isBreak
  | none =>
    match v with
    | .list [] => true
    | .map [] => true
    | _ => false

/-! ### Collections -/

/-- The column of a collection in one that starts at a column, or in none. -/
def step (indent : Option Nat) : Nat := (indent.map (· + 2)).getD 0

/-- The column of a sequence, which is not indented where it comes after a key on its line. -/
def itemColumn (indent : Option Nat) (inMapping : Bool) (p : Pen) : Nat :=
  if inMapping && !p.fresh then indent.getD 0 else step indent

/-- Starts an item of a sequence at a column. -/
def startItem (column : Nat) (p : Pen) : Pen := (p.indentTo column).lead "-"

/-- Starts a key of a mapping at a column. -/
def startKey (column : Nat) (simple : Bool) (p : Pen) : Pen :=
  if simple then p.indentTo column else (p.indentTo column).lead "?"

/-- Starts the value of a key. -/
def startValue (column : Nat) (simple : Bool) (p : Pen) : Pen :=
  if simple then p.close ":" else (p.indentTo column).lead ":"

mutual

/-- Writes a value; `indent` is the column of the collection around it, `inMapping` says that this
is a mapping, and `isKey` that the value is a simple key of it. -/
def putValue (indent : Option Nat) (inMapping isKey : Bool) (v : Value) (p : Pen) : Pen :=
  match v with
  | .list items =>
    if items.isEmpty then (p.mark "[").close "]"
    else putItems (itemColumn indent inMapping p) items p
  | .pair a b =>
    let column := itemColumn indent inMapping p
    let p := putValue (some column) false false a (startItem column p)
    putValue (some column) false false b (startItem column p)
  | .map entries =>
    if entries.isEmpty then (p.mark "\x7b").close "\x7d" else putEntries (step indent) entries p
  | .set members =>
    let p := p.mark "!!set"
    if members.isEmpty then (p.mark "\x7b").close "\x7d" else putMembers (step indent) members p
  | v =>
    match scalarOf? v with
    | some (tag, cs) => putScalar tag cs isKey ((indent.map (· + 2)).getD 2) p
    | none => p

/-- Writes the items of a sequence at a column. -/
def putItems (column : Nat) (items : List Value) (p : Pen) : Pen :=
  match items with
  | [] => p
  | v :: vs => putItems column vs (putValue (some column) false false v (startItem column p))

/-- Writes the entries of a mapping at a column. -/
def putEntries (column : Nat) (entries : List (Value × Value)) (p : Pen) : Pen :=
  match entries with
  | [] => p
  | (k, v) :: es =>
    let simple := isSimpleKey k
    let p := putValue (some column) true simple k (startKey column simple p)
    putEntries column es (putValue (some column) true false v (startValue column simple p))

/-- Writes the members of a set at a column, as keys without values. -/
def putMembers (column : Nat) (members : List Value) (p : Pen) : Pen :=
  match members with
  | [] => p
  | v :: vs =>
    let simple := isSimpleKey v
    let p := putValue (some column) true simple v (startKey column simple p)
    putMembers column vs ((startValue column simple p).mark "null")

end

/-- The YAML text of a value. -/
def print (v : Value) : String := ((putValue none false false v .start).indentTo 0).written

end ConceptAtlas.Yaml
