import ConceptAtlas.Yaml.Block
import ConceptAtlas.Yaml.Place
import ConceptAtlas.Yaml.Plain
import ConceptAtlas.Yaml.Property
import ConceptAtlas.Yaml.Quoted

/-!
# Reading tokens

A text as its tokens. What makes YAML hard to read is decided here: which indentation opens and
closes a block collection, and which scalar or bracket turns out to be a key, because a colon comes
after it on its line. Such a candidate is a `PendingKey`; there is one for every level of brackets.
-/

namespace ConceptAtlas.Yaml

/-- A token that is a key if a colon comes soon enough. `number` is its number among the tokens. -/
structure PendingKey where
  number : Nat
  required : Bool
  place : Place

/-- The greatest length of a key that no question mark announces. -/
def maxKeyLength : Nat := 1024

/-- A text that is being read. `indents` are the columns of the open block collections and `levels`
the candidates for a key at each level of brackets, both from the inside out. -/
structure Lexer where
  rest : List Char
  place : Place
  indents : List Nat
  levels : List (Option PendingKey)
  keyAllowed : Bool
  tokens : Array Token
  ended : Bool

namespace Lexer

/-- The lexer at the start of a text. -/
def ofText (cs : List Char) : Lexer := ⟨cs, .start, [], [none], true, #[], false⟩

/-- Whether the text is inside of brackets. -/
def inFlow (l : Lexer) : Bool := 1 < l.levels.length

/-- Goes on to `rest`, an end part of the text. -/
def goTo (l : Lexer) (rest : List Char) : Lexer :=
  { l with rest := rest, place := l.place.atRest l.rest rest }

/-- Adds a token. -/
def push (l : Lexer) (t : Token) : Lexer := { l with tokens := l.tokens.push t }

/-- Adds a token that is written with `n` characters. -/
def take (l : Lexer) (n : Nat) (t : Token) : Lexer := (l.goTo (l.rest.drop n)).push t

/-! ### Indentation -/

/-- Closes the block collections that are indented further than a column; none stays open for no
column. Brackets suspend indentation. -/
def unwind (column : Option Nat) (l : Lexer) : Lexer :=
  if l.inFlow then l
  else
    let stays (c : Nat) : Bool := (column.map (decide <| c ≤ ·)).getD false
    let closed := l.indents.takeWhile fun c ↦ !stays c
    { l with
      indents := l.indents.dropWhile fun c ↦ !stays c
      tokens := l.tokens ++ Array.replicate closed.length Token.blockEnd }

/-- Whether a collection that starts at a column is indented further than the open ones. -/
def opens (column : Nat) (l : Lexer) : Bool :=
  match l.indents with
  | [] => true
  | c :: _ => c < column

/-- Opens a block collection at a column, if it is indented further than the open ones; its token
comes before the token with the given number. -/
def openBlock (column number : Nat) (t : Token) (l : Lexer) : Lexer :=
  if l.inFlow || !l.opens column then l
  else
    { l with
      indents := column :: l.indents
      tokens := l.tokens.insertIdxIfInBounds number t }

/-- The least column of a line that belongs to the innermost open block collection. -/
def leastColumn (l : Lexer) : Nat := (l.indents.head?.map (· + 1)).getD 0

/-! ### Candidates for a key -/

/-- Whether a candidate is too far back. -/
def isStale (l : Lexer) (k : PendingKey) : Bool :=
  k.place.line != l.place.line || k.place.index + maxKeyLength < l.place.index

/-- Gives up the candidates that are too far back; one that has to be a key cannot be given up. -/
def dropStale (l : Lexer) : Except Refusal Lexer :=
  let stale (k? : Option PendingKey) : Bool := (k?.map l.isStale).getD false
  if l.levels.any fun k? ↦ stale k? && (k?.map (·.required)).getD false then .error .malformed
  else .ok { l with levels := l.levels.map fun k? ↦ if stale k? then none else k? }

/-- Sets the candidate at the innermost level. -/
def setKey (k? : Option PendingKey) (l : Lexer) : Lexer :=
  { l with levels := k? :: l.levels.drop 1 }

/-- The candidate at the innermost level. -/
def pending? (l : Lexer) : Option PendingKey := l.levels.head?.join

/-- Gives up the candidate at the innermost level. -/
def dropKey (l : Lexer) : Except Refusal Lexer :=
  if (l.pending?.map (·.required)).getD false then .error .malformed else .ok (l.setKey none)

/-- Makes the next token a candidate, where a key may stand. At the column of the innermost block
collection it has to be a key. -/
def saveKey (l : Lexer) : Except Refusal Lexer :=
  if l.keyAllowed then do
    let required := !l.inFlow && l.indents.head? == some l.place.column
    return (← l.dropKey).setKey (some ⟨l.tokens.size, required, l.place⟩)
  else return l

/-- Sets whether a key may come next. -/
def allowKey (allowed : Bool) (l : Lexer) : Lexer := { l with keyAllowed := allowed }

/-- The number of the first token that is not certain yet. -/
def certain (l : Lexer) : Nat :=
  (l.levels.filterMap fun k? ↦ k?.map (·.number)).foldl min l.tokens.size

/-! ### Tokens -/

/-- What comes before the next token: spaces, comments and line breaks, and whether there was a line
break. -/
def skipBlanks (inComment broken : Bool) : List Char → List Char × Bool
  | [] => ([], broken)
  | c :: cs =>
    if isBreak c then skipBlanks false true cs
    else if inComment || c == ' ' then skipBlanks inComment broken cs
    else if c == '#' then skipBlanks true broken cs
    else (c :: cs, broken)

/-- Goes on to the next token. -/
def skip (l : Lexer) : Lexer :=
  let marked := l.place.index = 0 && l.rest.head? == some byteOrderMark
  let cs := if marked then l.rest.drop 1 else l.rest
  let (rest, broken) := skipBlanks false false cs
  let l := l.goTo rest
  if broken && !l.inFlow then l.allowKey true else l

/-- The end of the text. -/
def textEnd (l : Lexer) : Except Refusal Lexer := do
  let l ← (l.unwind none).dropKey
  return { l.push .textEnd with ended := true }

/-- A directive. -/
def readDirective (l : Lexer) : Except Refusal Lexer := do
  let l ← (l.unwind none).dropKey
  let (d, rest) ← directive (l.rest.drop 1)
  return ((l.goTo rest).push (.directive d)).allowKey false

/-- A document marker. -/
def readMarker (t : Token) (l : Lexer) : Except Refusal Lexer := do
  let l ← (l.unwind none).dropKey
  return (l.take 3 t).allowKey false

/-- The start of a collection in brackets. -/
def openFlow (t : Token) (l : Lexer) : Except Refusal Lexer := do
  let l ← l.saveKey
  return { (l.take 1 t).allowKey true with levels := none :: l.levels }

/-- The end of a collection in brackets. -/
def closeFlow (t : Token) (l : Lexer) : Except Refusal Lexer :=
  if l.inFlow then .ok ({ l.take 1 t with levels := l.levels.drop 1 }.allowKey false)
  else .error .malformed

/-- The comma of a collection in brackets. -/
def readComma (l : Lexer) : Except Refusal Lexer := do
  return (← l.dropKey).take 1 .flowEntry |>.allowKey true

/-- The dash of an item. -/
def readDash (l : Lexer) : Except Refusal Lexer :=
  if !l.inFlow && !l.keyAllowed then .error .malformed
  else do
    let l ← (l.openBlock l.place.column l.tokens.size .blockSequence).dropKey
    return (l.take 1 .blockEntry).allowKey true

/-- The question mark before a key. -/
def readQuestion (l : Lexer) : Except Refusal Lexer :=
  if !l.inFlow && !l.keyAllowed then .error .malformed
  else do
    let l ← (l.openBlock l.place.column l.tokens.size .blockMapping).dropKey
    return (l.take 1 .key).allowKey (!l.inFlow)

/-- The colon before a value; the candidate before it, if there is one, is a key. -/
def readColon (l : Lexer) : Except Refusal Lexer :=
  match l.pending? with
  | some k =>
    -- The mark goes in front of the candidate, and a mapping that opens there in front of the mark.
    let l := { l.setKey none with tokens := l.tokens.insertIdxIfInBounds k.number .key }
    .ok (((l.openBlock k.place.column k.number .blockMapping).take 1 .value).allowKey false)
  | none =>
    if !l.inFlow && !l.keyAllowed then .error .malformed
    else do
      let l ← (l.openBlock l.place.column l.tokens.size .blockMapping).dropKey
      return (l.take 1 .value).allowKey (!l.inFlow)

/-- A token that may be a key or stand before one. -/
def readNode (read : List Char → Except Refusal (Token × List Char)) (l : Lexer) :
    Except Refusal Lexer := do
  let l ← l.saveKey
  let (t, rest) ← read (l.rest.drop 1)
  return ((l.goTo rest).push t).allowKey false

/-- A block scalar. -/
def readBlock (folded : Bool) (l : Lexer) : Except Refusal Lexer := do
  let l ← l.dropKey
  let (text, rest) ← block folded (max 1 l.leastColumn) (l.rest.drop 1)
  return ((l.goTo rest).push (.scalar (String.ofList text) false)).allowKey true

/-- A plain scalar. -/
def readPlain (l : Lexer) : Except Refusal Lexer := do
  let l ← l.saveKey
  let s := plain l.inFlow l.leastColumn .none l.rest
  return ((l.goTo s.rest).push (.scalar (String.ofList s.text) true)).allowKey s.broken

/-- A scalar in quotes. -/
def scalarToken (r : Except Refusal (List Char × List Char)) :
    Except Refusal (Token × List Char) :=
  r.map fun p ↦ (.scalar (String.ofList p.1) false, p.2)

/-- The next token at the place where it starts. -/
def readToken (l : Lexer) : Except Refusal Lexer :=
  match l.rest with
  | [] => l.textEnd
  | c :: cs =>
    let isMark := l.inFlow || atBlank cs
    if c == '%' && l.place.column = 0 then l.readDirective
    else if l.place.column = 0 && atMarker l.rest then
      l.readMarker (if c == '-' then .documentStart else .documentEnd)
    else if c == '[' then l.openFlow .flowSequence
    else if c == '\x7b' then l.openFlow .flowMapping
    else if c == ']' then l.closeFlow .flowSequenceEnd
    else if c == '\x7d' then l.closeFlow .flowMappingEnd
    else if c == ',' then l.readComma
    else if c == '-' && atBlank cs then l.readDash
    else if c == '?' && isMark then l.readQuestion
    else if c == ':' && isMark then l.readColon
    else if c == '*' then l.readNode fun cs ↦ (anchorName cs).map fun r ↦ (.alias r.1, r.2)
    else if c == '&' then l.readNode fun cs ↦ (anchorName cs).map fun r ↦ (.anchor r.1, r.2)
    else if c == '!' then l.readNode fun cs ↦ (writtenTag cs).map fun r ↦ (.tag r.1, r.2)
    else if c == '|' && !l.inFlow then l.readBlock false
    else if c == '>' && !l.inFlow then l.readBlock true
    else if c == '\'' then l.readNode fun cs ↦ scalarToken (singleQuoted .none cs)
    else if c == '"' then l.readNode fun cs ↦ scalarToken (doubleQuoted .none cs)
    else if startsPlain l.inFlow l.rest then l.readPlain
    else .error .malformed

/-- Reads one more token, after giving up the candidates that are too far back. -/
def step (l : Lexer) : Except Refusal Lexer := do
  let l ← l.skip.dropStale
  (l.unwind (some l.place.column)).readToken

/-- Reads all tokens. A breakdown hides the tokens that it leaves uncertain. The fuel bounds the
steps, each of which takes at least one character or is the last one. -/
def run : (fuel : Nat) → Lexer → List Token
  | 0, l => l.tokens.toList ++ [.stop .malformed]
  | fuel + 1, l =>
    match l.dropStale with
    | .error r => l.tokens.toList ++ [.stop r]
    | .ok l =>
      match l.step with
      | .error r => l.tokens.toList.take l.certain ++ [.stop r]
      | .ok next => if next.ended then next.tokens.toList else run fuel next

end Lexer

/-- The tokens of a text. -/
def Token.ofText (cs : List Char) : List Token := (Lexer.ofText cs).run (cs.length + 1)

end ConceptAtlas.Yaml
