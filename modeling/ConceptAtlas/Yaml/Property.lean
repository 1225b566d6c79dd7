import ConceptAtlas.Text.Hex
import ConceptAtlas.Text.Utf8
import ConceptAtlas.Yaml.Token

/-!
# Names and tags

What stands beside the values of a text: the names of anchors, tags with their handles and escapes,
and directives.
-/

namespace ConceptAtlas.Yaml

/-- The name of an anchor, which a blank or punctuation ends, and what follows it. -/
def anchorName (cs : List Char) : Except Refusal (String × List Char) :=
  let name := cs.takeWhile isNameChar
  let rest := cs.dropWhile isNameChar
  let closing := ['?', ':', ',', ']', '\x7d', '%', '@', '\x60']
  let ends := atBlank rest || closing.contains (rest.headD ' ')
  if name.isEmpty || !ends then .error .malformed else .ok (String.ofList name, rest)

/-! ### Tags -/

/-- Whether a character may stand in a tag; the per cent sign starts an escape. -/
def isTagChar (c : Char) : Bool :=
  c.isAlphanum || ("-;/?:@&=+$,_.!~*'()[]%".toList).contains c

/-- The bytes of a tag, some of them escapes of two hexadecimal digits, and what follows it. -/
def tagBytes : List Char → Except Refusal (List UInt8 × List Char)
  | '%' :: a :: b :: cs =>
    match Text.hexNumber? [a, b] with
    | some n => (tagBytes cs).map fun r ↦ (n.toUInt8 :: r.1, r.2)
    | none => .error .malformed
  | c :: cs =>
    if c == '%' then .error .malformed
    else if isTagChar c then (tagBytes cs).map fun r ↦ (c.toNat.toUInt8 :: r.1, r.2)
    else .ok ([], c :: cs)
  | [] => .ok ([], [])

/-- The text of a tag, which may not be empty and is UTF-8 where it is escaped, and what follows
it. -/
def tagName (cs : List Char) : Except Refusal (String × List Char) := do
  let (bytes, rest) ← tagBytes cs
  match bytes, Text.decodeUtf8 bytes with
  | _ :: _, .ok text => return (String.ofList text, rest)
  | _, _ => .error .malformed

/-- The handle of a tag after its first exclamation mark, and what follows it: a name and a second
mark, or nothing if a space comes next. -/
def tagHandle (cs : List Char) : Except Refusal (String × List Char) :=
  if cs.head? == some ' ' then .ok ("!", cs)
  else
    let name := cs.takeWhile isNameChar
    match cs.dropWhile isNameChar with
    | '!' :: rest => .ok (String.ofList ('!' :: name ++ ['!']), rest)
    | _ => .error .malformed

/-- A tag after its first exclamation mark, which a space or the end of a line ends, and what
follows it. -/
def writtenTag (cs : List Char) : Except Refusal (WrittenTag × List Char) := do
  let (tag, rest) ←
    match cs with
    | '<' :: inner => do
      let (name, rest) ← tagName inner
      match rest with
      | '>' :: rest => Except.ok (WrittenTag.full name, rest)
      | _ => .error .malformed
    | _ =>
      if atBlank cs then .ok (.full "!", cs)
      else if (cs.takeWhile fun c ↦ !(c == ' ' || isBreak c)).contains '!' then do
        let (handle, rest) ← tagHandle cs
        let (suffix, rest) ← tagName rest
        .ok (.short handle suffix, rest)
      else do
        let (suffix, rest) ← tagName cs
        .ok (.short "!" suffix, rest)
  if atSpace rest then .ok (tag, rest) else .error .malformed

/-! ### Directives -/

/-- The number at the start of a text, and what follows it. -/
def versionNumber (cs : List Char) : Except Refusal (Nat × List Char) :=
  let ds := cs.takeWhile Char.isDigit
  if ds.isEmpty then .error .malformed
  else if 4300 < ds.length then .error (.breakdown (.integerTooLong ds.length))
  else .ok (ds.foldl (fun n d ↦ 10 * n + (d.toNat - '0'.toNat)) 0, cs.dropWhile Char.isDigit)

/-- A directive after its per cent sign, and what follows its line. -/
def directive (cs : List Char) : Except Refusal (Directive × List Char) := do
  let name := cs.takeWhile isNameChar
  let rest := cs.dropWhile isNameChar
  if name.isEmpty || !atSpace rest then .error .malformed
  else
    let inner := rest.dropWhile (· == ' ')
    if name == "YAML".toList then
      let (major, rest) ← versionNumber inner
      match rest with
      | '.' :: rest =>
        let (_, rest) ← versionNumber rest
        if atSpace rest then return (.version major, ← endOfLine rest) else .error .malformed
      | _ => .error .malformed
    else if name == "TAG".toList then
      match inner with
      | '!' :: rest =>
        let (handle, rest) ← tagHandle rest
        if rest.head? != some ' ' then .error .malformed
        else
          let (start, rest) ← tagName (rest.dropWhile (· == ' '))
          if atSpace rest then return (.handle handle start, ← endOfLine rest)
          else .error .malformed
      | _ => .error .malformed
    else return (.other, ← endOfLine (rest.dropWhile fun c ↦ !isBreak c))

end ConceptAtlas.Yaml
