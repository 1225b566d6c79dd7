import ConceptAtlas.Text.Hex
import ConceptAtlas.Yaml.Gap

/-!
# Quoted scalars

The text of a scalar between single or double quotes. Between single quotes only the quote itself is
special: it is written twice. Between double quotes a backslash starts an escape. Line breaks are
folded in both.
-/

namespace ConceptAtlas.Yaml

/-- What a character after a backslash stands for. -/
def escapes : List (Char × Char) :=
  [('0', '\x00'), ('a', '\x07'), ('b', '\x08'), ('t', '\t'), ('\t', '\t'), ('n', '\n'),
    ('v', '\x0B'), ('f', '\x0C'), ('r', '\r'), ('e', '\x1B'), (' ', ' '), ('"', '"'),
    ('\\', '\\'), ('/', '/'), ('N', '\u0085'), ('_', '\u00A0'), ('L', '\u2028'), ('P', '\u2029')]

/-- How many hexadecimal digits follow a letter after a backslash. -/
def escapeWidth? (c : Char) : Option Nat :=
  if c == 'x' then some 2 else if c == 'u' then some 4 else if c == 'U' then some 8 else none

/-- The number of an escape with `width` digits, and what follows it. -/
def escapeNumber (width : Nat) (cs : List Char) : Except Refusal Nat :=
  if cs.length < width then .error .malformed
  else
    match Text.hexNumber? (cs.take width) with
    | none => .error .malformed
    | some n =>
      if n ≤ 0x10FFFF then .ok n else .error (.breakdown (.codePoint (decide (n < 0x80000000))))

/-- Puts characters before the text that a scan has read. -/
def before (cs : List Char) (r : Except Refusal (List Char × List Char)) :
    Except Refusal (List Char × List Char) :=
  r.map fun p ↦ (cs ++ p.1, p.2)

/-- The text up to a closing single quote, and what follows it; `gap` is the white space that comes
before. -/
def singleQuoted (gap : Gap) : List Char → Except Refusal (List Char × List Char)
  | [] => .error .malformed
  | '\'' :: '\'' :: cs => before (gap.text ++ ['\'']) (singleQuoted .none cs)
  | '\'' :: cs => .ok (gap.text, cs)
  | '\r' :: '\n' :: cs =>
    if atMarker cs then .error .malformed else singleQuoted (gap.lineBreak '\n') cs
  | c :: cs =>
    if c == ' ' || c == '\t' then singleQuoted (gap.space c) cs
    else if isBreak c then
      if atMarker cs then .error .malformed else singleQuoted (gap.lineBreak (breakChar c)) cs
    else before (gap.text ++ [c]) (singleQuoted .none cs)

/-- The text up to a closing double quote, and what follows it; `gap` is the white space that comes
before. -/
def doubleQuoted (gap : Gap) (cs : List Char) : Except Refusal (List Char × List Char) :=
  match cs with
  | [] => .error .malformed
  | '"' :: cs => .ok (gap.text, cs)
  | '\\' :: '\r' :: '\n' :: cs =>
    if atMarker cs then .error .malformed else before gap.text (doubleQuoted .joined cs)
  | '\\' :: e :: cs =>
    match Assoc.find? e escapes with
    | some c => before (gap.text ++ [c]) (doubleQuoted .none cs)
    | none =>
      match escapeWidth? e with
      | some width =>
        match escapeNumber width cs with
        | .error r => .error r
        | .ok n =>
          let rest := cs.drop width
          match _h : Text.lowUnit? rest with
          | some (m, after) =>
            if Text.isHighUnit n then
              before (gap.text ++ [Text.pairChar n m]) (doubleQuoted .none after)
            else before (gap.text ++ [Text.unitChar n]) (doubleQuoted .none rest)
          | none => before (gap.text ++ [Text.unitChar n]) (doubleQuoted .none rest)
      | none =>
        if isBreak e && !atMarker cs then before gap.text (doubleQuoted .joined cs)
        else .error .malformed
  | '\r' :: '\n' :: cs =>
    if atMarker cs then .error .malformed else doubleQuoted (gap.lineBreak '\n') cs
  | c :: cs =>
    if c == ' ' || c == '\t' then doubleQuoted (gap.space c) cs
    else if isBreak c then
      if atMarker cs then .error .malformed else doubleQuoted (gap.lineBreak (breakChar c)) cs
    else if c == '\\' then .error .malformed
    else before (gap.text ++ [c]) (doubleQuoted .none cs)
termination_by cs.length
decreasing_by
  all_goals simp only [List.length_cons, List.length_drop]
  · omega
  · omega
  · have := Text.lowUnit?_length _h
    simp only [rest, List.length_drop] at this
    omega
  all_goals omega

end ConceptAtlas.Yaml
