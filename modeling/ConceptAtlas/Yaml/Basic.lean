import ConceptAtlas.Fault

/-!
# The text of YAML

The characters that a YAML text may have and the classes that its grammar speaks of: line breaks,
blanks, and the characters of a name. A text that cannot be read is refused: because it is
malformed, or because one of its scalars, although well formed, stands for nothing, such as a 13th
month.
-/

namespace ConceptAtlas.Yaml

/-- Why a text is refused. -/
inductive Refusal
  | malformed
  | breakdown (b : Breakdown)
  deriving DecidableEq, Repr

/-- A way to read YAML texts. What is made of cards and of configuration files takes it as given. -/
abbrev Parser := List Char → Except Refusal Value

/-! ### Characters -/

/-- Whether a text may have the character. -/
def isAllowed (c : Char) : Bool :=
  let n := c.toNat
  n == 0x09 || n == 0x0A || n == 0x0D || (0x20 ≤ n && n ≤ 0x7E) || n == 0x85 ||
    (0xA0 ≤ n && n ≤ 0xFFFD) || 0x10000 ≤ n

/-- The byte order mark. -/
def byteOrderMark : Char := '\uFEFF'

/-- Whether a character ends a line. -/
def isBreak (c : Char) : Bool :=
  c == '\n' || c == '\r' || c == '\u0085' || c == '\u2028' || c == '\u2029'

/-- Whether a character is a space, a tab, or ends a line. -/
def isBlank (c : Char) : Bool := c == ' ' || c == '\t' || isBreak c

/-- Whether a character may stand in the name of an anchor, a directive or a tag's handle. -/
def isNameChar (c : Char) : Bool := c.isAlphanum || c == '-' || c == '_'

/-- Whether a character delimits collections in brackets. -/
def isFlowIndicator (c : Char) : Bool :=
  c == ',' || c == '[' || c == ']' || c == '\x7b' || c == '\x7d'

/-- The characters that a plain scalar cannot start with, unless what follows shows that it does. -/
def indicators : List Char :=
  ['-', '?', ':', ',', '[', ']', '\x7b', '\x7d', '#', '&', '*', '!', '|', '>', '\'', '"', '%', '@',
    '\x60']

/-! ### What a text starts with -/

/-- Whether a text has ended or goes on with a blank. -/
def atBlank : List Char → Bool
  | [] => true
  | c :: _ => isBlank c

/-- Whether a text has ended or goes on with the end of a line. -/
def atBreak : List Char → Bool
  | [] => true
  | c :: _ => isBreak c

/-- Whether a text has ended or goes on with a space or the end of a line. -/
def atSpace : List Char → Bool
  | [] => true
  | c :: _ => c == ' ' || isBreak c

/-- Whether a text goes on with `---` or `...` and a blank. -/
def atMarker : List Char → Bool
  | a :: b :: c :: cs => a == b && b == c && (a == '-' || a == '.') && atBlank cs
  | _ => false

/-- What a line break reads as: only the two separators of Unicode stay what they are. -/
def breakChar (c : Char) : Char := if c == '\u2028' || c == '\u2029' then c else '\n'

/-- The line break that a text starts with, and what follows it. -/
def lineBreak? : List Char → Option (Char × List Char)
  | '\r' :: '\n' :: cs => some ('\n', cs)
  | c :: cs => if isBreak c then some (breakChar c, cs) else none
  | [] => none

theorem lineBreak?_length {cs rest : List Char} {b : Char} (h : lineBreak? cs = some (b, rest)) :
    rest.length < cs.length := by
  unfold lineBreak? at h
  split at h
  · simp only [Option.some.injEq, Prod.mk.injEq] at h
    obtain ⟨-, rfl⟩ := h
    simp only [List.length_cons]
    omega
  · split at h
    · simp only [Option.some.injEq, Prod.mk.injEq] at h
      obtain ⟨-, rfl⟩ := h
      simp
    · simp at h
  · simp at h

/-- The rest of a line that may hold nothing more but a comment, and the break that ends it. -/
def endOfLine (cs : List Char) : Except Refusal (List Char) :=
  let rest := cs.dropWhile (· == ' ')
  let rest := if rest.head? == some '#' then rest.dropWhile fun c ↦ !isBreak c else rest
  if atBreak rest then .ok (((lineBreak? rest).map Prod.snd).getD rest) else .error .malformed

end ConceptAtlas.Yaml
