import ConceptAtlas.Text.Lines
import ConceptAtlas.Yaml.Basic

/-!
# Cards

A card is a text that may start with front matter: YAML between two lines of three dashes.
`Layout.ofText` cuts the text, `flatten_ofText` says that the cut loses nothing but the two
delimiters, and `Card.ofText` reads the front matter, which has to be a mapping or empty. The parser
of the front matter is given.
-/

namespace ConceptAtlas

/-! ### Layout -/

/-- How a card is laid out: without front matter, with front matter that nothing ends, or with the
lines of its front matter and of its body. -/
inductive Card.Layout
  | bare (body : List Char)
  | unended
  | framed (first : List Char) (front : List (List Char)) (last : List Char)
      (body : List (List Char))
  deriving DecidableEq, Repr

/-- Whether a line delimits front matter: three dashes, and blanks around them. -/
def Card.isDelimiter (line : List Char) : Bool := Text.trim line == ['-', '-', '-']

/-- A text without the byte order mark that it may start with. -/
def Card.dropMark (cs : List Char) : List Char :=
  if cs.head? == some '\uFEFF' then cs.drop 1 else cs

/-- How lines are laid out as a card. -/
def Card.Layout.ofLines : List (List Char) → Card.Layout
  | [] => .bare []
  | first :: rest =>
    if isDelimiter first then
      match rest.dropWhile fun l ↦ !isDelimiter l with
      | [] => .unended
      | last :: body => .framed first (rest.takeWhile fun l ↦ !isDelimiter l) last body
    else .bare (first :: rest).flatten

/-- How a text is laid out as a card. -/
def Card.Layout.ofText (cs : List Char) : Card.Layout := .ofLines (Text.lines (dropMark cs))

/-- A text without front matter is its own body, and one with it consists of its four parts. -/
theorem Card.Layout.flatten_ofText (cs : List Char) :
    match ofText cs with
    | .bare body => body = dropMark cs
    | .unended => True
    | .framed first front last body =>
      first ++ front.flatten ++ last ++ body.flatten = dropMark cs := by
  have h := Text.flatten_lines (dropMark cs)
  rw [ofText]
  rcases hl : Text.lines (dropMark cs) with - | ⟨first, rest⟩
  · simpa [ofLines, hl] using h
  · rw [hl] at h
    rw [ofLines]
    split
    · rename_i hr
      split at hr
      · split at hr
        · simp at hr
        · simp at hr
      · cases hr
        exact h
    · trivial
    · rename_i hr
      split at hr
      · split at hr
        · simp at hr
        · rename_i last body hd
          cases hr
          rw [← h, List.flatten_cons]
          conv =>
            rhs
            rw [← List.takeWhile_append_dropWhile (p := fun l ↦ !isDelimiter l) (l := rest), hd]
          simp
      · simp at hr

/-! ### Cards -/

/-- A card: the entries of its front matter and its body. -/
structure Card where
  front : List (Value × Value)
  body : String

/-- The entries of front matter; nothing and null stand for none. -/
def Card.frontOf (parse : Yaml.Parser) (cs : List Char) : Outcome (List (Value × Value)) :=
  match parse cs with
  | .error .malformed => refuse (.parse .frontMatterText)
  | .error (.breakdown b) => breakDown b
  | .ok .null => .ok []
  | .ok (.map entries) => .ok entries
  | .ok v => refuse (.parse (.frontMatterKind v.kindName))

/-- The card that a text is. -/
def Card.ofText (parse : Yaml.Parser) (text : String) : Outcome Card :=
  match Layout.ofText text.toList with
  | .bare body => .ok ⟨[], String.ofList body⟩
  | .unended => refuse (.parse .frontMatterOpen)
  | .framed _ front _ body =>
    (frontOf parse front.flatten).map fun entries ↦ ⟨entries, String.ofList body.flatten⟩

end ConceptAtlas
