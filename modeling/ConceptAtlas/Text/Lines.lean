/-!
# Lines

Two ways of looking at line ends. `lines` cuts a text after every line boundary and loses nothing
(`flatten_lines`), where a carriage return and the line feed after it are one boundary.
`normalizeNewlines` writes each of the three common line ends as a line feed.
-/

namespace ConceptAtlas.Text

/-- The single characters that end a line. -/
def isLineBoundary (c : Char) : Bool :=
  let n := c.toNat
  (0x0A ≤ n && n ≤ 0x0D) || (0x1C ≤ n && n ≤ 0x1E) || n == 0x85 || n == 0x2028 || n == 0x2029

/-- Puts a character in front of the first line. -/
def consLine (c : Char) : List (List Char) → List (List Char)
  | [] => [[c]]
  | l :: ls => (c :: l) :: ls

@[simp]
theorem flatten_consLine (c : Char) (ls : List (List Char)) :
    (consLine c ls).flatten = c :: ls.flatten := by
  cases ls <;> simp [consLine]

/-- The lines of a text, each with the boundary that ends it; the last one may have none. -/
def lines : List Char → List (List Char)
  | [] => []
  | '\r' :: '\n' :: cs => ['\r', '\n'] :: lines cs
  | c :: cs => if isLineBoundary c then [c] :: lines cs else consLine c (lines cs)

/-- Cutting a text into lines loses no character. -/
theorem flatten_lines (cs : List Char) : (lines cs).flatten = cs := by
  fun_induction lines cs with
  | case1 => rfl
  | case2 cs ih => simp [ih]
  | case3 c cs _ _ ih => simp [ih]
  | case4 c cs _ _ ih => simp [ih]

/-- Every line end, `\r\n` or `\r`, written as `\n`. -/
def normalizeNewlines : List Char → List Char
  | [] => []
  | '\r' :: '\n' :: cs => '\n' :: normalizeNewlines cs
  | '\r' :: cs => '\n' :: normalizeNewlines cs
  | c :: cs => c :: normalizeNewlines cs

end ConceptAtlas.Text
