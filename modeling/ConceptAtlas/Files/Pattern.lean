/-!
# Wildcard patterns

Patterns over texts: `*` stands for any characters, `?` for one, and a bracket set for one of its
characters or, after `!`, for one that is not among them. A bracket that is never closed stands for
itself. `Pattern.fits` compares a whole text.

Inside a set a hyphen between two characters makes a range. A range that runs backwards is dropped
with its two ends; what is left of its neighbours grows together.
-/

namespace ConceptAtlas

/-- One piece of a pattern. -/
inductive Pattern.Piece
  | anything
  | oneOf (negated : Bool) (ranges : List (Char × Char))
  deriving DecidableEq, Repr

/-- A pattern: its pieces from left to right. -/
abbrev Pattern := List Pattern.Piece

namespace Pattern

/-- The piece for exactly one character. -/
def Piece.exactly (c : Char) : Piece := .oneOf false [(c, c)]

/-- The piece for any one character. -/
def Piece.one : Piece := .oneOf true []

/-- Whether a piece for one character accepts it. -/
def Piece.accepts (c : Char) : Piece → Bool
  | .anything => true
  | .oneOf negated ranges => (ranges.any fun r ↦ r.1 ≤ c && c ≤ r.2) != negated

/-! ### Bracket sets -/

/-- Where the text of a bracket set is cut into chunks: at a hyphen, which then makes a range of the
characters around it. `skip` more characters are taken before a hyphen counts. -/
def chunks : (skip : Nat) → List Char → List (List Char)
  | _, [] => [[]]
  | 0, '-' :: cs => [] :: chunks 2 cs
  | skip, c :: cs =>
    match chunks (skip - 1) cs with
    | [] => [[c]]
    | k :: ks => (c :: k) :: ks

/-- A hyphen at the very end belongs to the last chunk. -/
def closeChunks : List (List Char) → List (List Char)
  | [k, []] => [k ++ ['-']]
  | k :: ks => k :: closeChunks ks
  | [] => []

/-- Chunks without the ranges that run backwards, from the right to the left. -/
def dropBackwardRanges : List (List Char) → List (List Char)
  | [] => []
  | k :: ks =>
    match dropBackwardRanges ks with
    | [] => [k]
    | next :: rest =>
      match k.getLast?, next.head? with
      | some a, some b =>
        if b < a then (k.dropLast ++ next.drop 1) :: rest else k :: next :: rest
      | _, _ => k :: next :: rest

/-- The ranges of a chunk and the chunks after it: one between every two neighbours, and each other
character by itself. -/
def rangesFrom (k : List Char) : List (List Char) → List (Char × Char)
  | [] => k.map fun c ↦ (c, c)
  | next :: rest =>
    match k.getLast?, next with
    | some a, b :: others => (k.dropLast.map fun c ↦ (c, c)) ++ (a, b) :: rangesFrom others rest
    | _, _ => rangesFrom next rest

/-- The ranges of a list of chunks. -/
def rangesOf : List (List Char) → List (Char × Char)
  | [] => []
  | k :: ks => rangesFrom k ks

/-- Marks a set as negated by a leading `!`. -/
def splitNegation : List (List Char) → Bool × List (List Char)
  | ('!' :: k) :: ks => (true, k :: ks)
  | ks => (false, ks)

/-- The piece for the text between the brackets of a set. -/
def setPiece (cs : List Char) : Piece :=
  let skip := if cs.head? = some '!' then 2 else 1
  let (negated, ks) := splitNegation (dropBackwardRanges (closeChunks (chunks skip cs)))
  .oneOf negated (rangesOf ks)

/-- The text of a set and what follows its closing bracket; a closing bracket that comes first, or
first after `!`, belongs to the set. -/
def bracketed? (cs : List Char) : Option (List Char × List Char) :=
  let bang := if cs.head? = some '!' then 1 else 0
  let start := if (cs.drop bang).head? = some ']' then bang + 1 else bang
  let inner := (cs.drop start).takeWhile (· != ']')
  match cs.drop (start + inner.length) with
  | _ :: rest => some (cs.take (start + inner.length), rest)
  | [] => none

theorem bracketed?_length {cs inner rest : List Char} (h : bracketed? cs = some (inner, rest)) :
    rest.length < cs.length := by
  simp only [bracketed?] at h
  split at h
  · rename_i c r hr
    simp only [Option.some.injEq, Prod.mk.injEq] at h
    obtain ⟨-, rfl⟩ := h
    have := congrArg List.length hr
    simp only [List.length_drop, List.length_cons] at this
    omega
  · simp at h

/-- The pieces of a pattern. -/
def pieces : List Char → Pattern
  | [] => []
  | '*' :: cs => .anything :: pieces cs
  | '?' :: cs => .one :: pieces cs
  | '[' :: cs =>
    match _h : bracketed? cs with
    | some (inner, rest) => setPiece inner :: pieces rest
    -- A bracket that is never closed stands for itself.
    | none => .exactly '[' :: pieces cs
  | c :: cs => .exactly c :: pieces cs
termination_by cs => cs.length
decreasing_by
  all_goals simp only [List.length_cons]
  · omega
  · omega
  · have := bracketed?_length _h
    omega
  · omega
  · omega

/-- The pattern that a text spells. -/
def ofString (s : String) : Pattern := pieces s.toList

/-! ### Matching -/

/-- Whether a pattern matches the whole of a text. -/
def accepts : Pattern → List Char → Bool
  | [], cs => cs.isEmpty
  | .anything :: ps, [] => accepts ps []
  | .anything :: ps, c :: cs => accepts ps (c :: cs) || accepts (.anything :: ps) cs
  | .oneOf _ _ :: _, [] => false
  | .oneOf negated ranges :: ps, c :: cs => (Piece.oneOf negated ranges).accepts c && accepts ps cs
termination_by ps cs => (ps.length, cs.length)

/-- Whether a pattern fits a whole text. -/
def fits (p : Pattern) (s : String) : Bool := accepts p s.toList

/-- Whether a text holds a character with a meaning of its own in patterns. -/
def isWild (s : String) : Bool := s.toList.any fun c ↦ c == '*' || c == '?' || c == '['

end Pattern

end ConceptAtlas
