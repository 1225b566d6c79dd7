import Mathlib.Data.List.Basic
import ConceptAtlas.Files.Pattern

/-!
# What patterns accept

A star stands for any text and every other piece for one character (`accepts_anything_cons_iff`,
`accepts_oneOf_cons_iff`), so a pattern made of two patterns accepts what is made of two texts that
they accept (`accepts_append_iff`).

That is a fact about pieces. Texts of patterns cannot be put together in the same way: a bracket
that is open at the end of one text may be closed in the next one. But if the next one has no
closing bracket, the pieces are those of both texts (`pieces_append`), because a bracket set ends at
the first closing bracket that does not belong to it, whatever stands behind that
(`bracketed?_cons`, `bracketed?_mark_cons`).
-/

namespace ConceptAtlas.Pattern

variable {p q : Pattern} {cs tail inner rest : List Char}

/-! ### What is accepted -/

theorem accepts_nil_iff : accepts [] cs = true ↔ cs = [] := by
  rw [accepts, List.isEmpty_iff]

theorem accepts_oneOf_cons_iff {negated : Bool} {ranges : List (Char × Char)} :
    accepts (.oneOf negated ranges :: p) cs = true ↔ ∃ c rest, cs = c :: rest ∧
      (Piece.oneOf negated ranges).accepts c = true ∧ accepts p rest = true := by
  cases cs with
  | nil => simp [accepts]
  | cons c cs => simp [accepts]

/-- A star takes any text, and the pattern behind it what is left. -/
theorem accepts_anything_cons_iff :
    accepts (.anything :: p) cs = true ↔ ∃ taken rest, cs = taken ++ rest ∧
      accepts p rest = true := by
  induction cs with
  | nil => simp [accepts]
  | cons c cs ih =>
    rw [accepts, Bool.or_eq_true, ih]
    constructor
    · rintro (h | ⟨taken, rest, rfl, h⟩)
      · exact ⟨[], c :: cs, rfl, h⟩
      · exact ⟨c :: taken, rest, rfl, h⟩
    · rintro ⟨taken, rest, hcs, h⟩
      rcases List.cons_eq_append_iff.1 hcs with ⟨rfl, rfl⟩ | ⟨taken', rfl, rfl⟩
      · exact .inl h
      · exact .inr ⟨taken', rest, rfl, h⟩

/-- **A pattern made of two patterns accepts what is made of two texts that they accept.** -/
theorem accepts_append_iff : accepts (p ++ q) cs = true ↔
    ∃ front back, cs = front ++ back ∧ accepts p front = true ∧ accepts q back = true := by
  induction p generalizing cs with
  | nil => simp [accepts_nil_iff]
  | cons piece p ih =>
    rw [List.cons_append]
    cases piece with
    | anything =>
      simp only [accepts_anything_cons_iff, ih]
      constructor
      · rintro ⟨taken, _, rfl, front, back, rfl, hfront, hback⟩
        exact ⟨taken ++ front, back, (List.append_assoc ..).symm,
          ⟨taken, front, rfl, hfront⟩, hback⟩
      · rintro ⟨_, back, rfl, ⟨taken, front, rfl, hfront⟩, hback⟩
        exact ⟨taken, front ++ back, List.append_assoc .., front, back, rfl, hfront, hback⟩
    | oneOf negated ranges =>
      simp only [accepts_oneOf_cons_iff, ih]
      constructor
      · rintro ⟨c, _, rfl, hc, front, back, rfl, hfront, hback⟩
        exact ⟨c :: front, back, rfl, ⟨c, front, rfl, hc, hfront⟩, hback⟩
      · rintro ⟨_, back, rfl, ⟨c, front, rfl, hc, hfront⟩, hback⟩
        exact ⟨c, front ++ back, rfl, hc, front, back, rfl, hfront, hback⟩

theorem accepts_exactly_iff {c x : Char} : (Piece.exactly c).accepts x = true ↔ x = c := by
  have hrange : (Piece.exactly c).accepts x = (decide (c ≤ x) && decide (x ≤ c)) := by
    simp [Piece.exactly, Piece.accepts]
  rw [hrange, Bool.and_eq_true, decide_eq_true_eq, decide_eq_true_eq]
  exact ⟨fun h ↦ Char.le_antisymm h.2 h.1, fun h ↦ h ▸ ⟨Char.le_refl x, Char.le_refl x⟩⟩

theorem accepts_exactly_cons_iff {c : Char} :
    accepts (.exactly c :: p) cs = true ↔ ∃ rest, cs = c :: rest ∧ accepts p rest = true := by
  rw [Piece.exactly, accepts_oneOf_cons_iff, ← Piece.exactly]
  simp only [accepts_exactly_iff]
  constructor
  · rintro ⟨_, rest, rfl, rfl, hrest⟩
    exact ⟨rest, rfl, hrest⟩
  · rintro ⟨rest, rfl, hrest⟩
    exact ⟨c, rest, rfl, rfl, hrest⟩

/-- A pattern of characters accepts their text alone. -/
theorem accepts_map_exactly_iff {w : List Char} :
    accepts (w.map .exactly) cs = true ↔ cs = w := by
  induction w generalizing cs with
  | nil => exact accepts_nil_iff
  | cons c w ih =>
    rw [List.map_cons, accepts_exactly_cons_iff]
    simp only [ih, exists_eq_right]

/-! ### Bracket sets -/

/-- The characters in front of the first closing bracket and those behind it. -/
def upToBracket : List Char → Option (List Char × List Char)
  | [] => none
  | c :: cs => if c = ']' then some ([], cs) else (upToBracket cs).map fun s ↦ (c :: s.1, s.2)

theorem upToBracket_eq (cs : List Char) :
    upToBracket cs = match cs.drop (cs.takeWhile (· != ']')).length with
      | _ :: rest => some (cs.take (cs.takeWhile (· != ']')).length, rest)
      | [] => none := by
  induction cs with
  | nil => rfl
  | cons c cs ih =>
    by_cases hc : c = ']'
    · subst hc
      rfl
    · have hkept : (c != ']') = true := bne_iff_ne.2 hc
      rw [upToBracket, if_neg hc, ih]
      simp only [List.takeWhile_cons, hkept, if_true, List.length_cons, List.drop_succ_cons,
        List.take_succ_cons]
      split <;> rfl

theorem upToBracket_of_not_mem (h : ']' ∉ cs) : upToBracket cs = none := by
  induction cs with
  | nil => rfl
  | cons c cs ih =>
    rw [List.mem_cons, not_or] at h
    rw [upToBracket, if_neg fun hc ↦ h.1 hc.symm, ih h.2]
    rfl

theorem upToBracket_append (h : ']' ∉ tail) :
    upToBracket (cs ++ tail) = (upToBracket cs).map fun s ↦ (s.1, s.2 ++ tail) := by
  induction cs with
  | nil => exact upToBracket_of_not_mem h
  | cons c cs ih =>
    rw [List.cons_append, upToBracket, upToBracket, ih]
    split
    · rfl
    · rw [Option.map_map, Option.map_map]
      rfl

/-- The first character of a set belongs to it, whatever it is. -/
theorem bracketed?_cons {c : Char} (hc : c ≠ '!') :
    bracketed? (c :: cs) = (upToBracket cs).map fun s ↦ (c :: s.1, s.2) := by
  rw [upToBracket_eq]
  by_cases hclosing : c = ']'
  · simp only [bracketed?, hclosing, List.head?_cons, Nat.add_comm 1, Option.some.injEq,
      Char.reduceEq, if_false, if_true, List.drop_zero, Nat.zero_add, List.drop_succ_cons,
      List.take_succ_cons]
    generalize cs.drop _ = after
    cases after <;> rfl
  · have hkept : (c != ']') = true := bne_iff_ne.2 hclosing
    simp only [bracketed?, hclosing, hc, hkept, List.head?_cons, Option.some.injEq, if_false,
      if_true, List.drop_zero, Nat.zero_add, List.takeWhile_cons, List.length_cons,
      List.drop_succ_cons, List.take_succ_cons]
    generalize cs.drop _ = after
    cases after <;> rfl

/-- So does the first character behind a `!`. -/
theorem bracketed?_mark_cons {c : Char} :
    bracketed? ('!' :: c :: cs) = (upToBracket cs).map fun s ↦ ('!' :: c :: s.1, s.2) := by
  rw [upToBracket_eq]
  by_cases hclosing : c = ']'
  · simp only [bracketed?, hclosing, List.head?_cons, Nat.add_comm 2, if_true, List.drop_succ_cons,
      List.drop_zero, List.take_succ_cons, Nat.reduceAdd]
    generalize cs.drop _ = after
    cases after <;> rfl
  · have hkept : (c != ']') = true := bne_iff_ne.2 hclosing
    simp only [bracketed?, hclosing, hkept, List.head?_cons, Nat.add_comm 1, Option.some.injEq,
      if_false, if_true, List.drop_succ_cons, List.drop_zero, List.takeWhile_cons,
      List.length_cons, List.take_succ_cons]
    generalize cs.drop _ = after
    cases after <;> rfl

theorem bracketed?_of_not_mem (h : ']' ∉ cs) : bracketed? cs = none := by
  cases cs with
  | nil => rfl
  | cons c cs =>
    have hcs : ']' ∉ cs := fun hmem ↦ h (List.mem_cons_of_mem c hmem)
    by_cases hc : c = '!'
    · subst hc
      cases cs with
      | nil => rfl
      | cons c cs =>
        rw [bracketed?_mark_cons,
          upToBracket_of_not_mem fun hmem ↦ hcs (List.mem_cons_of_mem c hmem)]
        rfl
    · rw [bracketed?_cons hc, upToBracket_of_not_mem hcs]
      rfl

/-- A text without a closing bracket, put behind a set, changes nothing about where it ends. -/
theorem bracketed?_append (h : ']' ∉ tail) :
    bracketed? (cs ++ tail) = (bracketed? cs).map fun s ↦ (s.1, s.2 ++ tail) := by
  cases cs with
  | nil => exact bracketed?_of_not_mem h
  | cons c cs =>
    by_cases hc : c = '!'
    · subst hc
      cases cs with
      | nil => exact bracketed?_of_not_mem (by simpa using h)
      | cons c cs =>
        rw [List.cons_append, List.cons_append, bracketed?_mark_cons, bracketed?_mark_cons,
          upToBracket_append h, Option.map_map, Option.map_map]
        rfl
    · rw [List.cons_append, bracketed?_cons hc, bracketed?_cons hc, upToBracket_append h,
        Option.map_map, Option.map_map]
      rfl

/-! ### Pieces of a text -/

theorem pieces_of_bracketed (h : bracketed? cs = some (inner, rest)) :
    pieces ('[' :: cs) = setPiece inner :: pieces rest := by
  rw [pieces]
  split
  · rename_i inner' rest' h'
    cases h.symm.trans h'
    rfl
  · rename_i h'
    cases h.symm.trans h'

theorem pieces_of_not_bracketed (h : bracketed? cs = none) :
    pieces ('[' :: cs) = .exactly '[' :: pieces cs := by
  rw [pieces]
  split
  · rename_i h'
    cases h.symm.trans h'
  · rfl

theorem pieces_of_plain {c : Char} (hstar : c ≠ '*') (hone : c ≠ '?') (hset : c ≠ '[') :
    pieces (c :: cs) = .exactly c :: pieces cs := by
  rw [pieces]
  · exact hstar
  · exact hone
  · exact hset

/-- **A text without a closing bracket adds its own pieces to those of the text in front of it.** -/
theorem pieces_append (h : ']' ∉ tail) : pieces (cs ++ tail) = pieces cs ++ pieces tail := by
  fun_induction pieces cs with
  | case1 => rfl
  | case2 cs ih =>
    rw [List.cons_append, pieces, ih]
    rfl
  | case3 cs ih =>
    rw [List.cons_append, pieces, ih]
    rfl
  | case4 cs inner rest hset ih =>
    rw [List.cons_append, pieces_of_bracketed (by rw [bracketed?_append h, hset]; rfl), ih]
    rfl
  | case5 cs hset ih =>
    rw [List.cons_append, pieces_of_not_bracketed (by rw [bracketed?_append h, hset]; rfl), ih]
    rfl
  | case6 c cs hstar hone hset ih =>
    rw [List.cons_append, pieces_of_plain hstar hone hset, ih]
    rfl

/-- Without wildcards every character stands for itself. -/
theorem pieces_of_not_isWild {s : String} (h : isWild s = false) :
    pieces s.toList = s.toList.map .exactly := by
  rw [isWild, List.any_eq_false] at h
  generalize s.toList = cs at h ⊢
  induction cs with
  | nil => rw [pieces, List.map_nil]
  | cons c cs ih =>
    obtain ⟨hc, hcs⟩ := List.forall_mem_cons.1 h
    simp only [Bool.or_eq_true, beq_iff_eq, not_or] at hc
    rw [pieces_of_plain hc.1.1 hc.1.2 hc.2, ih hcs]
    rfl

end ConceptAtlas.Pattern
