import ConceptAtlas.Json.Parser
import ConceptAtlas.Json.Printer

/-!
# Quoted texts

A text between quotes reads back as itself. Every character is written in one of three ways, as a
backslash with a letter, as the four digits of its unit, or as it is, and each of them reads as that
character (`stringBody_escapeChar`). None is a bare quote, so the first one ends the text.
-/

namespace ConceptAtlas.Json

/-- A backslash with a letter reads as what the letter stands for. -/
theorem stringBody_simpleEscape {e c : Char} (h : simpleEscape? e = some c) (rest : List Char) :
    stringBody ('\\' :: e :: rest) = (stringBody rest).map fun r ↦ (c :: r.1, r.2) := by
  rw [stringBody]
  · rw [h]
  · rintro a b x y cs ⟨rfl, -⟩
    cases h

/-- The four digits of a control character read as its code. -/
theorem hexUnit?_hexDigits {n : Nat} (h : n < 0x20) :
    ∃ a b c d, Text.hexDigits 4 n = [a, b, c, d] ∧ Text.hexUnit? a b c d = some n := by
  have hsmall : ∀ k < 0x20, Text.hexUnit? (Text.hexDigit (k / 16 / 16 / 16))
      (Text.hexDigit (k / 16 / 16)) (Text.hexDigit (k / 16)) (Text.hexDigit k) = some k := by
    decide
  exact ⟨_, _, _, _, rfl, hsmall n h⟩

/-- A control character reads as itself from its four digits. -/
theorem stringBody_unitEscape {c : Char} (h : c.toNat < 0x20) (rest : List Char) :
    stringBody (unitEscape c.toNat ++ rest) = (stringBody rest).map fun r ↦ (c :: r.1, r.2) := by
  obtain ⟨x, y, z, w, hdigits, hunit⟩ := hexUnit?_hexDigits h
  have hhigh : Text.isHighUnit c.toNat = false := by
    simp [Text.isHighUnit]
    omega
  have hchar : Text.unitChar c.toNat = c := by
    rw [Text.unitChar, if_neg (by omega), Char.ofNat_toNat]
  rw [unitEscape, hdigits]
  simp [stringBody, hunit, hhigh, hchar]

/-- A character that needs no escape reads as itself. -/
theorem stringBody_cons {c : Char} (hquote : c ≠ '"') (hslash : c ≠ '\\') (h : 0x20 ≤ c.toNat)
    (rest : List Char) :
    stringBody (c :: rest) = (stringBody rest).map fun r ↦ (c :: r.1, r.2) := by
  rw [stringBody]
  · simp [hslash, Nat.not_lt_of_le h]
  all_goals simp_all

/-- **A character reads as itself**, however it is escaped. -/
theorem stringBody_escapeChar (c : Char) (rest : List Char) :
    stringBody (escapeChar .unicode c ++ rest) =
      (stringBody rest).map fun r ↦ (c :: r.1, r.2) := by
  unfold escapeChar
  -- Seven characters have a letter of their own.
  split
  · rename_i h
    rw [eq_of_beq h]
    exact stringBody_simpleEscape rfl rest
  split
  · rename_i h
    rw [eq_of_beq h]
    exact stringBody_simpleEscape rfl rest
  split
  · rename_i h
    rw [eq_of_beq h]
    exact stringBody_simpleEscape rfl rest
  split
  · rename_i h
    rw [eq_of_beq h]
    exact stringBody_simpleEscape rfl rest
  split
  · rename_i h
    rw [eq_of_beq h]
    exact stringBody_simpleEscape rfl rest
  split
  · rename_i h
    rw [eq_of_beq h]
    exact stringBody_simpleEscape rfl rest
  split
  · rename_i h
    rw [eq_of_beq h]
    exact stringBody_simpleEscape rfl rest
  split
  · rename_i h
    exact stringBody_unitEscape h rest
  · -- What is left is no quote, no backslash and no control character, and needs no escape.
    rename_i hquote hslash _ _ _ _ _ h
    rw [if_neg (by simp)]
    exact stringBody_cons (by simpa using hquote) (by simpa using hslash) (Nat.le_of_not_lt h) rest

theorem stringBody_flatMap_escapeChar (cs rest : List Char) :
    stringBody (cs.flatMap (escapeChar .unicode) ++ '"' :: rest) = some (cs, rest) := by
  induction cs with
  | nil => simp [stringBody]
  | cons c cs ih =>
    rw [List.flatMap_cons, List.append_assoc, stringBody_escapeChar, ih]
    rfl

end ConceptAtlas.Json
