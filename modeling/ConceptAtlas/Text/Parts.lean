/-!
# Parts of a text

Cutting a text at every occurrence of a character, and replacing one text in another. The parts
joined by the separator are the text again (`intercalate_parts`), and no part holds the separator
(`not_mem_of_mem_parts`).
-/

namespace ConceptAtlas.Text

/-- The parts between the occurrences of a character; there is always at least one. -/
def parts (sep : Char) : List Char → List (List Char)
  | [] => [[]]
  | c :: cs =>
    if c = sep then [] :: parts sep cs
    else
      match parts sep cs with
      | [] => [[c]]
      | p :: ps => (c :: p) :: ps

theorem parts_ne_nil (sep : Char) (cs : List Char) : parts sep cs ≠ [] := by
  cases cs with
  | nil => simp [parts]
  | cons c cs =>
    rw [parts]
    split
    · simp
    · split <;> simp

/-- No part holds the separator. -/
theorem not_mem_of_mem_parts {sep : Char} {cs p : List Char} (h : p ∈ parts sep cs) : sep ∉ p := by
  induction cs generalizing p with
  | nil =>
    obtain rfl : p = [] := by simpa [parts] using h
    simp
  | cons c cs ih =>
    rw [parts] at h
    split at h
    · rcases List.mem_cons.1 h with rfl | h
      · simp
      · exact ih h
    · rename_i hc
      split at h
      · rename_i h₀
        exact absurd h₀ (parts_ne_nil sep cs)
      · rename_i q qs hq
        rcases List.mem_cons.1 h with rfl | h
        · have := ih (p := q) (by rw [hq]; exact List.mem_cons_self)
          simp only [List.mem_cons, not_or]
          exact ⟨fun e ↦ hc e.symm, this⟩
        · exact ih (by rw [hq]; exact List.mem_cons_of_mem q h)

/-- The parts joined by the separator are the text. -/
theorem intercalate_parts (sep : Char) (cs : List Char) :
    [sep].intercalate (parts sep cs) = cs := by
  induction cs with
  | nil => simp [parts, List.intercalate]
  | cons c cs ih =>
    rw [parts]
    split
    · rename_i hc
      subst hc
      rcases hq : parts c cs with - | ⟨q, qs⟩
      · exact absurd hq (parts_ne_nil c cs)
      · rw [hq] at ih
        simpa [List.intercalate] using ih
    · split
      · rename_i h₀
        exact absurd h₀ (parts_ne_nil sep cs)
      · rename_i q qs hq
        rw [hq] at ih
        cases qs <;> simpa [List.intercalate] using ih

/-- The parts of a text. -/
def splitOn (sep : Char) (s : String) : List String := (parts sep s.toList).map String.ofList

/-- Whether a text starts with another. -/
def startsWith (start cs : List Char) : Bool := start.isPrefixOf cs

/-- The text with every occurrence of `old`, found from left to right and without overlaps,
replaced. An empty `old` is found nowhere. -/
def replaceAll (old new : List Char) : List Char → List Char
  | [] => []
  | c :: cs =>
    if old ≠ [] ∧ startsWith old (c :: cs) then
      new ++ replaceAll old new (cs.drop (old.length - 1))
    else c :: replaceAll old new cs
termination_by cs => cs.length
decreasing_by
  · simp only [List.length_cons, List.length_drop]
    omega
  · simp

end ConceptAtlas.Text
