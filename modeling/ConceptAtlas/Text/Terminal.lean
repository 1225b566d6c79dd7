/-!
# Terminal sequences

The sequences by which a text would steer a terminal: an escape character and a bracket, parameters,
and a letter that ends them. What commands write leaves them out.
-/

namespace ConceptAtlas.Text

/-- A letter of the Latin alphabet. -/
def isLatinLetter (c : Char) : Bool := ('a' ≤ c && c ≤ 'z') || ('A' ≤ c && c ≤ 'Z')

/-- A character of the parameters of a sequence. -/
def isParameter (c : Char) : Bool := ('0' ≤ c && c ≤ '9') || c == ';' || c == '?'

/-- What follows the sequence that a text starts with. -/
def afterSequence? : List Char → Option (List Char)
  | '\x1b' :: '[' :: cs =>
    match cs.dropWhile isParameter with
    | c :: rest => if isLatinLetter c then some rest else none
    | [] => none
  | _ => none

theorem length_lt_of_afterSequence? {cs rest : List Char} (h : afterSequence? cs = some rest) :
    rest.length < cs.length := by
  unfold afterSequence? at h
  split at h
  · rename_i tail
    have hle := (List.dropWhile_sublist (p := isParameter) (l := tail)).length_le
    split at h
    · rename_i heq
      rw [heq] at hle
      split at h
      · obtain rfl := Option.some.inj h
        simp only [List.length_cons] at hle ⊢
        omega
      · simp at h
    · simp at h
  · simp at h

/-- A text without the sequences in it. -/
def withoutSequences (cs : List Char) : List Char :=
  match cs with
  | [] => []
  | c :: rest =>
    match _h : afterSequence? (c :: rest) with
    | some after => withoutSequences after
    | none => c :: withoutSequences rest
termination_by cs.length
decreasing_by
  · exact length_lt_of_afterSequence? ‹_›
  · simp

/-- Text without an escape character stays as it is. -/
theorem withoutSequences_of_not_mem {cs : List Char} (h : '\x1b' ∉ cs) :
    withoutSequences cs = cs := by
  induction cs with
  | nil => simp [withoutSequences]
  | cons c rest ih =>
    have hnone : afterSequence? (c :: rest) = none := by
      unfold afterSequence?
      split
      · rename_i heq
        obtain ⟨rfl, -⟩ := List.cons.inj heq
        simp at h
      · rfl
    rw [withoutSequences]
    split
    · rename_i heq
      rw [hnone] at heq
      exact absurd heq (by simp)
    · rw [ih (fun hm ↦ h (List.mem_cons_of_mem _ hm))]

end ConceptAtlas.Text
