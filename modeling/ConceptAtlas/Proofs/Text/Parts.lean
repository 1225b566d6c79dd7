import Mathlib.Data.List.Basic
import ConceptAtlas.Text.Parts

/-!
# Parts of joined texts

Cutting undoes joining: the parts of two texts with the separator between them are the parts of both
(`parts_append`), and where the parts fall into two groups, the text falls apart at a separator
(`exists_of_parts_eq_append`). That a text starts or ends with another one means that the rest can
be split off.
-/

namespace ConceptAtlas.Text

variable {sep : Char}

theorem startsWith_iff_exists {s start : String} :
    s.startsWith start = true ↔ ∃ rest, s = start ++ rest := by
  rw [String.startsWith_string_iff]
  constructor
  · rintro ⟨rest, hrest⟩
    exact ⟨String.ofList rest, String.toList_inj.1 (by rw [← hrest]; simp)⟩
  · rintro ⟨rest, rfl⟩
    exact ⟨rest.toList, by simp⟩

theorem endsWith_iff_exists {s ending : String} :
    s.endsWith ending = true ↔ ∃ front, s = front ++ ending := by
  rw [String.endsWith_eq_endsWith_toSlice, String.Slice.endsWith_string_iff, String.copy_toSlice]
  constructor
  · rintro ⟨front, hfront⟩
    exact ⟨String.ofList front, String.toList_inj.1 (by rw [← hfront]; simp)⟩
  · rintro ⟨front, rfl⟩
    exact ⟨front.toList, by simp⟩

theorem parts_of_not_mem {l : List Char} (h : sep ∉ l) : parts sep l = [l] := by
  induction l with
  | nil => rfl
  | cons c l ih =>
    rw [List.mem_cons, not_or] at h
    rw [parts, if_neg fun e ↦ h.1 e.symm, ih h.2]

/-- The parts of two texts with a separator between them. -/
theorem parts_append (sep : Char) (l rest : List Char) :
    parts sep (l ++ sep :: rest) = parts sep l ++ parts sep rest := by
  induction l with
  | nil => simp [parts]
  | cons c l ih =>
    rw [List.cons_append, parts, parts, ih]
    split
    · rfl
    · rcases hp : parts sep l with - | ⟨p, ps⟩
      · exact absurd hp (parts_ne_nil sep l)
      · rfl

/-- The parts of joined texts are these texts. -/
theorem parts_intercalate {ls : List (List Char)} (hne : ls ≠ []) (h : ∀ l ∈ ls, sep ∉ l) :
    parts sep ([sep].intercalate ls) = ls := by
  induction ls with
  | nil => exact absurd rfl hne
  | cons l ls ih =>
    have hl := h l List.mem_cons_self
    cases ls with
    | nil => rw [List.intercalate_singleton, parts_of_not_mem hl]
    | cons m ms =>
      rw [List.intercalate_cons_cons, List.append_assoc, List.singleton_append, parts_append,
        parts_of_not_mem hl, ih nofun fun l hl ↦ h l (List.mem_cons_of_mem _ hl),
        List.singleton_append]

/-- Joined texts in two groups are both joined texts with a separator between them. -/
theorem intercalate_append {ls ms : List (List Char)} (hls : ls ≠ []) (hms : ms ≠ []) :
    [sep].intercalate (ls ++ ms) = [sep].intercalate ls ++ sep :: [sep].intercalate ms := by
  induction ls with
  | nil => exact absurd rfl hls
  | cons l ls ih =>
    by_cases hrest : ls = []
    · subst hrest
      rw [List.singleton_append, List.intercalate_cons_of_ne_nil hms, List.intercalate_singleton,
        List.append_assoc, List.singleton_append]
    · have hboth : ls ++ ms ≠ [] := fun h ↦ hrest (List.append_eq_nil_iff.1 h).1
      rw [List.cons_append, List.intercalate_cons_of_ne_nil hboth, ih hrest,
        List.intercalate_cons_of_ne_nil hrest]
      simp only [List.append_assoc]

/-- A text whose parts fall into two groups is two texts with a separator between them. -/
theorem exists_of_parts_eq_append {cs : List Char} {front back : List (List Char)}
    (hfront : front ≠ []) (hback : back ≠ []) (h : parts sep cs = front ++ back) :
    ∃ head tail, cs = head ++ sep :: tail ∧ parts sep head = front ∧ parts sep tail = back := by
  induction cs generalizing front with
  | nil =>
    obtain ⟨p, front, rfl⟩ := List.exists_cons_of_ne_nil hfront
    rw [parts, List.cons_append, List.cons.injEq] at h
    exact absurd (List.append_eq_nil_iff.1 h.2.symm).2 hback
  | cons c cs ih =>
    obtain ⟨p, front, rfl⟩ := List.exists_cons_of_ne_nil hfront
    rw [parts] at h
    split at h
    · rename_i hc
      subst hc
      rw [List.cons_append, List.cons.injEq] at h
      obtain ⟨rfl, h⟩ := h
      by_cases hlast : front = []
      · subst hlast
        exact ⟨[], cs, rfl, rfl, h⟩
      · obtain ⟨head, tail, rfl, hhead, htail⟩ := ih hlast h
        exact ⟨c :: head, tail, rfl, by rw [parts, if_pos rfl, hhead], htail⟩
    · rename_i hc
      rcases hq : parts sep cs with - | ⟨q, qs⟩
      · exact absurd hq (parts_ne_nil sep cs)
      · rw [hq] at h
        rw [List.cons_append, List.cons.injEq] at h
        obtain ⟨rfl, rfl⟩ := h
        obtain ⟨head, tail, rfl, hhead, htail⟩ := ih (List.cons_ne_nil q front) hq
        exact ⟨c :: head, tail, rfl, by rw [parts, if_neg hc, hhead], htail⟩

end ConceptAtlas.Text
