import Mathlib.Data.List.Basic
import Mathlib.Data.List.Infix
import ConceptAtlas.Text.Parts

/-!
# Replacing one text in another

Replacing leaves a text alone exactly if there is nothing to find in it, or if what is put in is
what is taken out (`replaceAll_eq_self_iff`).

A text that ends in a character which it has nowhere else cannot overlap itself. Where such a text
stands between other ones, it is found there, and each of the others is searched for itself
(`replaceAll_intercalate`). So nothing is replaced but the separators exactly if none of the parts
holds one (`replaceAll_intercalate_eq_iff`). All parts get longer together or shorter together,
which is why what goes wrong in one of them is not made up for in another one.
-/

namespace ConceptAtlas.Text

variable {old new cs init : List Char} {c : Char} {parts : List (List Char)}

/-! ### One step -/

theorem replaceAll_append (hold : old ≠ []) (rest : List Char) :
    replaceAll old new (old ++ rest) = new ++ replaceAll old new rest := by
  obtain ⟨c, cs, rfl⟩ := List.exists_cons_of_ne_nil hold
  have hstart : startsWith (c :: cs) (c :: (cs ++ rest)) = true :=
    List.isPrefixOf_iff_prefix.2 (List.prefix_append (c :: cs) rest)
  rw [List.cons_append, replaceAll, if_pos ⟨hold, hstart⟩, List.length_cons, Nat.add_sub_cancel,
    List.drop_left]

theorem replaceAll_cons (h : ¬ List.IsPrefix old (c :: cs)) :
    replaceAll old new (c :: cs) = c :: replaceAll old new cs := by
  rw [replaceAll, if_neg]
  exact fun hstart ↦ h (List.isPrefixOf_iff_prefix.1 hstart.2)

/-- What is sought divides texts into the empty one, those that start with it, and those that start
with another character. -/
theorem replaceAll_induction {motive : List Char → Prop} (hold : old ≠ []) (nil : motive [])
    (found : ∀ rest, motive rest → motive (old ++ rest))
    (kept : ∀ c cs, ¬ List.IsPrefix old (c :: cs) → motive cs → motive (c :: cs))
    (cs : List Char) : motive cs := by
  by_cases hstart : List.IsPrefix old cs
  · obtain ⟨rest, rfl⟩ := hstart
    exact found rest (replaceAll_induction hold nil found kept rest)
  · cases cs with
    | nil => exact nil
    | cons c cs => exact kept c cs hstart (replaceAll_induction hold nil found kept cs)
termination_by cs.length
decreasing_by
  · rename_i hrest
    have := List.length_pos_iff.2 hold
    rw [← hrest, List.length_append]
    omega
  · exact Nat.lt_succ_self _

/-! ### Texts that stay -/

/-- A text changes its length by the difference of what is put in and taken out, so many times. -/
theorem exists_length_replaceAll (hold : old ≠ []) (new cs : List Char) :
    ∃ k, (replaceAll old new cs).length + k * old.length = cs.length + k * new.length := by
  induction cs using replaceAll_induction hold with
  | nil => exact ⟨0, by simp [replaceAll]⟩
  | found rest ih =>
    obtain ⟨k, hk⟩ := ih
    refine ⟨k + 1, ?_⟩
    rw [replaceAll_append hold, List.length_append, List.length_append, Nat.succ_mul, Nat.succ_mul]
    omega
  | kept c cs hstart ih =>
    obtain ⟨k, hk⟩ := ih
    refine ⟨k, ?_⟩
    rw [replaceAll_cons hstart, List.length_cons, List.length_cons]
    omega

theorem replaceAll_eq_self_iff (hold : old ≠ []) :
    replaceAll old new cs = cs ↔ new = old ∨ ¬ List.IsInfix old cs := by
  induction cs using replaceAll_induction hold with
  | nil => simp [replaceAll, hold]
  | found rest ih =>
    have hinfix : List.IsInfix old (old ++ rest) := (List.prefix_append old rest).isInfix
    rw [replaceAll_append hold, or_iff_left (not_not.2 hinfix)]
    constructor
    · intro h
      have hlength := congrArg List.length h
      rw [List.length_append, List.length_append] at hlength
      obtain ⟨k, hk⟩ := exists_length_replaceAll hold new rest
      refine (List.append_inj h ?_).1
      rcases Nat.le_total old.length new.length with hle | hle
      · have := Nat.mul_le_mul_left k hle
        omega
      · have := Nat.mul_le_mul_left k hle
        omega
    · rintro rfl
      rw [ih.2 (.inl rfl)]
  | kept c cs hstart ih =>
    rw [replaceAll_cons hstart, List.cons.injEq, and_iff_right rfl, ih, List.infix_cons_iff,
      or_iff_right hstart]

/-! ### Texts with something between them -/

/-- What ends in a character of its own does not start within a part in front of it and end behind
that part. -/
theorem not_prefix_append (hc : c ∉ init) {part : List Char} (hpart : part ≠ [])
    (h : ¬ List.IsPrefix (init ++ [c]) part) (rest : List Char) :
    ¬ List.IsPrefix (init ++ [c]) (part ++ (init ++ [c] ++ rest)) := by
  rintro ⟨tail, htail⟩
  rcases List.append_eq_append_iff.1 htail with ⟨as, has, -⟩ | ⟨bs, hbs, hrest⟩
  · exact h ⟨as, has.symm⟩
  · rcases List.eq_nil_or_concat bs with rfl | ⟨bs, d, rfl⟩
    · rw [List.append_nil] at hbs
      exact h (hbs ▸ List.prefix_rfl)
    · -- Its own end would stand within the copy that follows, and not at the end of that.
      rw [List.concat_eq_append, ← List.append_assoc] at hbs
      obtain ⟨hinit, hd⟩ := List.append_inj' hbs rfl
      rw [List.cons.injEq, and_iff_left rfl] at hd
      subst hd
      have hlength := congrArg List.length hinit
      have hpos := List.length_pos_iff.2 hpart
      rw [List.length_append] at hlength
      have hbs : List.IsPrefix (bs ++ [c]) (init ++ ([c] ++ rest)) := by
        refine ⟨tail, ?_⟩
        rw [← List.append_assoc init, hrest, List.concat_eq_append]
      have hinner : List.IsPrefix (bs ++ [c]) init := by
        refine List.prefix_of_prefix_length_le hbs (List.prefix_append ..) ?_
        rw [List.length_append, List.length_singleton]
        omega
      exact hc (hinner.subset (List.mem_append_right _ (List.mem_singleton_self c)))

/-- What ends in a character of its own is found where it stands, whatever is in front of it. -/
theorem replaceAll_append_append (hc : c ∉ init) (part rest : List Char) :
    replaceAll (init ++ [c]) new (part ++ (init ++ [c] ++ rest)) =
      replaceAll (init ++ [c]) new part ++ (new ++ replaceAll (init ++ [c]) new rest) := by
  have hold : init ++ [c] ≠ [] := List.append_ne_nil_of_right_ne_nil init (List.cons_ne_nil c [])
  induction part using replaceAll_induction hold with
  | nil => rw [List.nil_append, replaceAll_append hold, replaceAll, List.nil_append]
  | found part ih =>
    rw [List.append_assoc, replaceAll_append hold, ih, replaceAll_append hold, List.append_assoc]
  | kept x part hstart ih =>
    have hstart' := not_prefix_append hc (List.cons_ne_nil x part) hstart rest
    rw [List.cons_append] at hstart' ⊢
    rw [replaceAll_cons hstart', ih, replaceAll_cons hstart, List.cons_append]

/-- Parts with the same text between them are searched one by one. -/
theorem replaceAll_intercalate (hc : c ∉ init) (parts : List (List Char)) :
    replaceAll (init ++ [c]) new ((init ++ [c]).intercalate parts) =
      new.intercalate (parts.map (replaceAll (init ++ [c]) new)) := by
  induction parts with
  | nil => rw [List.intercalate_nil, replaceAll, List.map_nil, List.intercalate_nil]
  | cons part parts ih =>
    cases parts with
    | nil => rw [List.intercalate_singleton, List.map_singleton, List.intercalate_singleton]
    | cons next parts =>
      rw [List.intercalate_cons_cons, List.append_assoc, replaceAll_append_append hc, ih,
        List.map_cons, List.map_cons, List.map_cons, List.intercalate_cons_cons, List.append_assoc]

theorem exists_length_intercalate (hold : old ≠ []) (new : List Char) (parts : List (List Char)) :
    ∃ k, (new.intercalate (parts.map (replaceAll old new))).length + k * old.length =
      (new.intercalate parts).length + k * new.length := by
  induction parts with
  | nil => exact ⟨0, by simp⟩
  | cons part parts ih =>
    obtain ⟨j, hj⟩ := exists_length_replaceAll hold new part
    cases parts with
    | nil =>
      refine ⟨j, ?_⟩
      rw [List.map_singleton, List.intercalate_singleton, List.intercalate_singleton, hj]
    | cons next parts =>
      obtain ⟨k, hk⟩ := ih
      refine ⟨j + k, ?_⟩
      rw [List.map_cons] at hk ⊢
      rw [List.map_cons, List.intercalate_cons_cons, List.intercalate_cons_cons, Nat.add_mul,
        Nat.add_mul]
      simp only [List.length_append]
      omega

/-- If all the parts together stay as they are, each of them does. -/
theorem eq_of_intercalate_eq (hold : old ≠ [])
    (h : new.intercalate (parts.map (replaceAll old new)) = new.intercalate parts) :
    ∀ part ∈ parts, replaceAll old new part = part := by
  induction parts with
  | nil => exact List.forall_mem_nil _
  | cons part parts ih =>
    cases parts with
    | nil =>
      rw [List.map_singleton, List.intercalate_singleton, List.intercalate_singleton] at h
      exact List.forall_mem_singleton.2 h
    | cons next parts =>
      rw [List.map_cons, List.map_cons, List.intercalate_cons_cons, ← List.map_cons,
        List.intercalate_cons_cons, List.append_assoc, List.append_assoc] at h
      -- The part and the rest change their lengths in the same direction, so neither does.
      have hlength := congrArg List.length h
      simp only [List.length_append] at hlength
      obtain ⟨j, hj⟩ := exists_length_replaceAll hold new part
      obtain ⟨k, hk⟩ := exists_length_intercalate hold new (next :: parts)
      have hpart : (replaceAll old new part).length = part.length := by
        rcases Nat.le_total old.length new.length with hle | hle
        · have := Nat.mul_le_mul_left j hle
          have := Nat.mul_le_mul_left k hle
          omega
        · have := Nat.mul_le_mul_left j hle
          have := Nat.mul_le_mul_left k hle
          omega
      obtain ⟨hpart, hrest⟩ := List.append_inj h hpart
      exact List.forall_mem_cons.2 ⟨hpart, ih (List.append_cancel_left hrest)⟩

/-- **Nothing but the separators is replaced** exactly if no part holds a separator, or if it makes
no difference. -/
theorem replaceAll_intercalate_eq_iff (hc : c ∉ init) (new : List Char) (parts : List (List Char)) :
    replaceAll (init ++ [c]) new ((init ++ [c]).intercalate parts) = new.intercalate parts ↔
      new = init ++ [c] ∨ ∀ part ∈ parts, ¬ List.IsInfix (init ++ [c]) part := by
  have hold : init ++ [c] ≠ [] := List.append_ne_nil_of_right_ne_nil init (List.cons_ne_nil c [])
  have hparts : (new = init ++ [c] ∨ ∀ part ∈ parts, ¬ List.IsInfix (init ++ [c]) part) ↔
      ∀ part ∈ parts, replaceAll (init ++ [c]) new part = part := by
    simp only [replaceAll_eq_self_iff hold, imp_iff_not_or, or_left_comm, forall_or_left]
  rw [replaceAll_intercalate hc, hparts]
  constructor
  · exact eq_of_intercalate_eq hold
  · intro h
    rw [List.map_congr_left h, List.map_id']

end ConceptAtlas.Text
