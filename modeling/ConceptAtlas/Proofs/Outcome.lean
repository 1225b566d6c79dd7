import Mathlib.Data.List.Forall2
import ConceptAtlas.Fault

/-!
# Outcomes of lists

What comes of doing something with each item of a list, from first to last: an outcome for each
item, or the failure of the first item that fails.
-/

namespace ConceptAtlas

variable {ε α β : Type} {f : α → Except ε β}

/-- A list has an outcome if each of its items has one. -/
theorem mapM_eq_ok_iff {xs : List α} {ys : List β} :
    xs.mapM f = .ok ys ↔ List.Forall₂ (fun x y ↦ f x = .ok y) xs ys := by
  induction xs generalizing ys with
  | nil =>
    rw [List.mapM_nil, List.forall₂_nil_left_iff]
    exact ⟨fun h ↦ (Except.ok.inj h).symm, fun h ↦ h ▸ rfl⟩
  | cons x xs ih =>
    rw [List.mapM_cons, List.forall₂_cons_left_iff, bind_eq_ok]
    constructor
    · rintro ⟨y, hy, h⟩
      obtain ⟨ys', hys, hok⟩ := bind_eq_ok.1 h
      exact ⟨y, ys', hy, ih.1 hys, (Except.ok.inj hok).symm⟩
    · rintro ⟨y, ys', hy, hys, rfl⟩
      exact ⟨y, hy, bind_eq_ok.2 ⟨ys', ih.2 hys, rfl⟩⟩

/-- A list fails as its first item that does. -/
theorem exists_of_mapM_eq_error {xs : List α} {e : ε} (h : xs.mapM f = .error e) :
    ∃ before x after, xs = before ++ x :: after ∧ (∀ y ∈ before, ∃ z, f y = .ok z) ∧
      f x = .error e := by
  induction xs with
  | nil => nomatch h
  | cons y ys ih =>
    rw [List.mapM_cons] at h
    rcases bind_eq_error.1 h with hy | ⟨z, hz, h⟩
    · exact ⟨[], y, ys, rfl, List.forall_mem_nil _, hy⟩
    · rcases bind_eq_error.1 h with hys | ⟨zs, -, h⟩
      · obtain ⟨before, x, after, rfl, hbefore, hx⟩ := ih hys
        exact ⟨y :: before, x, after, rfl, List.forall_mem_cons.2 ⟨⟨z, hz⟩, hbefore⟩, hx⟩
      · cases h

theorem mapM_append_cons_eq_error {before after : List α} {x : α} {e : ε}
    (hbefore : ∀ y ∈ before, ∃ z, f y = .ok z) (hx : f x = .error e) :
    (before ++ x :: after).mapM f = .error e := by
  induction before with
  | nil =>
    rw [List.nil_append, List.mapM_cons]
    exact bind_eq_error.2 (.inl hx)
  | cons y ys ih =>
    obtain ⟨⟨z, hz⟩, hys⟩ := List.forall_mem_cons.1 hbefore
    rw [List.cons_append, List.mapM_cons]
    exact bind_eq_error.2 (.inr ⟨z, hz, bind_eq_error.2 (.inl (ih hys))⟩)

/-- What a list was made of from item to item has something for each item. -/
theorem exists_of_forall₂ {p : α → β → Prop} {xs : List α} {ys : List β}
    (h : List.Forall₂ p xs ys) {x : α} (hx : x ∈ xs) : ∃ y ∈ ys, p x y := by
  induction h with
  | nil => cases hx
  | cons hp _ ih =>
    rcases List.mem_cons.1 hx with rfl | hx
    · exact ⟨_, List.mem_cons_self, hp⟩
    · obtain ⟨y, hy, hxy⟩ := ih hx
      exact ⟨y, List.mem_cons_of_mem _ hy, hxy⟩

end ConceptAtlas
