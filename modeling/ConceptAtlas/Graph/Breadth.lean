import ConceptAtlas.Graph.Basic

/-!
# Searching breadth first

What searches that go breadth first have in common: a depth for each thing that was found, and a
queue of the things to look around from. Whatever a search finds around a thing it notes one deeper
(`DepthSearch.note`), unless it was seen before. Where all that can be found is among finitely many
things, noting never adds to what there is to do (`DepthSearch.work_foldl_note_le`), so every search
comes to an end.
-/

namespace ConceptAtlas

/-- A search that goes breadth first: the depths that were found, and the things to look around
from, each with its depth. -/
structure DepthSearch where
  depths : List (String × Nat)
  queue : List (String × Nat)

namespace DepthSearch

/-- The search from a start before its first step. -/
def start (id : String) : DepthSearch := ⟨[], [(id, 0)]⟩

/-- What was seen: the start, and what has a depth. -/
def seen (root : String) (s : DepthSearch) : List String := root :: s.depths.map Prod.fst

/-- Gives a depth to a thing that was not seen, and puts it last in the queue. -/
def note (root : String) (depth : Nat) (s : DepthSearch) (u : String) : DepthSearch :=
  if (s.seen root).contains u then s
  else { depths := Assoc.put u depth s.depths, queue := s.queue ++ [(u, depth)] }

/-- What there is to do among some things: those to look around from, and those that were not
seen. -/
def work (ids : List String) (root : String) (s : DepthSearch) : Nat :=
  (ids.filter fun u ↦ !(s.seen root).contains u).length + s.queue.length

variable {root u : String} {depth : Nat} {s : DepthSearch}

theorem seen_note (h : (s.seen root).contains u = false) :
    (s.note root depth u).seen root = s.seen root ++ [u] := by
  have hu : u ∉ s.depths.map Prod.fst := fun hmem ↦
    Bool.false_ne_true (h.symm.trans (List.contains_iff_mem.2 (List.mem_cons_of_mem _ hmem)))
  rw [note, if_neg (ne_true_of_eq_false h), seen, seen, Assoc.keys_put_of_not_mem hu,
    List.cons_append]

/-- What a thing adds to the queue it takes from what was not seen. -/
theorem work_note_le {ids : List String} (root : String) (depth : Nat) (s : DepthSearch)
    (hu : u ∈ ids) : (s.note root depth u).work ids root ≤ s.work ids root := by
  rcases h : (s.seen root).contains u with - | -
  · have hahead := Graph.length_filter_not_seen ids id h
    have hmem : u ∈ ids.filter fun v ↦ id v == u := List.mem_filter.2 ⟨hu, beq_self_eq_true u⟩
    have hpos := List.length_pos_of_mem hmem
    have hqueue : (s.note root depth u).queue.length = s.queue.length + 1 := by
      rw [note, if_neg (ne_true_of_eq_false h), List.length_append, List.length_singleton]
    rw [work, work, seen_note h, hqueue]
    simp only [id_eq] at hahead hpos
    omega
  · have hnote : s.note root depth u = s := if_pos h
    exact Nat.le_of_eq (by rw [hnote])

theorem work_foldl_note_le {ids us : List String} (root : String) (depth : Nat)
    (s : DepthSearch) (hus : ∀ u ∈ us, u ∈ ids) :
    (us.foldl (note root depth) s).work ids root ≤ s.work ids root := by
  induction us generalizing s with
  | nil => exact Nat.le_refl _
  | cons u us ih =>
    obtain ⟨hu, hus⟩ := List.forall_mem_cons.1 hus
    exact Nat.le_trans (ih (s.note root depth u) hus) (work_note_le root depth s hu)

theorem work_tail_lt (ids : List String) (root : String) {p : String × Nat}
    {rest : List (String × Nat)} (h : s.queue = p :: rest) :
    ({ s with queue := rest } : DepthSearch).work ids root < s.work ids root := by
  rw [work, work, seen, seen, h]
  exact Nat.lt_succ_self _

end DepthSearch

end ConceptAtlas
