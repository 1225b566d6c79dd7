import Mathlib.Data.List.Nodup
import Mathlib.Data.Nat.Find
import Mathlib.Order.Bounds.Basic
import ConceptAtlas.Graph.Breadth

/-!
# What a search finds is at its distance

The distance of a thing is the least number of steps that lead to it from the start
(`Steps.IsDistance`). A search that goes breadth first, and looks around from everything that is
not too far away, gives depths to exactly the things that can be reached so, and each its distance
(`DepthSearch.Holds.find?_depths_iff`).

What was found is the start and then all that has a depth, in the order in which it was found, and
the queue is the end of that list (`DepthSearch.Holds`). Along the list depths ascend, and in the
queue they differ by one at most. So what is nearer than the first of the queue was looked around
from, and whatever it leads on to was found; this is why a thing that is found late cannot be near
(`DepthSearch.Holds.mem_found`). What a search does with the first of its queue is one of two
things, and either of them keeps the invariant: it notes what is one step away (`Holds.expand`), or
the thing is too far away and it does nothing (`Holds.skip`).
-/

namespace ConceptAtlas

namespace Steps

/-! ### Distances -/

variable {α : Type} {step : α → α → Prop} {start x : α} {n : Nat}

/-- So many steps lead from a start to a thing. -/
def Leads (step : α → α → Prop) (start : α) : Nat → α → Prop
  | 0, x => x = start
  | n + 1, x => ∃ y, Leads step start n y ∧ step y x

/-- The least number of steps that lead from a start to a thing. -/
def IsDistance (step : α → α → Prop) (start x : α) (n : Nat) : Prop :=
  IsLeast {m | Leads step start m x} n

theorem isDistance_zero_iff : IsDistance step start x 0 ↔ x = start :=
  ⟨fun h ↦ h.1, fun h ↦ ⟨h, fun _ _ ↦ Nat.zero_le _⟩⟩

/-- The start alone is no step away. -/
theorem IsDistance.pos_iff (h : IsDistance step start x n) : 1 ≤ n ↔ x ≠ start := by
  rw [Nat.one_le_iff_ne_zero, not_iff_not]
  constructor
  · rintro rfl
    exact isDistance_zero_iff.1 h
  · exact fun hx ↦ h.unique (isDistance_zero_iff.2 hx)

theorem Leads.exists_isDistance (h : Leads step start n x) :
    ∃ m ≤ n, IsDistance step start x m := by
  classical
  have hex : ∃ m, Leads step start m x := ⟨n, h⟩
  exact ⟨Nat.find hex, Nat.find_min' hex h, Nat.find_spec hex, fun _ hm ↦ Nat.find_min' hex hm⟩

/-- What is one step farther away is a step away from what is not, and is not nearer itself. -/
theorem isDistance_succ_iff : IsDistance step start x (n + 1) ↔
    (∃ y, IsDistance step start y n ∧ step y x) ∧ ∀ m ≤ n, ¬ IsDistance step start x m := by
  constructor
  · intro h
    obtain ⟨y, hy, hstep⟩ := h.1
    obtain ⟨m, hm, hdist⟩ := hy.exists_isDistance
    -- A nearer `y` would make `x` nearer.
    have hle : n + 1 ≤ m + 1 := h.2 ⟨y, hdist.1, hstep⟩
    obtain rfl : m = n := by omega
    exact ⟨⟨y, hdist, hstep⟩, fun k hk hx ↦ absurd (h.2 hx.1) (by omega)⟩
  · rintro ⟨⟨y, hy, hstep⟩, hfar⟩
    refine ⟨⟨y, hy.1, hstep⟩, fun m hm ↦ ?_⟩
    obtain ⟨k, hk, hdist⟩ := Leads.exists_isDistance hm
    by_contra hlt
    exact hfar k (by omega) hdist

end Steps

open Steps (IsDistance isDistance_zero_iff isDistance_succ_iff)

namespace DepthSearch

variable {root u v : String} {depth n : Nat} {s : DepthSearch} {looked rest : List (String × Nat)}

/-! ### Noting -/

theorem note_of_mem (hu : u ∈ s.seen root) : s.note root depth u = s := by
  rw [note, if_pos (List.contains_iff_mem.2 hu)]

theorem note_of_not_mem (hu : u ∉ s.seen root) :
    s.note root depth u = ⟨s.depths ++ [(u, depth)], s.queue ++ [(u, depth)]⟩ := by
  have hnew : u ∉ s.depths.map Prod.fst := fun hmem ↦ hu (List.mem_cons_of_mem _ hmem)
  rw [note, if_neg (mt List.contains_iff_mem.1 hu), Assoc.put_of_not_mem hnew]

/-- Things that are noted at a depth are found if they were not seen, each once. -/
theorem exists_foldl_note (root : String) (depth : Nat) (us : List String) (s : DepthSearch) :
    ∃ new : List String, us.foldl (note root depth) s =
        ⟨s.depths ++ new.map (·, depth), s.queue ++ new.map (·, depth)⟩ ∧
      new.Nodup ∧ ∀ u, u ∈ new ↔ u ∈ us ∧ u ∉ s.seen root := by
  induction us generalizing s with
  | nil => exact ⟨[], by simp, List.nodup_nil, by simp⟩
  | cons u us ih =>
    rw [List.foldl_cons]
    obtain ⟨new, hfold, hnodup, hmem⟩ := ih (s.note root depth u)
    by_cases hu : u ∈ s.seen root
    · rw [note_of_mem hu] at hfold hmem ⊢
      refine ⟨new, hfold, hnodup, fun x ↦ ?_⟩
      rw [hmem, List.mem_cons]
      refine and_congr_left fun hx ↦ (or_iff_right ?_).symm
      exact fun heq ↦ hx (heq ▸ hu)
    · have hseen : (s.note root depth u).seen root = s.seen root ++ [u] :=
        seen_note (Bool.eq_false_iff.2 (mt List.contains_iff_mem.1 hu))
      refine ⟨u :: new, ?_, List.nodup_cons.2 ⟨fun hnew ↦ ?_, hnodup⟩, fun x ↦ ?_⟩
      · rw [hfold, note_of_not_mem hu, List.map_cons, List.append_assoc, List.append_assoc,
          List.singleton_append]
      · refine ((hmem u).1 hnew).2 ?_
        rw [hseen]
        exact List.mem_append_right _ (List.mem_singleton_self u)
      · rw [List.mem_cons, List.mem_cons, hmem, hseen, List.mem_append, List.mem_singleton]
        by_cases hx : x = u
        · simp [hx, hu]
        · simp [hx]

/-! ### What a search keeps -/

/-- What a search from a start keeps, where `near` says from which depths it looks around, and
`looked` are the things that it has come to in its queue. -/
structure Holds (step : String → String → Prop) (near : Nat → Prop) (root : String)
    (looked : List (String × Nat)) (s : DepthSearch) : Prop where
  found : (root, 0) :: s.depths = looked ++ s.queue
  nodup : (s.seen root).Nodup
  depth : ∀ p ∈ looked ++ s.queue, IsDistance step root p.1 p.2
  /-- There are things to look around from on the way to what was found. -/
  reached : ∀ p ∈ looked ++ s.queue, ∀ m < p.2, near m
  ascending : (looked ++ s.queue).Pairwise fun p q ↦ p.2 ≤ q.2
  /-- The last of the queue is one deeper than the first at most. -/
  level : ∀ p ∈ s.queue, ∀ q ∈ s.queue, q.2 ≤ p.2 + 1
  closed : ∀ p ∈ looked, near p.2 → ∀ u, step p.1 u → u ∈ s.seen root

namespace Holds

variable {step : String → String → Prop} {near : Nat → Prop}

theorem start (step : String → String → Prop) (near : Nat → Prop) (root : String) :
    Holds step near root [] (DepthSearch.start root) where
  found := rfl
  nodup := List.nodup_singleton root
  depth p hp := by
    rw [List.mem_singleton.1 hp]
    exact isDistance_zero_iff.2 rfl
  reached p hp m hm := by
    rw [List.mem_singleton.1 hp] at hm
    exact absurd hm (Nat.not_lt_zero m)
  ascending := List.pairwise_singleton _ _
  level p hp q hq := by
    rw [List.mem_singleton.1 hp, List.mem_singleton.1 hq]
    exact Nat.le_succ 0
  closed := nofun

theorem mem_seen_iff (h : Holds step near root looked s) :
    u ∈ s.seen root ↔ ∃ n, (u, n) ∈ looked ++ s.queue := by
  have hseen : s.seen root = (looked ++ s.queue).map Prod.fst := by
    rw [← h.found]
    rfl
  rw [hseen, List.mem_map]
  constructor
  · rintro ⟨⟨x, n⟩, hp, rfl⟩
    exact ⟨n, hp⟩
  · rintro ⟨n, hp⟩
    exact ⟨(u, n), hp, rfl⟩

/-- **Nothing near was missed**: what is as near as the whole queue, or nearer, was found. -/
theorem mem_found (h : Holds step near root looked s) (hqueue : ∀ p ∈ s.queue, n ≤ p.2)
    (hnear : ∀ m < n, near m) (hu : IsDistance step root u n) : (u, n) ∈ looked ++ s.queue := by
  induction n generalizing u with
  | zero =>
    rw [isDistance_zero_iff.1 hu, ← h.found]
    exact List.mem_cons_self
  | succ n ih =>
    obtain ⟨⟨w, hw, hstep⟩, -⟩ := isDistance_succ_iff.1 hu
    have hfound := ih (fun p hp ↦ Nat.le_of_succ_le (hqueue p hp))
      (fun m hm ↦ hnear m (Nat.lt_succ_of_lt hm)) hw
    have hlooked : (w, n) ∈ looked := (List.mem_append.1 hfound).resolve_right fun hmem ↦
      absurd (hqueue _ hmem) (Nat.not_succ_le_self n)
    obtain ⟨m, hm⟩ := h.mem_seen_iff.1 (h.closed _ hlooked (hnear n (Nat.lt_succ_self n)) u hstep)
    obtain rfl : m = n + 1 := (h.depth _ hm).unique hu
    exact hm

/-- The first of the queue is too far away to look around from. -/
theorem skip (h : Holds step near root looked s) (hqueue : s.queue = (v, depth) :: rest)
    (hfar : ¬ near depth) :
    Holds step near root (looked ++ [(v, depth)]) { s with queue := rest } := by
  have hlist : looked ++ [(v, depth)] ++ rest = looked ++ s.queue := by simp [hqueue]
  have hrest : ∀ p ∈ rest, p ∈ s.queue := fun p hp ↦ hqueue ▸ List.mem_cons_of_mem _ hp
  exact {
    found := h.found.trans hlist.symm
    nodup := h.nodup
    depth := by rw [hlist]; exact h.depth
    reached := by rw [hlist]; exact h.reached
    ascending := by rw [hlist]; exact h.ascending
    level := fun p hp q hq ↦ h.level p (hrest p hp) q (hrest q hq)
    closed := List.forall_mem_append.2 ⟨h.closed, fun p hp hnear ↦ by
      rw [List.mem_singleton.1 hp] at hnear
      exact absurd hnear hfar⟩ }

/-- The search looks around from the first of the queue. What is found is not less deep than one
step more, since nothing near was missed. -/
theorem expand (h : Holds step near root looked s) (hqueue : s.queue = (v, depth) :: rest)
    (hnear : ∀ m ≤ depth, near m) {us : List String} (hus : ∀ u, u ∈ us ↔ step v u) :
    Holds step near root (looked ++ [(v, depth)])
      (us.foldl (note root (depth + 1)) { s with queue := rest }) := by
  obtain ⟨new, hfold, hnodup, hmem⟩ := exists_foldl_note root (depth + 1) us
    { s with queue := rest }
  obtain ⟨depths, queue⟩ := s
  obtain rfl : queue = (v, depth) :: rest := hqueue
  have hnew : ∀ u, u ∈ new ↔ step v u ∧ u ∉ root :: depths.map Prod.fst := fun u ↦ by
    rw [hmem, hus]
    rfl
  have hfound : (root, 0) :: depths = looked ++ (v, depth) :: rest := h.found
  have hlist : looked ++ [(v, depth)] ++ (rest ++ new.map (·, depth + 1)) =
      (looked ++ (v, depth) :: rest) ++ new.map (·, depth + 1) := by simp
  have hseen : (⟨depths ++ new.map (·, depth + 1), rest ++ new.map (·, depth + 1)⟩ :
      DepthSearch).seen root = root :: depths.map Prod.fst ++ new := by
    simp [seen, Function.comp_def]
  have hv : IsDistance step root v depth :=
    h.depth (v, depth) (List.mem_append_right _ List.mem_cons_self)
  obtain ⟨-, htail, hbefore⟩ := List.pairwise_append.1 h.ascending
  obtain ⟨hfirst, hrest⟩ := List.pairwise_cons.1 htail
  have hdeep : ∀ p ∈ rest ++ new.map (·, depth + 1), depth ≤ p.2 ∧ p.2 ≤ depth + 1 := by
    refine List.forall_mem_append.2 ⟨fun p hp ↦ ⟨hfirst p hp, ?_⟩, fun p hp ↦ ?_⟩
    · exact h.level (v, depth) List.mem_cons_self p (List.mem_cons_of_mem _ hp)
    · obtain ⟨u, -, rfl⟩ := List.mem_map.1 hp
      exact ⟨Nat.le_succ depth, Nat.le_refl _⟩
  rw [hfold]
  exact {
    found := by
      rw [hlist, ← hfound]
      rfl
    nodup := by
      rw [hseen]
      exact h.nodup.append hnodup fun u hu hun ↦ ((hnew u).1 hun).2 hu
    depth := by
      rw [hlist]
      refine List.forall_mem_append.2 ⟨h.depth, fun p hp ↦ ?_⟩
      obtain ⟨u, hu, rfl⟩ := List.mem_map.1 hp
      obtain ⟨hstep, hunseen⟩ := (hnew u).1 hu
      refine isDistance_succ_iff.2 ⟨⟨v, hv, hstep⟩, fun m hm hum ↦ hunseen ?_⟩
      refine h.mem_seen_iff.2 ⟨m, h.mem_found ?_ (fun k hk ↦ hnear k (hk.le.trans hm)) hum⟩
      exact List.forall_mem_cons.2 ⟨hm, fun p hp ↦ hm.trans (hfirst p hp)⟩
    reached := by
      rw [hlist]
      refine List.forall_mem_append.2 ⟨h.reached, fun p hp m hm ↦ ?_⟩
      obtain ⟨u, -, rfl⟩ := List.mem_map.1 hp
      exact hnear m (Nat.le_of_lt_succ hm)
    ascending := by
      rw [hlist]
      refine List.pairwise_append.2 ⟨h.ascending, ?_, fun p hp q hq ↦ ?_⟩
      · rw [List.pairwise_map]
        exact List.pairwise_of_forall fun _ _ ↦ Nat.le_refl _
      · obtain ⟨u, -, rfl⟩ := List.mem_map.1 hq
        rcases List.mem_append.1 hp with hp | hp
        · exact (hbefore p hp _ List.mem_cons_self).trans (Nat.le_succ depth)
        · exact h.level (v, depth) List.mem_cons_self p hp
    level := fun p hp q hq ↦ (hdeep q hq).2.trans (Nat.succ_le_succ (hdeep p hp).1)
    closed := by
      rw [hseen]
      refine List.forall_mem_append.2 ⟨fun p hp hpnear u hu ↦ ?_, fun p hp _ u hu ↦ ?_⟩
      · exact List.mem_append_left _ (h.closed p hp hpnear u hu)
      · rw [List.mem_singleton.1 hp] at hu
        by_cases hold : u ∈ root :: depths.map Prod.fst
        · exact List.mem_append_left _ hold
        · exact List.mem_append_right _ ((hnew u).2 ⟨hu, hold⟩) }

/-! ### When the queue is empty -/

theorem looked_eq (h : Holds step near root looked s) (hqueue : s.queue = []) :
    looked = (root, 0) :: s.depths := by
  rw [h.found, hqueue, List.append_nil]

/-- In the end the search has come to all that can be reached, each at its distance. -/
theorem mem_looked_iff (h : Holds step near root looked s) (hqueue : s.queue = []) :
    (u, n) ∈ looked ↔ IsDistance step root u n ∧ ∀ m < n, near m := by
  have hall : looked ++ s.queue = looked := by rw [hqueue, List.append_nil]
  constructor
  · intro hmem
    rw [← hall] at hmem
    exact ⟨h.depth _ hmem, h.reached _ hmem⟩
  · rintro ⟨hu, hnear⟩
    rw [← hall]
    exact h.mem_found (hqueue ▸ List.forall_mem_nil _) hnear hu

/-- **The depths in the end are the distances of all that can be reached**, the start apart. -/
theorem find?_depths_iff (h : Holds step near root looked s) (hqueue : s.queue = []) :
    Assoc.find? u s.depths = some n ↔
      u ≠ root ∧ IsDistance step root u n ∧ ∀ m < n, near m := by
  obtain ⟨hroot, hnodup⟩ := List.nodup_cons.1 h.nodup
  rw [Assoc.find?_eq_some_iff hnodup, ← h.mem_looked_iff hqueue, h.looked_eq hqueue,
    List.mem_cons]
  constructor
  · exact fun hmem ↦ ⟨fun heq ↦ hroot (heq ▸ List.mem_map_of_mem hmem), .inr hmem⟩
  · rintro ⟨hne, hmem⟩
    exact hmem.resolve_left fun heq ↦ hne (Prod.ext_iff.1 heq).1

theorem nodup_depths (h : Holds step near root looked s) : (s.depths.map Prod.fst).Nodup :=
  (List.nodup_cons.1 h.nodup).2

theorem ascending_depths (h : Holds step near root looked s) :
    s.depths.Pairwise fun p q ↦ p.2 ≤ q.2 := by
  have hall := h.ascending
  rw [← h.found] at hall
  exact (List.pairwise_cons.1 hall).2

end Holds

end DepthSearch

end ConceptAtlas
