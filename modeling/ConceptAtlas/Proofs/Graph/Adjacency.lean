import Mathlib.Data.List.Nodup
import Mathlib.Data.List.Perm.Basic
import ConceptAtlas.Graph.Arena

/-!
# Arcs and the order of edges

What an adjacency holds, said without its grouping: `Adjacency.Hangs adj n arcs` says that `adj` has
a group for each of the first `n` indices and that the group of each index is, in some order, what
the list `arcs` has at that index. The list is in the order in which the edges came; the groups are
not, and do not have to be.

Two facts make that enough. One more arc under a new key is one more entry of the list
(`Hangs.link`), wherever its bundle stands. And sorting by keys gives the list back
(`Arc.inOrder_eq`), since the keys of a list in order of insertion go up.
-/

namespace ConceptAtlas

variable {W : Type}

/-! ### Selections -/

/-- Two selections that never pick from the same entry are together one selection. -/
theorem filterMap_append_perm {α β : Type _} {f g : α → Option β} (l : List α)
    (h : ∀ x ∈ l, f x = none ∨ g x = none) :
    (l.filterMap f ++ l.filterMap g).Perm (l.filterMap fun x ↦ (f x).or (g x)) := by
  induction l with
  | nil => exact .refl _
  | cons x l ih =>
    have ih := ih fun y hy ↦ h y (List.mem_cons_of_mem x hy)
    -- What `g` picks stands behind all that `f` picks, and has to be moved to the front.
    rcases hf : f x with - | a
    · rcases hg : g x with - | b
      · simpa [hf, hg] using ih
      · simpa [hf, hg] using List.perm_middle.trans (ih.cons b)
    · have hg : g x = none := (h x List.mem_cons_self).resolve_left (by simp [hf])
      simpa [hf, hg] using ih.cons a

/-! ### Sorting by keys -/

/-- Arcs whose keys go up. -/
def Arc.Ascending (arcs : List (Arc W)) : Prop := arcs.Pairwise fun x y ↦ x.key < y.key

theorem Arc.Ascending.nodup_keys {arcs : List (Arc W)} (h : Arc.Ascending arcs) :
    (arcs.map Arc.key).Nodup :=
  List.pairwise_map.2 (h.imp fun hlt ↦ Nat.ne_of_lt hlt)

/-- **Sorting recovers the order of insertion**, whatever the order in which arcs are stored. -/
theorem Arc.inOrder_eq {stored listed : List (Arc W)} (h : stored.Perm listed)
    (ha : Arc.Ascending listed) : Arc.inOrder stored = listed := by
  have hsorted : (Arc.inOrder stored).Pairwise fun x y ↦ decide (x.key ≤ y.key) = true :=
    List.pairwise_mergeSort (fun a b c hab hbc ↦ by simp only [decide_eq_true_eq] at *; omega)
      (fun a b ↦ by simp only [Bool.or_eq_true, decide_eq_true_eq]; omega) stored
  have hlisted : listed.Pairwise fun x y ↦ decide (x.key ≤ y.key) = true :=
    ha.imp fun hlt ↦ decide_eq_true (Nat.le_of_lt hlt)
  have hperm : (Arc.inOrder stored).Perm listed := (List.mergeSort_perm stored _).trans h
  -- Two sorted lists with the same members could still differ among equal keys, but no two arcs
  -- share a key.
  refine List.Perm.eq_of_pairwise ?_ hsorted hlisted hperm
  intro x y hx hy hxy hyx
  simp only [decide_eq_true_eq] at hxy hyx
  exact List.inj_on_of_nodup_map ha.nodup_keys (hperm.mem_iff.1 hx) hy (Nat.le_antisymm hxy hyx)

namespace Adjacency

/-! ### One more arc -/

/-- Tying an arc under a new key to a group adds that arc and nothing else. -/
theorem spread_tie (v : Nat) {key : Nat} (e : Edge W) {group : List (Nat × Bundle W)}
    (h : ∀ x ∈ spread group, x.key ≠ key) :
    (spread (tie v key e group)).Perm (spread group ++ [⟨v, key, e⟩]) := by
  induction group with
  | nil => exact .refl _
  | cons b bs ih =>
    have hb : key ∉ b.2.map Prod.fst := by
      intro hm
      obtain ⟨x, hx, rfl⟩ := List.mem_map.1 hm
      exact h ⟨b.1, x.1, x.2⟩ (List.mem_append_left _ (List.mem_map_of_mem hx)) rfl
    have hbs : ∀ x ∈ spread bs, x.key ≠ key := fun x hx ↦ h x (List.mem_append_right _ hx)
    rw [tie, Assoc.find?_cons, Assoc.put_cons]
    by_cases hv : b.1 == v
    · -- The bundle of `v` stands here, so the new arc is in front of those of the other bundles.
      obtain rfl : b.1 = v := eq_of_beq hv
      rw [if_pos hv, if_pos hv, Option.getD_some, Assoc.put_of_not_mem hb]
      simp only [spread, List.flatMap_cons, List.map_append, List.map_cons, List.map_nil,
        List.append_assoc]
      exact (List.perm_append_singleton _ _).symm.append_left _
    · rw [if_neg hv, if_neg hv]
      simp only [spread, List.flatMap_cons, List.append_assoc]
      exact (ih hbs).append_left _

theorem arcsAt_put (u w : Nat) (group : List (Nat × Bundle W)) (adj : Adjacency W) :
    arcsAt (Assoc.put u group adj) w = if u == w then spread group else arcsAt adj w := by
  rw [arcsAt, Assoc.find?_put]
  split <;> rfl

/-- A group without arcs changes nothing at any index. -/
theorem arcsAt_putNew_nil (u w : Nat) (adj : Adjacency W) :
    arcsAt (Assoc.putNew u [] adj) w = arcsAt adj w := by
  rw [Assoc.putNew]
  split
  · rfl
  · rename_i h
    rw [arcsAt_put]
    split
    · rename_i huw
      rw [← eq_of_beq huw, arcsAt, Option.not_isSome_iff_eq_none.1 h]
      rfl
    · rfl

/-! ### What an adjacency holds -/

/-- The arcs that a list has at an index. -/
def listedAt (u : Nat) (arcs : List (Nat × Arc W)) : List (Arc W) :=
  arcs.filterMap fun x ↦ if x.1 == u then some x.2 else none

/-- An adjacency with groups for `n` indices holds the arcs of a list, each at its index. -/
structure Hangs (adj : Adjacency W) (n : Nat) (arcs : List (Nat × Arc W)) : Prop where
  groups : adj.map Prod.fst = List.range n
  at_index : ∀ u, (arcsAt adj u).Perm (listedAt u arcs)

namespace Hangs

variable {adj : Adjacency W} {n : Nat} {arcs : List (Nat × Arc W)}

theorem empty : Hangs ([] : Adjacency W) 0 [] := ⟨rfl, fun _ ↦ .refl _⟩

/-- One more group. -/
theorem open_group (h : Hangs adj n arcs) : Hangs (Assoc.putNew n [] adj) (n + 1) arcs where
  groups := by
    have hn : n ∉ adj.map Prod.fst := by
      rw [h.groups, List.mem_range]
      exact Nat.lt_irrefl n
    rw [Assoc.putNew_of_not_mem hn, List.map_append, h.groups, List.range_succ]
    rfl
  at_index u := by
    rw [arcsAt_putNew_nil]
    exact h.at_index u

/-- **One more arc.** Under a key that no arc of the list has, it is one more entry of the list. -/
theorem link (h : Hangs adj n arcs) {u v key : Nat} (hu : u < n) (e : Edge W)
    (hkey : ∀ x ∈ arcs, x.2.key ≠ key) :
    Hangs (adj.link u v key e) n (arcs ++ [(u, ⟨v, key, e⟩)]) where
  groups := by
    have hm : u ∈ adj.map Prod.fst := by
      rw [h.groups]
      exact List.mem_range.2 hu
    rw [Adjacency.link, Assoc.keys_put_of_mem hm, h.groups]
  at_index w := by
    rw [Adjacency.link, arcsAt_put, listedAt, List.filterMap_append]
    by_cases huw : u == w
    · obtain rfl : u = w := eq_of_beq huw
      have hfresh : ∀ x ∈ arcsAt adj u, x.key ≠ key := by
        intro x hx
        obtain ⟨y, hy, hyx⟩ := List.mem_filterMap.1 ((h.at_index u).mem_iff.1 hx)
        obtain ⟨-, rfl⟩ : (y.1 == u) = true ∧ y.2 = x := by simpa using hyx
        exact hkey y hy
      have hlast : ([(u, ⟨v, key, e⟩)] : List (Nat × Arc W)).filterMap
          (fun x ↦ if x.1 == u then some x.2 else none) = [⟨v, key, e⟩] := by simp
      rw [if_pos huw, hlast]
      exact (spread_tie v e hfresh).trans ((h.at_index u).append_right _)
    · have hlast : ([(u, ⟨v, key, e⟩)] : List (Nat × Arc W)).filterMap
          (fun x ↦ if x.1 == w then some x.2 else none) = [] := by simpa using huw
      rw [if_neg huw, hlast, List.append_nil]
      exact h.at_index w

end Hangs

/-! ### All arcs -/

theorem flatMap_listedAt_perm (n : Nat) (arcs : List (Nat × Arc W)) :
    ((List.range n).flatMap fun u ↦ listedAt u arcs).Perm
      (arcs.filterMap fun x ↦ if x.1 < n then some x.2 else none) := by
  induction n with
  | zero => simp
  | succ n ih =>
    rw [List.range_succ, List.flatMap_append, List.flatMap_cons, List.flatMap_nil, List.append_nil]
    -- No arc is both below `n` and at `n`, so the group of `n` adds just what was missing.
    refine (ih.append_right _).trans ((filterMap_append_perm _ fun x _ ↦ ?_).trans ?_)
    · by_cases hx : x.1 == n
      · exact .inl (if_neg (by rw [eq_of_beq hx]; exact Nat.lt_irrefl n))
      · exact .inr (if_neg hx)
    · refine .of_eq (List.filterMap_congr fun x _ ↦ ?_)
      by_cases hlt : x.1 < n
      · simp [hlt, Nat.lt_succ_of_lt hlt]
      · by_cases hx : x.1 = n
        · simp [hx]
        · have hge : ¬ x.1 < n + 1 := by omega
          simp [hlt, hx, hge]

/-- The groups of all indices together are the whole list. -/
theorem Hangs.flatMap_arcsAt_perm {adj : Adjacency W} {n : Nat} {arcs : List (Nat × Arc W)}
    (h : Hangs adj n arcs) (hlt : ∀ x ∈ arcs, x.1 < n) :
    ((List.range n).flatMap (arcsAt adj)).Perm (arcs.map Prod.snd) := by
  have hall : arcs.filterMap (fun x ↦ if x.1 < n then some x.2 else none) = arcs.map Prod.snd := by
    rw [← List.filterMap_eq_map]
    exact List.filterMap_congr fun x hx ↦ if_pos (hlt x hx)
  rw [← hall]
  exact (List.Perm.flatMap_left _ fun u _ ↦ h.at_index u).trans (flatMap_listedAt_perm n arcs)

theorem Hangs.arcs_eq {adj : Adjacency W} {n : Nat} {arcs : List (Nat × Arc W)}
    (h : Hangs adj n arcs) : adj.arcs = (List.range n).flatMap (arcsAt adj) := by
  have hnodup : (adj.map Prod.fst).Nodup := h.groups ▸ List.nodup_range
  rw [← h.groups, List.flatMap_map, Adjacency.arcs]
  refine List.flatMap_congr fun g hg ↦ ?_
  rw [arcsAt, Assoc.find?_of_mem hnodup hg, Option.getD_some]

end Adjacency

end ConceptAtlas
