import Mathlib.Combinatorics.SimpleGraph.Connectivity.Connected
import Mathlib.SetTheory.Cardinal.Finite
import ConceptAtlas.Graph.Basic

/-!
# Connected components

What hangs together in a graph when the directions of its edges are ignored. The undirected view of
some edges is a simple graph on the nodes, and `Graph.componentCount` counts its components.

An edge is a bridge if its ends are not joined by the other edges. Edges are told apart by their
positions, so an equal edge at another position is another edge. Taking an edge away leaves more
components exactly if it is a bridge (`Graph.isBridge_iff_componentCount_lt`): without it the
components map onto those with it, and two of them are made one exactly if they hold its ends.
-/

namespace ConceptAtlas.Graph

open Relation (ReflTransGen)

variable {W : Type} {g : Graph W} {i j : Nat} {u v x y : String}

/-! ### The undirected view -/

/-- The simple graph on the nodes of a graph in which the ends of some edges are adjacent. -/
def view (g : Graph W) (es : List (Edge W)) : SimpleGraph {id // id ∈ g.ids} :=
  .fromRel fun u v ↦ ∃ e ∈ es, e.source = u ∧ e.target = v

/-- The number of connected components when a graph has some edges and all its nodes. -/
noncomputable def componentCount (g : Graph W) (es : List (Edge W)) : Nat :=
  Nat.card (g.view es).ConnectedComponent

instance (g : Graph W) : Finite {id // id ∈ g.ids} := g.ids.finite_toSet.to_subtype

instance (g : Graph W) (es : List (Edge W)) : Finite (g.view es).ConnectedComponent :=
  inferInstanceAs (Finite (Quot _))

/-! ### Bridges -/

/-- The edge at a position has two nodes for its ends. -/
def Joins (g : Graph W) (i : Nat) (u v : String) : Prop :=
  ∃ e, g.edges[i]? = some e ∧ (e.source = u ∧ e.target = v ∨ e.source = v ∧ e.target = u)

namespace Joins

theorem symm (h : g.Joins i u v) : g.Joins i v u := by
  obtain ⟨e, he, hends⟩ := h
  exact ⟨e, he, hends.symm⟩

theorem left_mem (h : g.Joins i u v) : u ∈ g.ids := by
  obtain ⟨e, he, ⟨rfl, -⟩ | ⟨-, rfl⟩⟩ := h
  · exact g.source_mem e (List.mem_of_getElem? he)
  · exact g.target_mem e (List.mem_of_getElem? he)

/-- The ends of an edge are what they are, in one order or the other. -/
theorem eq_or_eq (h : g.Joins i u v) (h' : g.Joins i x y) : x = u ∧ y = v ∨ x = v ∧ y = u := by
  obtain ⟨e, he, hends⟩ := h
  obtain ⟨e', he', hends'⟩ := h'
  obtain rfl : e = e' := Option.some.inj (he.symm.trans he')
  rcases hends with ⟨rfl, rfl⟩ | ⟨rfl, rfl⟩ <;> rcases hends' with ⟨rfl, rfl⟩ | ⟨rfl, rfl⟩ <;> simp

end Joins

/-- Two nodes are joined by edges at other positions than a given one. -/
def JoinedWithout (g : Graph W) (i : Nat) : String → String → Prop :=
  ReflTransGen fun u v ↦ ∃ j ≠ i, g.Joins j u v

theorem JoinedWithout.symm (h : g.JoinedWithout i u v) : g.JoinedWithout i v u := by
  have hsymm : Std.Symm fun u v ↦ ∃ j ≠ i, g.Joins j u v :=
    ⟨fun _ _ ⟨j, hj, hjoins⟩ ↦ ⟨j, hj, hjoins.symm⟩⟩
  exact (@ReflTransGen.stdSymm _ _ hsymm).symm _ _ h

/-- The ends of the edge at a position are not joined by the other edges. -/
def IsBridge (g : Graph W) (i : Nat) : Prop := ∃ u v, g.Joins i u v ∧ ¬ g.JoinedWithout i u v

/-- It does not matter which of its ends an edge is followed from. -/
theorem not_isBridge (h : g.Joins i u v) (hwithout : g.JoinedWithout i u v) : ¬ g.IsBridge i := by
  rintro ⟨x, y, hxy, hno⟩
  rcases h.eq_or_eq hxy with ⟨rfl, rfl⟩ | ⟨rfl, rfl⟩
  · exact hno hwithout
  · exact hno hwithout.symm

/-- Two nodes are joined by edges that stay within a region. -/
def JoinedWithin (g : Graph W) (r : String → Prop) : String → String → Prop :=
  ReflTransGen fun u v ↦ r u ∧ r v ∧ ∃ i, g.Joins i u v

namespace JoinedWithin

variable {r r' : String → Prop}

theorem mono (h : g.JoinedWithin r u v) (hr : ∀ x, r x → r' x) : g.JoinedWithin r' u v :=
  h.lift id fun _ _ ⟨hx, hy, hjoins⟩ ↦ ⟨hr _ hx, hr _ hy, hjoins⟩

/-- Within a region no edge is used that has an end outside of it. -/
theorem joinedWithout (h : g.JoinedWithin r u v) (hjoins : g.Joins i x y) (hx : ¬ r x) :
    g.JoinedWithout i u v := by
  refine h.lift id fun a b ⟨ha, hb, j, hab⟩ ↦ ⟨j, ?_, hab⟩
  rintro rfl
  rcases hab.eq_or_eq hjoins with ⟨rfl, -⟩ | ⟨rfl, -⟩
  · exact hx ha
  · exact hx hb

end JoinedWithin

/-! ### Counting components -/

theorem view_adj_iff {a b : {id // id ∈ g.ids}} :
    (g.view g.edges).Adj a b ↔ a ≠ b ∧ ∃ i, g.Joins i a b := by
  rw [view, SimpleGraph.fromRel_adj]
  refine and_congr_right fun _ ↦ ⟨?_, ?_⟩
  · rintro (⟨e, he, hs, ht⟩ | ⟨e, he, hs, ht⟩)
    · exact (List.mem_iff_getElem?.1 he).imp fun i hi ↦ ⟨e, hi, .inl ⟨hs, ht⟩⟩
    · exact (List.mem_iff_getElem?.1 he).imp fun i hi ↦ ⟨e, hi, .inr ⟨hs, ht⟩⟩
  · rintro ⟨i, e, hi, h | h⟩
    · exact .inl ⟨e, List.mem_of_getElem? hi, h⟩
    · exact .inr ⟨e, List.mem_of_getElem? hi, h⟩

theorem view_eraseIdx_adj_iff {a b : {id // id ∈ g.ids}} :
    (g.view (g.edges.eraseIdx i)).Adj a b ↔ a ≠ b ∧ ∃ j ≠ i, g.Joins j a b := by
  rw [view, SimpleGraph.fromRel_adj]
  refine and_congr_right fun _ ↦ ⟨?_, ?_⟩
  · rintro (⟨e, he, hs, ht⟩ | ⟨e, he, hs, ht⟩)
    · obtain ⟨j, hj, hje⟩ := List.mem_eraseIdx_iff_getElem?.1 he
      exact ⟨j, hj, e, hje, .inl ⟨hs, ht⟩⟩
    · obtain ⟨j, hj, hje⟩ := List.mem_eraseIdx_iff_getElem?.1 he
      exact ⟨j, hj, e, hje, .inr ⟨hs, ht⟩⟩
  · rintro ⟨j, hj, e, hje, h | h⟩
    · exact .inl ⟨e, List.mem_eraseIdx_iff_getElem?.2 ⟨j, hj, hje⟩, h⟩
    · exact .inr ⟨e, List.mem_eraseIdx_iff_getElem?.2 ⟨j, hj, hje⟩, h⟩

theorem reachable_eraseIdx_iff {a b : {id // id ∈ g.ids}} :
    (g.view (g.edges.eraseIdx i)).Reachable a b ↔ g.JoinedWithout i a b := by
  rw [SimpleGraph.reachable_iff_reflTransGen]
  constructor
  · intro h
    exact h.lift Subtype.val fun _ _ hadj ↦ (view_eraseIdx_adj_iff.1 hadj).2
  · intro h
    have hlift : ∀ y, g.JoinedWithout i a y → ∃ hy : y ∈ g.ids,
        ReflTransGen (g.view (g.edges.eraseIdx i)).Adj a ⟨y, hy⟩ := by
      intro y hay
      induction hay with
      | refl => exact ⟨a.2, .refl⟩
      | @tail x y _ hxy ih =>
        obtain ⟨hx, hax⟩ := ih
        obtain ⟨j, hj, hjoins⟩ := hxy
        refine ⟨hjoins.symm.left_mem, ?_⟩
        by_cases hne : x = y
        · subst hne
          exact hax
        · refine hax.tail (view_eraseIdx_adj_iff.2 ⟨fun e ↦ hne (congrArg Subtype.val e), ?_⟩)
          exact ⟨j, hj, hjoins⟩
    exact (hlift b h).2

/-- **Taking an edge away leaves more components exactly if it is a bridge.** -/
theorem isBridge_iff_componentCount_lt (g : Graph W) (i : Nat) :
    g.IsBridge i ↔ g.componentCount g.edges < g.componentCount (g.edges.eraseIdx i) := by
  have hle : g.view (g.edges.eraseIdx i) ≤ g.view g.edges := fun a b hadj ↦ by
    obtain ⟨hne, j, -, hjoins⟩ := view_eraseIdx_adj_iff.1 hadj
    exact view_adj_iff.2 ⟨hne, j, hjoins⟩
  have hsurjective := SimpleGraph.ConnectedComponent.surjective_map_ofLE hle
  rw [← not_le, componentCount, componentCount]
  constructor
  · rintro ⟨u, v, hjoins, hno⟩ hcard
    refine hno ?_
    have hne : u ≠ v := fun e ↦ hno (e ▸ .refl)
    have hadj : (g.view g.edges).Adj ⟨u, hjoins.left_mem⟩ ⟨v, hjoins.symm.left_mem⟩ :=
      view_adj_iff.2 ⟨fun e ↦ hne (congrArg Subtype.val e), i, hjoins⟩
    have hinjective := (hsurjective.bijective_of_nat_card_le hcard).1
    exact reachable_eraseIdx_iff.1 (SimpleGraph.ConnectedComponent.exact
      (hinjective (SimpleGraph.ConnectedComponent.sound hadj.reachable)))
  · intro hcard
    by_contra hno
    -- If the ends of the edge are joined without it, so is all that it joins.
    have hreach : ∀ {a b}, ReflTransGen (g.view g.edges).Adj a b →
        (g.view (g.edges.eraseIdx i)).Reachable a b := by
      intro a b h
      induction h with
      | refl => exact .rfl
      | @tail b c _ hadj ih =>
        obtain ⟨hne, j, hjoins⟩ := view_adj_iff.1 hadj
        refine ih.trans ?_
        by_cases hj : j = i
        · refine reachable_eraseIdx_iff.2 ?_
          by_contra hwithout
          exact hno ⟨b, c, hj ▸ hjoins, hwithout⟩
        · exact (view_eraseIdx_adj_iff.2 ⟨hne, j, hj, hjoins⟩).reachable
    refine hcard (Nat.card_le_card_of_injective (SimpleGraph.ConnectedComponent.map (.ofLE hle)) ?_)
    refine SimpleGraph.ConnectedComponent.ind₂ fun a b hab ↦ ?_
    refine SimpleGraph.ConnectedComponent.sound (hreach ?_)
    exact (SimpleGraph.reachable_iff_reflTransGen _ _).1 (SimpleGraph.ConnectedComponent.exact hab)

end ConceptAtlas.Graph
