import ConceptAtlas.Graph.Prerequisite
import ConceptAtlas.Proofs.Graph.History
import ConceptAtlas.Proofs.Graph.Validation

/-!
# An order to learn in

The walk against prerequisite edges lists a concept when all that was found before it is done. What
that list is worth is said by `Graph.Teaches`: it holds all that leads to the target and nothing
else, each concept once, and a concept stands behind its direct prerequisites *unless it leads back
to them*. So only a cycle can spoil the order, and whether there is one is said as well.

At any moment the walk has a path of concepts that are visited and not listed, from the target to
the concept it is at, and each of them is led to by the next (`PrerequisiteWalk.Holds`). A
prerequisite that is visited already stands in the list, or it is on the path, and then there is a
cycle. When a concept is left all its prerequisites are visited, so in the end no edge leads into
what was visited from outside, and it is all that leads to the target.

Both cycle checks of a graph are about one relation. A query looks at what leads to one concept and
counts loops, the validation looks at the whole graph and leaves loops out; so some query sees a
cycle exactly if the validation does or there is a loop (`hasCycles_agrees`).
-/

namespace ConceptAtlas

open Relation (TransGen ReflTransGen)

variable {W : Type} {g : Graph W}

namespace Graph

theorem mem_prerequisiteSources {u v : String} :
    u ∈ g.prerequisiteSources v ↔ g.IsPrerequisite u v := by
  simp only [prerequisiteSources, incoming, List.mem_filterMap, List.mem_filter, beq_iff_eq,
    Option.ite_none_right_eq_some, Option.some.injEq]
  constructor
  · rintro ⟨e, ⟨he, ht⟩, hr, hs⟩
    exact ⟨e, he, hr, hs, ht⟩
  · rintro ⟨e, he, hr, hs, ht⟩
    exact ⟨e, ⟨he, ht⟩, hr, hs⟩

end Graph

namespace PrerequisiteWalk

/-! ### What the walk keeps -/

/-- What a walk for a target keeps. -/
structure Holds (g : Graph W) (target : String) (w : PrerequisiteWalk) : Prop where
  visited : ∀ x, x ∈ w.visited ↔ x = target ∨ x ∈ w.path.map Frame.id ∨ x ∈ w.done
  nodup_path : (w.path.map Frame.id).Nodup
  nodup : w.done.Nodup
  apart : ∀ x ∈ w.done, x ≠ target ∧ x ∉ w.path.map Frame.id
  leads : ∀ x ∈ w.visited, ReflTransGen g.IsPrerequisite x target
  /-- Each concept on the path is a prerequisite of the one below it. -/
  path : (w.path.map Frame.id).IsChain g.IsPrerequisite
  sources : ∀ f ∈ w.path, ∀ u ∈ f.rest, g.IsPrerequisite u f.id
  looked : ∀ f ∈ w.path, ∀ u, g.IsPrerequisite u f.id → u ∈ f.rest ∨ u ∈ w.visited
  left : ∀ x ∈ w.visited, x ∉ w.path.map Frame.id → ∀ u, g.IsPrerequisite u x → u ∈ w.visited
  /-- What is listed stands behind its prerequisites, or leads back to them. -/
  ordered : ∀ x ∈ w.done, ∀ u, g.IsPrerequisite u x →
    (u ∈ w.done ∧ w.done.idxOf u < w.done.idxOf x) ∨ TransGen g.IsPrerequisite x u

namespace Holds

variable {target u v : String} {w : PrerequisiteWalk} {f : Frame} {below : List Frame}
  {rest : List String}

theorem start (g : Graph W) (target : String) :
    (PrerequisiteWalk.start g target).Holds g target where
  visited x := by simp [PrerequisiteWalk.start]
  nodup_path := List.nodup_singleton _
  nodup := List.nodup_nil
  apart := nofun
  leads x hx := List.mem_singleton.1 hx ▸ .refl
  path := .singleton _
  sources f hf u hu := by
    rw [List.mem_singleton.1 hf] at hu ⊢
    exact Graph.mem_prerequisiteSources.1 hu
  looked f hf u hu := by
    rw [List.mem_singleton.1 hf] at hu ⊢
    exact .inl (Graph.mem_prerequisiteSources.2 hu)
  left x hx hoff := absurd hx hoff
  ordered := nofun

/-- The end of a chain leads to all of it. -/
theorem leads_of_isChain {v : String} {vs : List String}
    (h : (v :: vs).IsChain g.IsPrerequisite) :
    ∀ x ∈ v :: vs, ReflTransGen g.IsPrerequisite v x := by
  induction vs generalizing v with
  | nil =>
    intro x hx
    rw [List.mem_singleton.1 hx]
  | cons u us ih =>
    rw [List.isChain_cons_cons] at h
    refine List.forall_mem_cons.2 ⟨.refl, fun x hx ↦ ?_⟩
    exact .head h.1 (ih h.2 x hx)

/-- A prerequisite that was visited before is passed over. -/
theorem skip (h : w.Holds g target) (hpath : w.path = f :: below) (hrest : f.rest = u :: rest)
    (hu : u ∈ w.visited) : Holds g target { w with path := { f with rest } :: below } := by
  obtain ⟨visited, done, path⟩ := w
  obtain ⟨v, sources⟩ := f
  obtain rfl : path = ⟨v, sources⟩ :: below := hpath
  obtain rfl : sources = u :: rest := hrest
  obtain ⟨hsources, hsources'⟩ := List.forall_mem_cons.1 h.sources
  obtain ⟨hlooked, hlooked'⟩ := List.forall_mem_cons.1 h.looked
  exact {
    visited := h.visited
    nodup_path := h.nodup_path
    nodup := h.nodup
    apart := h.apart
    leads := h.leads
    path := h.path
    sources := List.forall_mem_cons.2
      ⟨fun x hx ↦ hsources x (List.mem_cons_of_mem _ hx), hsources'⟩
    looked := List.forall_mem_cons.2 ⟨fun x hx ↦ by
      rcases hlooked x hx with hmem | hmem
      · rcases List.mem_cons.1 hmem with rfl | hmem
        · exact .inr hu
        · exact .inl hmem
      · exact .inr hmem, hlooked'⟩
    left := h.left
    ordered := h.ordered }

/-- A prerequisite that was not visited becomes the end of the path. -/
theorem enter (h : w.Holds g target) (hpath : w.path = f :: below) (hrest : f.rest = u :: rest)
    (hu : u ∉ w.visited) : Holds g target { w with
      visited := w.visited ++ [u]
      path := ⟨u, g.prerequisiteSources u⟩ :: { f with rest } :: below } := by
  obtain ⟨visited, done, path⟩ := w
  obtain ⟨v, sources⟩ := f
  obtain rfl : path = ⟨v, sources⟩ :: below := hpath
  obtain rfl : sources = u :: rest := hrest
  have hnew := mt (h.visited u).2 hu
  rw [not_or, not_or] at hnew
  obtain ⟨hsources, hsources'⟩ := List.forall_mem_cons.1 h.sources
  obtain ⟨hlooked, hlooked'⟩ := List.forall_mem_cons.1 h.looked
  have huv : g.IsPrerequisite u v := hsources u List.mem_cons_self
  have hv : v ∈ visited := (h.visited v).2 (.inr (.inl List.mem_cons_self))
  have hkeep : visited ⊆ visited ++ [u] := List.subset_append_left ..
  have hself : u ∈ visited ++ [u] := List.mem_append_right _ (List.mem_singleton_self u)
  exact {
    visited := fun x ↦ by
      have hx := h.visited x
      simp only [List.map_cons, List.mem_cons, List.mem_append, List.not_mem_nil, or_false] at hx ⊢
      tauto
    nodup_path := List.nodup_cons.2 ⟨hnew.2.1, h.nodup_path⟩
    nodup := h.nodup
    apart := fun x hx ↦ ⟨(h.apart x hx).1, fun hmem ↦ by
      rcases List.mem_cons.1 hmem with rfl | hmem
      · exact hnew.2.2 hx
      · exact (h.apart x hx).2 hmem⟩
    leads := List.forall_mem_append.2
      ⟨h.leads, List.forall_mem_singleton.2 (.head huv (h.leads v hv))⟩
    path := List.isChain_cons_cons.2 ⟨huv, h.path⟩
    sources := List.forall_mem_cons.2 ⟨fun x ↦ Graph.mem_prerequisiteSources.1,
      List.forall_mem_cons.2 ⟨fun x hx ↦ hsources x (List.mem_cons_of_mem _ hx), hsources'⟩⟩
    looked := by
      refine List.forall_mem_cons.2 ⟨fun x hx ↦ .inl (Graph.mem_prerequisiteSources.2 hx), ?_⟩
      refine List.forall_mem_cons.2 ⟨fun x hx ↦ ?_, fun p hp x hx ↦ ?_⟩
      · rcases hlooked x hx with hmem | hmem
        · rcases List.mem_cons.1 hmem with rfl | hmem
          · exact .inr hself
          · exact .inl hmem
        · exact .inr (hkeep hmem)
      · exact (hlooked' p hp x hx).imp_right fun hmem ↦ hkeep hmem
    left := fun x hx hoff y hy ↦ by
      obtain ⟨hxu, hoff⟩ := List.ne_and_not_mem_of_not_mem_cons hoff
      have hmem := (List.mem_append.1 hx).resolve_right fun hx ↦ hxu (List.mem_singleton.1 hx)
      exact hkeep (h.left x hmem hoff y hy)
    ordered := h.ordered }

/-- The end of the path is left when all its prerequisites were looked at: those that are not listed
are on the path or the target, and it leads to all of these. -/
theorem leave (h : w.Holds g target) (hpath : w.path = f :: below) (hrest : f.rest = []) :
    Holds g target { w with
      done := if f.id = target then w.done else w.done ++ [f.id]
      path := below } := by
  obtain ⟨visited, done, path⟩ := w
  obtain ⟨v, sources⟩ := f
  obtain rfl : path = ⟨v, sources⟩ :: below := hpath
  obtain rfl : sources = [] := hrest
  obtain ⟨-, hsources⟩ := List.forall_mem_cons.1 h.sources
  obtain ⟨hlooked, hlooked'⟩ := List.forall_mem_cons.1 h.looked
  obtain ⟨hoff, hnodup⟩ := List.nodup_cons.1 h.nodup_path
  have hv : v ∈ visited := (h.visited v).2 (.inr (.inl List.mem_cons_self))
  have hall : ∀ u, g.IsPrerequisite u v → u ∈ visited := fun u hu ↦
    (hlooked u hu).resolve_left List.not_mem_nil
  have hdone : v ∉ done := fun hmem ↦ (h.apart v hmem).2 List.mem_cons_self
  have hmem : ∀ x, x ∈ (if v = target then done else done ++ [v]) ↔
      x ∈ done ∨ x = v ∧ v ≠ target := by
    intro x
    split <;> simp [*]
  have hkeep : ∀ x ∈ done, (if v = target then done else done ++ [v]).idxOf x = done.idxOf x := by
    intro x hx
    split
    · rfl
    · exact List.idxOf_append_of_mem hx
  exact {
    visited := fun x ↦ by
      have hx := h.visited x
      simp only [List.map_cons, List.mem_cons] at hx ⊢
      rw [hmem]
      grind
    nodup_path := hnodup
    nodup := by
      show (if v = target then done else done ++ [v]).Nodup
      split
      · exact h.nodup
      · rw [← List.concat_eq_append]
        exact h.nodup.concat hdone
    apart := fun x hx ↦ by
      rcases (hmem x).1 hx with hx | ⟨rfl, hne⟩
      · exact ⟨(h.apart x hx).1, fun hmem ↦ (h.apart x hx).2 (List.mem_cons_of_mem _ hmem)⟩
      · exact ⟨hne, hoff⟩
    leads := h.leads
    path := h.path.of_cons
    sources := hsources
    looked := hlooked'
    left := fun x hx hoff' u hu ↦ by
      by_cases hxv : x = v
      · exact hall u (hxv ▸ hu)
      · exact h.left x hx (List.not_mem_cons_of_ne_of_not_mem hxv hoff') u hu
    ordered := fun x hx u hu ↦ by
      show (u ∈ (if v = target then done else done ++ [v]) ∧
        (if v = target then done else done ++ [v]).idxOf u <
          (if v = target then done else done ++ [v]).idxOf x) ∨ _
      rcases (hmem x).1 hx with hx | ⟨rfl, hne⟩
      · refine (h.ordered x hx u hu).imp_left fun ⟨hu, hlt⟩ ↦ ⟨(hmem u).2 (.inl hu), ?_⟩
        rwa [hkeep u hu, hkeep x hx]
      · rcases (h.visited u).1 (hall u hu) with rfl | hpath | hdone'
        · have hleads := Relation.reflTransGen_iff_eq_or_transGen.1 (h.leads x hv)
          exact .inr (hleads.resolve_left hne.symm)
        · rcases Relation.reflTransGen_iff_eq_or_transGen.1 (leads_of_isChain h.path u hpath) with
            rfl | hleads
          · exact .inr (.single hu)
          · exact .inr hleads
        · refine .inl ⟨(hmem u).2 (.inl hdone'), ?_⟩
          rw [hkeep u hdone', if_neg hne, List.idxOf_append_of_notMem hdone, List.idxOf_cons_self,
            Nat.add_zero]
          exact List.idxOf_lt_length_iff.2 hdone' }

/-- A step keeps it all. -/
theorem step (h : w.Holds g target) : (w.step g target).Holds g target := by
  rw [PrerequisiteWalk.step]
  split
  · exact h
  · next f below hpath =>
    split
    · next hrest => exact h.leave hpath hrest
    · next u rest hrest =>
      split
      · next hu => exact h.skip hpath hrest (List.contains_iff_mem.1 hu)
      · next hu => exact h.enter hpath hrest (mt List.contains_iff_mem.2 hu)

theorem run (h : w.Holds g target) :
    (w.run g target).Holds g target ∧ (w.run g target).path = [] := by
  fun_induction PrerequisiteWalk.run g target w with
  | case1 w hpath => exact ⟨h, hpath⟩
  | case2 w hpath ih => exact ih h.step

/-! ### What is left in the end -/

/-- When the path is empty all that leads to the target has been visited. -/
theorem mem_visited_iff (h : w.Holds g target) (hpath : w.path = []) :
    u ∈ w.visited ↔ ReflTransGen g.IsPrerequisite u target := by
  refine ⟨h.leads u, fun hu ↦ ?_⟩
  induction hu using ReflTransGen.head_induction_on with
  | refl => exact (h.visited target).2 (.inl rfl)
  | head huv _ ih => exact h.left _ ih (by simp [hpath]) _ huv

theorem mem_done_iff (h : w.Holds g target) (hpath : w.path = []) :
    u ∈ w.done ↔ u ≠ target ∧ TransGen g.IsPrerequisite u target := by
  constructor
  · intro hu
    have hne := (h.apart u hu).1
    have hleads := h.leads u ((h.visited u).2 (.inr (.inr hu)))
    exact ⟨hne, (Relation.reflTransGen_iff_eq_or_transGen.1 hleads).resolve_left hne.symm⟩
  · rintro ⟨hne, hleads⟩
    have hvisited := (h.visited u).1 ((h.mem_visited_iff hpath).2 hleads.to_reflTransGen)
    rw [hpath] at hvisited
    exact (hvisited.resolve_left hne).resolve_left List.not_mem_nil

end Holds

end PrerequisiteWalk

namespace Graph

/-! ### What a query answers -/

/-- An answer about the prerequisites of a concept holds all that leads to it, in an order that only
cycles can spoil. -/
structure Teaches (g : Graph W) (id : String) (p : Prerequisites) : Prop where
  target : g.node? id = some p.target
  stored : ∀ n ∈ p.ordered, g.node? n.id = some n
  nodup : (p.ordered.map Node.id).Nodup
  mem_iff : ∀ u, u ∈ p.ordered.map Node.id ↔ u ≠ id ∧ TransGen g.IsPrerequisite u id
  /-- A listed concept stands behind its prerequisites, or leads back to them. -/
  ordered : ∀ u v, g.IsPrerequisite u v → v ∈ p.ordered.map Node.id →
    (u ∈ p.ordered.map Node.id ∧
      (p.ordered.map Node.id).idxOf u < (p.ordered.map Node.id).idxOf v) ∨
    TransGen g.IsPrerequisite v u
  hasCycles : p.hasCycles = true ↔
    ∃ v, ReflTransGen g.IsPrerequisite v id ∧ TransGen g.IsPrerequisite v v

theorem mem_prerequisiteArcs {ids : List String} {u v : String} :
    (u, v) ∈ g.prerequisiteArcs ids ↔ v ∈ ids ∧ g.IsPrerequisite u v := by
  simp only [prerequisiteArcs, List.mem_flatMap, List.mem_map, mem_prerequisiteSources,
    Prod.mk.injEq]
  constructor
  · rintro ⟨v, hv, u, hu, rfl, rfl⟩
    exact ⟨hv, hu⟩
  · rintro ⟨hv, hu⟩
    exact ⟨v, hv, u, hu, rfl, rfl⟩

/-- Among all that leads to a concept, the arcs hold exactly the cycles of the graph. -/
theorem exists?_prerequisiteArcs {id : String} {ids : List String}
    (h : ∀ u, u ∈ ids ↔ ReflTransGen g.IsPrerequisite u id) :
    Cycle.exists? (g.prerequisiteArcs ids) ids = true ↔
      ∃ v, ReflTransGen g.IsPrerequisite v id ∧ TransGen g.IsPrerequisite v v := by
  have hlink : ∀ {u v}, Cycle.Link (g.prerequisiteArcs ids) ids u v ↔
      g.IsPrerequisite u v ∧ v ∈ ids := by
    intro u v
    rw [Cycle.Link, mem_prerequisiteArcs]
    refine ⟨fun hl ↦ ⟨hl.1.2, hl.1.1⟩, fun hl ↦ ⟨hl.symm, ?_, hl.2⟩⟩
    exact (h u).2 (.head hl.1 ((h v).1 hl.2))
  rw [Cycle.exists?_iff]
  constructor
  · rintro ⟨v, hv⟩
    obtain ⟨u, -, huv⟩ := TransGen.tail'_iff.1 hv
    exact ⟨v, (h v).1 (hlink.1 huv).2, TransGen.mono (fun _ _ hl ↦ (hlink.1 hl).1) v v hv⟩
  · rintro ⟨v, hv, hcycle⟩
    refine ⟨v, ?_⟩
    -- Every concept on the way leads to the target, so each step of it is an arc.
    have hway : ∀ u, TransGen g.IsPrerequisite u v →
        TransGen (Cycle.Link (g.prerequisiteArcs ids) ids) u v := by
      intro u hu
      induction hu using TransGen.head_induction_on with
      | single huv => exact .single (hlink.2 ⟨huv, (h v).2 hv⟩)
      | head huw hwv ih =>
        exact .head (hlink.2 ⟨huw, (h _).2 (hwv.to_reflTransGen.trans hv)⟩) ih
    exact hway v hcycle

/-- **Every concept of the graph has its answer.** -/
theorem teaches_prerequisites {id : String} (hid : id ∈ g.ids) :
    ∃ p, g.prerequisites id = .ok p ∧ g.Teaches id p := by
  obtain ⟨n, hn, rfl⟩ := List.mem_map.1 hid
  obtain ⟨hholds, hpath⟩ := (PrerequisiteWalk.Holds.start g n.id).run
  have hids : ∀ u ∈ ((PrerequisiteWalk.start g n.id).run g n.id).done, u ∈ g.ids := by
    intro u hu
    obtain ⟨v, huv, -⟩ := TransGen.head'_iff.1 ((hholds.mem_done_iff hpath).1 hu).2
    exact huv.mem_ids.1
  have hdone := map_id_filterMap_node? hids
  refine ⟨_, by rw [prerequisites, node, node?_of_mem hn]; rfl, ?_⟩
  exact {
    target := node?_of_mem hn
    stored := fun m hm ↦ by
      obtain ⟨u, -, hu⟩ := List.mem_filterMap.1 hm
      exact node?_of_mem (List.mem_of_find?_eq_some hu)
    nodup := by
      rw [hdone]
      exact hholds.nodup
    mem_iff := fun u ↦ by
      rw [hdone]
      exact hholds.mem_done_iff hpath
    ordered := fun u v huv hv ↦ by
      rw [hdone] at hv ⊢
      exact hholds.ordered v hv u huv
    hasCycles := exists?_prerequisiteArcs fun _ ↦ hholds.mem_visited_iff hpath }

/-- There is no answer about anything else. -/
theorem mem_ids_of_prerequisites {id : String} {p : Prerequisites}
    (h : g.prerequisites id = .ok p) : id ∈ g.ids := by
  obtain ⟨n, hn, -⟩ := bind_eq_ok.1 h
  rw [node] at hn
  split at hn
  · rename_i m hm
    have hid : m.id = id := by simpa using List.find?_some hm
    exact hid ▸ List.mem_map_of_mem (List.mem_of_find?_eq_some hm)
  · cases hn

/-- Where no cycle was seen a listed concept stands behind all that leads to it. -/
theorem Teaches.idxOf_lt_of_hasCycles {id : String} {p : Prerequisites} (h : g.Teaches id p)
    (hcycles : p.hasCycles = false) {u v : String} (huv : TransGen g.IsPrerequisite u v)
    (hv : v ∈ p.ordered.map Node.id) : u ∈ p.ordered.map Node.id ∧
      (p.ordered.map Node.id).idxOf u < (p.ordered.map Node.id).idxOf v := by
  have hdirect : ∀ {u v}, g.IsPrerequisite u v → v ∈ p.ordered.map Node.id →
      u ∈ p.ordered.map Node.id ∧
        (p.ordered.map Node.id).idxOf u < (p.ordered.map Node.id).idxOf v := by
    intro u v huv hv
    rcases h.ordered u v huv hv with hbefore | hback
    · exact hbefore
    · have hleads := ((h.mem_iff v).1 hv).2.to_reflTransGen
      exact absurd (h.hasCycles.2 ⟨v, hleads, hback.tail huv⟩) (by rw [hcycles]; exact nofun)
  induction huv using TransGen.head_induction_on with
  | single huv => exact hdirect huv hv
  | head huw _ ih =>
    obtain ⟨hu, hlt⟩ := hdirect huw ih.1
    exact ⟨hu, hlt.trans ih.2⟩

/-- Without cycles a listed concept stands behind all that leads to it. -/
theorem Teaches.idxOf_lt {id : String} {p : Prerequisites} (h : g.Teaches id p)
    (hacyclic : ¬ Cycle.Cyclic g.IsPrerequisite) {u v : String}
    (huv : TransGen g.IsPrerequisite u v) (hv : v ∈ p.ordered.map Node.id) :
    u ∈ p.ordered.map Node.id ∧
      (p.ordered.map Node.id).idxOf u < (p.ordered.map Node.id).idxOf v := by
  refine h.idxOf_lt_of_hasCycles (Bool.eq_false_iff.2 fun hcycles ↦ ?_) huv hv
  obtain ⟨w, -, hw⟩ := h.hasCycles.1 hcycles
  exact hacyclic ⟨w, hw⟩

/-- **An order to learn in.** Each concept is answered with all that leads to it and nothing else,
each once. Of two listed concepts the prerequisite comes first unless a cycle has both, so where no
cycle was seen all that leads to a listed concept comes before it; and a cycle is seen exactly if
the concept or something that leads to it is on one. -/
theorem prerequisites_in_order {id : String} (hid : id ∈ g.ids) :
    ∃ p, g.prerequisites id = .ok p ∧ g.node? id = some p.target ∧
      (∀ n ∈ p.ordered, g.node? n.id = some n) ∧ (p.ordered.map Node.id).Nodup ∧
      (∀ u, u ∈ p.ordered.map Node.id ↔ u ≠ id ∧ TransGen g.IsPrerequisite u id) ∧
      (∀ u ∈ p.ordered.map Node.id, ∀ v ∈ p.ordered.map Node.id, g.IsPrerequisite u v →
        (p.ordered.map Node.id).idxOf u < (p.ordered.map Node.id).idxOf v ∨
          TransGen g.IsPrerequisite u v ∧ TransGen g.IsPrerequisite v u) ∧
      (p.hasCycles = false → ∀ u v, TransGen g.IsPrerequisite u v → v ∈ p.ordered.map Node.id →
        u ∈ p.ordered.map Node.id ∧
          (p.ordered.map Node.id).idxOf u < (p.ordered.map Node.id).idxOf v) ∧
      (p.hasCycles = true ↔
        ∃ v, ReflTransGen g.IsPrerequisite v id ∧ TransGen g.IsPrerequisite v v) := by
  obtain ⟨p, hp, hteaches⟩ := teaches_prerequisites hid
  refine ⟨p, hp, hteaches.target, hteaches.stored, hteaches.nodup, hteaches.mem_iff, ?_, ?_,
    hteaches.hasCycles⟩
  · intro u _ v hv huv
    exact (hteaches.ordered u v huv hv).imp And.right fun hback ↦ ⟨.single huv, hback⟩
  · exact fun hcycles u v ↦ hteaches.idxOf_lt_of_hasCycles hcycles

/-- Series and sums that each need the other, with something before them and something after. -/
def circle : Graph Unit where
  nodes := [.plain "limits" "Limits", .plain "sums" "Sums", .plain "series" "Series",
    .plain "sets" "Sets"]
  edges := [⟨"sums", "limits", .prerequisite, (), .manual⟩,
    ⟨"series", "sums", .prerequisite, (), .manual⟩,
    ⟨"sums", "series", .prerequisite, (), .manual⟩,
    ⟨"sets", "series", .prerequisite, (), .manual⟩]
  nodup_ids := by decide
  source_mem := by decide
  target_mem := by decide

/-- The cycle is seen, and what is on none still comes first. -/
theorem prerequisites_in_order_circle : "limits" ∈ circle.ids ∧
    ∃ p, circle.prerequisites "limits" = .ok p ∧ p.hasCycles = true ∧
      (p.ordered.map Node.id).idxOf "sets" < (p.ordered.map Node.id).idxOf "series" := by
  have hid : "limits" ∈ circle.ids := by decide
  have hlimits : circle.IsPrerequisite "sums" "limits" :=
    ⟨⟨"sums", "limits", .prerequisite, (), .manual⟩, by decide, rfl, rfl, rfl⟩
  have hsums : circle.IsPrerequisite "series" "sums" :=
    ⟨⟨"series", "sums", .prerequisite, (), .manual⟩, by decide, rfl, rfl, rfl⟩
  have hseries : circle.IsPrerequisite "sums" "series" :=
    ⟨⟨"sums", "series", .prerequisite, (), .manual⟩, by decide, rfl, rfl, rfl⟩
  have hsets : circle.IsPrerequisite "sets" "series" :=
    ⟨⟨"sets", "series", .prerequisite, (), .manual⟩, by decide, rfl, rfl, rfl⟩
  have hfirst : ∀ u, ¬ circle.IsPrerequisite u "sets" := by
    rintro u ⟨e, he, -, -, ht⟩
    have hnone : ∀ e ∈ circle.edges, e.target ≠ "sets" := by decide
    exact hnone e he ht
  obtain ⟨p, hp, -, -, -, hmem, horder, -, hcycles⟩ := prerequisites_in_order hid
  have hleads := TransGen.head hsums (.single hlimits)
  refine ⟨hid, p, hp, hcycles.2 ⟨"sums", .single hlimits, .head hseries (.single hsums)⟩, ?_⟩
  refine (horder _ ((hmem _).2 ⟨by decide, .head hsets hleads⟩) _
    ((hmem _).2 ⟨by decide, hleads⟩) hsets).resolve_right ?_
  rintro ⟨-, hback⟩
  obtain ⟨u, -, hu⟩ := TransGen.tail'_iff.1 hback
  exact hfirst u hu

/-! ### The two cycle checks -/

/-- A cycle of prerequisites is a loop, or it is left when loops are taken out. -/
theorem cyclic_isPrerequisite_iff : Cycle.Cyclic g.IsPrerequisite ↔
    Cycle.Cyclic g.IsProperPrerequisite ∨ ∃ v, g.IsPrerequisite v v := by
  constructor
  · rintro ⟨v, hv⟩
    rcases Classical.em (∃ v, g.IsPrerequisite v v) with hloop | hloop
    · exact .inr hloop
    · refine .inl ⟨v, TransGen.mono (fun u w huw ↦ ⟨huw, ?_⟩) v v hv⟩
      rintro rfl
      exact hloop ⟨u, huw⟩
  · rintro (⟨v, hv⟩ | ⟨v, hv⟩)
    · exact ⟨v, TransGen.mono (fun _ _ h ↦ h.1) v v hv⟩
    · exact ⟨v, .single hv⟩

theorem exists_loop_iff : (∃ v, g.IsPrerequisite v v) ↔
    ∃ e ∈ g.edges, e.relationship = .prerequisite ∧ e.source = e.target := by
  constructor
  · rintro ⟨v, e, he, hr, hs, ht⟩
    exact ⟨e, he, hr, hs.trans ht.symm⟩
  · rintro ⟨e, he, hr, hloop⟩
    exact ⟨e.target, e, he, hr, hloop, rfl⟩

/-- Some query sees a cycle exactly if there is one. -/
theorem exists_hasCycles_iff :
    (∃ id p, g.prerequisites id = .ok p ∧ p.hasCycles = true) ↔ Cycle.Cyclic g.IsPrerequisite := by
  constructor
  · rintro ⟨id, p, hp, hcycles⟩
    obtain ⟨q, hq, hteaches⟩ := teaches_prerequisites (mem_ids_of_prerequisites hp)
    cases hp.symm.trans hq
    obtain ⟨v, -, hv⟩ := hteaches.hasCycles.1 hcycles
    exact ⟨v, hv⟩
  · rintro ⟨v, hv⟩
    obtain ⟨u, huv, -⟩ := TransGen.head'_iff.1 hv
    obtain ⟨p, hp, hteaches⟩ := teaches_prerequisites huv.mem_ids.1
    exact ⟨v, p, hp, hteaches.hasCycles.2 ⟨v, .refl, hv⟩⟩

/-- A validation reports a cycle exactly if there is one without a loop. -/
theorem exists_prerequisiteCycle_iff {withSummary : Bool} :
    (∃ f ∈ (g.validate withSummary).errors, f.code = .prerequisiteCycle) ↔
      Cycle.Cyclic g.IsProperPrerequisite := by
  obtain ⟨nodes, hreported, -⟩ := exists_reportedIf_cycleError g withSummary
  exact hreported.exists_code_iff

theorem not_cyclic_of_isValid (h : g.isValid = true) : ¬ Cycle.Cyclic g.IsPrerequisite := by
  obtain ⟨hloop, hcycle, -⟩ := isValid_validate_iff.1 h
  rw [cyclic_isPrerequisite_iff, not_or]
  refine ⟨cycleFinding?_eq_none_iff.1 hcycle, fun hexists ↦ ?_⟩
  obtain ⟨e, he, -, hends⟩ := exists_loop_iff.1 hexists
  rw [loopFinding?_eq_ite, if_pos ⟨e, he, hends⟩] at hloop
  nomatch hloop

/-- **The two cycle checks agree**: some query sees a cycle exactly if the validation reports one or
there is a loop of a prerequisite. So in a valid graph each concept has all that leads to it listed
once, each of them behind all that leads to it in turn. -/
theorem hasCycles_agrees (g : Graph W) (withSummary : Bool) :
    ((∃ id p, g.prerequisites id = .ok p ∧ p.hasCycles = true) ↔
      (∃ f ∈ (g.validate withSummary).errors, f.code = .prerequisiteCycle) ∨
        ∃ e ∈ g.edges, e.relationship = .prerequisite ∧ e.source = e.target) ∧
    (g.isValid = true → ∀ id ∈ g.ids, ∃ p, g.prerequisites id = .ok p ∧ p.hasCycles = false ∧
      (p.ordered.map Node.id).Nodup ∧
      (∀ u, u ∈ p.ordered.map Node.id ↔ TransGen g.IsPrerequisite u id) ∧
      ∀ u v, TransGen g.IsPrerequisite u v → v ∈ p.ordered.map Node.id →
        u ∈ p.ordered.map Node.id ∧
          (p.ordered.map Node.id).idxOf u < (p.ordered.map Node.id).idxOf v) := by
  constructor
  · rw [exists_hasCycles_iff, cyclic_isPrerequisite_iff, exists_prerequisiteCycle_iff,
      exists_loop_iff]
  · intro hvalid id hid
    have hacyclic := not_cyclic_of_isValid hvalid
    obtain ⟨p, hp, hteaches⟩ := teaches_prerequisites hid
    refine ⟨p, hp, ?_, hteaches.nodup, fun u ↦ ?_, fun u v ↦ hteaches.idxOf_lt hacyclic⟩
    · rw [← Bool.not_eq_true, hteaches.hasCycles]
      rintro ⟨v, -, hv⟩
      exact hacyclic ⟨v, hv⟩
    · rw [hteaches.mem_iff]
      refine and_iff_right_of_imp ?_
      rintro hu rfl
      exact hacyclic ⟨u, hu⟩

/-- Three lessons that need each other in a line; the last one leads on to the first. -/
def lessons : Graph Unit where
  nodes := [.plain "groups" "Groups", .plain "maps" "Maps", .plain "sets" "Sets"]
  edges := [⟨"maps", "groups", .prerequisite, (), .manual⟩,
    ⟨"sets", "maps", .prerequisite, (), .manual⟩, ⟨"groups", "sets", .leadsTo, (), .manual⟩]
  nodup_ids := by decide
  source_mem := by decide
  target_mem := by decide

theorem hasCycles_agrees_lessons : lessons.isValid = true ∧ "groups" ∈ lessons.ids ∧
    ∃ p, lessons.prerequisites "groups" = .ok p ∧ p.hasCycles = false ∧
      (p.ordered.map Node.id).idxOf "sets" < (p.ordered.map Node.id).idxOf "maps" := by
  have hvalid : lessons.isValid = true := by decide
  have hid : "groups" ∈ lessons.ids := by decide
  have hsets : lessons.IsPrerequisite "sets" "maps" :=
    ⟨⟨"sets", "maps", .prerequisite, (), .manual⟩, by decide, rfl, rfl, rfl⟩
  have hmaps : lessons.IsPrerequisite "maps" "groups" :=
    ⟨⟨"maps", "groups", .prerequisite, (), .manual⟩, by decide, rfl, rfl, rfl⟩
  obtain ⟨p, hp, hcycles, -, hmem, hlt⟩ := (hasCycles_agrees lessons true).2 hvalid _ hid
  exact ⟨hvalid, hid, p, hp, hcycles, (hlt _ _ (.single hsets) ((hmem _).2 (.single hmaps))).2⟩

end Graph

end ConceptAtlas
