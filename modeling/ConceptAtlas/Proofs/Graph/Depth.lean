import Mathlib
import ConceptAtlas.Graph.View
import ConceptAtlas.Proofs.Graph.Breadth
import ConceptAtlas.Proofs.Graph.Prerequisite
import ConceptAtlas.Proofs.Graph.Route

/-!
# Depths are the lengths of shortest chains

The depth of a concept is the least number of stored prerequisite edges that lead from it to the
target (`Graph.IsDepth`). The search gives depths to exactly the concepts that the learning order
lists, and each its depth (`Graph.depths_cover_order`). So where the two are shown together no depth
is ever missing, whatever cycles there are.

The depth search goes breadth first against prerequisite edges, and keeps what such searches keep
(`DepthSearch.Holds`). The depth search and the walk that lists concepts are never run side by side:
both are held against reachability.
-/

namespace ConceptAtlas

open Relation (TransGen ReflTransGen)

variable {W : Type} {g : Graph W}

namespace Graph

variable {u v : String} {n : Nat}

/-! ### Depths -/

/-- The least number of stored prerequisite edges on a chain from one concept to another. -/
def IsDepth (g : Graph W) (u v : String) (n : Nat) : Prop :=
  IsLeast {m | ∃ es, g.IsChain u es v ∧ (∀ e ∈ es, e.relationship = .prerequisite) ∧
    es.length = m} n

/-- A chain to the target is a way from it against the edges. -/
theorem leads_iff : Steps.Leads (fun v u ↦ g.IsPrerequisite u v) v n u ↔
    ∃ es, g.IsChain u es v ∧ (∀ e ∈ es, e.relationship = .prerequisite) ∧ es.length = n := by
  induction n generalizing u with
  | zero =>
    constructor
    · intro h
      exact ⟨[], h, List.forall_mem_nil _, rfl⟩
    · rintro ⟨es, hchain, -, hlength⟩
      obtain rfl := List.length_eq_zero_iff.1 hlength
      exact hchain
  | succ n ih =>
    constructor
    · rintro ⟨w, hw, e, he, hr, hs, ht⟩
      obtain ⟨es, hchain, hes, hlength⟩ := ih.1 hw
      refine ⟨e :: es, ⟨he, hs, ht ▸ hchain⟩, List.forall_mem_cons.2 ⟨hr, hes⟩, ?_⟩
      rw [List.length_cons, hlength]
    · rintro ⟨es, hchain, hes, hlength⟩
      obtain ⟨e, es, rfl⟩ := List.exists_cons_of_length_eq_add_one hlength
      obtain ⟨hr, hes⟩ := List.forall_mem_cons.1 hes
      obtain ⟨he, hs, hchain⟩ := hchain
      exact ⟨e.target, ih.2 ⟨es, hchain, hes, Nat.succ.inj hlength⟩, e, he, hr, hs, rfl⟩

theorem isDepth_iff :
    g.IsDepth u v n ↔ Steps.IsDistance (fun v u ↦ g.IsPrerequisite u v) v u n := by
  have hset : {m | ∃ es, g.IsChain u es v ∧ (∀ e ∈ es, e.relationship = .prerequisite) ∧
      es.length = m} = {m | Steps.Leads (fun v u ↦ g.IsPrerequisite u v) v m u} :=
    Set.ext fun m ↦ leads_iff.symm
  rw [IsDepth, Steps.IsDistance, hset]

theorem isDepth_zero_iff : g.IsDepth u v 0 ↔ u = v := by
  rw [isDepth_iff, Steps.isDistance_zero_iff]

/-- One step deeper lies what is a direct prerequisite and not less deep. -/
theorem isDepth_succ_iff : g.IsDepth u v (n + 1) ↔
    (∃ w, g.IsDepth w v n ∧ g.IsPrerequisite u w) ∧ ∀ m ≤ n, ¬ g.IsDepth u v m := by
  simp only [isDepth_iff]
  exact Steps.isDistance_succ_iff

theorem isDepth_one_iff : g.IsDepth u v 1 ↔ u ≠ v ∧ g.IsPrerequisite u v := by
  rw [isDepth_succ_iff]
  simp only [Nat.le_zero_eq, forall_eq, isDepth_zero_iff, exists_eq_left]
  exact and_comm

theorem reflTransGen_of_leads (h : Steps.Leads (fun v u ↦ g.IsPrerequisite u v) v n u) :
    ReflTransGen g.IsPrerequisite u v := by
  induction n generalizing u with
  | zero => exact h ▸ .refl
  | succ n ih =>
    obtain ⟨w, hw, huw⟩ := h
    exact .head huw (ih hw)

/-- What leads to a concept has a depth, and nothing else has. -/
theorem exists_isDepth_iff : (∃ n, g.IsDepth u v n) ↔ ReflTransGen g.IsPrerequisite u v := by
  simp only [isDepth_iff]
  constructor
  · rintro ⟨n, hn⟩
    exact reflTransGen_of_leads hn.1
  · intro h
    have hleads : ∃ n, Steps.Leads (fun v u ↦ g.IsPrerequisite u v) v n u := by
      induction h using ReflTransGen.head_induction_on with
      | refl => exact ⟨0, rfl⟩
      | head huw _ ih =>
        obtain ⟨n, hn⟩ := ih
        exact ⟨n + 1, _, hn, huw⟩
    obtain ⟨n, hn⟩ := hleads
    obtain ⟨m, -, hm⟩ := hn.exists_isDistance
    exact ⟨m, hm⟩

end Graph

namespace DepthSearch

variable {target : String} {s : DepthSearch} {looked : List (String × Nat)}

/-- What a search for a target keeps: its steps lead from a concept to its prerequisites, and
nothing is too far away. -/
abbrev Keeps (g : Graph W) (target : String) (looked : List (String × Nat)) (s : DepthSearch) :
    Prop :=
  Holds (fun v u ↦ g.IsPrerequisite u v) (fun _ ↦ True) target looked s

theorem Keeps.run (h : Keeps g target looked s) :
    ∃ looked, Keeps g target looked (s.run g target) ∧ (s.run g target).queue = [] := by
  fun_induction DepthSearch.run g target s generalizing looked with
  | case1 s hqueue => exact ⟨looked, h, hqueue⟩
  | case2 s hqueue ih =>
    obtain ⟨⟨v, depth⟩, rest, hqueue⟩ := List.exists_cons_of_ne_nil hqueue
    refine @ih (looked ++ [(v, depth)]) ?_
    rw [step, hqueue]
    exact h.expand hqueue (fun _ _ ↦ trivial) fun u ↦ Graph.mem_prerequisiteSources

end DepthSearch

namespace Graph

/-! ### What a query shows -/

theorem prerequisitesAt_congr {p : Prerequisites} {depthOf depthOf' : String → Nat}
    (h : ∀ n ∈ p.ordered, depthOf n.id = depthOf' n.id) :
    View.prerequisitesAt p depthOf = View.prerequisitesAt p depthOf' := by
  have hitems : p.ordered.map (fun n ↦
        Json.obj [("node", View.node n), ("depth", Json.ofNat (depthOf n.id))]) =
      p.ordered.map fun n ↦
        Json.obj [("node", View.node n), ("depth", Json.ofNat (depthOf' n.id))] :=
    List.map_congr_left fun n hn ↦ by rw [h n hn]
  rw [View.prerequisitesAt, View.prerequisitesAt, hitems]

/-- **Every concept of the graph has its depths**: what leads to it has the length of a shortest
chain, and nothing else has a depth. -/
theorem exists_prerequisiteDepths {id : String} (hid : id ∈ g.ids) :
    ∃ depths, g.prerequisiteDepths id = .ok depths ∧ (depths.map Prod.fst).Nodup ∧
      ∀ u n, Assoc.find? u depths = some n ↔ u ≠ id ∧ g.IsDepth u id n := by
  obtain ⟨target, hnode, rfl⟩ := List.mem_map.1 hid
  obtain ⟨looked, hkeeps, hqueue⟩ :=
    DepthSearch.Keeps.run (DepthSearch.Holds.start (fun v u ↦ g.IsPrerequisite u v) _ target.id)
  refine ⟨_, by rw [prerequisiteDepths, node, node?_of_mem hnode]; rfl, hkeeps.nodup_depths,
    fun u n ↦ ?_⟩
  rw [hkeeps.find?_depths_iff hqueue, isDepth_iff]
  simp only [implies_true, and_true]

/-- **Depths cover the learning order.** The concepts that have a depth are exactly those that the
order lists, each once, so the depth that is shown never depends on what would stand for a missing
one. The depth of a concept is the length of a shortest chain from it to the target, which is one
exactly for the direct prerequisites among them. -/
theorem depths_cover_order {id : String} (hid : id ∈ g.ids) :
    ∃ p depths, g.prerequisites id = .ok p ∧ g.prerequisiteDepths id = .ok depths ∧
      (depths.map Prod.fst).Nodup ∧
      (∀ u, u ∈ depths.map Prod.fst ↔ u ∈ p.ordered.map Node.id) ∧
      (∀ fallback, View.prerequisites p depths =
        View.prerequisitesAt p fun u ↦ (Assoc.find? u depths).getD fallback) ∧
      (∀ u n, Assoc.find? u depths = some n ↔ u ≠ id ∧ g.IsDepth u id n) ∧
      ∀ u, Assoc.find? u depths = some 1 ↔ u ≠ id ∧ g.IsPrerequisite u id := by
  obtain ⟨p, hp, hteaches⟩ := teaches_prerequisites hid
  obtain ⟨depths, hdepths, hnodup, hfind⟩ := exists_prerequisiteDepths hid
  have hkeys : ∀ u, u ∈ depths.map Prod.fst ↔ u ∈ p.ordered.map Node.id := fun u ↦ by
    rw [hteaches.mem_iff]
    constructor
    · intro hu
      obtain ⟨n, hn⟩ := Assoc.exists_find?_of_mem hu
      obtain ⟨hne, hdepth⟩ := (hfind u n).1 hn
      have hleads := exists_isDepth_iff.1 ⟨n, hdepth⟩
      exact ⟨hne, (Relation.reflTransGen_iff_eq_or_transGen.1 hleads).resolve_left hne.symm⟩
    · rintro ⟨hne, hleads⟩
      obtain ⟨n, hn⟩ := exists_isDepth_iff.2 hleads.to_reflTransGen
      exact List.mem_map_of_mem ((Assoc.find?_eq_some_iff hnodup).1 ((hfind u n).2 ⟨hne, hn⟩))
  refine ⟨p, depths, hp, hdepths, hnodup, hkeys, fun fallback ↦ ?_, hfind, fun u ↦ ?_⟩
  · refine prerequisitesAt_congr fun m hm ↦ ?_
    obtain ⟨n, hn⟩ := Assoc.exists_find?_of_mem ((hkeys m.id).2 (List.mem_map_of_mem hm))
    rw [hn, Option.getD_some, Option.getD_some]
  · rw [hfind, isDepth_one_iff, ← and_assoc, and_self]

/-- A house with two ways from the hall to the top, two from the cellar to the hall that are equal,
and a way back down. -/
def stairs : Graph Unit where
  nodes := [.plain "top" "Top", .plain "landing" "Landing", .plain "hall" "Hall",
    .plain "cellar" "Cellar"]
  edges := [⟨"landing", "top", .prerequisite, (), .manual⟩,
    ⟨"hall", "landing", .prerequisite, (), .manual⟩,
    ⟨"hall", "top", .prerequisite, (), .manual⟩, ⟨"top", "top", .prerequisite, (), .manual⟩,
    ⟨"cellar", "hall", .prerequisite, (), .manual⟩,
    ⟨"cellar", "hall", .prerequisite, (), .manual⟩,
    ⟨"top", "cellar", .prerequisite, (), .manual⟩]
  nodup_ids := by decide
  source_mem := by decide
  target_mem := by decide

/-- The walk comes to the hall over the landing, and still its depth is one. -/
theorem depths_cover_order_stairs : "top" ∈ stairs.ids ∧
    ∃ p depths, stairs.prerequisites "top" = .ok p ∧ stairs.prerequisiteDepths "top" = .ok depths ∧
      depths = [("landing", 1), ("hall", 1), ("cellar", 2)] ∧
      "cellar" ∈ p.ordered.map Node.id ∧ stairs.IsDepth "cellar" "top" 2 := by
  have hid : "top" ∈ stairs.ids := by decide
  have heval : stairs.prerequisiteDepths "top" =
      .ok [("landing", 1), ("hall", 1), ("cellar", 2)] := by cbv
  obtain ⟨p, depths, hp, hdepths, -, hkeys, -, hfind, -⟩ := depths_cover_order hid
  obtain rfl := Except.ok.inj (hdepths.symm.trans heval)
  exact ⟨hid, p, _, hp, hdepths, rfl, (hkeys "cellar").1 (by decide),
    ((hfind "cellar" 2).1 (by decide)).2⟩

end Graph

end ConceptAtlas
