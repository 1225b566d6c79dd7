import Mathlib
import ConceptAtlas.Graph.Neighborhood
import ConceptAtlas.Proofs.Graph.History
import ConceptAtlas.Proofs.Graph.Breadth

/-!
# Neighborhoods are exact

A neighborhood holds the nodes that are at least one and at most `radius` hops away from its center,
where a hop goes over an edge that passes the filter, in either direction
(`Graph.isExact_neighborhood`). It holds the edges that pass the filter and have an end less than
`radius` hops away; the center is none away, so the loops at it are among them.

The search keeps what breadth-first search keeps, and beside that its edges are those around the
near ones of the nodes that it has come to (`HopSearch.Holds`). Nodes and edges are cut off at
different places, so they are accounted for separately: the nodes by their distances
(`HopSearch.Holds.mem_depths_iff`), the edges by the nodes that the search looks around from
(`HopSearch.Holds.mem_looked_iff`). An edge is seen from both its ends, and from one of them for
each parallel edge; that it is listed once is a matter of its position (`Graph.exists_positions`),
so of equal edges at two positions both are listed.
-/

namespace ConceptAtlas

namespace Graph

variable {W : Type} {g : Graph W} {filter : Option Relationship} {u v id : String} {i n : Nat}
  {e : Edge W}

/-! ### Hops -/

/-- One hop goes over an edge that passes the filter, in either direction. -/
def Hop (g : Graph W) (filter : Option Relationship) (u v : String) : Prop :=
  ∃ e ∈ g.edges, passes filter e = true ∧
    (e.source = u ∧ e.target = v ∨ e.source = v ∧ e.target = u)

/-- The least number of hops from a node to another. -/
def IsHopDistance (g : Graph W) (filter : Option Relationship) (u v : String) (n : Nat) : Prop :=
  Steps.IsDistance (g.Hop filter) u v n

theorem Hop.mem_ids (h : g.Hop filter u v) : v ∈ g.ids := by
  obtain ⟨e, he, -, ⟨-, rfl⟩ | ⟨rfl, -⟩⟩ := h
  · exact g.target_mem e he
  · exact g.source_mem e he

theorem otherEnd?_eq_some_iff : otherEnd? id e = some v ↔
    e.source = id ∧ e.target = v ∨ e.source ≠ id ∧ e.target = id ∧ e.source = v := by
  rw [otherEnd?]
  by_cases hs : e.source = id <;> by_cases ht : e.target = id <;> simp [hs, ht]

theorem exists_otherEnd?_iff :
    (∃ v, otherEnd? id e = some v) ↔ e.source = id ∨ e.target = id := by
  simp only [otherEnd?_eq_some_iff]
  by_cases hs : e.source = id <;> simp [hs]

theorem mem_incident_iff : (i, v, e) ∈ g.incident filter id ↔
    g.edges[i]? = some e ∧ passes filter e = true ∧ otherEnd? id e = some v := by
  rw [incident, List.mem_filterMap]
  constructor
  · rintro ⟨⟨f, j⟩, hf, heq⟩
    rw [List.mem_zipIdx_iff_getElem?] at hf
    dsimp only at hf heq
    split at heq
    · rename_i hpass
      obtain ⟨w, hw, heq⟩ := Option.map_eq_some_iff.1 heq
      cases heq
      exact ⟨hf, hpass, hw⟩
    · cases heq
  · rintro ⟨he, hpass, hv⟩
    exact ⟨(e, i), List.mem_zipIdx_iff_getElem?.2 he, by simp [hpass, hv]⟩

theorem mem_hops_iff : v ∈ g.hops filter u ↔ g.Hop filter u v := by
  rw [hops, List.mem_map]
  constructor
  · rintro ⟨⟨i, w, e⟩, hmem, rfl⟩
    obtain ⟨he, hpass, hend⟩ := mem_incident_iff.1 hmem
    refine ⟨e, List.mem_of_getElem? he, hpass, ?_⟩
    rcases otherEnd?_eq_some_iff.1 hend with ⟨hs, ht⟩ | ⟨-, ht, hs⟩
    · exact .inl ⟨hs, ht⟩
    · exact .inr ⟨hs, ht⟩
  · rintro ⟨e, he, hpass, hends⟩
    obtain ⟨i, hi⟩ := List.mem_iff_getElem?.1 he
    refine ⟨(i, v, e), mem_incident_iff.2 ⟨hi, hpass, otherEnd?_eq_some_iff.2 ?_⟩, rfl⟩
    rcases hends with ⟨hs, ht⟩ | ⟨rfl, ht⟩
    · exact .inl ⟨hs, ht⟩
    · by_cases hloop : e.source = u
      · exact .inl ⟨hloop, ht.trans hloop.symm⟩
      · exact .inr ⟨hloop, ht, rfl⟩

/-- What is some hops away is a node. -/
theorem IsHopDistance.mem_ids (h : g.IsHopDistance filter u v n) (hn : 1 ≤ n) : v ∈ g.ids := by
  obtain ⟨m, rfl⟩ := Nat.exists_eq_add_of_le' hn
  obtain ⟨y, -, hhop⟩ := h.1
  exact hhop.mem_ids

/-! ### Edges by their positions -/

/-- Of edges with positions the first at each position is listed. -/
theorem exists_listed (es : List (Nat × Edge W)) :
    ((es.foldl HopSearch.list []).map Prod.fst).Nodup ∧
      (∀ e ∈ es.foldl HopSearch.list [], e ∈ es) ∧
      ∀ e ∈ es, e.1 ∈ (es.foldl HopSearch.list []).map Prod.fst := by
  induction es using List.reverseRecOn with
  | nil => exact ⟨List.nodup_nil, nofun, nofun⟩
  | append_singleton es e ih =>
    obtain ⟨hnodup, hsub, hkeys⟩ := ih
    rw [List.foldl_concat, HopSearch.list]
    split
    · rename_i hold
      obtain ⟨a, ha, heq⟩ := List.any_eq_true.1 hold
      refine ⟨hnodup, fun x hx ↦ List.mem_append_left _ (hsub x hx), fun x hx ↦ ?_⟩
      rcases List.mem_append.1 hx with hx | hx
      · exact hkeys x hx
      · rw [List.mem_singleton.1 hx, ← eq_of_beq heq]
        exact List.mem_map_of_mem ha
    · rename_i hnew
      rw [List.map_append]
      refine ⟨hnodup.append (List.nodup_singleton _) ?_, fun x hx ↦ ?_, fun x hx ↦ ?_⟩
      · intro i hi hlast
        obtain ⟨a, ha, rfl⟩ := List.mem_map.1 hi
        exact hnew (List.any_eq_true.2 ⟨a, ha, beq_iff_eq.2 (List.mem_singleton.1 hlast)⟩)
      · exact (List.mem_append.1 hx).elim (fun hx ↦ List.mem_append_left _ (hsub x hx))
          fun hx ↦ List.mem_append_right _ hx
      · exact (List.mem_append.1 hx).elim (fun hx ↦ List.mem_append_left _ (hkeys x hx))
          fun hx ↦ List.mem_append_right _ (List.mem_map_of_mem hx)

/-- Each edge is listed once, whatever edges are equal to it. -/
theorem exists_positions {es : List (Nat × Edge W)} (h : ∀ e ∈ es, g.edges[e.1]? = some e.2) :
    ∃ is : List Nat, is.Nodup ∧
      is.map (g.edges[·]?) = ((es.foldl HopSearch.list []).map Prod.snd).map some ∧
      ∀ i, i ∈ is ↔ ∃ e, (i, e) ∈ es := by
  obtain ⟨hnodup, hsub, hkeys⟩ := exists_listed es
  refine ⟨_, hnodup, ?_, fun i ↦ ⟨fun hi ↦ ?_, fun ⟨e, he⟩ ↦ hkeys _ he⟩⟩
  · rw [List.map_map, List.map_map]
    exact List.map_congr_left fun e he ↦ h e (hsub e he)
  · obtain ⟨⟨j, e⟩, he, rfl⟩ := List.mem_map.1 hi
    exact ⟨e, hsub _ he⟩

/-- The edges at some nodes, with their positions: node by node, and edge by edge at each. -/
def edgesAround (g : Graph W) (filter : Option Relationship) (radius : Int)
    (nodes : List (String × Nat)) : List (Nat × Edge W) :=
  (nodes.filter fun d ↦ (d.2 : Int) < radius).flatMap fun d ↦
    (g.incident filter d.1).map fun e ↦ (e.1, e.2.2)

theorem mem_edgesAround_iff {radius : Int} {nodes : List (String × Nat)} :
    (i, e) ∈ g.edgesAround filter radius nodes ↔
      g.edges[i]? = some e ∧ passes filter e = true ∧
        ∃ v d, (e.source = v ∨ e.target = v) ∧ (v, d) ∈ nodes ∧ (d : Int) < radius := by
  simp only [edgesAround, List.mem_flatMap, List.mem_filter, decide_eq_true_iff]
  constructor
  · rintro ⟨⟨v, d⟩, ⟨hd, hlt⟩, hmem⟩
    obtain ⟨⟨j, w, f⟩, hf, heq⟩ := List.mem_map.1 hmem
    cases heq
    obtain ⟨he, hpass, hend⟩ := mem_incident_iff.1 hf
    exact ⟨he, hpass, v, d, exists_otherEnd?_iff.1 ⟨w, hend⟩, hd, hlt⟩
  · rintro ⟨he, hpass, v, d, hend, hd, hlt⟩
    obtain ⟨w, hw⟩ := exists_otherEnd?_iff.2 hend
    exact ⟨(v, d), ⟨hd, hlt⟩, List.mem_map.2 ⟨(i, w, e), mem_incident_iff.2 ⟨he, hpass, hw⟩, rfl⟩⟩

end Graph

/-! ### What the search keeps -/

namespace HopSearch

variable {W : Type} {g : Graph W} {filter : Option Relationship} {radius : Int} {id : String}
  {s : HopSearch W} {looked : List (String × Nat)}

/-- What a search from a node keeps, where `looked` are the nodes that it has come to in its queue:
the depths that breadth-first search keeps, and the edges around those of the nodes that are near.
-/
structure Holds (g : Graph W) (filter : Option Relationship) (radius : Int) (id : String)
    (looked : List (String × Nat)) (s : HopSearch W) : Prop where
  depths : s.depths.Holds (g.Hop filter) (fun n ↦ (n : Int) < radius) id looked
  edges : s.edges = (g.edgesAround filter radius looked).foldl list []

theorem edges_foldl_cross (id : String) (depth : Nat) (s : HopSearch W)
    (xs : List (Nat × String × Edge W)) :
    (xs.foldl (cross id depth) s).edges = (xs.map fun x ↦ (x.1, x.2.2)).foldl list s.edges := by
  induction xs generalizing s with
  | nil => rfl
  | cons x xs ih => exact ih _

namespace Holds

theorem start (g : Graph W) (filter : Option Relationship) (radius : Int) (id : String) :
    Holds g filter radius id [] (HopSearch.start id) where
  depths := .start _ _ id
  edges := rfl

theorem step (h : Holds g filter radius id looked s) {v : String} {depth : Nat}
    {rest : List (String × Nat)} (hqueue : s.depths.queue = (v, depth) :: rest) :
    Holds g filter radius id (looked ++ [(v, depth)]) (s.step g filter radius id) where
  depths := by
    rw [depths_step_cons hqueue]
    split
    · rename_i hnear
      refine h.depths.expand hqueue (fun m hm ↦ ?_) fun u ↦ Graph.mem_hops_iff
      exact Int.lt_of_le_of_lt (Int.ofNat_le.2 hm) hnear
    · rename_i hfar
      exact h.depths.skip hqueue hfar
  edges := by
    have hedges := h.edges
    rw [HopSearch.step, hqueue, Graph.edgesAround, List.filter_append, List.flatMap_append,
      List.foldl_append, ← Graph.edgesAround, ← hedges]
    by_cases hnear : (depth : Int) < radius
    · rw [List.filter_cons_of_pos (by simpa using hnear), List.filter_nil, List.flatMap_singleton]
      simp only [hnear, if_true]
      exact edges_foldl_cross id (depth + 1) _ _
    · rw [List.filter_cons_of_neg (by simpa using hnear)]
      simp only [hnear, if_false]
      rfl

theorem run (h : Holds g filter radius id looked s) :
    ∃ looked, Holds g filter radius id looked (s.run g filter radius id) ∧
      (s.run g filter radius id).depths.queue = [] := by
  fun_induction HopSearch.run g filter radius id s generalizing looked with
  | case1 s hqueue => exact ⟨looked, h, hqueue⟩
  | case2 s hqueue ih =>
    obtain ⟨⟨v, depth⟩, rest, hqueue⟩ := List.exists_cons_of_ne_nil hqueue
    exact ih (h.step hqueue)

/-- In the end the search has found what is within the radius. -/
theorem mem_depths_iff (h : Holds g filter radius id looked s) (hqueue : s.depths.queue = [])
    {v : String} {d : Nat} : (v, d) ∈ s.depths.depths ↔
      1 ≤ d ∧ (d : Int) ≤ radius ∧ g.IsHopDistance filter id v d := by
  rw [← Assoc.find?_eq_some_iff h.depths.nodup_depths, h.depths.find?_depths_iff hqueue,
    ← Graph.IsHopDistance]
  constructor
  · rintro ⟨hne, hdist, hnear⟩
    have hpos : 1 ≤ d := hdist.pos_iff.2 hne
    have hlast : ((d - 1 : Nat) : Int) < radius := hnear (d - 1) (Nat.sub_one_lt_of_lt hpos)
    exact ⟨hpos, by omega, hdist⟩
  · rintro ⟨hpos, hle, hdist⟩
    exact ⟨hdist.pos_iff.1 hpos, hdist, fun m hm ↦ by omega⟩

/-- It has looked around from what is less far away than that. -/
theorem mem_looked_iff (h : Holds g filter radius id looked s) (hqueue : s.depths.queue = [])
    {v : String} {d : Nat} : (v, d) ∈ looked ∧ (d : Int) < radius ↔
      g.IsHopDistance filter id v d ∧ (d : Int) ≤ radius - 1 := by
  rw [h.depths.mem_looked_iff hqueue, ← Graph.IsHopDistance, Int.le_sub_one_iff, and_assoc]
  refine and_congr_right fun _ ↦ and_iff_right_of_imp fun hlt m hm ↦ ?_
  exact (Int.ofNat_lt.2 hm).trans hlt

end Holds

end HopSearch

namespace Graph

/-! ### The answer -/

/-- The answer about a node is what its search comes to. -/
theorem exists_neighborhood (g : Graph W) {id : String} (hid : id ∈ g.ids) (radius : Int)
    (filter : Option Relationship) :
    ∃ (n : Neighborhood W) (s : HopSearch W), g.neighborhood id radius filter = .ok n ∧
      g.node? id = some n.center ∧ n.nodes = s.depths.depths.filterMap (fun d ↦ g.node? d.1) ∧
      n.edges = s.edges.map Prod.snd ∧ n.distances = s.depths.depths ∧ s.depths.queue = [] ∧
      HopSearch.Holds g filter radius id ((id, 0) :: s.depths.depths) s := by
  obtain ⟨center, hcenter, rfl⟩ := List.mem_map.1 hid
  obtain ⟨looked, hholds, hqueue⟩ := (HopSearch.Holds.start g filter radius center.id).run
  obtain rfl := hholds.depths.looked_eq hqueue
  refine ⟨_, _, by rw [neighborhood, node, node?_of_mem hcenter]; rfl, node?_of_mem hcenter, rfl,
    rfl, rfl, hqueue, hholds⟩

/-- An answer about a neighborhood: the nodes from one hop up to `radius` hops away, nearer ones
first, their distances, and the edges with an end less than `radius` hops away. -/
structure IsExact (g : Graph W) (id : String) (radius : Int) (filter : Option Relationship)
    (n : Neighborhood W) : Prop where
  center : g.node? id = some n.center
  stored : ∀ m ∈ n.nodes, g.node? m.id = some m
  /-- The distances are those of the nodes, in their order. -/
  nodes : n.nodes.map Node.id = n.distances.map Prod.fst
  nodup : (n.nodes.map Node.id).Nodup
  ascending : (n.distances.map Prod.snd).Pairwise (· ≤ ·)
  distance_iff : ∀ v d, Assoc.find? v n.distances = some d ↔
    1 ≤ d ∧ (d : Int) ≤ radius ∧ g.IsHopDistance filter id v d
  /-- No distance is missing where the nodes are shown with theirs. -/
  shown : ∀ m ∈ n.nodes, ∃ d, Assoc.find? m.id n.distances = some d
  /-- The edges are listed by their positions, each of which comes once. -/
  edges : ∃ is : List Nat, is.Nodup ∧ is.map (g.edges[·]?) = n.edges.map some ∧
    ∀ i, i ∈ is ↔ ∃ e, g.edges[i]? = some e ∧ passes filter e = true ∧
      ∃ v d, (e.source = v ∨ e.target = v) ∧ g.IsHopDistance filter id v d ∧ (d : Int) ≤ radius - 1
  empty : radius ≤ 0 → n.nodes = [] ∧ n.edges = [] ∧ n.distances = []

/-- **A neighborhood is exact**, for every radius and filter. -/
theorem isExact_neighborhood (g : Graph W) {id : String} (hid : id ∈ g.ids) (radius : Int)
    (filter : Option Relationship) :
    ∃ n, g.neighborhood id radius filter = .ok n ∧ g.IsExact id radius filter n := by
  obtain ⟨⟨center, nodes, edges, distances⟩, s, hn, hcenter, hnodes, hedges, hdistances, hqueue,
    hholds⟩ := g.exists_neighborhood hid radius filter
  obtain rfl : distances = s.depths.depths := hdistances
  obtain rfl : edges = s.edges.map Prod.snd := hedges
  obtain rfl : nodes = s.depths.depths.filterMap fun d ↦ g.node? d.1 := hnodes
  have hids : ∀ v ∈ s.depths.depths.map Prod.fst, v ∈ g.ids := by
    intro v hv
    obtain ⟨⟨w, d⟩, hmem, rfl⟩ := List.mem_map.1 hv
    obtain ⟨hpos, -, hdist⟩ := (hholds.mem_depths_iff hqueue).1 hmem
    exact hdist.mem_ids hpos
  have hmap := map_id_filterMap_node? hids
  rw [List.filterMap_map] at hmap
  refine ⟨_, hn, ?_⟩
  exact {
    center := hcenter
    stored := fun m hm ↦ by
      obtain ⟨d, -, hd⟩ := List.mem_filterMap.1 hm
      exact node?_of_mem (List.mem_of_find?_eq_some hd)
    nodes := hmap
    nodup := hmap ▸ hholds.depths.nodup_depths
    ascending := List.pairwise_map.2 hholds.depths.ascending_depths
    distance_iff := fun v d ↦ by
      rw [Assoc.find?_eq_some_iff hholds.depths.nodup_depths, hholds.mem_depths_iff hqueue]
    shown := fun m hm ↦ Assoc.exists_find?_of_mem (hmap ▸ List.mem_map_of_mem hm)
    edges := by
      obtain ⟨is, hnodup, hmap, hmem⟩ :=
        exists_positions fun x hx ↦ (mem_edgesAround_iff.1 hx).1
      rw [← hholds.edges] at hmap
      refine ⟨is, hnodup, hmap, fun i ↦ (hmem i).trans (exists_congr fun e ↦ ?_)⟩
      rw [mem_edgesAround_iff]
      simp only [hholds.mem_looked_iff hqueue]
    empty := fun hradius ↦ by
      have hdepths : s.depths.depths = [] := List.eq_nil_iff_forall_not_mem.2 fun ⟨v, d⟩ hd ↦ by
        obtain ⟨hpos, hle, -⟩ := (hholds.mem_depths_iff hqueue).1 hd
        omega
      have hnear : [(id, (0 : Nat))].filter (fun d ↦ (d.2 : Int) < radius) = [] := by
        simpa using hradius
      rw [hholds.edges, hdepths, edgesAround, hnear]
      exact ⟨rfl, rfl, rfl⟩ }

/-- Four harbours. Two ferries that are equal run from the port to the cape and one runs back; a
round trip starts at the cape, and another boat goes on from there. -/
def ferries : Graph Nat where
  nodes := [.plain "port" "Port", .plain "cape" "Cape", .plain "reef" "Reef", .plain "bay" "Bay"]
  edges := [⟨"port", "cape", .leadsTo, 1, .manual⟩, ⟨"port", "cape", .leadsTo, 1, .manual⟩,
    ⟨"cape", "port", .leadsTo, 1, .manual⟩, ⟨"cape", "cape", .leadsTo, 1, .manual⟩,
    ⟨"reef", "cape", .leadsTo, 1, .manual⟩, ⟨"reef", "bay", .relatesTo, 1, .manual⟩]
  nodup_ids := by decide
  source_mem := by decide
  target_mem := by decide

theorem isExact_neighborhood_ferries : "port" ∈ ferries.ids ∧
    ∃ n, ferries.neighborhood "port" 2 (some .leadsTo) = .ok n ∧
      ferries.IsExact "port" 2 (some .leadsTo) n ∧ n.distances = [("cape", 1), ("reef", 2)] ∧
      n.edges.length = 5 := by
  have hport : "port" ∈ ferries.ids := by decide
  obtain ⟨n, hn, hexact⟩ := isExact_neighborhood ferries hport 2 (some .leadsTo)
  have hdistances : (ferries.neighborhood "port" 2 (some .leadsTo)).map (·.distances) =
      .ok [("cape", 1), ("reef", 2)] := by cbv
  have hedges : (ferries.neighborhood "port" 2 (some .leadsTo)).map (·.edges.length) = .ok 5 := by
    cbv
  rw [hn] at hdistances hedges
  exact ⟨hport, n, hn, hexact, Except.ok.inj hdistances, Except.ok.inj hedges⟩

end Graph

end ConceptAtlas
