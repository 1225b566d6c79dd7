import ConceptAtlas.Graph.Basic

/-!
# Graphs from lists

What comes of adding many nodes and then many edges. Nodes alone decide which edges are kept: adding
edges never changes the ids, so every edge of a list is judged by the same ids, wherever it stands
(`edges_foldl_offerEdge`). A graph's own records build that graph again (`ofRecords_self`).
-/

namespace ConceptAtlas.Graph

variable {W : Type}

/-! ### Many nodes -/

theorem nodes_foldl_addNode (ns : List Node) (g : Graph W) :
    (ns.foldl addNode g).nodes = ns.foldl (fun ms n ↦ upsert n ms) g.nodes := by
  induction ns generalizing g with
  | nil => rfl
  | cons n ns ih => exact ih (g.addNode n)

theorem edges_foldl_addNode (ns : List Node) (g : Graph W) :
    (ns.foldl addNode g).edges = g.edges := by
  induction ns generalizing g with
  | nil => rfl
  | cons n ns ih => exact ih (g.addNode n)

/-- Many nodes bring their ids and take none away. -/
theorem mem_ids_foldl_addNode {ns : List Node} {g : Graph W} {id : String} :
    id ∈ (ns.foldl addNode g).ids ↔ id ∈ g.ids ∨ id ∈ ns.map Node.id := by
  induction ns generalizing g with
  | nil => simp
  | cons n ns ih =>
    have hstep : id ∈ (g.addNode n).ids ↔ id ∈ g.ids ∨ id = n.id := mem_map_id_upsert
    rw [List.foldl_cons, ih, hstep, List.map_cons, List.mem_cons, or_assoc]

theorem upsert_of_not_mem {n : Node} {ns : List Node} (h : n.id ∉ ns.map Node.id) :
    upsert n ns = ns ++ [n] := by
  induction ns with
  | nil => rfl
  | cons m ms ih =>
    rw [List.map_cons, List.mem_cons, not_or] at h
    rw [upsert, if_neg fun e ↦ h.1 e.symm, ih h.2, List.cons_append]

/-- Nodes with ids of their own are appended one after the other. -/
theorem foldl_upsert_of_nodup {ns ms : List Node} (h : ((ms ++ ns).map Node.id).Nodup) :
    ns.foldl (fun ms n ↦ upsert n ms) ms = ms ++ ns := by
  induction ns generalizing ms with
  | nil => simp
  | cons n ns ih =>
    have hn : n.id ∉ ms.map Node.id := by
      rw [List.map_append, List.map_cons] at h
      exact fun hm ↦ (List.nodup_append.1 h).2.2 _ hm _ List.mem_cons_self rfl
    have happ : ms ++ [n] ++ ns = ms ++ n :: ns := List.append_cons .. |>.symm
    rw [List.foldl_cons, upsert_of_not_mem hn, ih (happ ▸ h), happ]

/-! ### Many edges -/

theorem joins_iff {g : Graph W} {e : Edge W} :
    g.joins e = true ↔ e.source ∈ g.ids ∧ e.target ∈ g.ids := by
  rw [joins, Bool.and_eq_true, contains_iff, contains_iff]

theorem nodes_offerEdge (g : Graph W) (e : Edge W) : (g.offerEdge e).nodes = g.nodes := by
  rw [offerEdge]
  split
  · split <;> rfl
  · rfl

theorem edges_offerEdge (g : Graph W) (e : Edge W) :
    (g.offerEdge e).edges = if g.joins e then g.edges ++ [e] else g.edges := by
  rw [offerEdge]
  split
  · rename_i hs
    split
    · rename_i ht
      rw [if_pos (joins_iff.2 ⟨hs, ht⟩), withEdge]
    · rename_i ht
      rw [if_neg fun h ↦ ht (joins_iff.1 h).2]
  · rename_i hs
    rw [if_neg fun h ↦ hs (joins_iff.1 h).1]

theorem joins_offerEdge (g : Graph W) (e : Edge W) : (g.offerEdge e).joins = g.joins := by
  funext x
  rw [joins, joins, contains, contains, contains, contains, nodes_offerEdge]

theorem nodes_foldl_offerEdge (es : List (Edge W)) (g : Graph W) :
    (es.foldl offerEdge g).nodes = g.nodes := by
  induction es generalizing g with
  | nil => rfl
  | cons e es ih => rw [List.foldl_cons, ih, nodes_offerEdge]

/-- **Every edge is judged by the same ids**: an edge of a list is kept exactly if both its ends
were nodes before the first edge came. -/
theorem edges_foldl_offerEdge (es : List (Edge W)) (g : Graph W) :
    (es.foldl offerEdge g).edges = g.edges ++ es.filter g.joins := by
  induction es generalizing g with
  | nil => simp
  | cons e es ih =>
    rw [List.foldl_cons, ih, joins_offerEdge, edges_offerEdge, List.filter_cons]
    split <;> simp

/-! ### Records of a graph -/

theorem nodes_ofRecords (ns : List Node) (es : List (Edge W)) :
    (ofRecords ns es).nodes = ns.foldl (fun ms n ↦ upsert n ms) [] := by
  rw [ofRecords, nodes_foldl_offerEdge, nodes_foldl_addNode]
  rfl

theorem edges_ofRecords (ns : List Node) (es : List (Edge W)) :
    (ofRecords ns es).edges = es.filter (ns.foldl addNode (empty : Graph W)).joins := by
  rw [ofRecords, edges_foldl_offerEdge, edges_foldl_addNode]
  rfl

theorem mem_ids_ofRecords {ns : List Node} {es : List (Edge W)} {id : String} :
    id ∈ (ofRecords ns es).ids ↔ id ∈ ns.map Node.id := by
  have hempty : id ∉ (empty : Graph W).ids := List.not_mem_nil
  rw [ids, ofRecords, nodes_foldl_offerEdge, ← ids, mem_ids_foldl_addNode, or_iff_right hempty]

theorem mem_of_mem_upsert {m n : Node} {ns : List Node} (h : m ∈ upsert n ns) : m = n ∨ m ∈ ns := by
  induction ns with
  | nil => exact .inl (List.mem_singleton.1 h)
  | cons a as ih =>
    rw [upsert] at h
    split at h
    · exact (List.mem_cons.1 h).imp_right (List.mem_cons_of_mem a)
    · rcases List.mem_cons.1 h with rfl | h
      · exact .inr List.mem_cons_self
      · exact (ih h).imp_right (List.mem_cons_of_mem a)

theorem mem_of_mem_foldl_upsert {m : Node} {ns ms : List Node}
    (h : m ∈ ns.foldl (fun ms n ↦ upsert n ms) ms) : m ∈ ms ∨ m ∈ ns := by
  induction ns generalizing ms with
  | nil => exact .inl h
  | cons n ns ih =>
    rcases ih h with hm | hm
    · rcases mem_of_mem_upsert hm with rfl | hm
      · exact .inr List.mem_cons_self
      · exact .inl hm
    · exact .inr (List.mem_cons_of_mem n hm)

/-- Every node of a graph is one of its records. -/
theorem mem_of_mem_nodes_ofRecords {ns : List Node} {es : List (Edge W)} {n : Node}
    (h : n ∈ (ofRecords ns es).nodes) : n ∈ ns := by
  rw [nodes_ofRecords] at h
  exact (mem_of_mem_foldl_upsert h).resolve_left List.not_mem_nil

/-- Edges are judged by the nodes, as if none of them was there yet. -/
theorem joins_ofRecords (ns : List Node) (es : List (Edge W)) :
    (ofRecords ns es).joins = (ns.foldl addNode (empty : Graph W)).joins := by
  funext e
  rw [joins, joins, contains, contains, contains, contains, ofRecords, nodes_foldl_offerEdge]

/-- **A graph's own records build it again.** -/
theorem ofRecords_self (g : Graph W) : ofRecords g.nodes g.edges = g := by
  have hnodes : g.nodes.foldl (fun ms n ↦ upsert n ms) [] = g.nodes :=
    foldl_upsert_of_nodup (by simpa using g.nodup_ids)
  refine Graph.ext ((nodes_ofRecords _ _).trans hnodes) ?_
  rw [edges_ofRecords, List.filter_eq_self]
  intro e he
  have hids : (g.nodes.foldl addNode (empty : Graph W)).ids = g.ids := by
    rw [ids, nodes_foldl_addNode]
    exact congrArg (List.map Node.id) hnodes
  exact joins_iff.2 ⟨hids ▸ g.source_mem e he, hids ▸ g.target_mem e he⟩

end ConceptAtlas.Graph
