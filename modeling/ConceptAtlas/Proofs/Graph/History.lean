import Mathlib.Data.List.Induction
import ConceptAtlas.Proofs.Graph.Observers

/-!
# Arenas after any history

Whatever is done to an arena, in whatever order, it shows two lists: the nodes that it was given and
the edges that it took. Every reader is described by these two alone (`Arena.Shows`), although no
part of the arena keeps either of them.

The invariant runs along a history (`run_holds`), with the graph of the same history at its side; of
that graph the two lists are read off act by act. What one act can do to an arena that holds a graph
is said once for each act: an old id keeps its index and all arcs (`Holds.replaced`), an edge is
refused exactly if an end is missing, and then nothing changes (`Holds.addEdge_error_iff`).
-/

namespace ConceptAtlas

variable {W : Type}

/-! ### The graph of a history -/

namespace Graph

/-- The graph after an act; an edge with a missing end leaves it as it is. -/
def act (g : Graph W) : Arena.Act W → Graph W
  | .addNode n => g.addNode n
  | .addEdge e => g.offerEdge e
  | .readEdges => g

/-- The graph after acts, one after the other. -/
def run (acts : List (Arena.Act W)) : Graph W := acts.foldl act empty

theorem run_concat (acts : List (Arena.Act W)) (x : Arena.Act W) :
    run (acts ++ [x]) = (run acts).act x := List.foldl_concat ..

theorem find?_upsert (n : Node) (ns : List Node) (id : String) :
    (upsert n ns).find? (·.id == id) =
      if n.id == id then some n else ns.find? (·.id == id) := by
  induction ns with
  | nil => by_cases h : n.id == id <;> simp [upsert, h]
  | cons m ms ih =>
    rw [upsert]
    by_cases hm : m.id = n.id
    · rw [if_pos hm, List.find?_cons, List.find?_cons, hm]
      cases n.id == id <;> rfl
    · rw [if_neg hm, List.find?_cons, List.find?_cons, ih]
      by_cases h : m.id = id
      · have hn : ¬ n.id = id := fun e ↦ hm (h.trans e.symm)
        simp [h, hn]
      · simp only [beq_eq_false_iff_ne.2 h]

/-- A node is found under its id as it came last. -/
theorem node?_addNode (g : Graph W) (n : Node) (id : String) :
    (g.addNode n).node? id = if n.id == id then some n else g.node? id :=
  find?_upsert n g.nodes id

/-- A node of a graph is found under its id. -/
theorem node?_of_mem {g : Graph W} {n : Node} (hn : n ∈ g.nodes) : g.node? n.id = some n := by
  rcases h : g.node? n.id with - | m
  · have hnone := List.find?_eq_none.1 h n hn
    simp at hnone
  · have hid : m.id = n.id := by simpa using List.find?_some h
    have hm : m ∈ g.nodes := List.mem_of_find?_eq_some h
    rw [List.inj_on_of_nodup_map g.nodup_ids hm hn hid]

theorem map_id_filterMap_node? {g : Graph W} {ids : List String} (h : ∀ id ∈ ids, id ∈ g.ids) :
    (ids.filterMap g.node?).map Node.id = ids := by
  induction ids with
  | nil => rfl
  | cons id ids ih =>
    obtain ⟨hid, hids⟩ := List.forall_mem_cons.1 h
    obtain ⟨n, hn, rfl⟩ := List.mem_map.1 hid
    rw [List.filterMap_cons_some (node?_of_mem hn), List.map_cons, ih hids]

theorem map_node?_ids (g : Graph W) : g.nodes.map some = g.ids.map g.node? := by
  rw [ids, List.map_map]
  exact List.map_congr_left fun n hn ↦ (node?_of_mem hn).symm

theorem bind_node?_getElem?_ids (g : Graph W) (i : Nat) :
    g.nodes[i]? = g.ids[i]?.bind g.node? := by
  rw [ids, List.getElem?_map]
  rcases h : g.nodes[i]? with - | n
  · rfl
  · exact (node?_of_mem (List.mem_of_getElem? h)).symm

end Graph

namespace Arena

/-! ### The two lists of a history -/

/-- The node that an act brings. -/
def Act.node? : Act W → Option Node
  | .addNode n => some n
  | .addEdge _ => none
  | .readEdges => none

/-- The nodes that come in a history. -/
def given (acts : List (Act W)) : List Node := acts.filterMap Act.node?

/-- The edge that an act adds to an arena, if it is not refused. -/
def taken (a : Arena W) : Act W → List (Edge W)
  | .addEdge e =>
    match (a.addEdge e).2 with
    | .ok () => [e]
    | .error _ => []
  | _ => []

/-- The edges that are added in a history. -/
def added (a : Arena W) : List (Act W) → List (Edge W)
  | [] => []
  | x :: xs => a.taken x ++ added (a.act x) xs

theorem run_concat (acts : List (Act W)) (x : Act W) : run (acts ++ [x]) = (run acts).act x :=
  List.foldl_concat ..

theorem given_concat (acts : List (Act W)) (x : Act W) :
    given (acts ++ [x]) = given acts ++ x.node?.toList := by
  rw [given, List.filterMap_append]
  cases h : x.node? <;> simp [given, h]

theorem added_append (a : Arena W) (xs ys : List (Act W)) :
    a.added (xs ++ ys) = a.added xs ++ (xs.foldl act a).added ys := by
  induction xs generalizing a with
  | nil => rfl
  | cons x xs ih => rw [List.cons_append, added, ih, added, List.append_assoc, List.foldl_cons]

theorem added_concat (acts : List (Act W)) (x : Act W) :
    empty.added (acts ++ [x]) = empty.added acts ++ (run acts).taken x := by
  rw [added_append, added, added, List.append_nil, run]

/-! ### One act -/

namespace Holds

variable {a : Arena W} {g : Graph W}

theorem readEdges (h : Holds a g) : Holds a.readEdges g where
  indices := h.indices
  slots := h.slots
  nodeAt? := h.nodeAt?
  leaving := h.leaving
  entering := h.entering
  nextIndex := h.nextIndex
  nextKey := h.nextKey
  cache _ hc := Option.some.inj hc ▸ h.edges

theorem act (h : Holds a g) (x : Act W) : Holds (a.act x) (g.act x) := by
  cases x with
  | addNode n => exact h.addNode n
  | addEdge e => exact h.addEdge e
  | readEdges => exact h.readEdges

theorem taken (h : Holds a g) (x : Act W) : (g.act x).edges = g.edges ++ a.taken x := by
  cases x with
  | addNode n => exact (List.append_nil _).symm
  | readEdges => exact (List.append_nil _).symm
  | addEdge e =>
    rw [Graph.act, Graph.edges_offerEdge, Arena.taken]
    by_cases hs : e.source ∈ g.ids
    · by_cases ht : e.target ∈ g.ids
      · rw [if_pos (Graph.joins_iff.2 ⟨hs, ht⟩), h.addEdge_eq hs ht]
      · rw [if_neg fun hj ↦ ht (Graph.joins_iff.1 hj).2, h.addEdge_of_target_not_mem hs ht]
        exact (List.append_nil _).symm
    · rw [if_neg fun hj ↦ hs (Graph.joins_iff.1 hj).1, h.addEdge_of_source_not_mem hs]
      exact (List.append_nil _).symm

end Holds

/-! ### What an act changes -/

/-- One arena is another with `n` in the old slot `i`: nothing else of its state is different, and
nothing is seen of the change but the node. -/
structure Replaced (a b : Arena W) (i : Nat) (n : Node) : Prop where
  state : b = { a with slots := Assoc.put i n a.slots }
  slots : b.slots.map Prod.fst = a.slots.map Prod.fst
  nodeAt? : ∀ j, b.nodeAt? j = if i = j then some n else a.nodeAt? j
  ids : b.ids = a.ids
  edges : b.edges = a.edges
  outgoing : ∀ id, b.outgoing id = a.outgoing id
  incoming : ∀ id, b.incoming id = a.incoming id
  neighbors : ∀ id, b.neighbors id = a.neighbors id

namespace Holds

variable {a : Arena W} {g : Graph W}

theorem index?_eq_some_iff (h : Holds a g) {id : String} {i : Nat} :
    a.index? id = some i ↔ id ∈ g.ids ∧ g.place id = i := by
  rw [h.index?, g.index?_eq]
  split <;> simp_all

/-- **A node under an old id** takes the slot of the node before it. -/
theorem replaced (h : Holds a g) {n : Node} {i : Nat} (hi : a.index? n.id = some i) :
    (a.addNode n).2 = i ∧ Replaced a (a.addNode n).1 i n := by
  obtain ⟨hn, hplace⟩ := h.index?_eq_some_iff.1 hi
  have h' : Holds (a.addNode n).1 (g.addNode n) := h.addNode n
  have hadd : a.addNode n = ({ a with slots := Assoc.put i n a.slots }, i) := by
    simp only [Arena.addNode, hi]
  have hslot : i ∈ a.slots.map Prod.fst := by
    rw [h.slots, ← hplace]
    exact List.mem_range.2 (Graph.place_lt hn)
  refine ⟨congrArg Prod.snd hadd, ?_⟩
  exact {
    state := congrArg Prod.fst hadd
    slots := by
      rw [hadd]
      exact Assoc.keys_put_of_mem hslot n
    nodeAt? := fun j ↦ by
      rw [hadd, Arena.nodeAt?, Assoc.find?_put, Arena.nodeAt?]
      simp only [beq_iff_eq]
    ids := by rw [hadd, Arena.ids, Arena.ids]
    edges := by rw [h'.edges, h.edges, Graph.addNode]
    outgoing := fun id ↦ by rw [h'.outgoing, h.outgoing, Graph.outgoing, Graph.outgoing,
      Graph.addNode]
    incoming := fun id ↦ by rw [h'.incoming, h.incoming, Graph.incoming, Graph.incoming,
      Graph.addNode]
    neighbors := fun id ↦ by rw [h'.neighbors, h.neighbors, Graph.neighbors, Graph.neighbors,
      Graph.addNode] }

/-- The index that a node is given is the index of its id from then on. -/
theorem index?_addNode_self (h : Holds a g) (n : Node) :
    (a.addNode n).1.index? n.id = some (a.addNode n).2 := by
  rcases hi : a.index? n.id with - | i
  · simp only [Arena.addNode, hi]
    rw [Arena.index?, Assoc.find?_put_self]
  · obtain ⟨hidx, hrep⟩ := h.replaced hi
    rw [hidx, hrep.state]
    exact hi

/-- No act takes an index from an id. -/
theorem index?_act (h : Holds a g) {id : String} {i : Nat} (hi : a.index? id = some i)
    (x : Act W) : (a.act x).index? id = some i := by
  obtain ⟨hid, hplace⟩ := h.index?_eq_some_iff.1 hi
  -- An index is a place among the ids, and ids only ever come in behind the others.
  refine (h.act x).index?_eq_some_iff.2 ?_
  cases x with
  | addNode n =>
    exact ⟨Graph.mem_map_id_upsert.2 (.inl hid), (Graph.place_addNode hid n).trans hplace⟩
  | addEdge e =>
    have hids : (g.offerEdge e).ids = g.ids := by rw [Graph.ids, Graph.nodes_offerEdge, Graph.ids]
    rw [Graph.act, Graph.place, hids]
    exact ⟨hid, hplace⟩
  | readEdges => exact ⟨hid, hplace⟩

theorem index?_foldl_act (h : Holds a g) {id : String} {i : Nat} (hi : a.index? id = some i)
    (xs : List (Act W)) : (xs.foldl Arena.act a).index? id = some i := by
  induction xs generalizing a g with
  | nil => exact hi
  | cons x xs ih => exact ih (h.act x) (h.index?_act hi x)

/-- No two ids share an index. -/
theorem index?_inj (h : Holds a g) {x y : String} {i : Nat} (hx : a.index? x = some i)
    (hy : a.index? y = some i) : x = y := by
  obtain ⟨hxm, hxi⟩ := h.index?_eq_some_iff.1 hx
  obtain ⟨-, hyi⟩ := h.index?_eq_some_iff.1 hy
  exact (Graph.place_eq_iff hxm y).1 (hxi.trans hyi.symm)

/-- **An edge is refused exactly if an end is missing.** -/
theorem addEdge_error_iff (h : Holds a g) (e : Edge W) :
    (∃ f, (a.addEdge e).2 = .error f) ↔ e.source ∉ a.ids ∨ e.target ∉ a.ids := by
  rw [h.ids]
  by_cases hs : e.source ∈ g.ids
  · by_cases ht : e.target ∈ g.ids
    · simp [h.addEdge_eq hs ht, hs, ht]
    · simp [h.addEdge_of_target_not_mem hs ht, ht]
  · simp [h.addEdge_of_source_not_mem hs, hs]

end Holds

/-- A refused edge leaves no trace. -/
theorem addEdge_of_error {a : Arena W} {e : Edge W} {f : Fault} (hf : (a.addEdge e).2 = .error f) :
    (a.addEdge e).1 = a := by
  rw [Arena.addEdge] at hf ⊢
  split <;> simp_all

/-! ### All acts -/

/-- **The invariant runs along every history.** -/
theorem run_holds (acts : List (Act W)) : Holds (run acts) (Graph.run acts) := by
  induction acts using List.reverseRecOn with
  | nil => exact .empty
  | append_singleton acts x ih =>
    rw [run_concat, Graph.run_concat]
    exact ih.act x

/-- Of a list without its repetitions and one more element, the element is kept if it is new. -/
theorem eraseDups_concat {α : Type} [BEq α] [LawfulBEq α] (xs : List α) (x : α) :
    (xs ++ [x]).eraseDups = if x ∈ xs then xs.eraseDups else xs.eraseDups ++ [x] := by
  have hx : ([x].filter fun y ↦ !xs.elem y) = if x ∈ xs then [] else [x] := by
    by_cases h : x ∈ xs <;> simp [h]
  rw [List.eraseDups_append, List.removeAll, hx]
  split
  · rw [List.eraseDups_nil, List.append_nil]
  · rw [List.eraseDups_cons, List.filter_nil, List.eraseDups_nil]

/-- The ids of a history are its ids without repetition, each where it came first. -/
theorem ids_run (acts : List (Act W)) :
    (Graph.run acts).ids = ((given acts).map Node.id).eraseDups := by
  induction acts using List.reverseRecOn with
  | nil => rfl
  | append_singleton acts x ih =>
    rw [Graph.run_concat, given_concat]
    cases x with
    | addEdge e =>
      rw [Act.node?, Option.toList_none, List.append_nil, ← ih, Graph.act, Graph.ids,
        Graph.nodes_offerEdge, Graph.ids]
    | readEdges =>
      rw [Act.node?, Option.toList_none, List.append_nil, ← ih]
      rfl
    | addNode n =>
      have hmem : n.id ∈ (Graph.run acts).ids ↔ n.id ∈ (given acts).map Node.id := by
        rw [ih, List.mem_eraseDups]
      rw [Act.node?, Option.toList_some, List.map_append, List.map_cons, List.map_nil,
        eraseDups_concat, ← ih, Graph.act]
      by_cases hn : n.id ∈ (Graph.run acts).ids
      · rw [Graph.ids_addNode_of_mem hn, if_pos (hmem.1 hn)]
      · rw [Graph.ids_addNode_of_not_mem hn, if_neg fun h ↦ hn (hmem.2 h)]

/-- Under an id there is the node that came last under it. -/
theorem node?_run (acts : List (Act W)) (id : String) :
    (Graph.run acts).node? id = (given acts).reverse.find? (·.id == id) := by
  induction acts using List.reverseRecOn with
  | nil => rfl
  | append_singleton acts x ih =>
    rw [Graph.run_concat, given_concat]
    cases x with
    | addEdge e =>
      rw [Act.node?, Option.toList_none, List.append_nil, ← ih, Graph.act, Graph.node?,
        Graph.nodes_offerEdge, Graph.node?]
    | readEdges =>
      rw [Act.node?, Option.toList_none, List.append_nil, ← ih]
      rfl
    | addNode n =>
      rw [Act.node?, Option.toList_some, List.reverse_append, List.reverse_singleton,
        List.singleton_append, List.find?_cons, ← ih]
      rw [Graph.act, Graph.node?_addNode]
      cases n.id == id <;> rfl

/-- The edges are those that were added. -/
theorem edges_run (acts : List (Act W)) : (Graph.run acts).edges = empty.added acts := by
  induction acts using List.reverseRecOn with
  | nil => rfl
  | append_singleton acts x ih =>
    rw [Graph.run_concat, added_concat, (run_holds acts).taken x, ih]

/-! ### What every reader shows -/

/-- An arena shows nodes, as they were given, and edges, as they were added: what each of its
readers answers, said by the two lists alone. -/
structure Shows (a : Arena W) (ns : List Node) (es : List (Edge W)) : Prop where
  ids : a.ids = (ns.map Node.id).eraseDups
  nodeCount : a.nodeCount = a.ids.length
  contains : ∀ id, a.contains id = true ↔ id ∈ ns.map Node.id
  index? : ∀ id, a.index? id = a.ids.idxOf? id
  node? : ∀ id, a.node? id = ns.reverse.find? (·.id == id)
  nodeAt? : ∀ i, a.nodeAt? i = a.ids[i]?.bind a.node?
  nodes : a.nodes.map some = a.ids.map a.node?
  edges : a.edges = es
  sortedEdges : a.sortedEdges = es
  edgeCount : a.edgeCount = es.length
  outgoing : ∀ id, a.outgoing id = es.filter (·.source == id)
  incoming : ∀ id, a.incoming id = es.filter (·.target == id)
  outDegree : ∀ id, a.outDegree id = (a.outgoing id).length
  inDegree : ∀ id, a.inDegree id = (a.incoming id).length
  degree : ∀ id, a.degree id = (a.incoming id).length + (a.outgoing id).length
  neighbors : ∀ id, a.neighbors id =
    es.filterMap fun e ↦ (Graph.otherEnd? id e).map fun other ↦ (other, e)

/-- An arena that holds the graph of a history shows the two lists of that history. -/
theorem run_shows (acts : List (Act W)) : Shows (run acts) (given acts) (empty.added acts) := by
  have h := run_holds acts
  have hids := ids_run acts
  have hedges := edges_run acts
  exact {
    ids := h.ids.trans hids
    nodeCount := by rw [h.nodeCount, h.ids, Graph.length_ids]
    contains := fun id ↦ by
      rw [h.contains, Graph.contains_iff, hids, List.mem_eraseDups]
    index? := fun id ↦ by rw [h.index?, h.ids, Graph.index?_eq_idxOf?]
    node? := fun id ↦ (h.node? id).trans (node?_run acts id)
    nodeAt? := fun i ↦ by
      rw [h.nodeAt?, h.ids, show (run acts).node? = (Graph.run acts).node? from funext h.node?,
        Graph.bind_node?_getElem?_ids]
    nodes := by
      rw [h.nodes, h.ids, show (run acts).node? = (Graph.run acts).node? from funext h.node?,
        Graph.map_node?_ids]
    edges := h.edges.trans hedges
    sortedEdges := h.sortedEdges.trans hedges
    edgeCount := hedges ▸ h.edgeCount
    outgoing := fun id ↦ hedges ▸ h.outgoing id
    incoming := fun id ↦ hedges ▸ h.incoming id
    outDegree := fun id ↦ by rw [h.outDegree, h.outgoing, Graph.outDegree]
    inDegree := fun id ↦ by rw [h.inDegree, h.incoming, Graph.inDegree]
    degree := fun id ↦ by
      rw [h.degree, h.incoming, h.outgoing, Graph.degree, Graph.inDegree, Graph.outDegree]
    neighbors := fun id ↦ hedges ▸ h.neighbors id }

/-- **An arena refines an ordered map of nodes and a list of edges.** After any acts in any order,
it holds a graph whose edges are those that were added, and shows just what was given and added. Its
indices are apart, and whatever is done next, they stay; a node under an old id replaces the node
and nothing else; and an edge is refused exactly if an end is missing, without a trace. -/
theorem run_refines (acts : List (Act W)) :
    (Holds (run acts) (Graph.run acts) ∧ (Graph.run acts).edges = empty.added acts) ∧
    Shows (run acts) (given acts) (empty.added acts) ∧
    (∀ x y i, (run acts).index? x = some i → (run acts).index? y = some i → x = y) ∧
    (∀ more id i, (run acts).index? id = some i → (run (acts ++ more)).index? id = some i) ∧
    (∀ n, ((run acts).addNode n).1.index? n.id = some ((run acts).addNode n).2) ∧
    (∀ n i, (run acts).index? n.id = some i →
      ((run acts).addNode n).2 = i ∧ Replaced (run acts) ((run acts).addNode n).1 i n) ∧
    (∀ e, (∃ f, ((run acts).addEdge e).2 = .error f) ↔
      e.source ∉ (run acts).ids ∨ e.target ∉ (run acts).ids) ∧
    ∀ e f, ((run acts).addEdge e).2 = .error f → ((run acts).addEdge e).1 = run acts := by
  have h := run_holds acts
  refine ⟨⟨h, edges_run acts⟩, run_shows acts, fun x y i ↦ h.index?_inj, fun more id i hi ↦ ?_,
    h.index?_addNode_self, fun n i ↦ h.replaced, h.addEdge_error_iff, fun e f ↦ addEdge_of_error⟩
  rw [run, List.foldl_append]
  exact h.index?_foldl_act hi more

end Arena

end ConceptAtlas
