import ConceptAtlas.Graph.Breadth

/-!
# Neighborhoods

What lies within a number of hops of a node when edges are followed in both directions, all of them
or those of one relationship. A search goes breadth first from the node; it looks around from a node
only if that is less than `radius` hops away. The nodes come in the order they are found, so by
distance. The edges are those at the nodes that the search looks around from, each once: an edge is
told from another one by its position among the edges of the graph.
-/

namespace ConceptAtlas

/-- The nodes around a center with their distances, and the edges that lead to them. -/
structure Neighborhood (W : Type) where
  center : Node
  nodes : List Node
  edges : List (Edge W)
  distances : List (String × Nat)

namespace Graph

variable {W : Type}

/-- Whether an edge passes a filter; without a filter every edge does. -/
def passes (filter : Option Relationship) (e : Edge W) : Bool :=
  match filter with
  | some r => e.relationship == r
  | none => true

/-- The edges at a node that pass a filter, each with its position and the id of its other end. -/
def incident (g : Graph W) (filter : Option Relationship) (id : String) :
    List (Nat × String × Edge W) :=
  g.edges.zipIdx.filterMap fun e ↦
    if passes filter e.1 then (otherEnd? id e.1).map fun other ↦ (e.2, other, e.1) else none

/-- The nodes one hop away along edges that pass a filter. -/
def hops (g : Graph W) (filter : Option Relationship) (id : String) : List String :=
  (g.incident filter id).map fun e ↦ e.2.1

theorem mem_ids_of_mem_hops {g : Graph W} {filter : Option Relationship} {u v : String}
    (h : v ∈ g.hops filter u) : v ∈ g.ids := by
  obtain ⟨x, hx, rfl⟩ := List.mem_map.1 h
  obtain ⟨⟨e, i⟩, he, hx⟩ := List.mem_filterMap.1 hx
  have hmem : e ∈ g.edges := List.mem_of_getElem? (List.mem_zipIdx_iff_getElem?.1 he)
  split at hx
  · obtain ⟨w, hw, rfl⟩ := Option.map_eq_some_iff.1 hx
    rw [otherEnd?] at hw
    split at hw
    · exact Option.some.inj hw ▸ g.target_mem e hmem
    · split at hw
      · exact Option.some.inj hw ▸ g.source_mem e hmem
      · cases hw
  · cases hx

end Graph

/-! ### The search -/

/-- A search along hops: the depths of what it has found, and the edges that it has come across,
each with its position. -/
structure HopSearch (W : Type) where
  depths : DepthSearch
  edges : List (Nat × Edge W)

namespace HopSearch

variable {W : Type}

/-- The search from a node before its first step. -/
def start (id : String) : HopSearch W := ⟨.start id, []⟩

/-- Lists an edge with its position, unless the edge at that position is listed. -/
def list (es : List (Nat × Edge W)) (e : Nat × Edge W) : List (Nat × Edge W) :=
  if es.any fun a ↦ a.1 == e.1 then es else es ++ [e]

/-- The search after it came across an edge: it lists the edge, and notes the other end. -/
def cross (id : String) (depth : Nat) (s : HopSearch W) (x : Nat × String × Edge W) :
    HopSearch W :=
  ⟨s.depths.note id depth x.2.1, list s.edges (x.1, x.2.2)⟩

/-- One step: the search crosses the edges at the first node in the queue, if that is less than the
radius away. -/
def step (g : Graph W) (filter : Option Relationship) (radius : Int) (id : String)
    (s : HopSearch W) : HopSearch W :=
  match s.depths.queue with
  | [] => s
  | (v, depth) :: rest =>
    let s := { s with depths := { s.depths with queue := rest } }
    if (depth : Int) < radius then (g.incident filter v).foldl (cross id (depth + 1)) s else s

/-- What is found over edges is what is found over hops. -/
theorem depths_foldl_cross (id : String) (depth : Nat) (s : HopSearch W)
    (xs : List (Nat × String × Edge W)) :
    (xs.foldl (cross id depth) s).depths =
      (xs.map fun x ↦ x.2.1).foldl (DepthSearch.note id depth) s.depths := by
  induction xs generalizing s with
  | nil => rfl
  | cons x xs ih => exact ih _

theorem depths_step_cons {g : Graph W} {filter : Option Relationship} {radius : Int}
    {id v : String} {depth : Nat} {rest : List (String × Nat)} {s : HopSearch W}
    (h : s.depths.queue = (v, depth) :: rest) :
    (s.step g filter radius id).depths =
      if (depth : Int) < radius then
        (g.hops filter v).foldl (DepthSearch.note id (depth + 1)) { s.depths with queue := rest }
      else { s.depths with queue := rest } := by
  rw [step, h]
  dsimp only
  split
  · exact depths_foldl_cross id (depth + 1) _ _
  · rfl

theorem work_step_lt (g : Graph W) (filter : Option Relationship) (radius : Int) (id : String)
    {s : HopSearch W} (h : s.depths.queue ≠ []) :
    (s.step g filter radius id).depths.work g.ids id < s.depths.work g.ids id := by
  obtain ⟨⟨v, depth⟩, rest, hqueue⟩ := List.exists_cons_of_ne_nil h
  have hless := DepthSearch.work_tail_lt g.ids id hqueue
  rw [depths_step_cons hqueue]
  split
  · exact Nat.lt_of_le_of_lt
      (DepthSearch.work_foldl_note_le id (depth + 1) _ fun _ ↦ Graph.mem_ids_of_mem_hops) hless
  · exact hless

/-- Runs a search until its queue is empty. -/
def run (g : Graph W) (filter : Option Relationship) (radius : Int) (id : String)
    (s : HopSearch W) : HopSearch W :=
  if _ : s.depths.queue = [] then s else run g filter radius id (s.step g filter radius id)
termination_by s.depths.work g.ids id
decreasing_by exact work_step_lt g filter radius id ‹_›

end HopSearch

/-- The neighborhood of a node within a radius; nothing lies within a radius of zero or less. -/
def Graph.neighborhood {W : Type} (g : Graph W) (id : String) (radius : Int)
    (filter : Option Relationship) : Except Fault (Neighborhood W) := do
  let center ← g.node id
  let search := (HopSearch.start id).run g filter radius id
  return {
    center
    nodes := search.depths.depths.filterMap fun d ↦ g.node? d.1
    edges := search.edges.map Prod.snd
    distances := search.depths.depths }

end ConceptAtlas
