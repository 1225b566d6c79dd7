import ConceptAtlas.Graph.Basic

/-!
# Arenas

The store that a graph is built in. Every id has an index; indices count up and are never given to
another id. A slot for each index holds the node, and edges hang between indices as arcs, each under
a key that counts up as well.

**No list keeps the order of edges.** Arcs are grouped by the index that they leave, and once more
by the index that they enter; in each group they are bundled by the other end. The order is read off
the keys: whoever asks for edges sorts arcs. Only the flat list is kept once it is sorted out, until
the next edge comes.

An arena is changed by `addNode` and `addEdge` alone, and a reader of the flat list fills its cache.
What is done with a finished graph looks at `Arena.graph`, where both orders are lists again.
-/

namespace ConceptAtlas

variable {W : Type}

/-! ### Arcs -/

/-- An edge as it hangs at one of its ends: the index of its other end, its key, and the edge. -/
structure Arc (W : Type) where
  other : Nat
  key : Nat
  edge : Edge W

/-- Arcs in the order of their keys. -/
def Arc.inOrder (arcs : List (Arc W)) : List (Arc W) := arcs.mergeSort fun x y ↦ x.key ≤ y.key

/-- The edges under their keys that join the same two indices. -/
abbrev Bundle (W : Type) := List (Nat × Edge W)

/-- Arcs grouped by the index of one end and bundled by the index of the other. -/
abbrev Adjacency (W : Type) := List (Nat × List (Nat × Bundle W))

namespace Adjacency

/-- The arcs of a group, bundle after bundle. -/
def spread (group : List (Nat × Bundle W)) : List (Arc W) :=
  group.flatMap fun b ↦ b.2.map fun x ↦ ⟨b.1, x.1, x.2⟩

/-- The arcs at an index. -/
def arcsAt (adj : Adjacency W) (u : Nat) : List (Arc W) := spread ((Assoc.find? u adj).getD [])

/-- All arcs, group after group. -/
def arcs (adj : Adjacency W) : List (Arc W) := adj.flatMap fun g ↦ spread g.2

/-- A group with one more arc. -/
def tie (v key : Nat) (e : Edge W) (group : List (Nat × Bundle W)) : List (Nat × Bundle W) :=
  Assoc.put v (Assoc.put key e ((Assoc.find? v group).getD [])) group

/-- Arcs with one more, in the group of `u` and with its other end at `v`. -/
def link (u v key : Nat) (e : Edge W) (adj : Adjacency W) : Adjacency W :=
  Assoc.put u (tie v key e ((Assoc.find? u adj).getD [])) adj

end Adjacency

/-! ### Arenas -/

/-- The store of a graph that is being built. -/
structure Arena (W : Type) where
  /-- The index of each id, in the order in which the ids came. -/
  indices : List (String × Nat)
  /-- The node at each index. -/
  slots : List (Nat × Node)
  /-- The arcs at the index that they leave. -/
  leaving : Adjacency W
  /-- The arcs at the index that they enter. -/
  entering : Adjacency W
  nextIndex : Nat
  nextKey : Nat
  /-- The flat list of edges, unless an edge has come since it was last sorted out. -/
  cache : Option (List (Edge W))

namespace Arena

/-- The arena without nodes. -/
def empty : Arena W := ⟨[], [], [], [], 0, 0, none⟩

instance : Inhabited (Arena W) := ⟨empty⟩

/-! ### Looking up -/

/-- The index of an id. -/
def index? (a : Arena W) (id : String) : Option Nat := Assoc.find? id a.indices

/-- The node at an index. -/
def nodeAt? (a : Arena W) (index : Nat) : Option Node := Assoc.find? index a.slots

/-- The node with an id. -/
def node? (a : Arena W) (id : String) : Option Node := (a.index? id).bind a.nodeAt?

/-- Whether there is a node with an id. -/
def contains (a : Arena W) (id : String) : Bool := (a.index? id).isSome

/-- The ids of the nodes. -/
def ids (a : Arena W) : List String := a.indices.map Prod.fst

/-- The nodes in the order of their ids. -/
def nodes (a : Arena W) : List Node := a.indices.filterMap fun p ↦ a.nodeAt? p.2

/-- The number of nodes. -/
def nodeCount (a : Arena W) : Nat := a.indices.length

/-! ### Building -/

/-- The arena with one more node, or with another node in the slot of its id, and the index. -/
def addNode (a : Arena W) (n : Node) : Arena W × Nat :=
  match a.index? n.id with
  | some i => ({ a with slots := Assoc.put i n a.slots }, i)
  | none =>
    let i := a.nextIndex
    ({ a with
      indices := Assoc.put n.id i a.indices
      slots := Assoc.put i n a.slots
      leaving := Assoc.putNew i [] a.leaving
      entering := Assoc.putNew i [] a.entering
      nextIndex := i + 1 }, i)

/-- The arena with one more edge, or the arena as it is and the end of the edge that is missing. -/
def addEdge (a : Arena W) (e : Edge W) : Arena W × Except Fault Unit :=
  match a.index? e.source, a.index? e.target with
  | none, _ => (a, .error (.invalidData (.sourceMissing e.source)))
  | some _, none => (a, .error (.invalidData (.targetMissing e.target)))
  | some u, some v =>
    ({ a with
      leaving := a.leaving.link u v a.nextKey e
      entering := a.entering.link v u a.nextKey e
      nextKey := a.nextKey + 1
      cache := none }, .ok ())

/-- Whether both ends of an edge are nodes of the arena. -/
def joins (a : Arena W) (e : Edge W) : Bool := a.contains e.source && a.contains e.target

/-- The arena with one more edge; an edge with a missing end is dropped. -/
def offerEdge (a : Arena W) (e : Edge W) : Arena W := if a.joins e then (a.addEdge e).1 else a

/-- The arena with more nodes, added in their order. -/
def addNodes (a : Arena W) (nodes : List Node) : Arena W :=
  nodes.foldl (fun a n ↦ (a.addNode n).1) a

/-- The arena of nodes and edges, added in their order; edges with a missing end are dropped. -/
def ofRecords (nodes : List Node) (edges : List (Edge W)) : Arena W :=
  edges.foldl offerEdge (empty.addNodes nodes)

/-! ### Edges -/

/-- All edges, sorted out of the arcs. -/
def sortedEdges (a : Arena W) : List (Edge W) := (Arc.inOrder a.leaving.arcs).map Arc.edge

/-- The flat list of edges. -/
def edges (a : Arena W) : List (Edge W) := a.cache.getD a.sortedEdges

/-- The arena after its flat list was read. -/
def readEdges (a : Arena W) : Arena W := { a with cache := some a.edges }

/-- The edges of the arcs at a node. -/
def edgesAt (a : Arena W) (adj : Adjacency W) (id : String) : List (Edge W) :=
  match a.index? id with
  | none => []
  | some u => (Arc.inOrder (adj.arcsAt u)).map Arc.edge

/-- The edges that leave a node. -/
def outgoing (a : Arena W) (id : String) : List (Edge W) := a.edgesAt a.leaving id

/-- The edges that enter a node. -/
def incoming (a : Arena W) (id : String) : List (Edge W) := a.edgesAt a.entering id

/-- The arcs at an index, every key once: those that leave it, then those that enter it and do not
leave it as well. -/
def joint (a : Arena W) (u : Nat) : List (Arc W) :=
  let out := (a.leaving.arcsAt u).foldl (fun ps x ↦ Assoc.put x.key x ps) []
  ((a.entering.arcsAt u).foldl (fun ps x ↦ Assoc.putNew x.key x ps) out).map Prod.snd

/-- The edges at a node, each with the id of its other end; a loop comes once. -/
def neighbors (a : Arena W) (id : String) : List (String × Edge W) :=
  match a.index? id with
  | none => []
  | some u => (Arc.inOrder (a.joint u)).filterMap fun x ↦
      (a.nodeAt? x.other).map fun n ↦ (n.id, x.edge)

/-- The number of arcs at a node. -/
def arcCount (a : Arena W) (adj : Adjacency W) (id : String) : Nat :=
  match a.index? id with
  | none => 0
  | some u => (adj.arcsAt u).length

/-- The number of edges that enter a node. -/
def inDegree (a : Arena W) (id : String) : Nat := a.arcCount a.entering id

/-- The number of edges that leave a node. -/
def outDegree (a : Arena W) (id : String) : Nat := a.arcCount a.leaving id

/-- The number of edge ends at a node; a loop has two. -/
def degree (a : Arena W) (id : String) : Nat := a.inDegree id + a.outDegree id

/-- The number of edges: half the number of edge ends at all indices. -/
def edgeCount (a : Arena W) : Nat :=
  (a.slots.map fun s ↦ (a.leaving.arcsAt s.1).length + (a.entering.arcsAt s.1).length).foldr
    (· + ·) 0 / 2

/-- The numbers of nodes and edges as the record of a graph. -/
def describe (a : Arena W) : String := s!"GraphData(nodes={a.nodeCount}, edges={a.edgeCount})"

/-- The finished graph. -/
def graph (a : Arena W) : Graph W := Graph.ofRecords a.nodes a.edges

/-! ### Histories -/

/-- What may be done to an arena that can leave a trace. All other readers only look. -/
inductive Act (W : Type)
  | addNode (node : Node)
  | addEdge (edge : Edge W)
  | readEdges

/-- The arena after an act; an edge that cannot be added leaves it as it is. -/
def act (a : Arena W) : Act W → Arena W
  | .addNode n => (a.addNode n).1
  | .addEdge e => (a.addEdge e).1
  | .readEdges => a.readEdges

/-- The arena after acts, one after the other. -/
def run (acts : List (Act W)) : Arena W := acts.foldl act empty

end Arena

end ConceptAtlas
