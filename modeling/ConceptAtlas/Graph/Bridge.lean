import ConceptAtlas.Graph.Basic

/-!
# Bridges

The edges without which their ends fall apart, found by one search with directions ignored. The
search goes depth first and notes for every node the time at which it was discovered and a low time:
the earliest time of a node that is known to be joined to it, or to something found from it, by an
edge other than the one that led to it. Where the low time of a node is later than the time of the
node it was reached from, the edge between the two is a bridge.

An edge is told from another one by its position. The edge that led to a node is skipped by its
position, so one of several edges between two nodes is no bridge; a loop is no end of anything.

A search looks up edge ends and times. If it did not find one of them it would have no answer:
`none`.
-/

namespace ConceptAtlas

/-- The edge ends at each node: the node at the other end, and the position of the edge. -/
abbrev EdgeEnds := List (String × List (String × Nat))

namespace EdgeEnds

variable {W : Type}

/-- One more edge end at a node. -/
def hang (id : String) (x : String × Nat) (ends : EdgeEnds) : Option EdgeEnds := do
  let xs ← Assoc.find? id ends
  return Assoc.put id (xs ++ [x]) ends

/-- The two ends of one more edge; a loop has none. -/
def hangEdge (ends : EdgeEnds) (e : Edge W × Nat) : Option EdgeEnds :=
  if e.1.isLoop then some ends
  else do
    let ends ← hang e.1.source (e.1.target, e.2) ends
    hang e.1.target (e.1.source, e.2) ends

/-- The edge ends of a graph. -/
def ofGraph? (g : Graph W) : Option EdgeEnds :=
  g.edges.zipIdx.foldlM hangEdge (g.ids.map (·, []))

end EdgeEnds

/-- A node on the path of a search: the position of the edge that led to it, unless the search began
there, and the edge ends at it that were not looked at. -/
structure BridgeSearch.Frame where
  node : String
  arrival : Option Nat
  rest : List (String × Nat)

/-- What is known during a search: the time at which each node was discovered and its low time, the
next time, the bridges, and the path, its last node first. -/
structure BridgeSearch where
  discovery : List (String × Nat)
  low : List (String × Nat)
  timer : Nat
  bridges : List Nat
  path : List BridgeSearch.Frame

namespace BridgeSearch

/-- The search before its first step. -/
def start : BridgeSearch := ⟨[], [], 0, [], []⟩

/-- Puts a new node on the path. -/
def enter (s : BridgeSearch) (f : Frame) : BridgeSearch where
  discovery := Assoc.put f.node s.timer s.discovery
  low := Assoc.put f.node s.timer s.low
  timer := s.timer + 1
  bridges := s.bridges
  path := f :: s.path

/-- Goes on to a new node. -/
def discover (ends : EdgeEnds) (s : BridgeSearch) (id : String) (arrival : Option Nat) :
    Option BridgeSearch := do
  let rest ← Assoc.find? id ends
  return s.enter ⟨id, arrival, rest⟩

/-- Looks at an edge end of a node: the node at the other end is known, or the search goes on to
it. -/
def look (ends : EdgeEnds) (s : BridgeSearch) (f : Frame) (x : String × Nat) :
    Option BridgeSearch :=
  if f.arrival = some x.2 then some s
  else
    match Assoc.find? x.1 s.discovery with
    | some time => do
      let low ← Assoc.find? f.node s.low
      return { s with low := Assoc.put f.node (min low time) s.low }
    | none => s.discover ends x.1 (some x.2)

/-- Goes back from a node to the one it was reached from. -/
def leave (s : BridgeSearch) (f p : Frame) : Option BridgeSearch := do
  let below ← Assoc.find? f.node s.low
  let low ← Assoc.find? p.node s.low
  let time ← Assoc.find? p.node s.discovery
  let s := { s with low := Assoc.put p.node (min low below) s.low }
  if time < below then
    let arrival ← f.arrival
    return { s with bridges := s.bridges.insert arrival }
  else return s

/-- One step: from the last node of the path on to another one, or back. -/
def step (ends : EdgeEnds) (s : BridgeSearch) : Option BridgeSearch :=
  match s.path with
  | [] => some s
  | f :: below =>
    match f.rest with
    | x :: rest => { s with path := { f with rest } :: below }.look ends f x
    | [] =>
      match below with
      | [] => some { s with path := [] }
      | p :: _ => { s with path := below }.leave f p

/-! ### Why a search ends -/

/-- The nodes that were not discovered. -/
def unseen (ends : EdgeEnds) (s : BridgeSearch) : List String :=
  (ends.map Prod.fst).filter fun id ↦ (Assoc.find? id s.discovery).isNone

/-- What there is to do before the search has to discover a node: edge ends to look at and nodes to
go back from. -/
def work (s : BridgeSearch) : Nat := (s.path.flatMap Frame.rest).length + s.path.length

/-- A new node is unseen no more. -/
theorem length_unseen_of_discover {ends : EdgeEnds} {s t : BridgeSearch} {id : String}
    {arrival : Option Nat} (h : s.discover ends id arrival = some t)
    (hnew : Assoc.find? id s.discovery = none) :
    (t.unseen ends).length < (s.unseen ends).length := by
  obtain ⟨rest, hrest, ht⟩ := Option.bind_eq_some_iff.1 h
  cases ht
  have hkey : id ∈ ends.map Prod.fst := by
    refine Decidable.byContradiction fun hno ↦ ?_
    rw [Assoc.find?_eq_none_iff.2 hno] at hrest
    nomatch hrest
  have hfilter : unseen ends { s with discovery := Assoc.put id s.timer s.discovery } =
      (s.unseen ends).filter fun x ↦ !(id == x) := by
    rw [unseen, unseen, List.filter_filter]
    refine List.filter_congr fun x _ ↦ ?_
    rw [Assoc.find?_put]
    cases id == x <;> simp
  show (unseen ends { s with discovery := Assoc.put id s.timer s.discovery }).length < _
  rw [hfilter, List.length_filter_lt_length_iff_exists]
  refine ⟨id, List.mem_filter.2 ⟨hkey, ?_⟩, by simp⟩
  rw [hnew, Option.isNone_none]

/-- A step discovers a node, or there is less to do before the search has to. -/
theorem step_measure {ends : EdgeEnds} {s t : BridgeSearch} (hpath : s.path ≠ [])
    (h : s.step ends = some t) : (t.unseen ends).length < (s.unseen ends).length ∨
      t.unseen ends = s.unseen ends ∧ t.work < s.work := by
  obtain ⟨f, below, hs⟩ := List.exists_cons_of_ne_nil hpath
  simp only [step, hs] at h
  split at h
  · next x rest hf =>
    simp only [look] at h
    split at h
    · cases h
      exact .inr ⟨rfl, by simp [work, hs, hf]⟩
    · split at h
      · obtain ⟨low, -, ht⟩ := Option.bind_eq_some_iff.1 h
        cases ht
        exact .inr ⟨rfl, by simp [work, hs, hf]⟩
      · next hnew =>
        have hless := length_unseen_of_discover h hnew
        exact .inl hless
  · next hf =>
    split at h
    · cases h
      exact .inr ⟨rfl, by simp [work, hs, hf]⟩
    · simp only [leave, Option.bind_eq_bind, Option.bind_eq_some_iff] at h
      obtain ⟨below', -, low, -, time, -, ht⟩ := h
      split at ht
      · obtain ⟨arrival, -, ht⟩ := Option.bind_eq_some_iff.1 ht
        cases ht
        exact .inr ⟨rfl, by simp [work, hs, hf]⟩
      · cases ht
        exact .inr ⟨rfl, by simp [work, hs, hf]⟩

/-- Runs a search until its path is empty. -/
def run (ends : EdgeEnds) (s : BridgeSearch) : Option BridgeSearch :=
  if _ : s.path = [] then some s
  else
    match _ : s.step ends with
    | none => none
    | some t => run ends t
termination_by ((s.unseen ends).length, s.work)
decreasing_by
  rcases step_measure ‹_› ‹_› with hless | ⟨hsame, hless⟩
  · exact .left _ _ hless
  · rw [hsame]
    exact .right _ hless

/-- Searches what is joined to a node, unless the node was found before. -/
def explore (ends : EdgeEnds) (s : BridgeSearch) (id : String) : Option BridgeSearch :=
  if (Assoc.find? id s.discovery).isSome then some s
  else do run ends (← s.discover ends id none)

end BridgeSearch

namespace Graph

variable {W : Type}

/-- The bridges of a graph in the order of its edges, if the search finds what it looks up. -/
def bridges? (g : Graph W) : Option (List (Edge W)) := do
  let ends ← EdgeEnds.ofGraph? g
  let s ← g.ids.foldlM (BridgeSearch.explore ends) .start
  s.bridges.mergeSort.mapM (g.edges[·]?)

/-- The edges whose removal parts what they join. -/
def bridges (g : Graph W) : List (Edge W) := g.bridges?.getD []

end Graph

end ConceptAtlas
