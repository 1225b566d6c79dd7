import ConceptAtlas.Graph.Basic
import ConceptAtlas.Heap

/-!
# Routes

The cheapest directed route between two nodes. The search settles nodes in the order of their
distance; a node's distance is lowered only by a smaller one, so of equally cheap routes the one
whose edges came first wins. Entries of the queue that were overtaken stay in it and are skipped
when their turn comes.

Weights are of any type that can be added and compared. The search ends with any of them: a turn
that adds entries to the queue settles a node, and adds one at most for each edge that leaves it.
Where no cycle is negative, the edges that a node was reached by lead back to the start.
-/

namespace ConceptAtlas

/-- The answer to a question for a route: the nodes and edges on it and the sum of the weights. -/
structure Route (W : Type) where
  nodes : List Node
  edges : List (Edge W)
  totalWeight : W
  found : Bool

namespace Route

variable {W : Type}

/-- An entry of the queue: a node, its distance when it was entered, and how many came before it. -/
structure Entry (W : Type) where
  distance : W
  number : Nat
  id : String

/-- What is known during a search: the least distances so far, the edge that each node was reached
by, the nodes whose turn has come, and the queue. -/
structure Search (W : Type) where
  distances : List (String × W)
  arrivals : List (String × Edge W)
  settled : List String
  queue : Array (Entry W)
  entered : Nat

section Search

variable [Add W] [LT W] [DecidableLT W] [BEq W]

/-- The order of the queue: by distance, and of equal distances the one entered first. -/
def Entry.before (a b : Entry W) : Bool :=
  if a.distance == b.distance then a.number < b.number else a.distance < b.distance

/-- Whether a distance of a node is new or less than the one that is known. -/
def Search.improves (s : Search W) (id : String) (candidate : W) : Bool :=
  match Assoc.find? id s.distances with
  | none => true
  | some known => candidate < known

/-- Takes an edge into account that leaves a node settled at a distance. -/
def Search.relax (distance : W) (s : Search W) (e : Edge W) : Search W :=
  let candidate := distance + e.weight
  if s.improves e.target candidate then
    { s with
      distances := Assoc.put e.target candidate s.distances
      arrivals := Assoc.put e.target e s.arrivals
      queue := Heap.push Entry.before s.queue ⟨candidate, s.entered, e.target⟩
      entered := s.entered + 1 }
  else s

/-- The search from a node before its first step. -/
def Search.start [Zero W] (source : String) : Search W where
  distances := [(source, 0)]
  arrivals := []
  settled := []
  queue := #[⟨0, 0, source⟩]
  entered := 1

/-- The search after the turn of an entry: its node is settled, and the edges that leave it are
taken into account. -/
def Search.settle (g : Graph W) (entry : Entry W) (s : Search W) : Search W :=
  (g.outgoing entry.id).foldl (relax entry.distance)
    { s with settled := s.settled ++ [entry.id] }

/-- The number of edges that leave nodes whose turn has not come. -/
def Search.ahead (g : Graph W) (s : Search W) : Nat :=
  (g.edges.filter fun e ↦ !s.settled.contains e.source).length

@[simp]
theorem Search.settled_relax (distance : W) (s : Search W) (e : Edge W) :
    (s.relax distance e).settled = s.settled := by
  simp only [relax]
  split <;> rfl

@[simp]
theorem Search.settled_foldl_relax (distance : W) (es : List (Edge W)) (s : Search W) :
    (es.foldl (relax distance) s).settled = s.settled := by
  induction es generalizing s with
  | nil => rfl
  | cons e es ih => rw [List.foldl_cons, ih, settled_relax]

/-- Each edge adds one entry to the queue at most. -/
theorem Search.size_queue_foldl_relax_le (distance : W) (es : List (Edge W)) (s : Search W) :
    (es.foldl (relax distance) s).queue.size ≤ s.queue.size + es.length := by
  induction es generalizing s with
  | nil => exact Nat.le_refl _
  | cons e es ih =>
    have hone : (s.relax distance e).queue.size ≤ s.queue.size + 1 := by
      simp only [relax]
      split
      · exact Nat.le_of_eq (Heap.size_push ..)
      · exact Nat.le_succ _
    have hrest := ih (s.relax distance e)
    rw [List.foldl_cons, List.length_cons]
    omega

/-- The edges that leave a node are ahead no longer when its turn has come. -/
theorem Search.ahead_settle (g : Graph W) (s : Search W) {entry : Entry W}
    (h : s.settled.contains entry.id = false) :
    (s.settle g entry).ahead g + (g.outgoing entry.id).length = s.ahead g := by
  rw [ahead, ahead, settle, settled_foldl_relax]
  exact Graph.length_filter_not_seen g.edges Edge.source h

/-- A turn that settles a node adds fewer entries to the queue than it takes edges from those
ahead. -/
theorem Search.settle_measure (g : Graph W) (s : Search W) {entry : Entry W}
    (h : s.settled.contains entry.id = false) :
    (s.settle g entry).queue.size + (s.settle g entry).ahead g ≤ s.queue.size + s.ahead g := by
  have hqueue : (s.settle g entry).queue.size ≤ s.queue.size + (g.outgoing entry.id).length :=
    size_queue_foldl_relax_le ..
  have hahead := ahead_settle g s h
  omega

/-- Runs a search until the target is settled or the queue is empty. -/
def Search.run (g : Graph W) (target : String) (s : Search W) : Search W :=
  match _ : Heap.pop? Entry.before s.queue with
  | none => s
  | some (entry, queue) =>
    -- A second entry of a node is left over from before a shorter way to it was found.
    if _ : s.settled.contains entry.id then Search.run g target { s with queue }
    else if entry.id == target then { s with queue, settled := s.settled ++ [entry.id] }
    else Search.run g target (Search.settle g entry { s with queue })
termination_by s.queue.size + s.ahead g
decreasing_by
  · have hsize := Heap.size_of_pop? _ ‹_›
    show queue.size + s.ahead g < s.queue.size + s.ahead g
    omega
  · have hsize := Heap.size_of_pop? _ ‹_›
    have hmeasure := settle_measure g { s with queue } (Bool.eq_false_iff.2 ‹_›)
    simp only [ahead] at hmeasure ⊢
    omega

end Search

/-- The edges by which a node was reached from the source, the last one first; none if they do not
lead there within `fuel` steps. -/
def trace? (arrivals : List (String × Edge W)) (source : String) :
    (fuel : Nat) → String → Option (List (Edge W))
  | fuel, id =>
    if id = source then some []
    else
      match fuel with
      | 0 => none
      | fuel + 1 => do
        let e ← Assoc.find? id arrivals
        let rest ← trace? arrivals source fuel e.source
        return e :: rest

variable [Zero W]

/-- The answer that there is no route. -/
def none : Route W := ⟨[], [], 0, false⟩

/-- The sum of weights from left to right. -/
def weightSum [Add W] (es : List (Edge W)) : W := es.foldl (fun sum e ↦ sum + e.weight) 0

/-- The route along edges that starts at a node. -/
def along [Add W] (g : Graph W) (start : Node) (es : List (Edge W)) : Route W where
  nodes := start :: es.filterMap fun e ↦ g.node? e.target
  edges := es
  totalWeight := weightSum es
  found := true

end Route

variable {W : Type} [Zero W] [Add W] [LT W] [DecidableLT W] [BEq W]

/-- The cheapest route between two nodes. -/
def Graph.route (g : Graph W) (source target : String) : Except Fault (Route W) := do
  let start ← g.node source
  let _ ← g.node target
  if source = target then return ⟨[start], [], 0, true⟩
  let s := Route.Search.run g target (.start source)
  if !s.settled.contains target then return Route.none
  match Route.trace? s.arrivals source s.arrivals.length target with
  | some es => return Route.along g start es.reverse
  | none => return Route.none

end ConceptAtlas
