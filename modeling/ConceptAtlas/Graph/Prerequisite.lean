import ConceptAtlas.Graph.Breadth
import ConceptAtlas.Graph.Cycle

/-!
# Prerequisites

What has to be learned before a concept. `Graph.prerequisites` lists all that leads to it along
prerequisite edges in an order to learn it in: a walk against the edges, depth first, that lists a
concept when all before it is done. Where prerequisites run in a cycle no order fits all of them,
and the answer says so. `Graph.prerequisiteDepths` gives for each the length of the shortest chain:
a second search, breadth first, that gives a depth to a concept when it is found.
-/

namespace ConceptAtlas

/-- What leads to a concept, in an order to learn it in. -/
structure Prerequisites where
  target : Node
  ordered : List Node
  hasCycles : Bool

namespace Graph

variable {W : Type}

/-- The direct prerequisites of a concept, one for each edge. -/
def prerequisiteSources (g : Graph W) (id : String) : List String :=
  (g.incoming id).filterMap fun e ↦
    if e.relationship = .prerequisite then some e.source else none

end Graph

/-- A concept on the path of a walk, and those of its direct prerequisites that are to be looked
at. -/
structure PrerequisiteWalk.Frame where
  id : String
  rest : List String

/-- A walk against prerequisite edges: what it has visited, what it has listed, and its path, the
last concept first. -/
structure PrerequisiteWalk where
  visited : List String
  done : List String
  path : List PrerequisiteWalk.Frame

namespace PrerequisiteWalk

variable {W : Type}

/-- The walk for a target before its first step. -/
def start (g : Graph W) (target : String) : PrerequisiteWalk :=
  ⟨[target], [], [⟨target, g.prerequisiteSources target⟩]⟩

/-- One step: on to a prerequisite that was not visited, or back from a concept, which is listed
unless it is the target. -/
def step (g : Graph W) (target : String) (w : PrerequisiteWalk) : PrerequisiteWalk :=
  match w.path with
  | [] => w
  | f :: below =>
    match f.rest with
    | [] => { w with
        done := if f.id = target then w.done else w.done ++ [f.id]
        path := below }
    | u :: rest =>
      if w.visited.contains u then { w with path := { f with rest } :: below }
      else
        { w with
          visited := w.visited ++ [u]
          path := ⟨u, g.prerequisiteSources u⟩ :: { f with rest } :: below }

/-- What there is to do: concepts on the path to go back from, prerequisites to look at, and edges
into concepts that were not visited. An edge counts twice, since looking at its source may put that
on the path. -/
def work (g : Graph W) (w : PrerequisiteWalk) : Nat :=
  2 * (g.edges.filter fun e ↦ !w.visited.contains e.target).length +
    2 * (w.path.flatMap Frame.rest).length + w.path.length

theorem work_step_lt (g : Graph W) (target : String) {w : PrerequisiteWalk} (h : w.path ≠ []) :
    (w.step g target).work g < w.work g := by
  obtain ⟨f, below, hpath⟩ := List.exists_cons_of_ne_nil h
  cases hrest : f.rest with
  | nil => simp [step, work, hpath, hrest]
  | cons u rest =>
    cases hu : w.visited.contains u with
    | true =>
      simp only [step, work, hpath, hrest, hu, if_true, List.flatMap_cons, List.length_append,
        List.length_cons]
      omega
    | false =>
      have hahead := Graph.length_filter_not_seen g.edges Edge.target hu
      have hsources : (g.prerequisiteSources u).length ≤ (g.incoming u).length :=
        List.length_filterMap_le ..
      rw [Graph.incoming] at hsources
      simp only [step, work, hpath, hrest, hu, Bool.false_eq_true, if_false, List.flatMap_cons,
        List.length_append, List.length_cons]
      omega

/-- Runs a walk until its path is empty. -/
def run (g : Graph W) (target : String) (w : PrerequisiteWalk) : PrerequisiteWalk :=
  if _ : w.path = [] then w else run g target (w.step g target)
termination_by w.work g
decreasing_by exact work_step_lt g target ‹_›

end PrerequisiteWalk

namespace Graph

variable {W : Type}

/-- The prerequisite edges into the given concepts, as arcs. -/
def prerequisiteArcs (g : Graph W) (ids : List String) : List (String × String) :=
  ids.flatMap fun id ↦ (g.prerequisiteSources id).map (·, id)

/-- All that leads to a concept along prerequisite edges, in an order to learn it in. -/
def prerequisites (g : Graph W) (id : String) : Except Fault Prerequisites := do
  let target ← g.node id
  let walk := (PrerequisiteWalk.start g id).run g id
  return {
    target
    ordered := walk.done.filterMap g.node?
    hasCycles := Cycle.exists? (g.prerequisiteArcs walk.visited) walk.visited }

end Graph

/-! ### Depths -/

namespace DepthSearch

variable {W : Type}

/-- One step: the direct prerequisites of the first concept in the queue lie one deeper than it. -/
def step (g : Graph W) (target : String) (s : DepthSearch) : DepthSearch :=
  match s.queue with
  | [] => s
  | (v, depth) :: rest =>
    (g.prerequisiteSources v).foldl (note target (depth + 1)) { s with queue := rest }

theorem work_step_lt (g : Graph W) (target : String) {s : DepthSearch} (h : s.queue ≠ []) :
    (s.step g target).work g.ids target < s.work g.ids target := by
  obtain ⟨⟨v, depth⟩, rest, hqueue⟩ := List.exists_cons_of_ne_nil h
  have hsources : ∀ u ∈ g.prerequisiteSources v, u ∈ g.ids := by
    intro u hu
    obtain ⟨e, he, hsome⟩ := List.mem_filterMap.1 hu
    split at hsome
    · exact Option.some.inj hsome ▸ g.source_mem e (List.mem_filter.1 he).1
    · nomatch hsome
  rw [step, hqueue]
  exact Nat.lt_of_le_of_lt (work_foldl_note_le target (depth + 1) _ hsources)
    (work_tail_lt g.ids target hqueue)

/-- Runs a search until its queue is empty. -/
def run (g : Graph W) (target : String) (s : DepthSearch) : DepthSearch :=
  if _ : s.queue = [] then s else run g target (s.step g target)
termination_by s.work g.ids target
decreasing_by exact work_step_lt g target ‹_›

end DepthSearch

/-- The concepts that lead to a given one, each with the length of the shortest chain. -/
def Graph.prerequisiteDepths {W : Type} (g : Graph W) (id : String) :
    Except Fault (List (String × Nat)) := do
  let _ ← g.node id
  return ((DepthSearch.start id).run g id).depths

end ConceptAtlas
