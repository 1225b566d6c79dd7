import ConceptAtlas.Build.Extractor
import ConceptAtlas.Files.Discovery
import ConceptAtlas.Graph.Arena
import ConceptAtlas.Text.Class

/-!
# Building a graph

A graph from a content tree. Every file either gives a node and edges or fails. A build goes through
the files once: the node of a file is added at once, its edges are staged until all nodes are there
(`takeFile`). Then it goes through the staged edges and the edges that were asked for by hand; an
edge with a missing end is not added but reported as dangling (`placeEdge`).

`settle` is the part after extraction: it sees only what each file gave.
-/

namespace ConceptAtlas

/-- What to do with a file that fails. -/
inductive Policy
  | failFast
  | collect
  deriving DecidableEq, Repr

namespace Policy

/-- All policies, each with the name that a configuration has for it and its name in words. -/
def names : List (Policy × String × String) :=
  [(failFast, "fail_fast", "fail_fast"), (collect, "collect", "collect_errors")]

/-- The policy with a name; its name in words may have letters of any case. -/
def ofName (name : String) : Except Fault Policy :=
  match names.find? fun p ↦ p.2.1 == name || p.2.2 == Text.toLower name with
  | some p => .ok p.1
  | none => .error (.config (.unknownPolicy name))

end Policy

namespace Build

/-- A file that could not be turned into a concept, and why. -/
structure FileFault where
  file : Path
  message : String
  deriving DecidableEq, Repr

/-- What a build did. -/
structure Tally where
  nodesCreated : Nat
  edgesCreated : Nat
  filesProcessed : Nat
  filesSkipped : Nat
  errors : List FileFault
  dangling : List String
  deriving DecidableEq, Repr

/-- The tally of a build that has done nothing. -/
def Tally.zero : Tally := ⟨0, 0, 0, 0, [], []⟩

/-- An edge that is asked for by hand, besides those on the cards. -/
structure ManualEdge where
  source : String
  target : String
  relationship : Relationship
  weight : Float := 1

/-- The edge that is asked for. -/
def ManualEdge.edge (e : ManualEdge) : Edge Float :=
  ⟨e.source, e.target, e.relationship, e.weight, .manual⟩

/-- What to build from: where the content is and which files count, how to read a card, what to do
when a file fails, and edges besides those on the cards. -/
structure Request where
  content : Option Path
  glob : String
  options : FindOptions
  policy : Policy
  manual : List ManualEdge
  extractor : Extractor := .concepts

/-- The edges that were asked for by hand. -/
def Request.manualEdges (r : Request) : List (Edge Float) := r.manual.map ManualEdge.edge

/-! ### Files -/

/-- A build underway: the nodes so far, what was counted, and the edges that wait. -/
structure Progress where
  arena : Arena Float
  tally : Tally
  staged : List (Edge Float)

/-- A build before the first file. -/
def Progress.start : Progress := ⟨.empty, .zero, []⟩

/-- A build after one more file. A file that fails ends the build or is left out as a whole. -/
def takeFile (policy : Policy) (s : Progress) (o : Path × Outcome Extract) : Outcome Progress :=
  match o.2, policy with
  | .ok x, _ =>
    .ok {
      arena := (s.arena.addNode x.node).1
      tally := { s.tally with filesProcessed := s.tally.filesProcessed + 1 }
      staged := s.staged ++ x.edges }
  | .error e, .failFast => .error e
  | .error e, .collect =>
    .ok { s with
      tally := { s.tally with
        filesSkipped := s.tally.filesSkipped + 1
        errors := s.tally.errors ++ [⟨o.1, e.message⟩] } }

/-! ### Edges -/

/-- An arena and a tally after one more staged edge. -/
def placeEdge (s : Arena Float × Tally) (e : Edge Float) : Outcome (Arena Float × Tally) :=
  if s.1.joins e then
    match s.1.addEdge e with
    | (a, .ok ()) => .ok (a, { s.2 with edgesCreated := s.2.edgesCreated + 1 })
    | (_, .error f) => .error (.fault f)
  else .ok (s.1, { s.2 with dangling := s.2.dangling ++ [e.describe] })

/-! ### Builds -/

/-- The arena and the tally of what the files gave and of edges made by hand. -/
def settle (policy : Policy) (outcomes : List (Path × Outcome Extract))
    (manualEdges : List (Edge Float)) : Outcome (Arena Float × Tally) := do
  let s ← outcomes.foldlM (takeFile policy) .start
  let (arena, tally) ← (s.staged ++ manualEdges).foldlM placeEdge (s.arena, s.tally)
  return (arena, { tally with nodesCreated := arena.nodeCount })

/-- The files of a content tree and what each of them gives. -/
def outcomes (d : Disk) (base : Path) (r : Request) : Outcome (List (Path × Outcome Extract)) := do
  let files ← Discovery.files d base r.glob r.options
  return files.map fun f ↦ (f.path, r.extractor.extract d base f.path)

/-- Builds a graph. -/
def run (d : Disk) (r : Request) : Outcome (Graph Float × Tally) :=
  match r.content with
  | none => refuse (.config .noContentPath)
  | some base => do
    let (arena, tally) ← settle r.policy (← outcomes d base r) r.manualEdges
    return (arena.graph, tally)

end Build

end ConceptAtlas
