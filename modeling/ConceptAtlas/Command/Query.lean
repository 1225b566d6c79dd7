import ConceptAtlas.Command.Display
import ConceptAtlas.Graph.View

/-!
# Queries

The questions that can be asked about one concept, and their answers in JSON and in lines.
-/

namespace ConceptAtlas.Command

/-- A question about a concept. -/
inductive Question
  | related
  | prerequisites
  | route (target : Option String)
  | neighborhood (radius : Int)
  deriving DecidableEq, Repr

/-- An answer to a question. -/
inductive Answer
  | related (r : Related)
  | prerequisites (p : Prerequisites) (depths : List (String × Nat))
  | route (source target : Node) (r : Route Float)
  | neighborhood (n : Neighborhood Float) (radius : Int)

/-- Answers a question about the concept with an id. The target of a route may not be empty. -/
def Question.answer (q : Question) (g : Graph Float) (id : String) : Except Fault Answer :=
  match q with
  | .related => do return .related (← g.related id)
  | .prerequisites => do
    return .prerequisites (← g.prerequisites id) (← g.prerequisiteDepths id)
  | .route target =>
    match target.filter (!·.isEmpty) with
    | none => .error (.config .noTarget)
    | some target => do
      let r ← g.route id target
      return .route (← g.node id) (← g.node target) r
  | .neighborhood radius => do return .neighborhood (← g.neighborhood id radius none) radius

namespace Answer

/-- An answer as JSON. -/
def toJson : Answer → Json
  | .related r => View.related r
  | .prerequisites p depths => View.prerequisites p depths
  | .route source target r => View.route source target r
  | .neighborhood n radius => View.neighborhood n radius

/-- Lines, or one that says that there are none. -/
def orElse (none : String) (lines : List String) : List String :=
  if lines.isEmpty then [none] else lines

/-- The concepts related by a label. -/
def groupLines (g : String × List Node) : List String :=
  s!"  [{g.1}]" :: g.2.map fun n ↦ s!"    - {Display.named n}"

/-- The line of a node on a route, and the label that leads on from it, if it has one. -/
def stepLines (line : String) (label : Option String) : List String :=
  match label with
  | some l => if l.isEmpty then [line] else [line, s!"    --[{l}]-->"]
  | none => [line]

/-- A route. -/
def routeLines (source target : Node) (r : Route Float) : List String :=
  if !r.found then [s!"No path found from '{source.id}' to '{target.id}'."]
  else
    let lines := Display.numbered (r.nodes.map Display.named)
    let labels := (View.labels r.nodes r.edges).map Prod.snd
    [s!"Path from '{source.id}' to '{target.id}':"] ++
      (lines.zipWith stepLines labels).flatten ++
      ["", s!"Total weight: {Decimal.twoPlaces r.totalWeight}"]

/-- An answer in lines. -/
def lines : Answer → List String
  | .related r =>
    [s!"Related to '{r.source.id}':"] ++
      orElse "  (no related nodes)" (r.groups.flatMap groupLines) ++
      ["", s!"{r.count} related node(s)"]
  | .prerequisites p _ =>
    [s!"Prerequisites for '{p.target.id}' (learning order):"] ++
      orElse "  (no prerequisites)" (Display.numbered (p.ordered.map Display.named)) ++
      (if p.hasCycles then
        ["", "  WARNING: Prerequisite cycle detected; ordering is approximate."] else [])
  | .route source target r => routeLines source target r
  | .neighborhood n radius =>
    let distance (m : Node) : Nat := (Assoc.find? m.id n.distances).getD 0
    [s!"Neighborhood of '{n.center.id}' (radius {radius}):"] ++
      orElse "  (no neighbors)" (n.nodes.map fun m ↦ s!"  [{distance m}] {Display.named m}")

end Answer

end ConceptAtlas.Command
