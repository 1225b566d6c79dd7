import ConceptAtlas.Graph.Neighborhood
import ConceptAtlas.Graph.Prerequisite
import ConceptAtlas.Graph.Ranking
import ConceptAtlas.Graph.Related
import ConceptAtlas.Graph.Route
import ConceptAtlas.Graph.Validation

/-!
# Views

The JSON forms in which answers about a graph are given: nodes shortened to what names them, edges
with their labels, and one object for each kind of question.
-/

namespace ConceptAtlas

/-- A number as JSON. -/
def Json.ofNat (n : Nat) : Json := .int n

/-- Texts as a JSON array. -/
def Json.ofTexts (texts : List String) : Json := .arr (texts.map .str)

namespace View

/-- A node shortened to its id, title, category and description. -/
def node (n : Node) : Json :=
  .obj [("id", .str n.id), ("title", .str n.title), ("category", Json.ofText? n.category),
    ("description", Json.ofText? n.description)]

/-- An edge with its label. -/
def edge (e : Edge Float) : Json :=
  .obj [("from", .str e.source), ("to", .str e.target), ("relationship", .str e.relationship.label),
    ("weight", .float e.weight)]

/-- Related concepts. -/
def related (r : Related) : Json :=
  let groups := r.groups.map fun g ↦
    Json.obj [("relationship", .str g.1), ("concepts", .arr (g.2.map node))]
  .obj [("source", node r.source), ("related", .arr groups),
    ("total_count", Json.ofNat r.count)]

/-- The label of the edge that leaves each node of a route; the last one has none. -/
def labels : List Node → List (Edge Float) → List (Node × Option String)
  | [], _ => []
  | n :: ns, [] => (n, none) :: labels ns []
  | n :: ns, e :: es => (n, some e.relationship.label) :: labels ns es

/-- A route between two nodes. -/
def route (source target : Node) (r : Route Float) : Json :=
  let steps := (labels r.nodes r.edges).map fun s ↦
    Json.obj [("node", node s.1), ("relationship_to_next", Json.ofText? s.2)]
  .obj [("from", node source), ("to", node target), ("path", .arr steps), ("found", .bool r.found),
    ("length", Json.ofNat r.edges.length), ("total_weight", .float r.totalWeight)]

/-- Prerequisites, each with the depth that is given for its id. -/
def prerequisitesAt (p : Prerequisites) (depthOf : String → Nat) : Json :=
  let items := p.ordered.map fun n ↦
    Json.obj [("node", node n), ("depth", Json.ofNat (depthOf n.id))]
  .obj [("target", node p.target), ("prerequisites", .arr items),
    ("count", Json.ofNat items.length), ("has_cycles", .bool p.hasCycles)]

/-- Prerequisites with their depths; one without a depth would count as direct. -/
def prerequisites (p : Prerequisites) (depths : List (String × Nat)) : Json :=
  prerequisitesAt p fun id ↦ (Assoc.find? id depths).getD 1

/-- A neighborhood within a radius. -/
def neighborhood (n : Neighborhood Float) (radius : Int) : Json :=
  let nodes := n.nodes.map fun m ↦
    Json.obj [("node", node m), ("distance", Json.ofNat ((Assoc.find? m.id n.distances).getD 0))]
  .obj [("center", node n.center), ("nodes", .arr nodes), ("edges", .arr (n.edges.map edge)),
    ("radius", .int radius)]

/-- Counts as objects with the name under a given key. -/
def counts (key : String) (cs : List (String × Nat)) : Json :=
  .arr (cs.map fun c ↦ .obj [(key, .str c.1), ("count", Json.ofNat c.2)])

/-- The overview of a graph. -/
def overview {S : Type} (s : Stats S) : Json :=
  let o := s.overview
  .obj [("node_count", Json.ofNat o.nodeCount), ("edge_count", Json.ofNat o.edgeCount),
    ("categories", counts "category" o.categories),
    ("relationships", counts "relationship" o.relationships)]

/-- The fields of the statistics of a graph. -/
def statsFields (s : Stats Float) : List (String × Json) :=
  [("node_count", Json.ofNat s.nodeCount), ("edge_count", Json.ofNat s.edgeCount),
    ("canonical_count", Json.ofNat s.canonicalCount),
    ("variant_count", Json.ofNat s.variantCount),
    ("category_distribution", .obj (s.categories.map fun c ↦ (c.1, Json.ofNat c.2))),
    ("relationship_distribution", .obj (s.relationships.map fun c ↦ (c.1, Json.ofNat c.2))),
    ("orphan_count", Json.ofNat s.orphanCount), ("avg_degree", .float s.averageDegree),
    ("max_in_degree", Json.ofNat s.maxInDegree), ("max_out_degree", Json.ofNat s.maxOutDegree),
    ("most_depended_on", Json.ofText? s.mostDependedOn),
    ("most_dependencies", Json.ofText? s.mostDependencies)]

/-- A finding. -/
def finding (f : Finding) : Json :=
  .obj [("code", .str f.code.name), ("message", .str f.message), ("nodes", Json.ofTexts f.nodes),
    ("edges", Json.ofTexts f.edges)]

/-- The report of a validation. -/
def report (r : Report) : Json :=
  .obj [("valid", .bool r.isValid), ("errors", .arr (r.errors.map finding)),
    ("warnings", .arr (r.warnings.map finding)), ("info", .arr (r.infos.map finding))]

end View

end ConceptAtlas
