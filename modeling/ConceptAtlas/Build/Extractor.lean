import ConceptAtlas.Content.Concept
import ConceptAtlas.Files.Discovery
import ConceptAtlas.Yaml.Reading

/-!
# Extractors

How a build reads a card. An extractor takes a card apart in its own terms, once for the node and
once for the edges, and turns both into records; any of the four steps may fail. What a file gives
is all or nothing: if a step fails, the records of the steps before it are lost (`extract`).
-/

namespace ConceptAtlas.Build

/-- What a file gives. -/
structure Extract where
  node : Node
  edges : List (Edge Float)

/-- A way to read cards. -/
structure Extractor where
  NodeData : Type
  EdgeData : Type
  /-- What the card at a path below a base says about its node. -/
  nodeData : Path → Path → Card → Outcome NodeData
  /-- The node that was read. -/
  node : NodeData → Outcome Node
  /-- What a card says about edges, if anything. -/
  edgeData : Card → Outcome (Option EdgeData)
  /-- The edges of a node that were read. -/
  edges : String → EdgeData → Outcome (List (Edge Float))

namespace Extractor

/-- The node and the edges of a card. -/
def ofCard (x : Extractor) (base path : Path) (card : Card) : Outcome Extract := do
  let node ← x.node (← x.nodeData base path card)
  match ← x.edgeData card with
  | none => return ⟨node, []⟩
  | some data => return ⟨node, ← x.edges node.id data⟩

/-- What a file gives. -/
def extract (x : Extractor) (d : Disk) (base path : Path) : Outcome Extract := do
  let text ← (d.text path).mapError Failure.fault
  x.ofCard base path (← Card.ofText Yaml.parse text)

/-- Cards that are concepts and refer to concepts. -/
def concepts : Extractor where
  NodeData := Concept
  EdgeData := References
  nodeData _ path card := Concept.ofFront path card.front
  node c := .ok c.node
  edgeData card := do
    let references ← References.ofFront card.front
    return if references.isEmpty then none else some references
  edges id references := .ok (references.edges id)

end Extractor

end ConceptAtlas.Build
