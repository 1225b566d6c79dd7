import ConceptAtlas.Graph.Arena
import ConceptAtlas.Json.Parser
import ConceptAtlas.Json.Printer

/-!
# Snapshots

The JSON text that keeps a graph: its nodes, its edges, and a stamp that says when and from what it
was built. An integer with too many digits has no text, and neither has a snapshot with one in it.
Reading a snapshot checks its records in order, first the nodes, then the edges, then the stamp;
edges whose ends are missing are dropped when the graph is made.
-/

namespace ConceptAtlas

/-- What is kept about the build of a graph. -/
structure Stamp where
  builtAt : String
  builderVersion : String
  contentHash : Option String
  sourceFileCount : Option Int
  deriving DecidableEq, Repr

/-- A graph's records and the stamp of its build. -/
structure Snapshot where
  nodes : List Node
  edges : List (Edge Float)
  stamp : Option Stamp

/-- The version that is stamped on what this library builds. -/
def currentVersion : String := "0.1.0"

namespace Stamp

/-- The stamp of a build at a time in seconds. -/
def now (seconds : Int) : Stamp := ⟨toString seconds, currentVersion, none, none⟩

/-- The JSON form of a stamp. -/
def toJson (s : Stamp) : Json :=
  .obj [("built_at", .str s.builtAt), ("builder_version", .str s.builderVersion),
    ("content_hash", Json.ofText? s.contentHash),
    ("source_file_count", (s.sourceFileCount.map Json.int).getD .null)]

/-- The text of a field that a stamp has to have; a value of another kind counts as its text. -/
def requiredText (j : Json) (key : String) : Outcome String :=
  match j.field? key with
  | some value => .ok value.text
  | none => refuse (.parse (.missing "graph metadata" none key))

/-- The stamp that a JSON value records. -/
def ofJson (j : Json) : Outcome Stamp := do
  let _ ← Record.fields "graph metadata" j
  let builtAt ← requiredText j "built_at"
  let builderVersion ← requiredText j "builder_version"
  let contentHash ← Record.text? "content_hash" (j.fieldOrNull "content_hash")
  let sourceFileCount ← Record.int? "source_file_count" (j.fieldOrNull "source_file_count")
  return { builtAt, builderVersion, contentHash, sourceFileCount }

end Stamp

namespace Snapshot

/-- The snapshot of a graph. -/
def ofGraph (g : Graph Float) (stamp : Option Stamp) : Snapshot := ⟨g.nodes, g.edges, stamp⟩

/-- The snapshot of an arena. -/
def ofArena (a : Arena Float) (stamp : Option Stamp) : Snapshot := ⟨a.nodes, a.edges, stamp⟩

/-- The arena of a snapshot. -/
def arena (s : Snapshot) : Arena Float := .ofRecords s.nodes s.edges

/-- The graph of a snapshot. -/
def graph (s : Snapshot) : Graph Float := s.arena.graph

/-- The JSON form of a snapshot. -/
def toJson (s : Snapshot) : Json :=
  .obj [("nodes", .arr (s.nodes.map Node.toJson)), ("edges", .arr (s.edges.map Edge.toJson)),
    ("metadata", (s.stamp.map Stamp.toJson).getD .null)]

/-- The text of a snapshot, if it can be written. -/
def text (s : Snapshot) : Outcome String :=
  if s.toJson.isWritable then .ok (s.toJson.pretty .unicode) else breakDown .integerUnwritable

/-- The snapshot that a JSON value records. -/
def ofJson (j : Json) : Outcome Snapshot :=
  match j with
  | .obj _ =>
    match j.field? "nodes", j.field? "edges" with
    | some nodes, some edges => do
      let nodes ← (← Record.items "snapshot nodes" nodes).mapM Node.ofJson
      let edges ← (← Record.items "snapshot edges" edges).mapM Edge.ofJson
      let stamp ←
        match j.fieldOrNull "metadata" with
        | .null => .ok none
        | m => (Stamp.ofJson m).map some
      return { nodes, edges, stamp }
    | _, _ => refuse (.parse .snapshotParts)
  | _ => refuse (.parse .snapshotKind)

/-- The snapshot that a text spells, whose integers have no more digits than a limit allows. -/
def ofTextWithin (limit : Option Nat) (s : String) : Outcome Snapshot :=
  match Json.parseWithin limit s with
  | .ok j => ofJson j
  | .error .malformed => refuse (.parse .snapshotText)
  | .error (.integerTooLong digits) => breakDown (.integerTooLong digits)

/-- The snapshot that a text spells. -/
def ofText (s : String) : Outcome Snapshot := ofTextWithin (some Json.maxIntegerDigits) s

end Snapshot

/-- The text that keeps a graph. -/
def Graph.serialize (g : Graph Float) (stamp : Option Stamp) : Outcome String :=
  (Snapshot.ofGraph g stamp).text

/-- The text that keeps an arena. -/
def Arena.serialize (a : Arena Float) (stamp : Option Stamp) : Outcome String :=
  (Snapshot.ofArena a stamp).text

/-- The arena that a text keeps. -/
def Arena.ofText (s : String) : Outcome (Arena Float) := (Snapshot.ofText s).map Snapshot.arena

/-- The graph that a text keeps. -/
def Graph.ofText (s : String) : Outcome (Graph Float) := (Snapshot.ofText s).map Snapshot.graph

end ConceptAtlas
