import ConceptAtlas.Build.Basic
import ConceptAtlas.Decimal.Layout
import ConceptAtlas.Graph.Stats
import ConceptAtlas.Graph.Validation

/-!
# Display

The lines in which people read what the commands found out.
-/

namespace ConceptAtlas.Command.Display

/-- A heading with lines under it, left out if there are none. -/
def block (heading : String) (lines : List String) : List String :=
  if lines.isEmpty then [] else ["", heading] ++ lines

/-- A line for each count. -/
def counts (cs : List (String × Nat)) : List String := cs.map fun c ↦ s!"  {c.1}: {c.2}"

/-- A node in a list. -/
def named (n : Node) : String := s!"{n.id} ({n.title})"

/-- Lines numbered from one. -/
def numbered (lines : List String) : List String :=
  (List.range' 1 lines.length).zipWith (fun i l ↦ s!"  {i}. {l}") lines

/-- A line about how many, and one for each of them; nothing if there are none. -/
def listed (lead : String) (lines : List String) : List String :=
  if lines.isEmpty then [] else s!"{lead}{lines.length}" :: lines.map (s!"    • {·}")

/-- What a build did. -/
def tally (t : Build.Tally) : List String :=
  ["Graph built:",
    s!"  Nodes:           {t.nodesCreated}",
    s!"  Edges:           {t.edgesCreated}",
    s!"  Files processed: {t.filesProcessed}",
    s!"  Files skipped:   {t.filesSkipped}"] ++
  listed "  Errors:          " (t.errors.map fun e ↦ s!"{e.file.text}: {e.message}") ++
  listed "  Dangling refs:   " t.dangling

/-- A finding, and what it is about. -/
def finding (mark : String) (f : Finding) : List String :=
  s!"  {mark} [{f.code.name}]: {f.message}" :: (f.nodes ++ f.edges).map fun x ↦ s!"    - {x}"

/-- The report of a validation. -/
def report (r : Report) : List String :=
  [if r.isValid then "✅ Graph is valid." else "❌ Graph has validation issues:"] ++
  r.errors.flatMap (finding "ERROR") ++
  r.warnings.flatMap (finding "WARN ") ++
  r.infos.map (fun f ↦ s!"  INFO  [{f.code.name}]: {f.message}") ++
  ["", s!"Summary: {r.errors.length} error(s), {r.warnings.length} warning(s)"]

/-- A line that names a node, if there is one with a name. -/
def champion (lead : String) (id : Option String) (degree : String) : List String :=
  match id with
  | some id => if id.isEmpty then [] else [s!"{lead}: {id} ({degree})"]
  | none => []

/-- Statistics, with the nodes of greatest degree, the most central nodes and the bridges. -/
def stats (s : Stats Float) (top : List (String × Nat)) (central : List (String × Float))
    (bridges : List (Edge Float)) : List String :=
  ["Graph Statistics",
    "================",
    s!"Nodes:          {s.nodeCount}",
    s!"  Canonical:    {s.canonicalCount}",
    s!"  Variants:     {s.variantCount}",
    s!"  Orphans:      {s.orphanCount}",
    s!"Edges:          {s.edgeCount}",
    s!"Avg degree:     {Decimal.twoPlaces s.averageDegree}",
    s!"Max in-degree:  {s.maxInDegree}",
    s!"Max out-degree: {s.maxOutDegree}"] ++
  champion "Most depended on" s.mostDependedOn s!"in-degree: {s.maxInDegree}" ++
  champion "Most dependencies" s.mostDependencies s!"out-degree: {s.maxOutDegree}" ++
  block "Categories:" (counts (byCount s.categories)) ++
  block "Relationships:" (counts (byCount s.relationships)) ++
  block "Top nodes by degree:" (counts top) ++
  block "Centrality:" (central.map fun c ↦ s!"  {c.1}: {Decimal.twoPlaces c.2}") ++
  block "Bridges:" (bridges.map fun e ↦ s!"  {e.describe} [{e.relationship.label}]")

/-- The overview of a graph. -/
def overview (o : Overview) : List String :=
  [s!"Graph: {o.nodeCount} nodes, {o.edgeCount} edges"] ++
  block "Categories:" (counts o.categories) ++
  block "Relationships:" (counts o.relationships)

end ConceptAtlas.Command.Display
