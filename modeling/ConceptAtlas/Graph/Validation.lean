import ConceptAtlas.Graph.Cycle
import ConceptAtlas.Graph.Stats

/-!
# Validation

Five checks of a graph's structure. Loops, a prerequisite cycle between different nodes and variants
without their canonical node are errors; nodes without edges and edges that repeat an earlier one
are warnings. A graph is valid if no check finds an error. The summary is for information alone.
-/

namespace ConceptAtlas

/-- What a finding is about. -/
inductive Finding.Code
  | orphanNodes
  | selfLoops
  | duplicateEdges
  | prerequisiteCycle
  | canonicalReference
  | graphSummary
  | other (name : String)
  deriving DecidableEq, Repr

/-- The name of a code. -/
def Finding.Code.name : Finding.Code → String
  | .orphanNodes => "ORPHAN_NODES"
  | .selfLoops => "SELF_LOOPS"
  | .duplicateEdges => "DUPLICATE_EDGES"
  | .prerequisiteCycle => "PREREQUISITE_CYCLE"
  | .canonicalReference => "INVALID_CANONICAL_REF"
  | .graphSummary => "GRAPH_SUMMARY"
  | .other name => name

/-- A finding: what it is about, in words, with the nodes and edges it names. -/
structure Finding where
  code : Finding.Code
  message : String
  nodes : List String
  edges : List String
  deriving DecidableEq, Repr

/-- How grave a finding is. -/
inductive Severity
  | error
  | warning
  | info
  deriving DecidableEq, Repr

/-- The findings of a validation. -/
structure Report where
  errors : List Finding
  warnings : List Finding
  infos : List Finding
  deriving DecidableEq, Repr

namespace Report

/-- The report without findings. -/
def empty : Report := ⟨[], [], []⟩

/-- The report with one more finding. -/
def add (r : Report) (severity : Severity) (f : Finding) : Report :=
  match severity with
  | .error => { r with errors := r.errors ++ [f] }
  | .warning => { r with warnings := r.warnings ++ [f] }
  | .info => { r with infos := r.infos ++ [f] }

/-- Whether there is no error. -/
def isValid (r : Report) : Bool := r.errors.isEmpty

/-- The number of errors and warnings. -/
def issueCount (r : Report) : Nat := r.errors.length + r.warnings.length

end Report

namespace Graph

variable {W : Type}

/-! ### The checks -/

/-- The finding about things that a check collects, unless there are none. -/
def finding? (code : Finding.Code) (message : Nat → String) (nodes edges : List String) :
    Option Finding :=
  let count := nodes.length + edges.length
  if count = 0 then none else some ⟨code, message count, nodes, edges⟩

theorem finding?_eq_none_iff {code : Finding.Code} {message : Nat → String}
    {nodes edges : List String} :
    finding? code message nodes edges = none ↔ nodes = [] ∧ edges = [] := by
  simp [finding?, Nat.add_eq_zero_iff]

/-- Whether no edge is at a node. -/
def isOrphan (g : Graph W) (id : String) : Bool := g.degree id == 0

/-- The nodes that no edge is at. -/
def orphans (g : Graph W) : List String := g.ids.filter g.isOrphan

/-- The loops. -/
def loops (g : Graph W) : List (Edge W) := g.edges.filter Edge.isLoop

/-- What two edges share when one repeats the other: both ends and the label. -/
def edgeKey (e : Edge W) : String × String × String := (e.source, e.target, e.relationship.label)

/-- A pass over edges: the keys seen so far, and the edges whose key had been seen before. -/
structure DuplicateScan (W : Type) where
  seen : List (String × String × String)
  repeated : List (Edge W)

/-- The pass after one more edge. -/
def DuplicateScan.add (s : DuplicateScan W) (e : Edge W) : DuplicateScan W :=
  if s.seen.contains (edgeKey e) then { s with repeated := s.repeated ++ [e] }
  else { s with seen := s.seen ++ [edgeKey e] }

/-- The edges that share their key with an earlier one. -/
def duplicates (g : Graph W) : List (Edge W) :=
  (g.edges.foldl DuplicateScan.add ⟨[], []⟩).repeated

/-- The arcs of the prerequisite edges between different nodes. -/
def prerequisiteLinks (g : Graph W) : List (String × String) :=
  g.edges.filterMap fun e ↦
    if e.relationship = .prerequisite ∧ ¬ e.isLoop then some (e.source, e.target) else none

/-- The prerequisite cycle that a walk through the nodes in order closes first. -/
def prerequisiteCycle? (g : Graph W) : Option (List String) :=
  if Cycle.exists? g.prerequisiteLinks g.ids then
    some ((Cycle.find? g.prerequisiteLinks g.ids).getD [])
  else none

/-- What is wrong with a variant's reference to its canonical node. -/
def brokenReference? (g : Graph W) (n : Node) : Option String :=
  if n.isCanonical then none
  else
    match n.canonicalId with
    | none => some s!"{n.id} is non-canonical but has no canonical_id"
    | some id =>
      if g.contains id then none else some s!"{n.id} references missing canonical {id}"

/-- A duplicate as it is listed. -/
def describeDuplicate (e : Edge W) : String :=
  s!"{e.source} -[{e.relationship.label}]-> {e.target}"

/-- The finding about nodes without edges. -/
def orphanFinding? (g : Graph W) : Option Finding :=
  finding? .orphanNodes (fun n ↦ s!"{n} node(s) have no connections") g.orphans []

/-- The finding about loops. -/
def loopFinding? (g : Graph W) : Option Finding :=
  finding? .selfLoops (fun n ↦ s!"{n} edge(s) are self-loops") [] (g.loops.map Edge.describe)

/-- The finding about duplicates. -/
def duplicateFinding? (g : Graph W) : Option Finding :=
  finding? .duplicateEdges (fun n ↦ s!"{n} duplicate edge(s) found") []
    (g.duplicates.map describeDuplicate)

/-- The finding about a prerequisite cycle. -/
def cycleFinding? (g : Graph W) : Option Finding :=
  g.prerequisiteCycle?.map fun cycle ↦
    ⟨.prerequisiteCycle, "Cycle detected in prerequisite relationships", cycle, []⟩

/-- The finding about references to canonical nodes. -/
def referenceFinding? (g : Graph W) : Option Finding :=
  finding? .canonicalReference (fun n ↦ s!"{n} invalid canonical reference(s)")
    (g.nodes.filterMap g.brokenReference?) []

/-- The summary. -/
def summaryFinding (g : Graph W) : Finding :=
  ⟨.graphSummary, s!"Graph has {g.nodes.length} nodes and {g.edges.length} edges", [], []⟩

/-- The findings of all checks, with or without the summary. -/
def validate (g : Graph W) (withSummary : Bool) : Report where
  errors := g.loopFinding?.toList ++ g.cycleFinding?.toList ++ g.referenceFinding?.toList
  warnings := g.orphanFinding?.toList ++ g.duplicateFinding?.toList
  infos := if withSummary then [g.summaryFinding] else []

/-- Whether no check finds an error. -/
def isValid (g : Graph W) : Bool := (g.validate true).isValid

end Graph

/-- Whether a configuration asks for the summary. It does unless its validation section says
otherwise; a validation section has to be a mapping. -/
def wantsSummary (config : Value) : Outcome Bool :=
  if !config.isTruthy then .ok true
  else
    match config with
    | .map entries =>
      match Value.value? "validation" entries with
      | none => .ok true
      | some (.map options) =>
        .ok (((Value.value? "include_summary" options).map Value.isTruthy).getD true)
      | some _ => breakDown .noMapping
    | _ => breakDown .noMapping

end ConceptAtlas
