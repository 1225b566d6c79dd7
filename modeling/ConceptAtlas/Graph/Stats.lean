import ConceptAtlas.Graph.Basic

/-!
# Statistics

Counts over a graph: canonical nodes and variants, nodes by category and edges by label in the order
of first occurrence, nodes without edges, and the first node with the most edges in either
direction. One pass over the nodes and one over the edges count all of them.
-/

namespace ConceptAtlas

/-- Statistics of a graph; the mean degree is of any type that has quotients. -/
structure Stats (S : Type) where
  nodeCount : Nat
  edgeCount : Nat
  canonicalCount : Nat
  variantCount : Nat
  categories : List (String × Nat)
  relationships : List (String × Nat)
  orphanCount : Nat
  averageDegree : S
  maxInDegree : Nat
  maxOutDegree : Nat
  mostDependedOn : Option String
  mostDependencies : Option String

/-- The greatest positive value among some ids, and the first id that has it. -/
structure Peak where
  id : Option String
  value : Nat

/-- The peak after one more id. -/
def Peak.add (p : Peak) (id : String) (value : Nat) : Peak :=
  if p.value < value then ⟨some id, value⟩ else p

/-- What a pass over nodes has counted. -/
structure NodeTally where
  canonical : Nat
  variants : Nat
  categories : List (String × Nat)
  orphans : Nat
  into : Peak
  out : Peak

/-- Nothing counted yet. -/
def NodeTally.start : NodeTally := ⟨0, 0, [], 0, ⟨none, 0⟩, ⟨none, 0⟩⟩

namespace Graph

variable {W : Type}

/-- The category that a node is counted under. -/
def categoryOf (n : Node) : String :=
  match n.category with
  | some c => if c.isEmpty then "uncategorized" else c
  | none => "uncategorized"

/-- The tally after one more node. -/
def tallyNode (g : Graph W) (t : NodeTally) (n : Node) : NodeTally :=
  let into := g.inDegree n.id
  let out := g.outDegree n.id
  { canonical := if n.isCanonical then t.canonical + 1 else t.canonical
    variants := if n.isCanonical then t.variants else t.variants + 1
    categories := Assoc.count (categoryOf n) t.categories
    orphans := if into = 0 ∧ out = 0 then t.orphans + 1 else t.orphans
    into := t.into.add n.id into
    out := t.out.add n.id out }

/-- How often each text occurs, in the order of first occurrence. -/
def distribution (labels : List String) : List (String × Nat) :=
  labels.foldl (fun acc label ↦ Assoc.count label acc) []

/-- The statistics of a graph. `quotient` divides natural numbers. -/
def stats {S : Type} [Zero S] (quotient : Nat → Nat → S) (g : Graph W) : Stats S :=
  let t := g.nodes.foldl g.tallyNode .start
  { nodeCount := g.nodes.length
    edgeCount := g.edges.length
    canonicalCount := t.canonical
    variantCount := t.variants
    categories := t.categories
    relationships := distribution (g.edges.map (·.relationship.label))
    orphanCount := t.orphans
    averageDegree :=
      if g.nodes.length = 0 then 0 else quotient (2 * g.edges.length) g.nodes.length
    maxInDegree := t.into.value
    maxOutDegree := t.out.value
    mostDependedOn := t.into.id
    mostDependencies := t.out.id }

end Graph

/-- Counts by descending count; equal counts by name. -/
def byCountAndName (counts : List (String × Nat)) : List (String × Nat) :=
  counts.mergeSort fun a b ↦ decide (b.2 < a.2) || (a.2 == b.2 && decide (a.1 ≤ b.1))

/-- Counts by descending count; equal counts keep their order. -/
def byCount (counts : List (String × Nat)) : List (String × Nat) :=
  counts.mergeSort fun a b ↦ decide (b.2 ≤ a.2)

/-- What there is in a graph, in short: how many nodes and edges, and how many of each kind. -/
structure Overview where
  nodeCount : Nat
  edgeCount : Nat
  categories : List (String × Nat)
  relationships : List (String × Nat)

/-- The overview that statistics give, greater counts first. -/
def Stats.overview {S : Type} (s : Stats S) : Overview where
  nodeCount := s.nodeCount
  edgeCount := s.edgeCount
  categories := byCountAndName s.categories
  relationships := byCountAndName s.relationships

end ConceptAtlas
