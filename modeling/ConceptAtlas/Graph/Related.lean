import ConceptAtlas.Graph.Basic

/-!
# Related concepts

The direct neighbors of a concept in either direction, grouped by the label of the edges to them.
One pass over the neighbors puts each of them into the group of its label, unless it is there
already; so groups come in the order of their first edge, and a concept is in a group once, at its
first edge there.
-/

namespace ConceptAtlas

/-- A concept and its neighbors by label. -/
structure Related where
  source : Node
  groups : List (String × List Node)

/-- How many concepts the groups have together; one in several groups counts in each. -/
def Related.count (r : Related) : Nat := r.groups.foldl (fun n g ↦ n + g.2.length) 0

/-- A pass over the neighbors of a concept: the labels and ids that were seen together so far, and
the groups. -/
structure RelatedScan where
  seen : List (String × String)
  groups : List (String × List Node)

namespace Graph

variable {W : Type}

/-- The pass after one more neighbor, which joins the last place of the group under its label. A
neighbor that was seen under the label changes nothing, and neither does the concept itself. -/
def noteRelated (g : Graph W) (id : String) (s : RelatedScan) (n : String × Edge W) :
    RelatedScan :=
  let label := n.2.relationship.label
  if n.1 == id || s.seen.contains (label, n.1) then s
  else
    let members := (Assoc.find? label s.groups).getD []
    { seen := s.seen ++ [(label, n.1)]
      groups := Assoc.put label (members ++ (g.node? n.1).toList) s.groups }

/-- The neighbors of a node, grouped by label. -/
def related (g : Graph W) (id : String) : Except Fault Related := do
  let source ← g.node id
  return { source, groups := ((g.neighbors id).foldl (g.noteRelated id) ⟨[], []⟩).groups }

end Graph

end ConceptAtlas
