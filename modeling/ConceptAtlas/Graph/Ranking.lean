import ConceptAtlas.Graph.Basic

/-!
# Rankings

Nodes by importance. Centrality is the degree of a node as a share of the greatest degree; the other
ranking takes the degrees themselves, in one direction or in both. Both put greater values first and
keep the order of the nodes among equal ones.
-/

namespace ConceptAtlas

/-- Which edges count towards a degree. -/
inductive Direction
  | incoming
  | outgoing
  | both
  deriving DecidableEq, Repr

/-- The direction with a name. -/
def Direction.ofName? (name : String) : Option Direction :=
  if name = "in" then some .incoming
  else if name = "out" then some .outgoing
  else if name = "both" then some .both
  else none

namespace Graph

variable {W : Type}

/-- The degree of a node in a direction. -/
def degreeIn (g : Graph W) (direction : Direction) (id : String) : Nat :=
  match direction with
  | .incoming => g.inDegree id
  | .outgoing => g.outDegree id
  | .both => g.degree id

/-- The degrees of all nodes in a direction. -/
def degrees (g : Graph W) (direction : Direction) : List (String × Nat) :=
  g.ids.map fun id ↦ (id, g.degreeIn direction id)

/-- The greatest degree of a node. -/
def maxDegree (g : Graph W) : Nat := ((g.degrees .both).map Prod.snd).foldl max 0

/-- The share of a degree in the greatest one. -/
def share {S : Type} [Zero S] (quotient : Nat → Nat → S) (degree greatest : Nat) : S :=
  if greatest = 0 then 0 else quotient degree greatest

/-- The nodes by centrality, the greatest first. `quotient` divides natural numbers. -/
def centrality {S : Type} [Zero S] [LE S] [DecidableLE S] (quotient : Nat → Nat → S)
    (g : Graph W) : List (String × S) :=
  let greatest := g.maxDegree
  ((g.degrees .both).map fun d ↦ (d.1, share quotient d.2 greatest)).mergeSort
    fun a b ↦ decide (b.2 ≤ a.2)

/-- The nodes by degree in a direction, the greatest first. -/
def ranking (g : Graph W) (direction : Direction) : List (String × Nat) :=
  (g.degrees direction).mergeSort fun a b ↦ decide (b.2 ≤ a.2)

end Graph

/-- The first `limit` items of a list; a negative limit leaves out items from the end. -/
def firstItems {α : Type _} (limit : Int) (xs : List α) : List α :=
  if 0 ≤ limit then xs.take limit.toNat else xs.take (xs.length - (-limit).toNat)

theorem firstItems_of_nonneg {α : Type _} {limit : Int} (h : 0 ≤ limit) (xs : List α) :
    firstItems limit xs = xs.take limit.toNat := if_pos h

end ConceptAtlas
