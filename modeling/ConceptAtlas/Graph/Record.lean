import ConceptAtlas.Graph.Relationship

/-!
# Nodes and edges

The records of a concept graph and their JSON forms. A node is a concept; one that is not canonical
is a variant of another. An edge is a labelled arrow between two node ids with a weight. Weights are
doubles where records are stored; what only adds and compares weights takes any type for them.

Reading a record checks its fields from first to last and names the first that does not fit.
-/

namespace ConceptAtlas

/-- A concept. -/
structure Node where
  id : String
  title : String
  category : Option String
  source : Option String
  isCanonical : Bool
  canonicalId : Option String
  metadata : List (String × Json)
  deriving Inhabited

/-- A labelled arrow from one node id to another. -/
structure Edge (W : Type) where
  source : String
  target : String
  relationship : Relationship
  weight : W
  origin : Origin
  deriving DecidableEq, Repr, Inhabited

namespace Node

/-- A canonical node with an id and a title and nothing else. -/
def plain (id title : String) : Node :=
  { id, title, category := none, source := none, isCanonical := true, canonicalId := none,
    metadata := [] }

/-- The node as a variant of another. -/
def variantOf (n : Node) (canonicalId : String) : Node :=
  { n with isCanonical := false, canonicalId := some canonicalId }

/-- The node with a value under a key of its metadata. -/
def withMetadata (n : Node) (key : String) (value : Json) : Node :=
  { n with metadata := Assoc.put key value n.metadata }

/-- The description in a node's metadata, if it is a text. -/
def description (n : Node) : Option String :=
  match Assoc.find? "description" n.metadata with
  | some (.str s) => some s
  | _ => none

/-- The JSON form of a node. -/
def toJson (n : Node) : Json :=
  .obj [("id", .str n.id), ("title", .str n.title), ("category", Json.ofText? n.category),
    ("source_id", Json.ofText? n.source), ("is_canonical", .bool n.isCanonical),
    ("canonical_id", Json.ofText? n.canonicalId), ("metadata", .obj n.metadata)]

end Node

namespace Edge

variable {W : Type}

/-- Whether an edge leads back to where it starts. -/
def isLoop (e : Edge W) : Bool := e.source == e.target

/-- An edge as an arrow between its ids. -/
def describe (e : Edge W) : String := s!"{e.source} -> {e.target}"

/-- The JSON form of an edge. -/
def toJson (e : Edge Float) : Json :=
  .obj [("from", .str e.source), ("to", .str e.target), ("relationship", e.relationship.toJson),
    ("weight", .float e.weight), ("origin", .str e.origin.name)]

end Edge

/-! ### Reading fields -/

namespace Record

/-- A value that does not fit where it stands. -/
def misfit {α : Type} (what : String) (j : Json) : Outcome α := refuse (.parse (.invalid what j))

/-- The fields of an object. -/
def fields (what : String) : Json → Outcome (List (String × Json))
  | .obj fields => .ok fields
  | j => misfit what j

/-- A text. -/
def text (what : String) : Json → Outcome String
  | .str s => .ok s
  | j => misfit what j

/-- A text or null. -/
def text? (what : String) : Json → Outcome (Option String)
  | .null => .ok none
  | .str s => .ok (some s)
  | j => misfit what j

/-- A truth value. -/
def bool (what : String) : Json → Outcome Bool
  | .bool b => .ok b
  | j => misfit what j

/-- An integer or null. -/
def int? (what : String) : Json → Outcome (Option Int)
  | .null => .ok none
  | .int n => .ok (some n)
  | j => misfit what j

/-- A list. -/
def items (what : String) : Json → Outcome (List Json)
  | .arr items => .ok items
  | j => misfit what j

/-- A number as a double; an integer has to be small enough for one. -/
def weight (what : String) : Json → Outcome Float
  | .float x => .ok x
  | .int n =>
    match Decimal.ofInt? n with
    | some x => .ok x
    | none => breakDown .weightTooLarge
  | j => misfit what j

/-- The value of a field that a record has to have. -/
def required (what : String) (record : Json) (key : String) : Outcome Json :=
  match record.field? key with
  | some j => .ok j
  | none => refuse (.parse (.missing what (some record) key))

end Record

/-- The node that a JSON value records. -/
def Node.ofJson (j : Json) : Outcome Node := do
  let _ ← Record.fields "node record" j
  let id ← Record.text "node id" (← Record.required "node record" j "id")
  let title ← Record.text "node title" (← Record.required "node record" j "title")
  let category ← Record.text? "node category" (j.fieldOrNull "category")
  let source ← Record.text? "node source_id" (j.fieldOrNull "source_id")
  let isCanonical ←
    Record.bool "node is_canonical" ((j.field? "is_canonical").getD (.bool true))
  let canonicalId ← Record.text? "node canonical_id" (j.fieldOrNull "canonical_id")
  let metadata ←
    match j.fieldOrNull "metadata" with
    | .null => .ok []
    | m => Record.fields "node metadata" m
  return { id, title, category, source, isCanonical, canonicalId, metadata }

/-- The edge that a JSON value records. -/
def Edge.ofJson (j : Json) : Outcome (Edge Float) := do
  let _ ← Record.fields "edge record" j
  let source ← Record.text "edge source" (← Record.required "edge record" j "from")
  let target ← Record.text "edge target" (← Record.required "edge record" j "to")
  let relationship ←
    (Relationship.ofJson (← Record.required "edge record" j "relationship")).mapError Failure.fault
  let weight ← Record.weight "edge weight" ((j.field? "weight").getD (.float 1))
  let origin ←
    (Origin.ofJson ((j.field? "origin").getD (.str Origin.frontMatter.name))).mapError Failure.fault
  return { source, target, relationship, weight, origin }

end ConceptAtlas
