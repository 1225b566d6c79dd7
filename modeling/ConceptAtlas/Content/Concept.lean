import ConceptAtlas.Content.Card
import ConceptAtlas.Files.Path
import ConceptAtlas.Graph.Record

/-!
# Concepts on cards

What the front matter of a card says about a concept: its id and title, what it belongs to, which
concept it is a variant of, and which concepts it refers to. A prerequisite is an edge from the
other concept to this one; the other references are edges from this one.

A value that is no text counts by its text. An integer with too many digits has none, and breaks the
reading down.
-/

namespace ConceptAtlas

/-! ### Concepts -/

/-- What a card says about its concept. -/
structure Concept where
  id : String
  title : String
  category : Option String
  source : Option String
  canonical : Option String
  description : Option String
  deriving DecidableEq, Repr

namespace Concept

/-- The text of a value. -/
def textOf (v : Value) : Outcome String :=
  if v.isWritable then .ok v.text else breakDown .integerUnwritable

/-- The text of a value that is there. -/
def textOf? : Value → Outcome (Option String)
  | .null => .ok none
  | v => (textOf v).map some

/-- A text that is not empty. -/
def nonempty? (t : Option String) : Option String := t.filter fun s ↦ !s.isEmpty

/-- The id of a card that says `v` of it; a card without an id takes it from its path. -/
def idOf (path : Path) (v : Value) : Outcome String :=
  if v.isTruthy then textOf v
  else
    match path.id? with
    | some id => .ok id
    | none => refuse (.parse (.noId path))

/-- The title of a card that says `v` of it; a card without a title takes its id. -/
def titleOf (id : String) (v : Value) : Outcome String :=
  if v.isTruthy then textOf v else .ok id

/-- The concept of a card. -/
def ofFront (path : Path) (front : List (Value × Value)) : Outcome Concept := do
  let id ← idOf path (Value.valueOrNull "id" front)
  let title ← titleOf id (Value.valueOrNull "title" front)
  let category ← textOf? (Value.valueOrNull "category" front)
  let source ← textOf? (Value.valueOrNull "source" front)
  let canonical ← textOf? (Value.valueOrNull "canonical" front)
  let description ← textOf? (Value.valueOrNull "description" front)
  return { id, title, category, source, canonical, description }

/-- The node of a concept; a concept that names another one as canonical is a variant of it. -/
def node (c : Concept) : Node :=
  let n := { Node.plain c.id c.title with
    category := nonempty? c.category
    source := nonempty? c.source }
  let n :=
    match (nonempty? c.canonical).filter (· != c.id) with
    | some other => n.variantOf other
    | none => n
  match nonempty? c.description with
  | some text => n.withMetadata "description" (.str text)
  | none => n

end Concept

/-! ### References -/

/-- The concepts that a card refers to. -/
structure References where
  prerequisites : List String
  related : List String
  leadsTo : List String
  deriving DecidableEq, Repr

namespace References

/-- The ids under a key: a text is one id, and of a list all items count that are not null. -/
def idsAt (key : String) (front : List (Value × Value)) : Outcome (List String) :=
  match Value.valueOrNull key front with
  | .null => .ok []
  | .str s => .ok [s]
  | .list items => (items.mapM Concept.textOf?).map fun ids ↦ ids.filterMap id
  | v => refuse (.parse (.idList key v.kindName))

/-- The references of a card. -/
def ofFront (front : List (Value × Value)) : Outcome References := do
  return ⟨← idsAt "prerequisites" front, ← idsAt "related" front, ← idsAt "leads_to" front⟩

/-- Whether there are no references. -/
def isEmpty (r : References) : Bool :=
  r.prerequisites.isEmpty && r.related.isEmpty && r.leadsTo.isEmpty

/-- The edges of the references of a concept. -/
def edges (id : String) (r : References) : List (Edge Float) :=
  (r.prerequisites.map fun other ↦ ⟨other, id, .prerequisite, 1, .frontMatter⟩) ++
    (r.related.map fun other ↦ ⟨id, other, .relatesTo, 1, .frontMatter⟩) ++
    (r.leadsTo.map fun other ↦ ⟨id, other, .leadsTo, 1, .frontMatter⟩)

/-- There are no edges exactly if there are no references. -/
theorem edges_eq_nil_iff {id : String} {r : References} : r.edges id = [] ↔ r.isEmpty = true := by
  simp [edges, isEmpty, and_assoc]

end References

end ConceptAtlas
