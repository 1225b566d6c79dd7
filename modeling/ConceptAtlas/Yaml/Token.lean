import ConceptAtlas.Yaml.Basic

/-!
# Tokens

The words of a YAML text: marks, properties of nodes, and scalars. The block structure that
indentation expresses is spelled out by tokens for the start and the end of a collection.
-/

namespace ConceptAtlas.Yaml

/-- A line that starts with a per cent sign. -/
inductive Directive
  | version (major : Nat)
  | handle (name start : String)
  | other

/-- A tag as it is written: with a handle that a directive may define, or in full. -/
inductive WrittenTag
  | full (name : String)
  | short (handle suffix : String)

/-- A word of a text. `stop` stands where no further word can be read. -/
inductive Token
  | directive (d : Directive)
  | documentStart
  | documentEnd
  | blockSequence
  | blockMapping
  | blockEnd
  | flowSequence
  | flowSequenceEnd
  | flowMapping
  | flowMappingEnd
  | flowEntry
  | blockEntry
  | key
  | value
  | alias (name : String)
  | anchor (name : String)
  | tag (t : WrittenTag)
  | scalar (text : String) (plain : Bool)
  | textEnd
  | stop (why : Refusal)

end ConceptAtlas.Yaml
