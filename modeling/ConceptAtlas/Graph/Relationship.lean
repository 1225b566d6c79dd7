import ConceptAtlas.Fault
import ConceptAtlas.Text.Class

/-!
# Relationships and origins

What an edge says and where it comes from. Three relationships have names of their own, any other
one is custom. A label always names a relationship (`Relationship.ofLabel`); a custom relationship
may bear the label of a named one and is still a different relationship.
-/

namespace ConceptAtlas

/-- What an edge says about its two concepts. -/
inductive Relationship
  | prerequisite
  | relatesTo
  | leadsTo
  | custom (label : String)
  deriving DecidableEq, Repr, Inhabited

namespace Relationship

/-- The relationships with names of their own. -/
def named : List Relationship := [prerequisite, relatesTo, leadsTo]

/-- The name of a relationship's kind. -/
def kindName : Relationship → String
  | .prerequisite => "Prerequisite"
  | .relatesTo => "RelatesTo"
  | .leadsTo => "LeadsTo"
  | .custom _ => "Custom"

/-- The label of a relationship. -/
def label : Relationship → String
  | .prerequisite => "prerequisite"
  | .relatesTo => "relates_to"
  | .leadsTo => "leads_to"
  | .custom label => label

/-- Whether a relationship has no name of its own. -/
def isCustom : Relationship → Bool
  | .custom _ => true
  | _ => false

/-- The relationship that a label names. -/
def ofLabel (label : String) : Relationship :=
  (named.find? fun r ↦ r.label == label).getD (.custom label)

/-- A named relationship is found by its label. -/
theorem ofLabel_label {r : Relationship} (h : r.isCustom = false) : ofLabel r.label = r := by
  cases r with
  | custom => simp [isCustom] at h
  | _ => decide

/-- The relationship that a label names bears that label. -/
theorem label_ofLabel (label : String) : (ofLabel label).label = label := by
  simp only [ofLabel]
  cases h : named.find? fun r ↦ r.label == label with
  | none => rfl
  | some r => simpa using List.find?_some h

/-- A named relationship is its kind's name, a custom one an object with its label. -/
def toJson (r : Relationship) : Json :=
  if r.isCustom then .obj [(r.kindName, .str r.label)] else .str r.kindName

/-- The relationship of a JSON value: a kind's name or a label, or an object whose one field is
called custom, in letters of any case, and holds a label. -/
def ofJson (j : Json) : Except Fault Relationship :=
  match j with
  | .str s => .ok ((named.find? fun r ↦ r.kindName == s).getD (ofLabel s))
  | .obj [(key, .str label)] =>
    if Text.toLower key = "custom" then .ok (.custom label)
    else .error (.parse (.relationship j))
  | _ => .error (.parse (.relationship j))

end Relationship

/-- Where an edge comes from. -/
inductive Origin
  | frontMatter
  | manual
  | inferred
  deriving DecidableEq, Repr, Inhabited

namespace Origin

/-- All origins. -/
def all : List Origin := [frontMatter, manual, inferred]

/-- The name of an origin. -/
def name : Origin → String
  | .frontMatter => "Frontmatter"
  | .manual => "Manual"
  | .inferred => "Inferred"

/-- The origin with a name, in letters of any case. -/
def ofName? (name : String) : Option Origin :=
  all.find? fun o ↦ Text.toLower name == Text.toLower o.name

/-- An origin is found by its name. -/
theorem ofName?_name (o : Origin) : ofName? o.name = some o := by cases o <;> decide +kernel

/-- The origin that a JSON text names. -/
def ofJson (j : Json) : Except Fault Origin :=
  match j with
  | .str s =>
    match ofName? s with
    | some o => .ok o
    | none => .error (.parse (.origin j))
  | _ => .error (.parse (.origin j))

@[simp]
theorem ofJson_name (o : Origin) : ofJson (.str o.name) = .ok o := by simp [ofJson, ofName?_name]

end Origin

end ConceptAtlas
