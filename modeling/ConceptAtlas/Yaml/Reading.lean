import ConceptAtlas.Yaml.Atom
import ConceptAtlas.Yaml.Document
import ConceptAtlas.Yaml.Lexer

/-!
# Documents as values

The value of a document. Where several nodes of it stand for nothing, the one that is least deep
counts, and of those the first one: the scalars of a collection are looked at before the collections
in it. `Reading.both` is that rule, and `parse` reads a whole text.

`parse` is the parser of the program. It differs from common readers of YAML 1.1 in corners that are
known: an alias of a key that is the value mark is refused, escapes of both halves of a surrogate
pair make one character, and two keys that are not a number are one key. What is proved of cards and
of configuration files is proved for every `Parser`.
-/

namespace ConceptAtlas.Yaml

/-- Why a part of a document stands for nothing, and how deep below the node in question it is. -/
structure Deep where
  depth : Nat
  refusal : Refusal

/-- A value or the fault that counts. -/
abbrev Reading := Except Deep

namespace Reading

/-- Refuses the node in question itself. -/
def here {α : Type} (r : Refusal) : Reading α := .error ⟨0, r⟩

/-- The reading of something that is one step deeper. -/
def below {α : Type} (r : Reading α) : Reading α :=
  r.mapError fun d ↦ { d with depth := d.depth + 1 }

/-- Two readings together; of two faults the less deep one counts, the first one if they are equally
deep. -/
def both {α β : Type} (a : Reading α) (b : Reading β) : Reading (α × β) :=
  match a, b with
  | .ok x, .ok y => .ok (x, y)
  | .ok _, .error e => .error e
  | .error d, .ok _ => .error d
  | .error d, .error e => .error (if e.depth < d.depth then e else d)

end Reading

namespace Node

/-- The text of a scalar, or of the scalar under the value mark of a mapping. -/
def scalarText : Node → Option String
  | .scalar _ text => some text
  | .sequence _ _ | .loop _ => none
  | .mapping _ es => marked es
where
  /-- The text under the first value mark among the entries of a mapping. -/
  marked : List (Node × Node) → Option String
    | [] => none
    | (k, v) :: es => if k.tag = .value then scalarText v else marked es

/-- The value of a node that stands for a scalar. -/
def readAtom (n : Node) : Reading Value :=
  match n.scalarText with
  | none => .here .malformed
  | some text =>
    match n.tag, n with
    | .timestamp, .mapping _ _ => .here (.breakdown .wrongKind)
    | tag, _ => (atom tag text).mapError fun r ↦ ⟨0, r⟩

/-- The value of a key. A collection cannot be one, and the value mark is an ordinary text there. -/
def readKey (n : Node) : Reading Value :=
  if n.tag.isCollection then .here .malformed
  else if n.tag = .value then
    match n.scalarText with
    | some text => .ok (.str text)
    | none => .here .malformed
  else n.readAtom

mutual

/-- The value of a node. -/
def read (n : Node) : Reading Value :=
  match n with
  | .scalar tag text =>
    if tag.isCollection then Reading.below (.here .malformed) else readAtom (.scalar tag text)
  | .sequence tag items =>
    match tag with
    | .seq => Reading.below ((readItems items).map .list)
    | .omap | .pairs => Reading.below ((readPairs items).map .list)
    | .map | .set => Reading.below (.here .malformed)
    | _ => .here .malformed
  | .mapping tag entries =>
    match tag with
    | .map | .set =>
      Reading.below <|
        match _h : joined entries with
        | none => .here .malformed
        | some es =>
          (readEntries es).map fun vs ↦
            if tag = .set then Value.ofMembers (vs.map Prod.fst) else Value.ofEntries vs
    | .seq | .omap | .pairs => Reading.below (.here .malformed)
    | _ => readAtom (.mapping tag entries)
  | .loop tag => if tag.isCollection then .ok (.again (tag = .map)) else .here .malformed
termination_by n.size
decreasing_by
  all_goals simp only [size]
  · omega
  · omega
  all_goals
    have := entriesSize_joined_le _h
    omega

/-- The values of the items of a sequence. -/
def readItems (ns : List Node) : Reading (List Value) :=
  match ns with
  | [] => .ok []
  | n :: ns => (n.read.both (readItems ns)).map fun p ↦ p.1 :: p.2
termination_by itemsSize ns
decreasing_by all_goals simp only [itemsSize]; omega

/-- The values of the entries of a mapping. -/
def readEntries (es : List (Node × Node)) : Reading (List (Value × Value)) :=
  match es with
  | [] => .ok []
  | (k, v) :: es => ((k.readKey.both v.read).both (readEntries es)).map fun p ↦ p.1 :: p.2
termination_by entriesSize es
decreasing_by all_goals simp only [entriesSize]; omega

/-- The pairs that a sequence of mappings with one entry each lists. -/
def readPairs (ns : List Node) : Reading (List Value) :=
  match ns with
  | [] => .ok []
  | .mapping _ [(k, v)] :: ns =>
    ((k.read.both v.read).both (readPairs ns)).map fun p ↦ .pair p.1.1 p.1.2 :: p.2
  | _ :: _ => .here .malformed
termination_by itemsSize ns
decreasing_by all_goals simp only [itemsSize, size, entriesSize]; omega

end

end Node

/-- The value of a YAML text; a text without a document is null. -/
def parse : Parser := fun cs ↦
  if cs.all isAllowed then do
    match ← documentOf (Token.ofText cs) with
    | none => return .null
    | some n => (n.read).mapError Deep.refusal
  else .error .malformed

end ConceptAtlas.Yaml
