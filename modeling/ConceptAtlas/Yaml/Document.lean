import ConceptAtlas.Yaml.Node
import ConceptAtlas.Yaml.Token

/-!
# Documents

The tree that the tokens of a text describe. An alias stands for the node that its anchor names; an
alias inside that node stands for a loop. A text has one document at most.
-/

namespace ConceptAtlas.Yaml

/-- What is left to read, what the handles of tags stand for, and the nodes that anchors name; the
name of a collection that is not complete yet names a loop. -/
structure Reader where
  tokens : List Token
  handles : List (String × String)
  anchors : List (String × Node)

/-- A reading of some of the tokens. -/
abbrev Build := StateT Reader (Except Refusal)

namespace Build

/-- Refuses the text as malformed. -/
def fail {α : Type} : Build α := throw .malformed

/-- The next token. -/
def peek : Build Token := do
  match (← get).tokens with
  | [] => fail
  | .stop why :: _ => throw why
  | t :: _ => return t

/-- Passes the next token. -/
def advance : Build Unit := modify fun r ↦ { r with tokens := r.tokens.drop 1 }

/-- What handles stand for that no directive defines. -/
def defaultHandles : List (String × String) := [("!", "!"), ("!!", Tag.start)]

/-! ### Properties -/

/-- The full name of a tag. -/
def fullName (t : WrittenTag) : Build String :=
  match t with
  | .full name => return name
  | .short handle suffix => do
    match Assoc.find? handle (← get).handles with
    | some start => return start ++ suffix
    | none => fail

/-- The anchor and the tag before a node, in either order. -/
def properties : Build (Option String × Option String) := do
  match ← peek with
  | .anchor name =>
    advance
    match ← peek with
    | .tag t =>
      advance
      return (some name, some (← fullName t))
    | _ => return (some name, none)
  | .tag t =>
    advance
    match ← peek with
    | .anchor name =>
      advance
      return (some name, some (← fullName t))
    | _ => return (none, some (← fullName t))
  | _ => return (none, none)

/-- Gives a node to the name of an anchor, which no other node may have. -/
def takeName (anchor : Option String) (n : Node) : Build Unit := do
  match anchor with
  | none => return
  | some name =>
    let r ← get
    if (r.anchors.map Prod.fst).contains name then fail
    else set { r with anchors := (name, n) :: r.anchors }

/-- Gives a complete node to the name that was taken for it. -/
def complete (anchor : Option String) (n : Node) : Build Node := do
  match anchor with
  | none => return n
  | some name =>
    modify fun r ↦ { r with anchors := Assoc.put name n r.anchors }
    return n

/-- The node that an anchor names. -/
def named (name : String) : Build Node := do
  match Assoc.find? name (← get).anchors with
  | some n => return n
  | none => fail

/-! ### Nodes -/

/-- The tag of a scalar: a plain one without a tag, or any with the tag `!`, has the tag that it
looks like. -/
def scalarTag (tag : Option String) (plain : Bool) (text : String) : Tag :=
  match tag with
  | none => if plain then Tag.ofPlain text.toList else .str
  | some t => if t == "!" then Tag.ofPlain text.toList else Tag.ofName t

/-- The tag of a collection, which has one of its own if none is written. -/
def collectionTag (tag : Option String) (own : Tag) : Tag :=
  match tag with
  | none => own
  | some t => if t == "!" then own else Tag.ofName t

/-- The scalar that stands where nothing is written. -/
def empty : Node := .scalar .null ""

/-- Where a node stands: in brackets, in a block, or as the value of a key, where a sequence need
not be indented. -/
inductive Position
  | flow
  | block
  | keyed
  deriving DecidableEq

mutual

/-- The next node. The fuel bounds the calls. -/
def node (fuel : Nat) (position : Position) : Build Node :=
  match fuel with
  | 0 => fail
  | fuel + 1 => do
    match ← peek with
    | .alias name =>
      advance
      named name
    | _ =>
      let (anchor, tag) ← properties
      let enter (own : Tag) : Build Unit := takeName anchor (.loop (collectionTag tag own))
      let collection (own : Tag) (shape : Tag → Node) : Build Node :=
        complete anchor (shape (collectionTag tag own))
      match ← peek, position with
      | .blockEntry, .keyed =>
        -- The items under a key may stand at the column of the key, so no token announces them.
        enter .seq
        let items ← bareItems fuel
        collection .seq fun t ↦ .sequence t items
      | .scalar text plain, _ =>
        advance
        let n := Node.scalar (scalarTag tag plain text) text
        takeName anchor n
        return n
      | .flowSequence, _ =>
        advance
        enter .seq
        let items ← flowItems fuel true
        collection .seq fun t ↦ .sequence t items
      | .flowMapping, _ =>
        advance
        enter .map
        let entries ← flowEntries fuel true
        collection .map fun t ↦ .mapping t entries
      | .blockSequence, .block | .blockSequence, .keyed =>
        advance
        enter .seq
        let items ← blockItems fuel
        collection .seq fun t ↦ .sequence t items
      | .blockMapping, .block | .blockMapping, .keyed =>
        advance
        enter .map
        let entries ← blockEntries fuel
        collection .map fun t ↦ .mapping t entries
      | _, _ =>
        if anchor.isNone && tag.isNone then fail
        else
          -- Properties without a node are those of an empty scalar.
          let n := Node.scalar (scalarTag tag true "") ""
          takeName anchor n
          return n

/-- The items of a sequence in a block, up to its end. -/
def blockItems (fuel : Nat) : Build (List Node) :=
  match fuel with
  | 0 => fail
  | fuel + 1 => do
    match ← peek with
    | .blockEntry =>
      advance
      let n ←
        match ← peek with
        | .blockEntry | .blockEnd => pure empty
        | _ => node fuel .block
      return n :: (← blockItems fuel)
    | .blockEnd =>
      advance
      return []
    | _ => fail

/-- The items of a sequence that is not indented. -/
def bareItems (fuel : Nat) : Build (List Node) :=
  match fuel with
  | 0 => fail
  | fuel + 1 => do
    match ← peek with
    | .blockEntry =>
      advance
      let n ←
        match ← peek with
        | .blockEntry | .key | .value | .blockEnd => pure empty
        | _ => node fuel .block
      return n :: (← bareItems fuel)
    | _ => return []

/-- A key or value of a mapping in a block; it may be left out. -/
def blockPart (fuel : Nat) : Build Node :=
  match fuel with
  | 0 => fail
  | fuel + 1 => do
    match ← peek with
    | .key | .value | .blockEnd => return empty
    | _ => node fuel .keyed

/-- The entries of a mapping in a block, up to its end. -/
def blockEntries (fuel : Nat) : Build (List (Node × Node)) :=
  match fuel with
  | 0 => fail
  | fuel + 1 => do
    match ← peek with
    | .key =>
      advance
      let k ← blockPart fuel
      let v ←
        match ← peek with
        | .value =>
          advance
          blockPart fuel
        | _ => pure empty
      return (k, v) :: (← blockEntries fuel)
    | .blockEnd =>
      advance
      return []
    | _ => fail

/-- A value in brackets after its colon, if there is one; `close` ends the collection. -/
def flowValue (fuel : Nat) (isEnd : Token → Bool) : Build Node :=
  match fuel with
  | 0 => fail
  | fuel + 1 => do
    match ← peek with
    | .value =>
      advance
      let t ← peek
      match t with
      | .flowEntry => return empty
      | _ => if isEnd t then return empty else node fuel .flow
    | _ => return empty

/-- A key in brackets after its mark, and its value. -/
def flowPair (fuel : Nat) (isEnd : Token → Bool) : Build (Node × Node) :=
  match fuel with
  | 0 => fail
  | fuel + 1 => do
    let t ← peek
    let k ←
      match t with
      | .value | .flowEntry => pure empty
      | _ => if isEnd t then pure empty else node fuel .flow
    return (k, ← flowValue fuel isEnd)

/-- The items of a sequence in brackets, up to its end; a key among them makes a mapping of one
entry. -/
def flowItems (fuel : Nat) (first : Bool) : Build (List Node) :=
  match fuel with
  | 0 => fail
  | fuel + 1 => do
    match ← peek with
    | .flowSequenceEnd =>
      advance
      return []
    | t =>
      unless first do
        match t with
        | .flowEntry => advance
        | _ => fail
      match ← peek with
      | .key =>
        advance
        let entry ← flowPair fuel fun t ↦ t matches .flowSequenceEnd
        return .mapping .map [entry] :: (← flowItems fuel false)
      | .flowSequenceEnd =>
        advance
        return []
      | _ =>
        let n ← node fuel .flow
        return n :: (← flowItems fuel false)

/-- The entries of a mapping in brackets, up to its end; an item without a colon is a key. -/
def flowEntries (fuel : Nat) (first : Bool) : Build (List (Node × Node)) :=
  match fuel with
  | 0 => fail
  | fuel + 1 => do
    match ← peek with
    | .flowMappingEnd =>
      advance
      return []
    | t =>
      unless first do
        match t with
        | .flowEntry => advance
        | _ => fail
      match ← peek with
      | .key =>
        advance
        let entry ← flowPair fuel fun t ↦ t matches .flowMappingEnd
        return entry :: (← flowEntries fuel false)
      | .flowMappingEnd =>
        advance
        return []
      | _ =>
        let n ← node fuel .flow
        return (n, empty) :: (← flowEntries fuel false)

end

/-! ### Documents -/

/-- The directives before a document: what they make of the handles. -/
def directives (version : Bool) (handles : List (String × String)) :
    List Token → Except Refusal (List (String × String) × List Token)
  | .directive (.version major) :: ts =>
    if version || major != 1 then .error .malformed else directives true handles ts
  | .directive (.handle name start) :: ts =>
    if (handles.map Prod.fst).contains name then .error .malformed
    else directives version ((name, start) :: handles) ts
  | .directive .other :: ts => directives version handles ts
  | ts => .ok (handles, ts)

/-- Goes on to a document that a marker announces: after the ends of earlier ones come directives
and the marker. -/
def explicitStart : Build Unit := do
  let (handles, rest) ← directives false [] ((← get).tokens)
  modify fun r ↦ { r with tokens := rest, handles := handles ++ defaultHandles }
  match ← peek with
  | .documentStart => advance
  | _ => fail

/-- The content of a document after its marker. -/
def content (fuel : Nat) : Build Node := do
  match ← peek with
  | .directive _ | .documentStart | .documentEnd | .textEnd => return empty
  | _ => node fuel .block

/-- Passes the marks of a document's end. -/
def passEnds (fuel : Nat) : Build Unit :=
  match fuel with
  | 0 => fail
  | fuel + 1 => do
    match ← peek with
    | .documentEnd =>
      advance
      passEnds fuel
    | _ => return

/-- The document of a text, if it has one. -/
def document (fuel : Nat) : Build (Option Node) := do
  match ← peek with
  | .textEnd => return none
  | t =>
    let n ←
      match t with
      | .directive _ | .documentStart => do
        explicitStart
        content fuel
      | _ => node fuel .block
    passEnds fuel
    -- What follows the ends is another document.
    match ← peek with
    | .textEnd => return some n
    | _ => fail

end Build

/-- The document that the tokens of a text describe, if there is one. -/
def documentOf (tokens : List Token) : Except Refusal (Option Node) :=
  ((Build.document (2 * tokens.length + 4)).run ⟨tokens, Build.defaultHandles, []⟩).map Prod.fst

end ConceptAtlas.Yaml
