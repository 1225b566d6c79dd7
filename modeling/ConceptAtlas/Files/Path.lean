import ConceptAtlas.Text.Parts

/-!
# Paths

Paths as sequences of names, relative or under a root. Reading a path drops empty and `.` names, so
a path has one spelling; `..` is kept, because it means the parent of whatever stands there on disk.
Paths are ordered by their names, the root before all of them.
-/

namespace ConceptAtlas

/-- What a path starts from. Exactly two leading slashes are a root of their own. -/
inductive Path.Anchor
  | relative
  | root
  | doubleRoot
  deriving DecidableEq, Repr

/-- A path: its anchor and the names below it. -/
structure Path where
  anchor : Path.Anchor
  names : List String
  deriving DecidableEq, Repr

namespace Path

/-- The text of an anchor. -/
def Anchor.text : Anchor → String
  | .relative => ""
  | .root => "/"
  | .doubleRoot => "//"

/-- The path that a text spells. -/
def ofString (s : String) : Path :=
  let cs := s.toList
  let slashes := (cs.takeWhile (· == '/')).length
  let anchor := if slashes = 0 then .relative else if slashes = 2 then .doubleRoot else .root
  { anchor, names := (Text.splitOn '/' s).filter fun n ↦ n != "" && n != "." }

/-- The text of a path; the empty relative path is `.`. -/
def text (p : Path) : String :=
  match p.anchor, p.names with
  | .relative, [] => "."
  | a, ns => a.text ++ "/".intercalate ns

/-- The path of `p` seen from `base`: an absolute path stays as it is. -/
def under (base p : Path) : Path :=
  if p.anchor = .relative then { base with names := base.names ++ p.names } else p

/-- The path of a name directly below. -/
def child (p : Path) (name : String) : Path := { p with names := p.names ++ [name] }

/-- The path without its last name. -/
def parent (p : Path) : Path := { p with names := p.names.dropLast }

/-- The last name, empty if there is none. -/
def name (p : Path) : String := p.names.getLast?.getD ""

/-- The parents of a relative path, the nearest first and the empty path last. -/
def parents (p : Path) : List Path :=
  ((List.range p.names.length).reverse.map fun n ↦ { p with names := p.names.take n })

/-- The names of `p` below `base`. -/
def below (base p : Path) : Path := ⟨.relative, p.names.drop base.names.length⟩

/-- Whether a path starts at a root. -/
def isAbsolute (p : Path) : Bool := p.anchor != .relative

/-- A name cut before its last dot; a dot that comes first or last in the name does not count. -/
def splitName (name : String) : String × String :=
  let cs := name.toList
  let tail := (cs.reverse.takeWhile (· != '.')).reverse
  let headLength := cs.length - tail.length - 1
  if tail.length = cs.length ∨ headLength = 0 ∨ tail.isEmpty then (name, "")
  else (String.ofList (cs.take headLength), String.ofList ('.' :: tail))

/-- The last name without its suffix. -/
def stem (p : Path) : String := (splitName p.name).1

/-- The last dot of the last name and what follows it. -/
def suffix (p : Path) : String := (splitName p.name).2

/-- What paths are ordered by: the root, if there is one, and the names. -/
def key (p : Path) : List String :=
  if p.anchor = .relative then p.names else p.anchor.text :: p.names

/-- Whether a list of names comes before another, or is the same. -/
def namesLe : List String → List String → Bool
  | [], _ => true
  | _ :: _, [] => false
  | a :: as, b :: bs => if a = b then namesLe as bs else decide (a < b)

/-- The order of paths. -/
def le (p q : Path) : Bool := namesLe p.key q.key

end Path

/-- The id that a path gives to what it holds: its stem, if there is one. -/
def Path.id? (p : Path) : Option String := if p.stem.isEmpty then none else some p.stem

end ConceptAtlas
