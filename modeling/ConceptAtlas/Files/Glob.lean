import ConceptAtlas.Files.Disk
import ConceptAtlas.Files.Pattern

/-!
# Globs

Patterns of paths below a directory. A glob is a list of steps, one for each name of its text: a
plain name, a name pattern, `..`, or `**` for any number of directories. What it selects is the set
of paths that its steps lead to; every step but the last one leads to directories only, and so does
a glob that ends in a slash.
-/

namespace ConceptAtlas

/-- Why a text is no glob. -/
inductive GlobFault
  | empty
  | absolute
  | noName
  | noStep
  | mixedStars
  deriving DecidableEq, Repr

/-- One step of a glob. -/
inductive Glob.Step
  | name (name : String)
  | wild (pattern : Pattern)
  | up
  | deep
  deriving DecidableEq, Repr

/-- A glob: its steps, and whether it selects directories only. -/
structure Glob where
  steps : List Glob.Step
  directoriesOnly : Bool
  deriving DecidableEq, Repr

namespace Glob

/-- Whether two stars stand side by side in a name. -/
def hasDoubleStar : List Char → Bool
  | '*' :: '*' :: _ => true
  | _ :: cs => hasDoubleStar cs
  | [] => false

/-- The step for a name of a glob. -/
def Step.ofName (name : String) : Except GlobFault Step :=
  if name = "**" then .ok .deep
  else if name = ".." then .ok .up
  else if hasDoubleStar name.toList then .error .mixedStars
  else if Pattern.isWild name then .ok (.wild (Pattern.ofString name))
  else .ok (.name name)

/-- The glob with the steps of `s`, each name read by itself. -/
def ofNames (s : String) (names : List String) : Except GlobFault Glob := do
  let steps ← names.mapM Step.ofName
  return { steps, directoriesOnly := s.endsWith "/" }

/-- The glob that a text spells. -/
def ofString (s : String) : Except GlobFault Glob :=
  let p := Path.ofString s
  if s.isEmpty then .error .empty
  else if p.isAbsolute then .error .absolute
  else if p.names.isEmpty then .error (if s.endsWith "/" then .noStep else .noName)
  else ofNames s p.names

/-- The glob for a text at any depth. -/
def deepOfString (s : String) : Except GlobFault Glob :=
  let p := Path.ofString s
  if p.isAbsolute then .error .absolute else ofNames s ("**" :: p.names)

/-- What a list of steps leads to from a path. The last step also leads to files, unless
`directoriesOnly` is set. -/
def walk (d : Disk) (directoriesOnly : Bool) : List Step → Path → List Path
  | [], p => [p]
  | s :: rest, p =>
    let toDirectory := directoriesOnly || !rest.isEmpty
    match s with
    | .name n =>
      let q := p.child n
      if (if toDirectory then d.isDirectory q else d.contains q) then
        walk d directoriesOnly rest q
      else []
    | .wild pattern =>
      (d.list p).flatMap fun e ↦
        if (!toDirectory || e.2 == .directory) && pattern.fits e.1 then
          walk d directoriesOnly rest (p.child e.1)
        else []
    -- Whether there is a parent is not asked.
    | .up => walk d directoriesOnly rest (p.child "..")
    | .deep => ((d.directories p).flatMap (walk d directoriesOnly rest)).eraseDups

/-- The paths below a directory that a glob selects, in order. -/
def select (d : Disk) (base : Path) (g : Glob) : List Path :=
  if d.isDirectory base then (walk d g.directoriesOnly g.steps base).mergeSort Path.le else []

end Glob

end ConceptAtlas
