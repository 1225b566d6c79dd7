import ConceptAtlas.Assoc
import ConceptAtlas.Files.Path
import ConceptAtlas.Text.Quoted

/-!
# Disk

A disk as a value: what stands at each place, and a working directory that relative paths start
from. Every operation either answers or names the fault of the operating system; writing a file
happens whole or not at all. `..` is followed step by step, so a path through something that is
missing or is no directory leads nowhere.
-/

namespace ConceptAtlas

/-- What an operating system answers when it cannot do something. -/
inductive OsCause
  | missing
  | exists
  | notDirectory
  | isDirectory
  deriving DecidableEq, Repr

/-- A fault of the operating system at a path. -/
structure OsFault where
  cause : OsCause
  path : Path
  deriving DecidableEq, Repr

/-- The number of a cause. -/
def OsCause.number : OsCause → Nat
  | .missing => 2
  | .exists => 17
  | .notDirectory => 20
  | .isDirectory => 21

/-- The wording of a cause. -/
def OsCause.message : OsCause → String
  | .missing => "No such file or directory"
  | .exists => "File exists"
  | .notDirectory => "Not a directory"
  | .isDirectory => "Is a directory"

/-- The wording of a fault. -/
def OsFault.message (f : OsFault) : String :=
  s!"[Errno {f.cause.number}] {f.cause.message}: {Text.literal f.path.text}"

/-- What stands at a place of a disk. -/
inductive Disk.Entry
  | directory
  | file (bytes : List UInt8)
  deriving DecidableEq, Repr

/-- A disk: the entry at each place below the root, places being lists of names, and the place of
the working directory. -/
structure Disk where
  working : List String
  entries : List (List String × Disk.Entry)

namespace Disk

/-- The entry at a place; the root is a directory. -/
def entryAt? (d : Disk) (place : List String) : Option Entry :=
  if place.isEmpty then some .directory else Assoc.find? place d.entries

/-- One step from a place: to a name below it or, by `..`, to its parent. -/
def step (d : Disk) (place : List String) (name : String) : Except OsCause (List String) :=
  match d.entryAt? place with
  | none => .error .missing
  | some (.file _) => .error .notDirectory
  | some .directory => .ok (if name = ".." then place.dropLast else place ++ [name])

/-- The place that a path leads to. Its last name need not be there. -/
def locate (d : Disk) (p : Path) : Except OsCause (List String) :=
  let start := if p.anchor = .relative then d.working else []
  p.names.foldlM d.step start

/-- What a path leads to, if there is anything. -/
def lookup? (d : Disk) (p : Path) : Option Entry :=
  match d.locate p with
  | .ok place => d.entryAt? place
  | .error _ => none

/-- Whether there is anything at a path. -/
def contains (d : Disk) (p : Path) : Bool := (d.lookup? p).isSome

/-- Whether there is a directory at a path. -/
def isDirectory (d : Disk) (p : Path) : Bool := d.lookup? p == some .directory

/-- Whether there is a file at a path. -/
def isFile (d : Disk) (p : Path) : Bool :=
  match d.lookup? p with
  | some (.file _) => true
  | _ => false

/-- The names directly in a directory, each with its entry. -/
def list (d : Disk) (p : Path) : List (String × Entry) :=
  match d.locate p with
  | .error _ => []
  | .ok place =>
    d.entries.filterMap fun e ↦
      match e.1.getLast? with
      | some name => if e.1.dropLast = place then some (name, e.2) else none
      | none => none

/-- The directories at any depth below a directory, itself first, as paths that go on from its path.
-/
def directories (d : Disk) (p : Path) : List Path :=
  match d.locate p with
  | .error _ => []
  | .ok place =>
    p :: d.entries.filterMap fun e ↦
      if e.2 = .directory ∧ place.isPrefixOf e.1 ∧ place ≠ e.1 then
        some { p with names := p.names ++ e.1.drop place.length }
      else none

/-- The bytes of a file. -/
def read (d : Disk) (p : Path) : Except OsFault (List UInt8) :=
  match d.locate p with
  | .error cause => .error ⟨cause, p⟩
  | .ok place =>
    match d.entryAt? place with
    | some (.file bytes) => .ok bytes
    | some .directory => .error ⟨.isDirectory, p⟩
    | none => .error ⟨.missing, p⟩

/-- The disk with an entry put at a place. -/
def put (d : Disk) (place : List String) (e : Entry) : Disk :=
  { d with entries := Assoc.put place e d.entries }

/-- Why nothing can be created at a place: its parent is missing or no directory. -/
def parentFault? (d : Disk) (place : List String) : Option OsCause :=
  match d.entryAt? place.dropLast with
  | some .directory => none
  | some (.file _) => some .notDirectory
  | none => some .missing

/-- Writes a file whole. -/
def write (d : Disk) (p : Path) (bytes : List UInt8) : Except OsFault Disk :=
  match d.locate p with
  | .error cause => .error ⟨cause, p⟩
  | .ok place =>
    match d.entryAt? place with
    | some .directory => .error ⟨.isDirectory, p⟩
    | some (.file _) => .ok (d.put place (.file bytes))
    | none =>
      match d.parentFault? place with
      | some cause => .error ⟨cause, p⟩
      | none => .ok (d.put place (.file bytes))

/-- Makes one directory. -/
def makeDirectory (d : Disk) (p : Path) : Except OsFault Disk :=
  match d.locate p with
  | .error cause => .error ⟨cause, p⟩
  | .ok place =>
    if (d.entryAt? place).isSome then .error ⟨.exists, p⟩
    else
      match d.parentFault? place with
      | some cause => .error ⟨cause, p⟩
      | none => .ok (d.put place .directory)

/-- Makes a directory that may be there already, after the first `depth` parents of its path that
are missing. The disk shows what was made before a fault. -/
def makeDirectoriesUpTo : (depth : Nat) → Disk → Path → Disk × Option OsFault
  | depth, d, p =>
    match d.makeDirectory p with
    | .ok d => (d, none)
    | .error fault =>
      match fault.cause, depth with
      | .missing, depth + 1 =>
        match makeDirectoriesUpTo depth d p.parent with
        | (d, some fault) => (d, some fault)
        | (d, none) =>
          match d.makeDirectory p with
          | .ok d => (d, none)
          | .error fault => (d, if d.isDirectory p then none else some fault)
      | .missing, 0 => (d, some fault)
      | _, _ => (d, if d.isDirectory p then none else some fault)

/-- Makes a directory and its missing parents; a directory that is there already stays. -/
def makeDirectories (d : Disk) (p : Path) : Disk × Option OsFault :=
  makeDirectoriesUpTo p.names.length d p

/-- Writes a file after making the directories it stands in. -/
def save (d : Disk) (p : Path) (bytes : List UInt8) : Disk × Option OsFault :=
  match d.makeDirectories p.parent with
  | (d, some fault) => (d, some fault)
  | (d, none) =>
    match d.write p bytes with
    | .ok d => (d, none)
    | .error fault => (d, some fault)

end Disk

end ConceptAtlas
