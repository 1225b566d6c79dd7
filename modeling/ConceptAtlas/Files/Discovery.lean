import ConceptAtlas.Fault
import ConceptAtlas.Text.Lines

/-!
# Discovery

The files of a content tree: their texts, and how they are found. The text of a file is its bytes
read as UTF-8, with every line end as `\n`; a file that is not there is a fault of its own, and any
other cause makes a fault of reading.

Discovery takes what a glob selects below a root, leaves out what the options rule out, and keeps
the order of paths, so the same tree always gives the same list. A file for an id is looked for
under given names first, then among the discovered files.

A pattern excludes a path by its whole text or by the text of one of its parents; a pattern that
ends in `/**` excludes the directory before it as well.
-/

namespace ConceptAtlas

namespace Disk

/-- The text of a file, or why there is none. -/
def readText (d : Disk) (p : Path) : Except ReadCause String :=
  match d.read p with
  | .error fault => .error (.os fault)
  | .ok bytes =>
    match Text.decodeUtf8 bytes with
    | .error fault => .error (.encoding fault)
    | .ok cs => .ok (String.ofList (Text.normalizeNewlines cs))

/-- The text of a file. -/
def text (d : Disk) (p : Path) : Except Fault String :=
  (d.readText p).mapError fun cause ↦
    match cause with
    | .os ⟨.missing, _⟩ => .notFound (.file p)
    | cause => .io (.reading cause) (some p)

end Disk

/-- What files are looked for. -/
structure FindOptions where
  extension : Option String
  maxDepth : Option Int
  patterns : List String
  exclude : List String
  deriving DecidableEq, Repr

/-- Any file outside of directories that tools keep for themselves. -/
def FindOptions.any : FindOptions :=
  ⟨none, none, [], [".git/**", "__pycache__/**", "node_modules/**"]⟩

/-- Markdown files. -/
def FindOptions.markdown : FindOptions := { FindOptions.any with extension := some "md" }

/-- A discovered file. -/
structure FoundFile where
  path : Path
  stem : String
  relative : Path
  deriving DecidableEq, Repr

namespace Discovery

/-- The glob for every file. -/
def everything : String := "**/*"

/-- Checks that there is a directory at a path. -/
def root (d : Disk) (base : Path) : Except Fault Path :=
  if !d.contains base then .error (.notFound (.contentDirectory base))
  else if !d.isDirectory base then .error (.invalidPath base "not a directory")
  else .ok base

/-- A pattern without the `/**` that it may end in. -/
def directoryPattern (pattern : String) : String :=
  if pattern.endsWith "/**" then String.ofList (pattern.toList.take (pattern.length - 3))
  else pattern

/-- Whether a pattern excludes a relative path. -/
def excludesPath (pattern : String) (relative : Path) : Bool :=
  (Pattern.ofString pattern).fits relative.text ||
    relative.parents.any fun parent ↦
      !parent.names.isEmpty && (Pattern.ofString (directoryPattern pattern)).fits parent.text

/-- Whether one of the patterns excludes a relative path. -/
def isExcluded (patterns : List String) (relative : Path) : Bool :=
  patterns.any fun p ↦ excludesPath p relative

/-- The extension of a path, without a dot. -/
def extension (p : Path) : String := String.ofList (p.suffix.toList.dropWhile (· == '.'))

/-- Whether the options let a relative path through. -/
def accepts (o : FindOptions) (relative : Path) : Bool :=
  (match o.maxDepth with
    | some depth => (relative.names.length : Int) ≤ depth
    | none => true) &&
  (match o.extension with
    | some e => e.isEmpty || extension relative == e
    | none => true) &&
  !isExcluded o.exclude relative

/-- The record of a path below a root. -/
def found (base path : Path) : FoundFile :=
  ⟨path, path.id?.getD "unknown", Path.below base path⟩

/-- The files below a root that a glob selects and the options let through. -/
def files (d : Disk) (base : Path) (glob : String) (o : FindOptions) :
    Outcome (List FoundFile) := do
  let base ← (root d base).mapError Failure.fault
  match Glob.ofString glob with
  | .error fault => breakDown (.glob fault)
  | .ok g =>
    let paths := (g.select d base).filter d.isFile
    return (paths.map (found base)).filter fun f ↦ accepts o f.relative

/-- The directories directly below a root. -/
def subdirectories (d : Disk) (base : Path) : Except Fault (List Path) := do
  let base ← root d base
  let names := ((d.list base).filter fun e ↦ e.2 == .directory).map Prod.fst
  return (names.map base.child).mergeSort Path.le

/-- The paths that are tried first for an id: what the patterns make of it, and the id with the
extension. -/
def candidates (base : Path) (id : String) (o : FindOptions) : List Path :=
  let named (name : String) : Path := base.under (Path.ofString name)
  let fill (pattern : String) : String :=
    String.ofList (Text.replaceAll ['\x7b', 'i', 'd', '\x7d'] id.toList pattern.toList)
  let extended :=
    match o.extension with
    | some e => if e.isEmpty then [] else [s!"{id}.{e}"]
    | none => []
  (o.patterns.map fill ++ extended).map named

/-- Whether the stem of a file is an id, or the id with a hyphen or an underscore and more. -/
def isFor (id : String) (f : FoundFile) : Bool :=
  f.stem == id || f.stem.startsWith (id ++ "-") || f.stem.startsWith (id ++ "_")

/-- The file for an id. -/
def fileFor (d : Disk) (base : Path) (id : String) (o : FindOptions) : Outcome Path :=
  match (candidates base id o).find? d.contains with
  | some p => .ok p
  | none => do
    match (← files d base everything o).find? (isFor id) with
    | some f => return f.path
    | none => refuse (.notFound (.fileFor id base))

end Discovery

end ConceptAtlas
