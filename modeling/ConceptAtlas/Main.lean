import ConceptAtlas.Command.Basic
import Std.Time.DateTime.Timestamp

/-!
# The program

Looks at the part of the disk that a command can be about, runs the command on it, writes back what
it changed, and passes on its output, its remarks and its exit code.
-/

namespace ConceptAtlas.Program

open Command

/-- A place as an absolute path. -/
def placeText (place : List String) : String := "/" ++ "/".intercalate place

/-- What stands at a place. -/
def entryAt? (place : List String) : IO (Option Disk.Entry) := do
  let path := (← IO.currentDir) / placeText place
  if ← path.isDir then return some .directory
  if !(← path.pathExists) then return none
  return some (.file (← IO.FS.readBinFile path).toList)

/-- The disk with what stands at a place, if it is not known yet. -/
def know (d : Disk) (place : List String) : IO Disk := do
  if (d.entryAt? place).isSome then return d
  match ← entryAt? place with
  | some e => return d.put place e
  | none => return d

/-- The disk with all that a path leads through. -/
def look (d : Disk) (p : Path) : IO Disk := do
  let mut d := d
  let mut place := if p.isAbsolute then [] else d.working
  for name in p.names do
    place := if name = ".." then place.dropLast else place ++ [name]
    d ← know d place
  return d

/-- The disk with all that stands below a place. -/
partial def lookBelow (d : Disk) (place : List String) : IO Disk := do
  let d ← know d place
  if d.entryAt? place != some .directory then return d
  let path := (← IO.currentDir) / placeText place
  (← path.readDir).foldlM (fun d e ↦ lookBelow d (place ++ [e.fileName])) d

/-- The disk with the working directory and nothing else. -/
def bareDisk : IO Disk := do
  let place := ((← IO.currentDir).toString.splitOn "/").filter (!·.isEmpty)
  let d : Disk := ⟨place, []⟩
  (List.range place.length).foldlM (fun d n ↦ know d (place.take (n + 1))) d

/-- The variables with the given names that are set. -/
def environment (names : List String) : IO Environment :=
  names.filterMapM fun name ↦ do return (← IO.getEnv name).map (name, ·)

/-- The names of the variables that a text refers to. -/
def namesIn (text : String) : List String :=
  (Environment.references text.toList).map String.ofList

/-- The paths that arguments may name: each of them, and what follows its `=` or its letter. -/
def named (args : List String) : List Path :=
  (args ++ args.map (fun a ↦ ((a.splitOn "=").drop 1).intersperse "=" |> String.join) ++
    args.map (fun a ↦ String.ofList (a.toList.drop 2))).map Path.ofString

/-- The configuration file that arguments ask for. -/
def asked (args : List String) : Option String :=
  match scanLeading Settings.options .initial args with
  | .ok s => s.settings.config
  | .error _ => none

/-- The disk with what a configuration names. -/
def lookAround (d : Disk) (c : Config) : IO Disk := do
  let d ←
    match c.snapshotPath with
    | .ok p => look d p
    | .error _ => pure d
  let d ←
    match c.value "logging.file" with
    | .ok (.str file) => look d (Log.filePath d file)
    | _ => pure d
  match c.contentPath with
  | .ok p => do
    let d ← look d p
    match d.locate p with
    | .ok place => lookBelow d place
    | .error _ => return d
  | .error _ => return d

/-- Writes what is new on a disk. -/
def store (old new : Disk) : IO Unit := do
  for (place, e) in new.entries do
    let path := (← IO.currentDir) / placeText place
    if old.entryAt? place != some e then
      match e with
      | .directory => IO.FS.createDirAll path
      | .file bytes => IO.FS.writeBinFile path (ByteArray.mk bytes.toArray)

/-- Says why a command ended, where the command did not. -/
def explain : Ending → IO Unit
  | .done | .failed => return
  | .misused cause => IO.eprintln s!"Error: {cause.message}"
  | .broken cause => IO.eprintln s!"Error: {cause.message}"

/-- Runs the program. -/
def run (args : List String) : IO UInt32 := do
  let known ← environment ["HOME", Config.fileVariable]
  let file := Config.file known (asked args)
  let disk ← (file :: named args).foldlM look (← bareDisk)
  let text := (disk.text file).toOption.getD ""
  let env := known ++ (← environment (namesIn text))
  let disk ←
    match Config.load Yaml.parse disk env (asked args) with
    | .ok c => lookAround disk c
    | .error _ => pure disk
  let now ← Std.Time.Timestamp.now
  let reply := Command.run disk env now.toSecondsSinceUnixEpoch.val args
  store disk reply.disk
  (← IO.getStdout).write (ByteArray.mk reply.output.toArray)
  IO.eprint reply.remarks
  explain reply.ending
  return UInt32.ofNat reply.ending.code

end ConceptAtlas.Program

/-- The program. -/
def main (args : List String) : IO UInt32 := ConceptAtlas.Program.run args
