import ConceptAtlas.Fault
import ConceptAtlas.Text.Class

/-!
# Log levels

The levels of a log by their names, and the log file that a command opens. Opening makes the file if
it is not there and leaves one that is there as it is.
-/

namespace ConceptAtlas.Log

/-- The numbers of the levels. -/
def levels : List (String × Nat) :=
  [("CRITICAL", 50), ("FATAL", 50), ("ERROR", 40), ("WARNING", 30), ("WARN", 30), ("INFO", 20),
    ("DEBUG", 10), ("NOTSET", 0)]

/-- The number of a level, whose name may have letters of any case. -/
def level (name : String) : Except Breakdown Nat :=
  match Assoc.find? (Text.toUpper name) levels with
  | some n => .ok n
  | none => .error (.logLevel name)

/-- Names with each `..` taken back with the name before it, as far as there is one. -/
def withoutDetours (names : List String) : List String :=
  (names.foldl (fun acc n ↦ if n = ".." then acc.drop 1 else n :: acc) []).reverse

/-- The path of a log file, in which `..` has no effect but to take back a name. -/
def filePath (d : Disk) (file : String) : Path :=
  let p := Path.ofString file
  let names := if p.anchor = .relative then d.working ++ p.names else p.names
  ⟨.root, withoutDetours names⟩

/-- Opens a log file. -/
def openFile (d : Disk) (file : String) : Except OsFault Disk :=
  let p := filePath d file
  if d.isFile p then .ok d else d.write p []

end ConceptAtlas.Log
