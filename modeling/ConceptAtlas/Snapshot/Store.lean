import ConceptAtlas.Files.Discovery
import ConceptAtlas.Snapshot.Basic

/-!
# Snapshots on disk

Saving, loading, and whether a snapshot is still fresh. Saving replaces the file as a whole, once
there is a text to save. A snapshot that cannot be read counts as stale.
-/

namespace ConceptAtlas.Snapshot

/-- The disk with the snapshot of a graph at a path, and the failure if it could not be written. -/
def save (d : Disk) (p : Path) (g : Graph Float) (stamp : Option Stamp) : Disk × Outcome Unit :=
  match g.serialize stamp with
  | .error failure => (d, .error failure)
  | .ok text =>
    match d.save p (Text.encodeUtf8 text) with
    | (d, none) => (d, .ok ())
    | (d, some fault) => (d, refuse (.io (.saving fault) (some p)))

/-- The snapshot at a path. -/
def load (d : Disk) (p : Path) : Outcome Snapshot := do
  ofText (← (d.text p).mapError Failure.fault)

/-- The graph of the snapshot at a path. -/
def loadGraph (d : Disk) (p : Path) : Outcome (Graph Float) := (load d p).map graph

/-- Whether the snapshot at a path was built from content with a fingerprint. -/
def isFresh (d : Disk) (p : Path) (fingerprint : String) : Outcome Bool :=
  if !d.contains p then .ok false
  else
    match load d p with
    | .error (.fault _) => .ok false
    | .error (.breakdown b) => breakDown b
    | .ok s => .ok ((s.stamp.bind Stamp.contentHash) == some fingerprint)

end ConceptAtlas.Snapshot
