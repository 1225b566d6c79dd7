import ConceptAtlas.Build.Basic
import ConceptAtlas.Digest.Content
import ConceptAtlas.Snapshot.Store

/-!
# Updating a snapshot

Bringing the snapshot of a content tree up to date. An update takes the fingerprint of the content
first; a snapshot that carries it is fresh and stays as it is. Otherwise the graph is built and,
unless the update is a dry run, saved with a stamp that has the fingerprint. Only a complete build
replaces the snapshot: `run_of_dryRun` says that a dry run leaves the disk alone.
-/

namespace ConceptAtlas

/-- What to bring up to date, and how. -/
structure Update where
  source : Path
  glob : String
  policy : Policy
  target : Path
  useCache : Bool
  dryRun : Bool
  seconds : Int

namespace Update

/-- What became of a graph that was built. -/
inductive Saving
  | skipped
  | done
  | failed (failure : Failure)

/-- What an update came to. -/
inductive Result
  | fresh
  | built (tally : Build.Tally) (saving : Saving)

/-- A graph that was built, with its tally and the fingerprint of the content. -/
structure Product where
  fingerprint : String
  graph : Graph Float
  tally : Build.Tally

/-- The fingerprint of the content. -/
def fingerprint (d : Disk) (u : Update) : Outcome String := do
  let files ← Discovery.files d u.source u.glob FindOptions.any
  (Digest.fingerprint d files).mapError Failure.fault

/-- Whether the snapshot is fresh and may stay. -/
def mayStay (d : Disk) (u : Update) (fingerprint : String) : Outcome Bool :=
  if u.useCache && !u.dryRun then Snapshot.isFresh d u.target fingerprint else .ok false

/-- What to build. -/
def request (u : Update) : Build.Request :=
  { content := some u.source, glob := u.glob, options := FindOptions.any, policy := u.policy,
    manual := [] }

/-- The graph to save, if the snapshot may not stay. -/
def product? (d : Disk) (u : Update) : Outcome (Option Product) := do
  let fingerprint ← u.fingerprint d
  if ← u.mayStay d fingerprint then return none
  let (graph, tally) ← Build.run d u.request
  return some { fingerprint, graph, tally }

/-- The stamp of a product. -/
def stamp (u : Update) (p : Product) : Stamp :=
  { Stamp.now u.seconds with
    contentHash := some p.fingerprint
    sourceFileCount := some p.tally.filesProcessed }

/-- The disk with a product saved, and what became of it. -/
def save (d : Disk) (u : Update) (p : Product) : Disk × Saving :=
  if u.dryRun then (d, .skipped)
  else
    match Snapshot.save d u.target p.graph (some (u.stamp p)) with
    | (d, .ok ()) => (d, .done)
    | (d, .error failure) => (d, .failed failure)

/-- The disk after an update, and what it came to. -/
def run (d : Disk) (u : Update) : Disk × Outcome Result :=
  match u.product? d with
  | .error e => (d, .error e)
  | .ok none => (d, .ok .fresh)
  | .ok (some p) =>
    let (d, saving) := u.save d p
    (d, .ok (.built p.tally saving))

theorem save_of_dryRun {u : Update} (h : u.dryRun = true) (d : Disk) (p : Product) :
    u.save d p = (d, .skipped) := by
  simp [save, h]

/-- A dry run leaves the disk alone. -/
theorem run_of_dryRun {u : Update} (h : u.dryRun = true) (d : Disk) : (u.run d).1 = d := by
  simp only [run]
  split
  · rfl
  · rfl
  · simp [save_of_dryRun h]

end Update

end ConceptAtlas
