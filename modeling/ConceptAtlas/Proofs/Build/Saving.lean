import Mathlib
import ConceptAtlas.Proofs.Build.Extraction
import ConceptAtlas.Proofs.Build.Freshness
import ConceptAtlas.Proofs.Files.Walk
import ConceptAtlas.Proofs.Snapshot.Freshness

/-!
# What an update leaves

An update leaves the file at its target or writes the snapshot of a complete build there; which of
the two, its result tells (`Update.leaves_run`). What is written always reads back as the snapshot
that it is the text of: the graph is made from cards, whose metadata and weights are modest, and an
integer that no reader would take keeps a snapshot from being written at all.

So what an update has saved is fresh for the next one, as long as the next one finds the same
content (`Update.run_of_saved`).
-/

namespace ConceptAtlas

/-- What is loaded is what is at the paths. -/
theorem Digest.load_congr {d d' : Disk} {files : List FoundFile}
    (h : ∀ f ∈ files, d'.read f.path = d.read f.path) : load d' files = load d files := by
  induction files with
  | nil => rfl
  | cons f files ih =>
    rw [List.forall_mem_cons] at h
    rw [load, load, h.1, ih h.2]

/-! ### Builds that read back -/

namespace Build

theorem exists_outcomes_of_run {d : Disk} {r : Request} {base : Path} {g : Graph Float} {t : Tally}
    (hbase : r.content = some base) (h : run d r = .ok (g, t)) :
    ∃ os, outcomes d base r = .ok os := by
  rw [run_of_content hbase] at h
  obtain ⟨x, hx, -⟩ := map_eq_ok.1 h
  obtain ⟨os, hos, -⟩ := bind_eq_ok.1 hx
  exact ⟨os, hos⟩

theorem legible_of_mem_extracts {d : Disk} {r : Request} {base : Path}
    {os : List (Path × Outcome Extract)} {x : Extract} (hos : outcomes d base r = .ok os)
    (hconcepts : r.extractor = .concepts) (hx : x ∈ extracts os) :
    Json.Legible none (.obj x.node.metadata) ∧
      ∀ e ∈ x.edges, Json.Legible none (.float e.weight) := by
  obtain ⟨files, -, rfl⟩ := outcomes_eq_ok_iff.1 hos
  obtain ⟨o, ho, hgave⟩ := List.mem_filterMap.1 hx
  obtain ⟨f, -, rfl⟩ := List.mem_map.1 ho
  rw [hconcepts] at hgave
  rcases hextract : Extractor.concepts.extract d base f.path with e | y
  · rw [hextract] at hgave
    cases hgave
  · rw [hextract] at hgave
    cases hgave
    exact legible_of_extract hextract

/-- **A graph that was built from cards reads back**, whatever the cards say. -/
theorem legible_of_run {d : Disk} {r : Request} {base : Path} {g : Graph Float} {t : Tally}
    (hbase : r.content = some base) (hconcepts : r.extractor = .concepts)
    (hmanual : r.manualEdges = []) (h : run d r = .ok (g, t)) :
    (∀ n ∈ g.nodes, Json.Legible none (.obj n.metadata)) ∧
      ∀ e ∈ g.edges, Json.Legible none (.float e.weight) := by
  obtain ⟨os, hos⟩ := exists_outcomes_of_run hbase h
  have hlegible (x : Extract) (hx : x ∈ extracts os) :=
    legible_of_mem_extracts hos hconcepts hx
  refine ⟨fun n hn ↦ ?_, fun e he ↦ ?_⟩
  · rw [(eq_of_run hbase hos h).1] at hn
    obtain ⟨x, hx, rfl⟩ := List.mem_map.1 (Graph.mem_of_mem_nodes_ofRecords hn)
    exact (hlegible x hx).1
  · rw [(edges_of_run hbase hos h).1, stagedEdges, hmanual, List.append_nil] at he
    obtain ⟨x, hx, he⟩ := List.mem_flatMap.1 (List.mem_filter.1 he).1
    exact (hlegible x hx).2 e he

end Build

/-! ### Saving -/

namespace Snapshot

variable {d d' : Disk} {p : Path} {g : Graph Float} {m : Stamp}

theorem save_eq_ok (h : save d p g (some m) = (d', .ok ())) :
    ∃ text, g.serialize (some m) = .ok text ∧
      d.save p (Text.encodeUtf8 text) = (d', none) := by
  rw [save] at h
  split at h
  · cases h
  · rename_i text htext
    split at h
    · rename_i hsave
      cases h
      exact ⟨text, htext, hsave⟩
    · cases h

theorem bytes?_of_save {f : Failure} (h : save d p g (some m) = (d', .error f)) :
    d'.bytes? p = d.bytes? p := by
  rw [save] at h
  split at h
  · cases h
    rfl
  · split at h
    · cases h
    · rename_i hsave
      cases h
      exact Disk.bytes?_of_save hsave

end Snapshot

namespace Update

variable {u u₀ : Update} {d d₀ : Disk} {g : Graph Float} {t : Build.Tally} {m : Stamp}
  {text : String}

/-- What an update writes if it saves: the text of the graph of the content of a disk and of a stamp
with the fingerprint of that content and the number of files that were processed. The text reads
back as both. -/
structure Writes (u : Update) (d : Disk) (g : Graph Float) (m : Stamp) (text : String) : Prop where
  built : ∃ t, Build.run d u.request = .ok (g, t) ∧ m.sourceFileCount = some t.filesProcessed
  contentHash : ∃ k, u.fingerprint d = .ok k ∧ m.contentHash = some k
  signed : m.builtAt = toString u.seconds ∧ m.builderVersion = currentVersion
  written : g.serialize (some m) = .ok text
  readsBack : Snapshot.ofText text = .ok (.ofGraph g (some m))

/-- What comes of an update on a disk: the disk after it and a result. -/
inductive Leaves (u : Update) (d : Disk) : Disk × Outcome Result → Prop
  | failed {f : Failure} : Leaves u d (d, .error f)
  | fresh : Leaves u d (d, .ok .fresh)
  | skipped {t : Build.Tally} : u.dryRun = true → Leaves u d (d, .ok (.built t .skipped))
  | unsaved {d' : Disk} {t : Build.Tally} {f : Failure} : u.dryRun = false →
    d'.bytes? u.target = d.bytes? u.target → Leaves u d (d', .ok (.built t (.failed f)))
  | saved {d' : Disk} {t : Build.Tally} {g : Graph Float} {m : Stamp} {text : String} :
    u.dryRun = false → u.Writes d g m text →
    d.save u.target (Text.encodeUtf8 text) = (d', none) → Leaves u d (d', .ok (.built t .done))

theorem product?_eq_some {p : Product} (h : u.product? d = .ok (some p)) :
    Build.run d u.request = .ok (p.graph, p.tally) ∧ u.fingerprint d = .ok p.fingerprint := by
  obtain ⟨k, hk, h⟩ := bind_eq_ok.1 h
  obtain ⟨stay, -, h⟩ := bind_eq_ok.1 h
  cases stay with
  | true => cases h
  | false =>
    obtain ⟨⟨g, t⟩, hrun, h⟩ := bind_eq_ok.1 h
    cases h
    exact ⟨hrun, hk⟩

theorem writes_of_product? {p : Product} (h : u.product? d = .ok (some p))
    (htext : p.graph.serialize (some (u.stamp p)) = .ok text) :
    u.Writes d p.graph (u.stamp p) text := by
  obtain ⟨hrun, hk⟩ := product?_eq_some h
  obtain ⟨hnodes, hedges⟩ := Build.legible_of_run rfl rfl rfl hrun
  obtain ⟨hmodest, rfl⟩ := Snapshot.text_eq_ok_iff.1 htext
  have hlegible : Json.Legible none (Snapshot.ofGraph p.graph (some (u.stamp p))).toJson :=
    Snapshot.legible_toJson hnodes hedges fun _ _ _ _ ↦ rfl
  exact ⟨⟨p.tally, hrun, rfl⟩, ⟨p.fingerprint, hk, rfl⟩, ⟨rfl, rfl⟩, htext,
    Snapshot.ofText_pretty hlegible hmodest⟩

/-- **An update leaves the file at its target, or writes a complete build there.** -/
theorem leaves_run (u : Update) (d : Disk) : u.Leaves d (u.run d) := by
  rw [run]
  rcases hproduct : u.product? d with f | - | p
  · exact .failed
  · exact .fresh
  · simp only [save]
    by_cases hdry : u.dryRun = true
    · rw [if_pos hdry]
      exact .skipped hdry
    · rw [if_neg hdry]
      rw [Bool.not_eq_true] at hdry
      rcases hsave : Snapshot.save d u.target p.graph (some (u.stamp p)) with ⟨d', f | ⟨⟩⟩
      · exact .unsaved hdry (Snapshot.bytes?_of_save hsave)
      · obtain ⟨text, htext, hsaved⟩ := Snapshot.save_eq_ok hsave
        exact .saved hdry (writes_of_product? hproduct htext) hsaved

/-- What was written was made of content. -/
theorem Writes.exists_content (h : u.Writes d g m text) : ∃ fs, u.content d = .ok fs := by
  obtain ⟨k, hk, -⟩ := h.contentHash
  rw [fingerprint_eq, map_eq_ok] at hk
  obtain ⟨fs, hfs, -⟩ := hk
  exact ⟨fs, hfs⟩

/-! ### The next update -/

/-- What was written is loaded. -/
theorem Writes.load (h : u₀.Writes d₀ g m text) {p : Path}
    (hbytes : d.bytes? p = some (Text.encodeUtf8 text)) :
    Snapshot.load d p = .ok (.ofGraph g (some m)) := by
  obtain ⟨-, rfl⟩ := Snapshot.text_eq_ok_iff.1 h.written
  exact Snapshot.load_eq_ok_iff.2
    ⟨_, Disk.spells_pretty (Disk.bytes?_eq_some_iff.1 hbytes), h.readsBack⟩

/-- **What an update has saved is fresh for the next one** that finds the same content, whatever
else has changed. -/
theorem run_of_saved (h : u₀.Writes d₀ g m text)
    (hbytes : d.bytes? u.target = some (Text.encodeUtf8 text))
    (hcontent : u.content d = u₀.content d₀) (hcache : u.useCache = true)
    (hdry : u.dryRun = false) : u.run d = (d, .ok .fresh) := by
  obtain ⟨k, hk, hstamp⟩ := h.contentHash
  have hfingerprint : u.fingerprint d = .ok k := by
    rw [fingerprint_eq, hcontent, ← fingerprint_eq]
    exact hk
  have hfresh : Snapshot.isFresh d u.target k = .ok true := by
    rw [Snapshot.isFresh_eq, h.load hbytes]
    show Except.ok (m.contentHash == some k) = _
    rw [hstamp, beq_self_eq_true]
  have hproduct : u.product? d = .ok none := by
    refine bind_eq_ok.2 ⟨k, hfingerprint, bind_eq_ok.2 ⟨true, ?_, rfl⟩⟩
    rw [mayStay, hcache, hdry]
    exact hfresh
  rw [run, hproduct]

/-- No file that an update discovers is the one at its target. -/
def Spares (u : Update) (d : Disk) : Prop :=
  ∀ files, Discovery.files d u.source u.glob FindOptions.any = .ok files →
    ∀ f ∈ files, d.locate f.path ≠ d.locate u.target

/-- **A save leaves the content as it is**, if its target is no part of the content and the glob
only goes down. -/
theorem content_of_save {d' : Disk} {bytes : List UInt8} {fs : List (Path × List UInt8)}
    (hsave : d.save u.target bytes = (d', none)) (hd : d.Sound)
    (hglob : ".." ∉ (Path.ofString u.glob).names) (hspares : u.Spares d')
    (hcontent : u.content d = .ok fs) : u.content d' = .ok fs := by
  obtain ⟨place, hplace, hreplaces⟩ := Disk.replaces_of_save hsave
  obtain ⟨files, hfiles, hload⟩ := content_eq_ok hcontent
  have hapart : ∀ fs', Discovery.files d' u.source u.glob FindOptions.any = .ok fs' →
      ∀ f ∈ fs', d'.locate f.path ≠ .ok place := fun fs' hfs' f hf ↦ hplace ▸ hspares fs' hfs' f hf
  have hfiles' := Discovery.files_of_replaces hreplaces hd (hd.save hsave) hglob hfiles hapart
  have hread : ∀ f ∈ files, d'.read f.path = d.read f.path := by
    intro f hf
    obtain ⟨b, hb⟩ := Disk.isFile_iff.1 (Discovery.isFile_of_mem_files hfiles hf)
    rw [hb, hreplaces.read hb (hapart files hfiles' f hf)]
  refine bind_eq_ok.2 ⟨files, hfiles', mapError_eq_ok.2 ?_⟩
  rw [Digest.load_congr hread]
  exact hload

end Update

end ConceptAtlas
