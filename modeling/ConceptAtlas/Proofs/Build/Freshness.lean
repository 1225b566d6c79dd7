import Mathlib
import ConceptAtlas.Build.Update
import ConceptAtlas.Proofs.Build.Accounting
import ConceptAtlas.Proofs.Digest.Fingerprint
import ConceptAtlas.Proofs.Files.Discovery

/-!
# Fresh snapshots

What it is worth when an update finds a snapshot fresh. The fingerprint of the content is then that
of the content that the snapshot was built from (`Update.fingerprint_eq_of_run_fresh`), and all that
a build makes of content is made of the discovered paths and the bytes at them
(`Update.outcomes_congr`). Between the two stands what a fingerprint does not tell, the sizes of the
files: if those have stayed, a build would make the same graph again, and if they have not, it may
make another.
-/

namespace ConceptAtlas

/-! ### What is read -/

/-- The files that an update finds, each with its bytes. -/
def Update.content (d : Disk) (u : Update) : Outcome (List (Path × List UInt8)) := do
  let files ← Discovery.files d u.source u.glob FindOptions.any
  (Digest.load d files).mapError Failure.fault

namespace Digest

/-- What was loaded is what is at the paths. -/
theorem read_of_load {d : Disk} {files : List FoundFile} {fs : List (Path × List UInt8)}
    (h : load d files = .ok fs) :
    files.map (fun f ↦ (f.relative, d.read f.path)) = fs.map fun f ↦ (f.1, .ok f.2) := by
  induction files generalizing fs with
  | nil =>
    cases h
    rfl
  | cons f files ih =>
    rw [load] at h
    split at h
    · nomatch h
    · rename_i bytes hread
      rcases hrest : load d files with e | rest
      · rw [hrest] at h
        nomatch h
      · rw [hrest] at h
        cases h
        rw [List.map_cons, List.map_cons, ih hrest, hread]

end Digest

namespace Update

variable {u : Update} {d d₀ : Disk}

theorem fingerprint_eq (d : Disk) (u : Update) :
    u.fingerprint d = (u.content d).map (Digest.fingerprintBy Sha256.hex) := by
  rw [fingerprint, content]
  rcases Discovery.files d u.source u.glob FindOptions.any with e | files
  · rfl
  · show (Digest.fingerprint d files).mapError _ = ((Digest.load d files).mapError _).map _
    rw [Digest.fingerprint]
    cases Digest.load d files <;> rfl

theorem content_eq_ok {fs : List (Path × List UInt8)} (h : u.content d = .ok fs) :
    ∃ files, Discovery.files d u.source u.glob FindOptions.any = .ok files ∧
      Digest.load d files = .ok fs := by
  obtain ⟨files, hfiles, hload⟩ := bind_eq_ok.1 h
  exact ⟨files, hfiles, mapError_eq_ok.1 hload⟩

/-- Content tells which files were discovered. -/
theorem files_of_content {fs : List (Path × List UInt8)} (h : u.content d = .ok fs) :
    Discovery.files d u.source u.glob FindOptions.any = .ok (fs.map fun f ↦
      Discovery.found u.source { u.source with names := u.source.names ++ f.1.names }) := by
  obtain ⟨files, hfiles, hload⟩ := content_eq_ok h
  have hrelatives : files.map FoundFile.relative = fs.map Prod.fst := by
    have hread := congrArg (List.map Prod.fst) (Digest.read_of_load hload)
    rw [List.map_map, List.map_map] at hread
    exact hread
  have hfound : files = (files.map FoundFile.relative).map fun p ↦
      Discovery.found u.source { u.source with names := u.source.names ++ p.names } := by
    rw [List.map_map]
    conv_lhs => rw [← List.map_id files]
    exact List.map_congr_left fun f hf ↦ Discovery.eq_found_of_mem_files hfiles hf
  rw [hfiles, hfound, hrelatives, List.map_map]
  rfl

/-- A file gives what its bytes make it give. -/
theorem extract_congr (x : Build.Extractor) {base path : Path} (h : d.read path = d₀.read path) :
    x.extract d base path = x.extract d₀ base path := by
  rw [Build.Extractor.extract, Build.Extractor.extract, Disk.text, Disk.text, Disk.readText,
    Disk.readText, h]

/-- **A build depends on content alone.** -/
theorem outcomes_congr {fs : List (Path × List UInt8)} (h : u.content d = .ok fs)
    (h₀ : u.content d₀ = .ok fs) :
    Build.outcomes d u.source u.request = Build.outcomes d₀ u.source u.request := by
  obtain ⟨files, hfiles, hload⟩ := content_eq_ok h
  obtain ⟨files₀, hfiles₀, hload₀⟩ := content_eq_ok h₀
  -- Both disks have the same base, so the same relative paths are the same files.
  obtain rfl : files = files₀ := by
    rw [files_of_content h] at hfiles
    rw [files_of_content h₀] at hfiles₀
    exact Except.ok.inj (hfiles.symm.trans hfiles₀)
  have hread : ∀ f ∈ files, d.read f.path = d₀.read f.path := by
    intro f hf
    have hboth := (Digest.read_of_load hload).trans (Digest.read_of_load hload₀).symm
    exact (Prod.mk.inj (List.map_inj_left.1 hboth f hf)).2
  rw [Build.outcomes, Build.outcomes, request, hfiles, hfiles₀]
  refine congrArg Except.ok (List.map_congr_left fun f hf ↦ ?_)
  rw [extract_congr _ (hread f hf)]

theorem run_congr {fs : List (Path × List UInt8)} (h : u.content d = .ok fs)
    (h₀ : u.content d₀ = .ok fs) : Build.run d u.request = Build.run d₀ u.request := by
  have houtcomes := outcomes_congr h h₀
  rw [Build.run_of_content rfl, Build.run_of_content rfl, houtcomes]

/-! ### What is fresh -/

/-- The snapshot on the disk `d` is stamped with the fingerprint of the content of the disk `d₀`. -/
def StampedFrom (u : Update) (d d₀ : Disk) : Prop :=
  ∃ s k, Snapshot.load d u.target = .ok s ∧ s.stamp.bind Stamp.contentHash = some k ∧
    u.fingerprint d₀ = .ok k

/-- **What fresh means**: the snapshot has the fingerprint of the content. -/
theorem stamped_of_run_fresh (h : (u.run d).2 = .ok .fresh) : u.StampedFrom d d := by
  have hproduct : u.product? d = .ok none := by
    rw [run] at h
    split at h
    · cases h
    · assumption
    · cases h
  obtain ⟨k, hk, hproduct⟩ := bind_eq_ok.1 hproduct
  obtain ⟨stay, hstay, hproduct⟩ := bind_eq_ok.1 hproduct
  cases stay with
  | false =>
    obtain ⟨p, -, hp⟩ := bind_eq_ok.1 hproduct
    cases hp
  | true =>
    rw [mayStay] at hstay
    split at hstay
    · rw [Snapshot.isFresh] at hstay
      split at hstay
      · cases hstay
      split at hstay
      · cases hstay
      · cases hstay
      · rename_i s hload
        exact ⟨s, k, hload, eq_of_beq (Except.ok.inj hstay), hk⟩
    · cases hstay

theorem fingerprint_eq_of_content {fs : List (Path × List UInt8)} (h : u.content d = .ok fs) :
    u.fingerprint d = .ok (Digest.fingerprintBy Sha256.hex fs) := by
  rw [fingerprint_eq, h]
  rfl

/-- A snapshot is stamped once: if it is fresh, its content and the content now have one
fingerprint. -/
theorem fingerprint_eq_of_run_fresh {fs gs : List (Path × List UInt8)}
    (hfs : u.content d = .ok fs) (hgs : u.content d₀ = .ok gs) (hfresh : (u.run d).2 = .ok .fresh)
    (hstamp : u.StampedFrom d d₀) :
    Digest.fingerprintBy Sha256.hex fs = Digest.fingerprintBy Sha256.hex gs := by
  obtain ⟨s, k, hload, hk, hnow⟩ := stamped_of_run_fresh hfresh
  obtain ⟨s₀, k₀, hload₀, hk₀, hthen⟩ := hstamp
  obtain rfl : s = s₀ := Except.ok.inj (hload.symm.trans hload₀)
  obtain rfl : k = k₀ := Option.some.inj (hk.symm.trans hk₀)
  rw [fingerprint_eq_of_content hfs] at hnow
  rw [fingerprint_eq_of_content hgs] at hthen
  exact Except.ok.inj (hnow.trans hthen.symm)

end Update

/-! ### What a fingerprint is worth -/

/-- **A fingerprint tells the paths and the joined bytes of files, and so all but their sizes.** Two
lists of files with one fingerprint are the same exactly if the sizes are. So if an update finds a
snapshot fresh and the files have the sizes that they had when it was built, a build would come to
the same graph. -/
theorem fingerprint_eq_iff {fs gs : List (Path × List UInt8)} (hf : Digest.Proper fs)
    (hg : Digest.Proper gs) (hjoined : Sha256.Apart (Digest.joined fs) (Digest.joined gs))
    (hsealed : Sha256.Apart (Digest.sealed fs) (Digest.sealed gs)) :
    (Digest.fingerprintBy Sha256.hex fs = Digest.fingerprintBy Sha256.hex gs ↔
      fs.map Prod.fst = gs.map Prod.fst ∧ Digest.joined fs = Digest.joined gs) ∧
    (Digest.fingerprintBy Sha256.hex fs = Digest.fingerprintBy Sha256.hex gs →
      (fs = gs ↔ (fs.map fun f ↦ f.2.length) = gs.map fun g ↦ g.2.length)) ∧
    ∀ (u : Update) (d d₀ : Disk), u.content d = .ok fs → u.content d₀ = .ok gs →
      (u.run d).2 = .ok .fresh → u.StampedFrom d d₀ →
      (fs.map Prod.fst = gs.map Prod.fst ∧ Digest.joined fs = Digest.joined gs) ∧
      ((fs.map fun f ↦ f.2.length) = (gs.map fun g ↦ g.2.length) →
        Build.run d u.request = Build.run d₀ u.request) := by
  have htells := Digest.fingerprintBy_eq_iff hf hg hjoined hsealed
  refine ⟨htells, fun h ↦ ?_, fun u d d₀ hfs hgs hfresh hstamp ↦ ?_⟩
  · obtain ⟨hpaths, hbytes⟩ := htells.1 h
    exact Digest.eq_iff_sizes hpaths hbytes
  · obtain ⟨hpaths, hbytes⟩ :=
      htells.1 (Update.fingerprint_eq_of_run_fresh hfs hgs hfresh hstamp)
    refine ⟨⟨hpaths, hbytes⟩, fun hsizes ↦ ?_⟩
    obtain rfl := (Digest.eq_iff_sizes hpaths hbytes).2 hsizes
    exact Update.run_congr hfs hgs

/-! ### Bytes that move -/

/-- The opening mark of front matter, and nothing after it. -/
def openMark : List UInt8 := [0x2d, 0x2d, 0x2d, 0x0a]

/-- Two files, and what is in them. -/
def twoFiles (a b : List UInt8) : List (Path × List UInt8) :=
  [(⟨.relative, ["a.md"]⟩, a), (⟨.relative, ["b.md"]⟩, b)]

/-- A disk with two files. -/
def diskOf (a b : List UInt8) : Disk := ⟨[], [(["a.md"], .file a), (["b.md"], .file b)]⟩

/-- An update from every file of the working directory. -/
def everyFile : Update :=
  { source := ⟨.relative, []⟩, glob := "*", policy := .collect,
    target := ⟨.relative, ["graph.json"]⟩, useCache := true, dryRun := false, seconds := 0 }

theorem proper_twoFiles (a b : List UInt8) : Digest.Proper (twoFiles a b) := by
  have hname : ∀ n ∈ ["a.md", "b.md"], (⟨.relative, [n]⟩ : Path).Proper := by decide
  intro f hf
  simp only [twoFiles, List.mem_cons, List.not_mem_nil, or_false] at hf
  rcases hf with rfl | rfl
  · exact hname "a.md" (by simp)
  · exact hname "b.md" (by simp)

/-- The mark at the end of the first file and the mark at the start of the second one make one
fingerprint of two lists. -/
theorem fingerprint_eq_iff_openMark :
    Digest.fingerprintBy Sha256.hex (twoFiles openMark []) =
      Digest.fingerprintBy Sha256.hex (twoFiles [] openMark) ∧
    ¬ twoFiles openMark [] = twoFiles [] openMark := by
  have h := fingerprint_eq_iff (proper_twoFiles openMark []) (proper_twoFiles [] openMark)
    (fun _ ↦ rfl) (fun _ ↦ rfl)
  have hkey := h.1.2 ⟨rfl, rfl⟩
  exact ⟨hkey, fun e ↦ absurd ((h.2.1 hkey).1 e) (by decide)⟩

theorem ofString_star : Glob.ofString "*" = .ok ⟨[.wild (Pattern.ofString "*")], false⟩ := by
  have hpath : Path.ofString "*" = ⟨.relative, ["*"]⟩ := by cbv
  have hstep : Glob.Step.ofName "*" = .ok (.wild (Pattern.ofString "*")) := by cbv
  have hslash : "*".endsWith "/" = false := by decide +kernel
  rw [Glob.ofString, hpath]
  simp only [Glob.ofNames, List.mapM_cons, hstep, hslash]
  rfl

theorem files_diskOf (a b : List UInt8) :
    Discovery.files (diskOf a b) everyFile.source everyFile.glob FindOptions.any =
      .ok ((twoFiles a b).map fun f ↦ Discovery.found everyFile.source f.1) := by
  have hroot : Discovery.root (diskOf a b) ⟨.relative, []⟩ = .ok ⟨.relative, []⟩ := rfl
  have hselect : Glob.select (diskOf a b) ⟨.relative, []⟩
      ⟨[.wild (Pattern.ofString "*")], false⟩ = (twoFiles a b).map Prod.fst := by cbv
  have hfile : ∀ p ∈ (twoFiles a b).map Prod.fst, (diskOf a b).isFile p = true := by
    simp only [twoFiles, List.map_cons, List.map_nil, List.forall_mem_cons]
    exact ⟨rfl, rfl, by simp⟩
  have hfirst : Discovery.accepts FindOptions.any ⟨.relative, ["a.md"]⟩ = true := by cbv
  have hsecond : Discovery.accepts FindOptions.any ⟨.relative, ["b.md"]⟩ = true := by cbv
  have haccepts : ∀ p ∈ (twoFiles a b).map Prod.fst,
      Discovery.accepts FindOptions.any (Discovery.found ⟨.relative, []⟩ p).relative = true := by
    simp only [twoFiles, List.map_cons, List.map_nil, List.forall_mem_cons]
    exact ⟨hfirst, hsecond, by simp⟩
  rw [everyFile, Discovery.files, hroot, ofString_star]
  show Except.ok _ = _
  rw [hselect, List.filter_eq_self.2 hfile, List.map_map, List.filter_eq_self.2]
  · rfl
  · intro f hf
    obtain ⟨x, hx, rfl⟩ := List.mem_map.1 hf
    exact haccepts x.1 (List.mem_map_of_mem hx)

theorem content_diskOf (a b : List UInt8) :
    everyFile.content (diskOf a b) = .ok (twoFiles a b) := by
  have hload : Digest.load (diskOf a b)
      ((twoFiles a b).map fun f ↦ Discovery.found everyFile.source f.1) = .ok (twoFiles a b) := by
    simp only [twoFiles, List.map_cons, List.map_nil, Digest.load]
    rfl
  exact bind_eq_ok.2 ⟨_, files_diskOf a b, mapError_eq_ok.2 hload⟩

/-- An empty file is a concept that has its name. -/
theorem extract_of_read_nil {d : Disk} {path : Path} {id : String} (hread : d.read path = .ok [])
    (hid : path.id? = some id) (base : Path) :
    Build.Extractor.concepts.extract d base path = .ok ⟨Node.plain id id, []⟩ := by
  have htext : d.text path = .ok "" := by
    rw [Disk.text, Disk.readText, hread]
    simp only [Text.decodeUtf8_nil]
    rfl
  have hcard : Card.ofText Yaml.parse "" = .ok ⟨[], ""⟩ := by cbv
  have hconcept : Concept.ofFront path [] = .ok ⟨id, id, none, none, none, none⟩ := by
    have hown : Concept.idOf path (Value.valueOrNull "id" []) = .ok id := by
      simp only [Concept.idOf, hid]
      rfl
    rw [Concept.ofFront, hown]
    rfl
  have hreferences : References.ofFront [] = .ok ⟨[], [], []⟩ := by cbv
  refine bind_eq_ok.2 ⟨_, mapError_eq_ok.2 htext, bind_eq_ok.2 ⟨_, hcard, ?_⟩⟩
  simp only [Build.Extractor.ofCard, Build.Extractor.concepts, hconcept, hreferences]
  rfl

/-- A file with nothing but an opening mark is no card. -/
theorem extract_of_read_openMark {d : Disk} {path : Path} (hread : d.read path = .ok openMark)
    (base : Path) :
    Build.Extractor.concepts.extract d base path = .error (.fault (.parse .frontMatterOpen)) := by
  have hdecode : Text.decodeUtf8 openMark = .ok "---\n".toList := by cbv
  have htext : d.text path = .ok "---\n" := by
    rw [Disk.text, Disk.readText, hread]
    simp only [hdecode]
    rfl
  have hcard : Card.ofText Yaml.parse "---\n" = .error (.fault (.parse .frontMatterOpen)) := by cbv
  rw [Build.Extractor.extract, htext]
  simp only [Except.mapError, bind, Except.bind, hcard]

theorem outcomes_diskOf (a b : List UInt8) :
    Build.outcomes (diskOf a b) everyFile.source everyFile.request =
      .ok ((twoFiles a b).map fun f ↦
        (f.1, Build.Extractor.concepts.extract (diskOf a b) everyFile.source f.1)) :=
  bind_eq_ok.2 ⟨_, files_diskOf a b, congrArg Except.ok (List.map_map ..)⟩

/-- **A mark that moves from one file to the next is not seen.** Before, the first file is no card
and the second one is empty; after, it is the other way round. A build makes another node of
either, but both have one fingerprint. -/
theorem fingerprint_misses_boundary :
    everyFile.content (diskOf openMark []) = .ok (twoFiles openMark []) ∧
    everyFile.content (diskOf [] openMark) = .ok (twoFiles [] openMark) ∧
    everyFile.fingerprint (diskOf openMark []) = everyFile.fingerprint (diskOf [] openMark) ∧
    twoFiles openMark [] ≠ twoFiles [] openMark ∧
    (Build.run (diskOf openMark []) everyFile.request).map (fun r ↦ r.1.ids) = .ok ["b"] ∧
    (Build.run (diskOf [] openMark) everyFile.request).map (fun r ↦ r.1.ids) = .ok ["a"] := by
  have hkey : Digest.fingerprintBy Sha256.hex (twoFiles openMark []) =
      Digest.fingerprintBy Sha256.hex (twoFiles [] openMark) := rfl
  have hfirst : (⟨.relative, ["a.md"]⟩ : Path).id? = some "a" := by decide +kernel
  have hsecond : (⟨.relative, ["b.md"]⟩ : Path).id? = some "b" := by decide +kernel
  refine ⟨content_diskOf .., content_diskOf .., ?_, by decide, ?_, ?_⟩
  · rw [Update.fingerprint_eq_of_content (content_diskOf ..),
      Update.fingerprint_eq_of_content (content_diskOf ..), hkey]
  · rw [Build.run_collect rfl rfl (outcomes_diskOf ..), twoFiles, List.map_cons, List.map_cons,
      List.map_nil, extract_of_read_openMark rfl, extract_of_read_nil rfl hsecond]
    rfl
  · rw [Build.run_collect rfl rfl (outcomes_diskOf ..), twoFiles, List.map_cons, List.map_cons,
      List.map_nil, extract_of_read_nil rfl hfirst, extract_of_read_openMark rfl]
    rfl

end ConceptAtlas
