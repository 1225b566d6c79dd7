import ConceptAtlas.Files.Discovery
import ConceptAtlas.Proofs.Files.Disk

/-!
# What discovery finds

Discovery only adds to its base. A walk only goes on from the path where it stands, so every path
that it comes to has the names of the base in front (`Glob.names_of_mem_walk`), and a discovered
file is the base followed by its own relative path (`Discovery.eq_found_of_mem_files`). That is why
relative paths are enough to tell which files were found.
-/

namespace ConceptAtlas

theorem Disk.names_of_mem_directories {d : Disk} {p q : Path} (h : q ∈ d.directories p) :
    ∃ more, q = { p with names := p.names ++ more } := by
  rw [directories] at h
  split at h
  · nomatch h
  · rename_i place _
    rcases List.mem_cons.1 h with rfl | h
    · exact ⟨[], by rw [List.append_nil]⟩
    · obtain ⟨e, -, he⟩ := List.mem_filterMap.1 h
      split at he
      · exact ⟨e.1.drop place.length, (Option.some.inj he).symm⟩
      · nomatch he

namespace Glob

/-- Every path that steps lead to goes on from the path that they start at. -/
theorem names_of_mem_walk {d : Disk} {directoriesOnly : Bool} {steps : List Step} {p q : Path}
    (h : q ∈ walk d directoriesOnly steps p) :
    ∃ more, q = { p with names := p.names ++ more } := by
  induction steps generalizing p with
  | nil => exact ⟨[], by simpa [walk] using h⟩
  | cons s steps ih =>
    have hchild {n : String} (hq : q ∈ walk d directoriesOnly steps (p.child n)) :
        ∃ more, q = { p with names := p.names ++ more } := by
      obtain ⟨more, rfl⟩ := ih hq
      exact ⟨n :: more, by simp [Path.child]⟩
    cases s with
    | name n =>
      simp only [walk] at h
      exact hchild (List.mem_ite_nil_right.1 h).2
    | wild pattern =>
      simp only [walk] at h
      obtain ⟨e, -, he⟩ := List.mem_flatMap.1 h
      exact hchild (List.mem_ite_nil_right.1 he).2
    | up => exact hchild h
    | deep =>
      simp only [walk, List.mem_eraseDups] at h
      obtain ⟨r, hr, hq⟩ := List.mem_flatMap.1 h
      obtain ⟨more, rfl⟩ := Disk.names_of_mem_directories hr
      obtain ⟨rest, rfl⟩ := ih hq
      exact ⟨more ++ rest, by simp⟩

theorem names_of_mem_select {d : Disk} {base q : Path} {g : Glob} (h : q ∈ g.select d base) :
    ∃ more, q = { base with names := base.names ++ more } := by
  rw [select] at h
  exact names_of_mem_walk (List.mem_mergeSort.1 (List.mem_ite_nil_right.1 h).2)

end Glob

namespace Discovery

theorem root_eq_ok_iff {d : Disk} {base b : Path} :
    root d base = .ok b ↔ d.isDirectory base = true ∧ b = base := by
  rw [root]
  by_cases hdirectory : d.isDirectory base = true
  · have hcontains : d.contains base = true := by
      rw [Disk.isDirectory, beq_iff_eq] at hdirectory
      rw [Disk.contains, hdirectory]
      rfl
    simp [hdirectory, hcontains, eq_comm]
  · by_cases hcontains : d.contains base = true
    · simp [hdirectory, hcontains]
    · simp [hdirectory, hcontains]

/-- What is discovered: the files that a glob selects below a directory, as far as the options let
them through. -/
theorem files_eq_ok_iff {d : Disk} {base : Path} {glob : String} {o : FindOptions}
    {fs : List FoundFile} : files d base glob o = .ok fs ↔
      d.isDirectory base = true ∧ ∃ g, Glob.ofString glob = .ok g ∧
        fs = ((g.select d base).filter fun q ↦
          accepts o (found base q).relative && d.isFile q).map (found base) := by
  rw [files, bind_eq_ok]
  simp only [mapError_eq_ok, root_eq_ok_iff, and_assoc]
  constructor
  · rintro ⟨_, hdirectory, rfl, h⟩
    rcases hglob : Glob.ofString glob with fault | g
    · rw [hglob] at h
      cases h
    · rw [hglob] at h
      refine ⟨hdirectory, g, rfl, ?_⟩
      rw [← Except.ok.inj h, List.filter_map, List.filter_filter]
      rfl
  · rintro ⟨hdirectory, g, hglob, rfl⟩
    refine ⟨base, hdirectory, rfl, ?_⟩
    rw [hglob]
    show Except.ok _ = _
    rw [List.filter_map, List.filter_filter]
    rfl

/-- A discovered file is known by its relative path. -/
theorem eq_found_of_mem_files {d : Disk} {base : Path} {glob : String} {o : FindOptions}
    {fs : List FoundFile} (h : files d base glob o = .ok fs) {f : FoundFile} (hf : f ∈ fs) :
    f = found base { base with names := base.names ++ f.relative.names } := by
  obtain ⟨-, g, -, rfl⟩ := files_eq_ok_iff.1 h
  obtain ⟨q, hq, rfl⟩ := List.mem_map.1 hf
  obtain ⟨more, rfl⟩ := Glob.names_of_mem_select (List.mem_filter.1 hq).1
  simp [found, Path.below]

end Discovery

end ConceptAtlas
