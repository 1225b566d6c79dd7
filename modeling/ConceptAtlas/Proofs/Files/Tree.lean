import Mathlib.Data.List.Induction
import Mathlib.Data.List.Nodup
import ConceptAtlas.Proofs.Files.Disk

/-!
# Disks as trees

A disk as a file system keeps it (`Disk.Sound`): there is one entry at a place, it stands in a
directory, and no name is `..`. So there are only directories above an entry, and the names of an
entry lead down to it (`Sound.descend_of_entryAt?`). Writing a file and making directories keep a
disk sound (`Sound.save`).
-/

namespace ConceptAtlas.Disk

variable {d d' : Disk} {p : Path} {place w more : List String} {e : Entry} {bytes : List UInt8}

/-- The places where something is, the root aside. -/
def places (d : Disk) : List (List String) := d.entries.map Prod.fst

/-- A disk is a tree. -/
structure Sound (d : Disk) : Prop where
  working : ".." ∉ d.working
  nodup : d.places.Nodup
  ne_nil : ∀ w ∈ d.places, w ≠ []
  names : ∀ w ∈ d.places, ".." ∉ w
  parent : ∀ w ∈ d.places, d.entryAt? w.dropLast = some .directory

/-! ### Entries -/

theorem mem_entries_of_entryAt? (h : d.entryAt? w = some e) (hne : w ≠ []) :
    (w, e) ∈ d.entries := by
  rw [entryAt?, if_neg (by simpa using hne), Assoc.find?, Assoc.findBy?,
    Option.map_eq_some_iff] at h
  obtain ⟨x, hx, rfl⟩ := h
  obtain rfl : x.1 = w := by simpa using List.find?_some hx
  exact List.mem_of_find?_eq_some hx

theorem mem_places_of_entryAt? (h : d.entryAt? w = some e) (hne : w ≠ []) : w ∈ d.places :=
  List.mem_map_of_mem (mem_entries_of_entryAt? h hne)

theorem Sound.mem_entries_iff (h : d.Sound) {x : List String × Entry} :
    x ∈ d.entries ↔ x.1 ≠ [] ∧ d.entryAt? x.1 = some x.2 := by
  constructor
  · intro hx
    have hne : x.1 ≠ [] := h.ne_nil x.1 (List.mem_map_of_mem hx)
    refine ⟨hne, ?_⟩
    rw [entryAt?, if_neg (by simpa using hne)]
    exact Assoc.find?_of_mem h.nodup hx
  · rintro ⟨hne, hentry⟩
    exact mem_entries_of_entryAt? hentry hne

/-- No name on the way to an entry is `..`. -/
theorem Sound.not_mem_of_entryAt? (h : d.Sound) (hw : d.entryAt? w = some e) : ".." ∉ w := by
  by_cases hne : w = []
  · rw [hne]
    exact List.not_mem_nil
  · exact h.names w (mem_places_of_entryAt? hw hne)

/-- **Above an entry there are only directories.** -/
theorem Sound.directory_above (h : d.Sound) (hw : d.entryAt? (w ++ more) = some e)
    (hmore : more ≠ []) : d.entryAt? w = some .directory := by
  induction more using List.reverseRecOn generalizing e with
  | nil => exact absurd rfl hmore
  | append_singleton more n ih =>
    have hne : w ++ (more ++ [n]) ≠ [] := by simp
    have hparent := h.parent _ (mem_places_of_entryAt? hw hne)
    rw [← List.append_assoc, List.dropLast_concat] at hparent
    by_cases hnil : more = []
    · rwa [hnil, List.append_nil] at hparent
    · exact ih hparent hnil

theorem Sound.exists_entry_above (h : d.Sound) (hw : d.entryAt? (w ++ more) = some e) :
    ∃ e', d.entryAt? w = some e' := by
  by_cases hmore : more = []
  · rw [hmore, List.append_nil] at hw
    exact ⟨e, hw⟩
  · exact ⟨_, h.directory_above hw hmore⟩

/-! ### Going down -/

theorem locate_append (d : Disk) (p : Path) (more : List String) :
    d.locate { p with names := p.names ++ more } = d.locate p >>= more.foldlM d.step := by
  rw [locate, locate, List.foldlM_append]

/-- Names other than `..` lead down. -/
theorem eq_append_of_descend (h : more.foldlM d.step place = .ok w) (hmore : ".." ∉ more) :
    w = place ++ more := by
  induction more generalizing place with
  | nil =>
    cases h
    exact (List.append_nil w).symm
  | cons n ns ih =>
    rw [List.mem_cons, not_or] at hmore
    rw [List.foldlM_cons] at h
    obtain ⟨next, hnext, h⟩ := bind_eq_ok.1 h
    obtain ⟨-, rfl⟩ := step_eq_ok_iff.1 hnext
    rw [ih h hmore.2, if_neg fun hn ↦ hmore.1 hn.symm, List.append_assoc]
    rfl

/-- The names of an entry lead down to it. -/
theorem Sound.descend_of_entryAt? (h : d.Sound) (hw : d.entryAt? (place ++ more) = some e) :
    more.foldlM d.step place = .ok (place ++ more) := by
  induction more generalizing place with
  | nil =>
    rw [List.append_nil]
    rfl
  | cons n ns ih =>
    have hdirectory := h.directory_above hw (List.cons_ne_nil n ns)
    have hn : n ≠ ".." := by
      rintro rfl
      exact h.not_mem_of_entryAt? hw (by simp)
    rw [List.append_cons] at hw ⊢
    rw [List.foldlM_cons]
    refine bind_eq_ok.2 ⟨place ++ [n], step_eq_ok_iff.2 ⟨hdirectory, ?_⟩, ih hw⟩
    rw [if_neg hn]

theorem Sound.locate_below (h : d.Sound) (hplace : d.locate p = .ok place)
    (hw : d.entryAt? (place ++ more) = some e) :
    d.locate { p with names := p.names ++ more } = .ok (place ++ more) := by
  rw [locate_append]
  exact bind_eq_ok.2 ⟨place, hplace, h.descend_of_entryAt? hw⟩

/-- No path leads to a place with the name `..`. -/
theorem Sound.not_mem_of_locate (h : d.Sound) (hw : d.locate p = .ok w) : ".." ∉ w := by
  have hdescend (names : List String) (place : List String) (hplace : ".." ∉ place)
      (hw : names.foldlM d.step place = .ok w) : ".." ∉ w := by
    induction names generalizing place with
    | nil =>
      cases hw
      exact hplace
    | cons n ns ih =>
      rw [List.foldlM_cons] at hw
      obtain ⟨next, hnext, hw⟩ := bind_eq_ok.1 hw
      obtain ⟨-, rfl⟩ := step_eq_ok_iff.1 hnext
      refine ih _ ?_ hw
      split
      · exact fun hmem ↦ hplace (List.dropLast_subset place hmem)
      · rename_i hn
        simp only [List.mem_append, List.mem_singleton, not_or]
        exact ⟨hplace, fun hup ↦ hn hup.symm⟩
  refine hdescend p.names _ ?_ hw
  split
  · exact h.working
  · exact List.not_mem_nil

/-! ### Changes -/

theorem places_put (d : Disk) (place : List String) (e : Entry) : (d.put place e).places =
    if place ∈ d.places then d.places else d.places ++ [place] := by
  split
  · rename_i hmem
    exact Assoc.keys_put_of_mem hmem e
  · rename_i hmem
    exact Assoc.keys_put_of_not_mem hmem e

theorem mem_places_put : w ∈ (d.put place e).places ↔ w ∈ d.places ∨ w = place := by
  rw [places_put]
  split
  · rename_i hmem
    exact ⟨.inl, fun h ↦ h.elim id fun hw ↦ hw ▸ hmem⟩
  · rw [List.mem_append, List.mem_singleton]

/-- What is put into a directory, but not in the place of one, keeps a disk sound. -/
theorem Sound.put (h : d.Sound) (hnames : ".." ∉ place) (hne : place ≠ [])
    (hplace : d.entryAt? place ≠ some .directory)
    (hparent : d.entryAt? place.dropLast = some .directory) : (d.put place e).Sound where
  working := h.working
  nodup := by
    rw [places_put]
    split
    · exact h.nodup
    · rename_i hmem
      refine List.nodup_append.2 ⟨h.nodup, List.nodup_singleton place, fun a ha b hb hab ↦ ?_⟩
      rw [List.mem_singleton] at hb
      exact hmem (hb ▸ hab ▸ ha)
  ne_nil w hw := by
    rcases mem_places_put.1 hw with hw | rfl
    · exact h.ne_nil w hw
    · exact hne
  names w hw := by
    rcases mem_places_put.1 hw with hw | rfl
    · exact h.names w hw
    · exact hnames
  parent w hw := by
    have hdirectory : d.entryAt? w.dropLast = some .directory := by
      rcases mem_places_put.1 hw with hw | rfl
      · exact h.parent w hw
      · exact hparent
    rw [entryAt?_put hne, if_neg, hdirectory]
    rintro rfl
    exact hplace hdirectory

theorem Sound.makeDirectory (h : d.Sound) (hmake : d.makeDirectory p = .ok d') : d'.Sound := by
  obtain ⟨place, hplace, hentry, hparent, rfl⟩ := makeDirectory_eq_ok hmake
  refine h.put (h.not_mem_of_locate hplace) ?_ ?_ hparent
  · rintro rfl
    cases hentry
  · rw [hentry]
    exact nofun

theorem Sound.write (h : d.Sound) (hwrite : d.write p bytes = .ok d') : d'.Sound := by
  obtain ⟨place, hplace, rfl, hentry⟩ := write_eq_ok hwrite
  have hdirectory := ne_directory_of_write hentry
  have hne : place ≠ [] := fun hnil ↦ hdirectory (hnil ▸ entryAt?_nil d)
  refine h.put (h.not_mem_of_locate hplace) hne hdirectory ?_
  rcases hentry with ⟨old, hold⟩ | ⟨-, hparent⟩
  · exact h.parent place (mem_places_of_entryAt? hold hne)
  · exact hparent

theorem Sound.save (h : d.Sound) (hsave : d.save p bytes = (d', none)) : d'.Sound := by
  obtain ⟨made, hmake, hwrite⟩ := save_eq_none hsave
  have hprepared :=
    prepares_makeDirectories (fun _ _ _ hd hmake ↦ Sound.makeDirectory hd hmake) h p.parent
  rw [hmake] at hprepared
  exact hprepared.holds.write hwrite

end ConceptAtlas.Disk
