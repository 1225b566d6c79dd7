import Mathlib.Data.List.Basic
import ConceptAtlas.Files.Discovery
import ConceptAtlas.Proofs.Text.Utf8

/-!
# Files on a disk

The text that the bytes at a path spell (`Disk.Spells`). Bytes that were written as a text spell it
again if every line of it ends with a line feed.

Writing puts one entry at a place where no directory is. A path is followed through directories
only, so every path that led somewhere still leads there (`Disk.Keeps.locate`), and what was written
is what is read (`Disk.read_of_write`). Making directories only adds directories where nothing was
(`Disk.Grows`), so it changes no file; but it may open a way to a file that was there already, by a
path that goes down into a new directory and up again. That is why a save that fails is told by what
can be read at its path before and after, which is the same (`Disk.bytes?_of_save`). A save that is
done has a file at one place, and all other files are as they were (`Disk.replaces_of_save`).
-/

namespace ConceptAtlas.Disk

variable {d : Disk} {p : Path} {text : String}

/-! ### Texts of files -/

/-- The bytes at a path spell a text: they are decoded, and every line end is a line feed. -/
def Spells (d : Disk) (p : Path) (text : String) : Prop :=
  ∃ bytes cs, d.read p = .ok bytes ∧ Text.decodeUtf8 bytes = .ok cs ∧
    text = String.ofList (Text.normalizeNewlines cs)

theorem readText_eq_ok_iff : d.readText p = .ok text ↔ d.Spells p text := by
  rw [readText, Spells]
  rcases d.read p with fault | bytes
  · simp
  · rcases hcs : Text.decodeUtf8 bytes with fault | cs <;> simp [hcs, eq_comm]

theorem readText_eq_encoding_iff {fault : Text.Utf8Fault} :
    d.readText p = .error (.encoding fault) ↔
      ∃ bytes, d.read p = .ok bytes ∧ Text.decodeUtf8 bytes = .error fault := by
  rw [readText]
  rcases d.read p with fault | bytes
  · simp
  · rcases hcs : Text.decodeUtf8 bytes with fault | cs <;> simp [hcs]

theorem text_eq_ok_iff : d.text p = .ok text ↔ d.Spells p text := by
  rw [Disk.text, mapError_eq_ok, readText_eq_ok_iff]

/-- Where a text is, there is something. -/
theorem Spells.contains (h : d.Spells p text) : d.contains p = true := by
  obtain ⟨bytes, -, hread, -⟩ := h
  rw [Disk.contains, lookup?]
  rw [read] at hread
  split at hread
  · cases hread
  · rename_i place hplace
    rw [hplace]
    dsimp only
    split at hread
    · rename_i hentry
      rw [hentry]
      rfl
    · cases hread
    · cases hread

/-- The bytes of a text spell it again if its lines end with line feeds. -/
theorem spells_of_read (h : d.read p = .ok (Text.encodeUtf8 text))
    (hlines : Text.normalizeNewlines text.toList = text.toList) : d.Spells p text :=
  ⟨_, _, h, Text.decodeUtf8_encodeUtf8 _, by rw [hlines, String.ofList_toList]⟩

/-! ### Entries -/

variable {d' d'' : Disk} {place w : List String} {e : Entry} {bytes : List UInt8}

theorem entryAt?_nil (d : Disk) : d.entryAt? [] = some .directory := rfl

theorem entryAt?_put (hplace : place ≠ []) (w : List String) :
    (d.put place e).entryAt? w = if place = w then some e else d.entryAt? w := by
  cases w with
  | nil => rw [entryAt?_nil, entryAt?_nil, if_neg hplace]
  | cons n ns =>
    show Assoc.find? (n :: ns) (Assoc.put place e d.entries) = _
    rw [Assoc.find?_put]
    by_cases h : place = n :: ns
    · rw [if_pos h, if_pos (beq_iff_eq.2 h)]
    · rw [if_neg h, if_neg (by simpa using h)]
      rfl

/-! ### Following a path -/

/-- Every directory of a disk is one of another disk with the same working directory. -/
structure Keeps (d d' : Disk) : Prop where
  working : d'.working = d.working
  directories : ∀ w, d.entryAt? w = some .directory → d'.entryAt? w = some .directory

theorem step_eq_ok_iff {name : String} : d.step place name = .ok w ↔
    d.entryAt? place = some .directory ∧
      w = if name = ".." then place.dropLast else place ++ [name] := by
  rw [step]
  rcases d.entryAt? place with - | - | b
  · simp
  · simp [eq_comm]
  · simp

theorem Keeps.foldlM_step (h : d.Keeps d') {names : List String}
    (hw : names.foldlM d.step place = .ok w) : names.foldlM d'.step place = .ok w := by
  induction names generalizing place with
  | nil => exact hw
  | cons n ns ih =>
    rw [List.foldlM_cons] at hw ⊢
    obtain ⟨next, hnext, hw⟩ := bind_eq_ok.1 hw
    obtain ⟨hdirectory, hnext⟩ := step_eq_ok_iff.1 hnext
    exact bind_eq_ok.2 ⟨next, step_eq_ok_iff.2 ⟨h.directories place hdirectory, hnext⟩, ih hw⟩

/-- Where a path led it still leads. -/
theorem Keeps.locate (h : d.Keeps d') (hw : d.locate p = .ok w) : d'.locate p = .ok w := by
  rw [Disk.locate, h.working]
  exact h.foldlM_step hw

/-- Putting something where no directory is keeps every directory. -/
theorem keeps_put (hplace : d.entryAt? place ≠ some .directory) : d.Keeps (d.put place e) where
  working := rfl
  directories w hw := by
    have hne : place ≠ [] := fun h ↦ hplace (h ▸ entryAt?_nil d)
    rw [entryAt?_put hne, if_neg, hw]
    rintro rfl
    exact hplace hw

/-! ### Reading and writing -/

theorem read_eq_ok_iff :
    d.read p = .ok bytes ↔ ∃ w, d.locate p = .ok w ∧ d.entryAt? w = some (.file bytes) := by
  rw [read]
  rcases d.locate p with cause | w
  · simp
  · rcases hw : d.entryAt? w with - | - | b <;> simp [hw]

theorem isFile_iff : d.isFile p = true ↔ ∃ bytes, d.read p = .ok bytes := by
  simp only [read_eq_ok_iff]
  rw [isFile, lookup?]
  rcases d.locate p with cause | w
  · simp
  · rcases hw : d.entryAt? w with - | - | b <;> simp [hw]

theorem parentFault?_eq_none_iff :
    d.parentFault? place = none ↔ d.entryAt? place.dropLast = some .directory := by
  rw [parentFault?]
  split <;> simp_all

/-- A write that succeeds puts the bytes at the place of its path, in the place of a file or in a
directory. -/
theorem write_eq_ok (h : d.write p bytes = .ok d') :
    ∃ w, d.locate p = .ok w ∧ d' = d.put w (.file bytes) ∧
      ((∃ old, d.entryAt? w = some (.file old)) ∨
        d.entryAt? w = none ∧ d.entryAt? w.dropLast = some .directory) := by
  rw [write] at h
  split at h
  · cases h
  · rename_i w hw
    refine ⟨w, hw, ?_⟩
    split at h
    · cases h
    · rename_i old hentry
      cases h
      exact ⟨rfl, .inl ⟨old, hentry⟩⟩
    · rename_i hentry
      split at h
      · cases h
      · rename_i hparent
        cases h
        exact ⟨rfl, .inr ⟨hentry, parentFault?_eq_none_iff.1 hparent⟩⟩

/-- Where a file is or nothing, there is no directory. -/
theorem ne_directory_of_write {P : Prop}
    (h : (∃ old, d.entryAt? w = some (.file old)) ∨ d.entryAt? w = none ∧ P) :
    d.entryAt? w ≠ some .directory := by
  rcases h with ⟨old, hold⟩ | ⟨hnone, -⟩
  · rw [hold]
    exact nofun
  · rw [hnone]
    exact nofun

/-- **What was written is what is read.** -/
theorem read_of_write (h : d.write p bytes = .ok d') : d'.read p = .ok bytes := by
  obtain ⟨w, hw, rfl, hplace⟩ := write_eq_ok h
  have hentry := ne_directory_of_write hplace
  have hne : w ≠ [] := fun h ↦ hentry (h ▸ entryAt?_nil d)
  exact read_eq_ok_iff.2 ⟨w, (keeps_put hentry).locate hw, by rw [entryAt?_put hne, if_pos rfl]⟩

/-- A path that can be read can be written. -/
theorem exists_write_of_read (bytes : List UInt8) {old : List UInt8} (h : d.read p = .ok old) :
    ∃ d', d.write p bytes = .ok d' := by
  obtain ⟨w, hw, hentry⟩ := read_eq_ok_iff.1 h
  exact ⟨d.put w (.file bytes), by simp only [write, hw, hentry]⟩

/-! ### Making directories -/

/-- A disk and the same disk with more directories. -/
structure Grows (d d' : Disk) : Prop where
  working : d'.working = d.working
  kept : ∀ w e, d.entryAt? w = some e → d'.entryAt? w = some e
  added : ∀ w bytes, d'.entryAt? w = some (.file bytes) → d.entryAt? w = some (.file bytes)

theorem Grows.refl (d : Disk) : d.Grows d := ⟨rfl, fun _ _ h ↦ h, fun _ _ h ↦ h⟩

theorem Grows.trans (h : d.Grows d') (h' : d'.Grows d'') : d.Grows d'' :=
  ⟨h'.working.trans h.working, fun w e hw ↦ h'.kept w e (h.kept w e hw),
    fun w b hw ↦ h.added w b (h'.added w b hw)⟩

theorem Grows.keeps (h : d.Grows d') : d.Keeps d' := ⟨h.working, fun w hw ↦ h.kept w _ hw⟩

theorem Grows.read (h : d.Grows d') (hread : d.read p = .ok bytes) : d'.read p = .ok bytes := by
  obtain ⟨w, hw, hentry⟩ := read_eq_ok_iff.1 hread
  exact read_eq_ok_iff.2 ⟨w, h.keeps.locate hw, h.kept w _ hentry⟩

/-- A directory is made where nothing was, in a directory. -/
theorem makeDirectory_eq_ok (h : d.makeDirectory p = .ok d') :
    ∃ w, d.locate p = .ok w ∧ d.entryAt? w = none ∧ d.entryAt? w.dropLast = some .directory ∧
      d' = d.put w .directory := by
  rw [makeDirectory] at h
  split at h
  · cases h
  · rename_i w hw
    split at h
    · cases h
    · rename_i hnone
      split at h
      · cases h
      · rename_i hparent
        cases h
        exact ⟨w, hw, by simpa using hnone, parentFault?_eq_none_iff.1 hparent, rfl⟩

theorem grows_of_makeDirectory (h : d.makeDirectory p = .ok d') : d.Grows d' := by
  obtain ⟨place, -, hentry, -, rfl⟩ := makeDirectory_eq_ok h
  have hne : place ≠ [] := by
    rintro rfl
    cases hentry
  refine ⟨rfl, fun w e hw ↦ ?_, fun w b hw ↦ ?_⟩
  · rw [entryAt?_put hne, if_neg, hw]
    rintro rfl
    rw [hentry] at hw
    cases hw
  · rw [entryAt?_put hne] at hw
    split at hw
    · cases hw
    · exact hw

theorem isDirectory_iff :
    d.isDirectory p = true ↔ ∃ w, d.locate p = .ok w ∧ d.entryAt? w = some .directory := by
  rw [isDirectory, lookup?, beq_iff_eq]
  rcases d.locate p with cause | w <;> simp

theorem contains_of_isDirectory (h : d.isDirectory p = true) : d.contains p = true := by
  rw [isDirectory, beq_iff_eq] at h
  rw [Disk.contains, h]
  rfl

/-- What a path leads to, it leads to from the place that its parent leads to. -/
theorem locate_eq_ok_iff {names : List String} {n : String} (hp : p.names = names ++ [n]) :
    d.locate p = .ok w ↔ ∃ place, d.locate p.parent = .ok place ∧ d.step place n = .ok w := by
  have hparent : p.parent.names = names := by rw [Path.parent, hp, List.dropLast_concat]
  rw [locate, locate, hp, hparent, List.foldlM_append]
  show (_ >>= fun place ↦ d.step place n >>= pure) = _ ↔ _
  simp only [bind_pure]
  exact bind_eq_ok

/-- The parent of what a path leads to is a directory. -/
theorem isDirectory_parent (hw : d.locate p = .ok w) (hp : p.names ≠ []) :
    d.isDirectory p.parent = true := by
  obtain ⟨names, n, hnames⟩ := List.eq_nil_or_concat p.names |>.resolve_left hp
  obtain ⟨place, hplace, hstep⟩ := (locate_eq_ok_iff (by simpa using hnames)).1 hw
  exact isDirectory_iff.2 ⟨place, hplace, (step_eq_ok_iff.1 hstep).1⟩

/-- Where something is missing, there is no directory. -/
theorem not_isDirectory_of_makeDirectory {fault : OsFault} (h : d.makeDirectory p = .error fault)
    (hmissing : fault.cause = .missing) : d.isDirectory p = false := by
  rw [Bool.eq_false_iff]
  intro hdirectory
  obtain ⟨w, hw, hentry⟩ := isDirectory_iff.1 hdirectory
  simp only [makeDirectory, hw, hentry, Option.isSome_some, if_true] at h
  cases h
  cases hmissing

/-- What comes of making directories: a disk of which holds what making one keeps, and if the last
directory could not be made, there is none. -/
structure Prepares (P : Disk → Prop) (p : Path) (r : Disk × Option OsFault) : Prop where
  holds : P r.1
  settled : r.2.isSome = true → r.1.isDirectory p = false

variable {P : Disk → Prop}

/-- What is there already need not be made. -/
theorem prepares_of_there (h : P d) (fault : OsFault) :
    Prepares P p (d, if d.isDirectory p then none else some fault) := by
  refine ⟨h, fun hsome ↦ ?_⟩
  by_contra hdirectory
  rw [Bool.not_eq_false] at hdirectory
  simp only [hdirectory, if_true, Option.isSome_none, Bool.false_eq_true] at hsome

theorem parent_of_names_eq_nil (hnames : p.names = []) : p.parent = p := by
  rw [Path.parent, hnames, List.dropLast_nil, ← hnames]

/-- Where no way leads to the parent, no way leads on. -/
theorem Prepares.of_parent {fault : OsFault} (h : Prepares P p.parent (d, some fault)) :
    Prepares P p (d, some fault) := by
  refine ⟨h.holds, fun _ ↦ ?_⟩
  have hparent : d.isDirectory p.parent = false := h.settled rfl
  rw [Bool.eq_false_iff] at hparent ⊢
  intro hdirectory
  by_cases hnames : p.names = []
  · rw [parent_of_names_eq_nil hnames] at hparent
    exact hparent hdirectory
  · obtain ⟨w, hw, -⟩ := isDirectory_iff.1 hdirectory
    exact hparent (isDirectory_parent hw hnames)

/-- **Making directories** is making one after the other. -/
theorem prepares_makeDirectoriesUpTo
    (hstep : ∀ d d' p, P d → d.makeDirectory p = .ok d' → P d') (depth : Nat) (h : P d) (p : Path) :
    Prepares P p (d.makeDirectoriesUpTo depth p) := by
  induction depth generalizing p with
  | zero =>
    rw [makeDirectoriesUpTo]
    rcases hmake : d.makeDirectory p with ⟨cause, q⟩ | d'
    · cases cause with
      | missing => exact ⟨h, fun _ ↦ not_isDirectory_of_makeDirectory hmake rfl⟩
      | _ => exact prepares_of_there h _
    · exact ⟨hstep d d' p h hmake, nofun⟩
  | succ depth ih =>
    rw [makeDirectoriesUpTo]
    rcases hmake : d.makeDirectory p with ⟨cause, q⟩ | d'
    · cases cause with
      | missing =>
        have hparent := ih p.parent
        rcases hprepared : d.makeDirectoriesUpTo depth p.parent with ⟨d', - | fault⟩
        · rw [hprepared] at hparent
          have hd' : P d' := hparent.holds
          rcases hagain : d'.makeDirectory p with fault | d''
          · simp only [hprepared, hagain]
            exact prepares_of_there hd' fault
          · simp only [hprepared, hagain]
            exact ⟨hstep d' d'' p hd' hagain, nofun⟩
        · rw [hprepared] at hparent
          simp only [hprepared]
          exact hparent.of_parent
      | _ => exact prepares_of_there h _
    · exact ⟨hstep d d' p h hmake, nofun⟩

theorem prepares_makeDirectories (hstep : ∀ d d' p, P d → d.makeDirectory p = .ok d' → P d')
    (h : P d) (p : Path) : Prepares P p (d.makeDirectories p) :=
  prepares_makeDirectoriesUpTo hstep p.names.length h p

/-- Making directories only adds some. -/
theorem prepares_grows (d : Disk) (p : Path) : Prepares d.Grows p (d.makeDirectories p) :=
  prepares_makeDirectories (fun _ _ _ h hmake ↦ h.trans (grows_of_makeDirectory hmake)) (.refl d) p

/-! ### Saving -/

/-- The bytes at a path, if there is a file. -/
def bytes? (d : Disk) (p : Path) : Option (List UInt8) := (d.read p).toOption

theorem bytes?_eq_some_iff : d.bytes? p = some bytes ↔ d.read p = .ok bytes := by
  rw [bytes?]
  cases d.read p <;> simp [Except.toOption]

/-- Where a file is put, there is no directory more than before. -/
theorem keeps_of_put (hplace : d.entryAt? place ≠ some .directory) :
    (d.put place (.file bytes)).Keeps d where
  working := rfl
  directories w hw := by
    have hne : place ≠ [] := fun h ↦ hplace (h ▸ entryAt?_nil d)
    rw [entryAt?_put hne] at hw
    split at hw
    · cases hw
    · exact hw

/-- **Writing a file leaves every path that leads elsewhere**, also one at which nothing is. -/
theorem bytes?_of_write {q : Path} (h : d.write p bytes = .ok d')
    (hapart : d'.locate q ≠ d'.locate p) : d'.bytes? q = d.bytes? q := by
  obtain ⟨place, hplace, rfl, hentry⟩ := write_eq_ok h
  have hdirectory := ne_directory_of_write hentry
  have hne : place ≠ [] := fun h ↦ hdirectory (h ▸ entryAt?_nil d)
  have hkeeps : d.Keeps (d.put place (.file bytes)) := keeps_put hdirectory
  have hthere := hkeeps.locate hplace
  refine Option.ext fun b ↦ ?_
  rw [bytes?_eq_some_iff, bytes?_eq_some_iff, read_eq_ok_iff, read_eq_ok_iff]
  constructor
  · rintro ⟨w, hw, hb⟩
    have hother : place ≠ w := fun h ↦ hapart (hw.trans (h ▸ hthere.symm))
    rw [entryAt?_put hne, if_neg hother] at hb
    exact ⟨w, (keeps_of_put hdirectory).locate hw, hb⟩
  · rintro ⟨w, hw, hb⟩
    have hw' := hkeeps.locate hw
    have hother : place ≠ w := fun h ↦ hapart (hw'.trans (h ▸ hthere.symm))
    exact ⟨w, hw', by rw [entryAt?_put hne, if_neg hother, hb]⟩

/-- A save is a write after the directories are made. -/
theorem save_eq_none (h : d.save p bytes = (d', none)) :
    ∃ made, d.makeDirectories p.parent = (made, none) ∧ made.write p bytes = .ok d' := by
  rw [save] at h
  split at h
  · cases h
  · rename_i made hmake
    split at h
    · rename_i hwrite
      cases h
      exact ⟨made, hmake, hwrite⟩
    · cases h

/-- **A save that is done is what is read.** -/
theorem read_of_save (h : d.save p bytes = (d', none)) : d'.read p = .ok bytes := by
  obtain ⟨made, -, hwrite⟩ := save_eq_none h
  exact read_of_write hwrite

/-- If the directory of a path could not be made, no file can be read there but one that could. -/
theorem Prepares.read_of_parent {fault : OsFault} (h : Prepares d.Grows p.parent (d', some fault))
    (hread : d'.read p = .ok bytes) : d.read p = .ok bytes := by
  obtain ⟨w, hw, hentry⟩ := read_eq_ok_iff.1 hread
  by_cases hnames : p.names = []
  · have hstart : d.locate p = d'.locate p := by
      rw [locate, locate, hnames, h.holds.working]
      rfl
    exact read_eq_ok_iff.2 ⟨w, hstart.trans hw, h.holds.added w bytes hentry⟩
  · have hdirectory := isDirectory_parent hw hnames
    rw [h.settled rfl] at hdirectory
    cases hdirectory

theorem grows_of_save {fault : OsFault} (h : d.save p bytes = (d', some fault)) :
    d.Grows d' ∧ ∀ b, d'.read p = .ok b → d.read p = .ok b := by
  have hprepared := prepares_grows d p.parent
  rw [save] at h
  split at h
  · rename_i hmake
    cases h
    rw [hmake] at hprepared
    exact ⟨hprepared.holds, fun b hb ↦ hprepared.read_of_parent hb⟩
  · rename_i hmake
    rw [hmake] at hprepared
    split at h
    · cases h
    · rename_i hwrite
      cases h
      -- A file that could be read could also be written.
      refine ⟨hprepared.holds, fun b hb ↦ ?_⟩
      obtain ⟨written, hwritten⟩ := exists_write_of_read bytes hb
      rw [hwrite] at hwritten
      cases hwritten

/-- **A save that fails changes no file at its path**, though directories may have been made. -/
theorem bytes?_of_save {fault : OsFault} (h : d.save p bytes = (d', some fault)) :
    d'.bytes? p = d.bytes? p := by
  obtain ⟨hgrows, hkept⟩ := grows_of_save h
  refine Option.ext fun b ↦ ?_
  rw [bytes?_eq_some_iff, bytes?_eq_some_iff]
  exact ⟨hkept b, hgrows.read⟩

/-- What a save that is done does to a disk: there is a file at a place, and there may be more
directories. -/
structure Replaces (d d' : Disk) (place : List String) : Prop where
  working : d'.working = d.working
  kept : ∀ w e, d.entryAt? w = some e →
    ∃ e', d'.entryAt? w = some e' ∧ (e' = .directory ↔ e = .directory)
  added : ∀ w b, w ≠ place → d'.entryAt? w = some (.file b) → d.entryAt? w = some (.file b)

theorem Replaces.keeps (h : d.Replaces d' place) : d.Keeps d' := by
  refine ⟨h.working, fun w hw ↦ ?_⟩
  obtain ⟨e, he, hiff⟩ := h.kept w _ hw
  rw [he, hiff.2 rfl]

theorem replaces_of_save (h : d.save p bytes = (d', none)) :
    ∃ place, d'.locate p = .ok place ∧ d.Replaces d' place := by
  obtain ⟨made, hmake, hwrite⟩ := save_eq_none h
  have hprepared := prepares_grows d p.parent
  rw [hmake] at hprepared
  have hgrows : d.Grows made := hprepared.holds
  obtain ⟨place, hplace, rfl, hentry⟩ := write_eq_ok hwrite
  have hdirectory := ne_directory_of_write hentry
  have hne : place ≠ [] := fun h ↦ hdirectory (h ▸ entryAt?_nil made)
  refine ⟨place, (keeps_put hdirectory).locate hplace, hgrows.working, fun w e hw ↦ ?_, ?_⟩
  · rw [entryAt?_put hne]
    by_cases heq : place = w
    · rw [if_pos heq]
      refine ⟨_, rfl, iff_of_false nofun ?_⟩
      rintro rfl
      exact hdirectory (heq ▸ hgrows.kept w _ hw)
    · rw [if_neg heq]
      exact ⟨e, hgrows.kept w e hw, Iff.rfl⟩
  · intro w b hne' hw
    rw [entryAt?_put hne, if_neg fun h ↦ hne' h.symm] at hw
    exact hgrows.added w b hw

end ConceptAtlas.Disk
