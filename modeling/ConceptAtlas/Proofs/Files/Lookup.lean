import Mathlib
import ConceptAtlas.Proofs.Files.Walk
import ConceptAtlas.Proofs.Text.Parts

/-!
# Looking up a file by its id

Without a file under one of the names that are tried first, a lookup goes through the discovered
files in the order of paths and stops at the first one that bears the id or whose stem extends it by
a hyphen or an underscore and more (`Discovery.Settles.first`). It does not tell the two kinds
apart, so a file that bears the id is passed over if one whose stem extends it comes first.

What a lookup should find is a file that bears the id, if there is one (`Discovery.Agrees`). It does
exactly if no file with a longer stem comes before all that bear the id
(`Discovery.lookup_settles`). In one directory a hyphen puts a file before one with a suffix, and an
underscore behind it (`Path.le_child_iff`, `Path.le_child_underscore`).
-/

namespace ConceptAtlas

variable {d : Disk} {p q base : Path} {id name : String} {o : FindOptions} {fs : List FoundFile}
  {f : FoundFile}

namespace Path

/-! ### Names in one directory -/

theorem namesLe_append_left (ks ns ms : List String) :
    namesLe (ks ++ ns) (ks ++ ms) = namesLe ns ms := by
  induction ks with
  | nil => rfl
  | cons k ks ih => rw [List.cons_append, List.cons_append, namesLe, if_pos rfl, ih]

/-- Paths in one directory are ordered by their last names. -/
theorem le_child_iff {n m : String} :
    le (p.child n) (p.child m) = true ↔ n < m ∨ n = m := by
  have hkey (name : String) : (p.child name).key = p.key ++ [name] := by
    by_cases hanchor : p.anchor = .relative
    · rw [key, key, child, if_pos hanchor, if_pos hanchor]
    · rw [key, key, child, if_neg hanchor, if_neg hanchor, List.cons_append]
  rw [le, hkey, hkey, namesLe_append_left, namesLe_cons]
  simp [namesLe]

/-- Names are ordered by the first character in which they differ. -/
theorem append_lt_append {start front back s t : String} {a b : Char} (hs : s.toList = [a])
    (ht : t.toList = [b]) (h : a < b) : start ++ s ++ front < start ++ t ++ back := by
  show String.toList _ < String.toList _
  simp only [String.toList_append, hs, ht, List.append_assoc, List.singleton_append]
  exact List.append_left_lt (List.cons_lt_cons_iff.2 (.inl h))

/-- A suffix comes before an underscore. -/
theorem le_child_underscore (p : Path) (id more suffix : String) :
    le (p.child (id ++ "." ++ suffix)) (p.child (id ++ "_" ++ more)) = true :=
  le_child_iff.2 (.inl (append_lt_append (a := '.') (b := '_') rfl rfl (by decide)))

theorem le_refl (p : Path) : le p p = true :=
  (namesLe_total p.key p.key).elim id id

/-! ### Stems -/

theorem splitName_fst_ne_empty (h : name ≠ "") : (splitName name).1 ≠ "" := by
  have hlength : name.toList ≠ [] := fun hnil ↦ h (String.toList_eq_nil_iff.1 hnil)
  simp only [splitName]
  split
  · exact h
  · rename_i hcut
    rw [not_or, not_or] at hcut
    intro hempty
    rw [← String.toList_eq_nil_iff, String.toList_ofList, List.take_eq_nil_iff] at hempty
    exact hempty.elim hcut.2.1 hlength

/-- A path whose last name has characters has an id. -/
theorem id?_child (h : name ≠ "") : (p.child name).id? = some (p.child name).stem := by
  have hstem : (p.child name).stem ≠ "" := by
    rw [stem, Path.name, child, List.getLast?_concat, Option.getD_some]
    exact splitName_fst_ne_empty h
  rw [id?, if_neg]
  rwa [String.isEmpty_iff]

end Path

/-! ### Every file -/

theorem Disk.ne_empty_of_mem_list (hnames : ∀ w ∈ d.places, "" ∉ w) {x : String × Entry}
    (h : x ∈ d.list p) : x.1 ≠ "" := by
  rw [list] at h
  split at h
  · cases h
  · obtain ⟨y, hy, hx⟩ := List.mem_filterMap.1 h
    obtain rfl := entryIn_eq_some_iff.1 hx
    intro hempty
    exact hnames _ (List.mem_map_of_mem hy) (by simp [hempty])

namespace Discovery

/-- What the text of the glob for everything stands for. -/
def wholeTree : Glob := ⟨[.deep, .wild (Pattern.ofString "*")], false⟩

theorem ofString_everything : Glob.ofString everything = .ok wholeTree := by
  have hpath : Path.ofString "**/*" = ⟨.relative, ["**", "*"]⟩ := by cbv
  have hdeep : Glob.Step.ofName "**" = .ok .deep := by cbv
  have hwild : Glob.Step.ofName "*" = .ok (.wild (Pattern.ofString "*")) := by cbv
  have hslash : "**/*".endsWith "/" = false := by decide +kernel
  rw [everything, Glob.ofString, hpath]
  simp only [Glob.ofNames, List.mapM_cons, hdeep, hwild, hslash]
  rfl

theorem exists_files_everything (o : FindOptions) (hbase : d.isDirectory base = true) :
    ∃ fs, files d base everything o = .ok fs :=
  ⟨_, files_eq_ok_iff.2 ⟨hbase, wholeTree, ofString_everything, rfl⟩⟩

/-- Discovered files stand in the order of their paths. -/
theorem pairwise_files {glob : String} (h : files d base glob o = .ok fs) :
    fs.Pairwise fun f g ↦ Path.le f.path g.path = true := by
  obtain ⟨hbase, g, -, rfl⟩ := files_eq_ok_iff.1 h
  rw [Glob.select, if_pos hbase]
  exact List.pairwise_map.2 ((Path.pairwise_mergeSort_le _).filter _)

/-- The id of a discovered file is its stem. -/
theorem id?_of_mem_files (hnames : ∀ w ∈ d.places, "" ∉ w)
    (h : files d base everything o = .ok fs) (hf : f ∈ fs) : f.path.id? = some f.stem := by
  obtain ⟨-, g, hg, rfl⟩ := files_eq_ok_iff.1 h
  obtain ⟨q, hq, rfl⟩ := List.mem_map.1 hf
  obtain rfl : wholeTree = g := Except.ok.inj (ofString_everything.symm.trans hg)
  have hwalk := (List.mem_filter.1 hq).1
  rw [Glob.select] at hwalk
  replace hwalk := List.mem_mergeSort.1 (List.mem_ite_nil_right.1 hwalk).2
  simp only [wholeTree, Glob.walk, List.mem_eraseDups] at hwalk
  obtain ⟨r, -, hr⟩ := List.mem_flatMap.1 hwalk
  obtain ⟨x, hx, hq⟩ := List.mem_flatMap.1 hr
  obtain rfl := List.mem_singleton.1 (List.mem_ite_nil_right.1 hq).2
  have hid := Path.id?_child (p := r) (Disk.ne_empty_of_mem_list hnames hx)
  rw [found, hid]
  rfl

/-! ### The first file that passes -/

/-- A file bears an id if its path gives it that id. -/
def Bears (id : String) (f : FoundFile) : Prop := f.path.id? = some id

/-- A stem extends an id by a hyphen or an underscore and whatever follows. -/
def Extends (id : String) (f : FoundFile) : Prop :=
  ∃ more, f.stem = id ++ "-" ++ more ∨ f.stem = id ++ "_" ++ more

/-- The first file in a list with a property. -/
def IsFirst (P : FoundFile → Prop) (fs : List FoundFile) (f : FoundFile) : Prop :=
  ∃ before after, fs = before ++ f :: after ∧ P f ∧ ∀ g ∈ before, ¬ P g

/-- A file whose id is its stem is one for an id exactly if it bears that id or extends it. -/
theorem isFor_iff (hf : f.path.id? = some f.stem) :
    isFor id f = true ↔ Bears id f ∨ Extends id f := by
  rw [Bears, hf, Option.some.injEq, Extends, exists_or]
  simp only [isFor, Bool.or_eq_true, beq_iff_eq, Text.startsWith_iff_exists, or_assoc]

theorem find?_eq_some_iff {P : FoundFile → Prop} {test : FoundFile → Bool}
    (htest : ∀ f ∈ fs, test f = true ↔ P f) : fs.find? test = some f ↔ IsFirst P fs f := by
  rw [List.find?_eq_some_iff_append]
  constructor
  · rintro ⟨hf, before, after, rfl, hbefore⟩
    refine ⟨before, after, rfl, (htest f (by simp)).1 hf, fun g hg hP ↦ ?_⟩
    have hpassed := (htest g (by simp [hg])).2 hP
    simpa [hpassed] using hbefore g hg
  · rintro ⟨before, after, rfl, hf, hbefore⟩
    refine ⟨(htest f (by simp)).2 hf, before, after, rfl, fun g hg ↦ ?_⟩
    rw [Bool.not_eq_true', Bool.eq_false_iff]
    exact fun hpassed ↦ hbefore g hg ((htest g (by simp [hg])).1 hpassed)

theorem IsFirst.mem {P : FoundFile → Prop} (h : IsFirst P fs f) : f ∈ fs := by
  obtain ⟨before, after, rfl, -⟩ := h
  simp

theorem IsFirst.holds {P : FoundFile → Prop} (h : IsFirst P fs f) : P f := by
  obtain ⟨-, -, -, hf, -⟩ := h
  exact hf

theorem exists_isFirst {P : FoundFile → Prop} (h : ∃ f ∈ fs, P f) : ∃ f, IsFirst P fs f := by
  induction fs with
  | nil => simp at h
  | cons g fs ih =>
    by_cases hg : P g
    · exact ⟨g, [], fs, rfl, hg, List.forall_mem_nil _⟩
    · obtain ⟨f, before, after, rfl, hf, hbefore⟩ := ih (by simpa [hg] using h)
      exact ⟨f, g :: before, after, rfl, hf, List.forall_mem_cons.2 ⟨hg, hbefore⟩⟩

/-- In a list in order the first file with a property comes before all others with it. -/
theorem IsFirst.le {P : FoundFile → Prop} {g : FoundFile} (h : IsFirst P fs f)
    (hsorted : fs.Pairwise fun f g ↦ Path.le f.path g.path = true) (hg : g ∈ fs) (hP : P g) :
    Path.le f.path g.path = true := by
  obtain ⟨before, after, rfl, -, hbefore⟩ := h
  rcases List.mem_append.1 hg with hg | hg
  · exact absurd hP (hbefore g hg)
  · rcases List.mem_cons.1 hg with rfl | hg
    · exact Path.le_refl g.path
    · exact (List.pairwise_cons.1 (List.pairwise_append.1 hsorted).2.1).1 g hg

theorem IsFirst.congr {P Q : FoundFile → Prop} (h : ∀ f ∈ fs, P f ↔ Q f) :
    IsFirst P fs f ↔ IsFirst Q fs f := by
  rw [IsFirst, IsFirst]
  refine exists_congr fun before ↦ exists_congr fun after ↦ and_congr_right ?_
  rintro rfl
  exact and_congr (h f (by simp)) (forall₂_congr fun g hg ↦ not_congr (h g (by simp [hg])))

/-! ### What a lookup answers -/

/-- If none of the names that are tried first is there, a lookup is a search of the discovered
files. -/
theorem fileFor_eq (hnone : ∀ p ∈ candidates base id o, d.contains p = false)
    (hfiles : files d base everything o = .ok fs) :
    fileFor d base id o = match fs.find? (isFor id) with
      | some f => .ok f.path
      | none => refuse (.notFound (.fileFor id base)) := by
  have hfind : (candidates base id o).find? d.contains = none := by
    rw [List.find?_eq_none]
    intro p hp
    rw [hnone p hp]
    exact Bool.false_ne_true
  rw [fileFor, hfind]
  simp only [hfiles]
  rfl

theorem fileFor_eq_ok_iff (hnone : ∀ p ∈ candidates base id o, d.contains p = false)
    (hfiles : files d base everything o = .ok fs) (hstems : ∀ f ∈ fs, f.path.id? = some f.stem) :
    fileFor d base id o = .ok p ↔
      ∃ f, IsFirst (fun f ↦ Bears id f ∨ Extends id f) fs f ∧ f.path = p := by
  have htest : ∀ f ∈ fs, isFor id f = true ↔ Bears id f ∨ Extends id f :=
    fun f hf ↦ isFor_iff (hstems f hf)
  simp only [← find?_eq_some_iff htest]
  rw [fileFor_eq hnone hfiles]
  rcases fs.find? (isFor id) with - | f
  · simp [refuse]
  · simp

theorem fileFor_eq_refuse_iff (hnone : ∀ p ∈ candidates base id o, d.contains p = false)
    (hfiles : files d base everything o = .ok fs) (hstems : ∀ f ∈ fs, f.path.id? = some f.stem) :
    fileFor d base id o = refuse (.notFound (.fileFor id base)) ↔
      ∀ f ∈ fs, ¬ Bears id f ∧ ¬ Extends id f := by
  have hpassed : (∀ f ∈ fs, ¬ Bears id f ∧ ¬ Extends id f) ↔ fs.find? (isFor id) = none := by
    rw [List.find?_eq_none]
    exact forall₂_congr fun f hf ↦ by rw [isFor_iff (hstems f hf), not_or]
  rw [hpassed, fileFor_eq hnone hfiles]
  rcases fs.find? (isFor id) with - | f
  · simp
  · simp [refuse]

/-! ### What a lookup settles -/

/-- What a lookup by id should make of the files that are discovered. -/
structure Agrees (id : String) (base : Path) (fs : List FoundFile) (answer : Outcome Path) :
    Prop where
  /-- If a file bears the id, such a file is the answer. -/
  bearer : (∃ f ∈ fs, Bears id f) → ∃ f ∈ fs, Bears id f ∧ answer = .ok f.path
  /-- Otherwise the answer is the first file whose stem extends the id. -/
  extension : (∀ f ∈ fs, ¬ Bears id f) →
    ∀ p, answer = .ok p ↔ ∃ f, IsFirst (Extends id) fs f ∧ f.path = p
  /-- If there is none of those either, there is no file for the id. -/
  missing : (∀ f ∈ fs, ¬ Bears id f) →
    (answer = refuse (.notFound (.fileFor id base)) ↔ ∀ f ∈ fs, ¬ Extends id f)

/-- Some file that bears an id comes before every file whose stem extends it. -/
def BearerLeads (id : String) (fs : List FoundFile) : Prop :=
  ∀ g ∈ fs, Extends id g → ∃ f ∈ fs, Bears id f ∧ Path.le f.path g.path = true

/-- What a lookup by id makes of the files that are discovered. -/
structure Settles (id : String) (base : Path) (fs : List FoundFile) (answer : Outcome Path) :
    Prop where
  /-- The answer is the first file that bears the id or extends it. -/
  first : ∀ p, answer = .ok p ↔
    ∃ f, IsFirst (fun f ↦ Bears id f ∨ Extends id f) fs f ∧ f.path = p
  /-- If there is none, there is no file for the id. -/
  missing : answer = refuse (.notFound (.fileFor id base)) ↔
    ∀ f ∈ fs, ¬ Bears id f ∧ ¬ Extends id f
  /-- The answer is what it should be exactly if a file that bears the id, where there is one, is
  not preceded by files whose stems extend it. -/
  agrees : Agrees id base fs answer ↔ ((∃ f ∈ fs, Bears id f) → BearerLeads id fs)

/-- Files that come before each other are at one path. -/
theorem path_eq_of_le (h : files d base everything o = .ok fs) {g : FoundFile} (hf : f ∈ fs)
    (hg : g ∈ fs) (hfg : Path.le f.path g.path = true) (hgf : Path.le g.path f.path = true) :
    f.path = g.path := by
  refine Path.eq_of_le ?_ hfg hgf
  rw [eq_found_of_mem_files h hf, eq_found_of_mem_files h hg]
  rfl

theorem agrees_iff {answer : Outcome Path} (hfiles : files d base everything o = .ok fs)
    (hfirst : ∀ p, answer = .ok p ↔
      ∃ f, IsFirst (fun f ↦ Bears id f ∨ Extends id f) fs f ∧ f.path = p)
    (hmissing : answer = refuse (.notFound (.fileFor id base)) ↔
      ∀ f ∈ fs, ¬ Bears id f ∧ ¬ Extends id f) :
    Agrees id base fs answer ↔ ((∃ f ∈ fs, Bears id f) → BearerLeads id fs) := by
  have hsorted := pairwise_files hfiles
  constructor
  · intro h hbearer g hg hextends
    obtain ⟨b, -, hb, hanswer⟩ := h.bearer hbearer
    obtain ⟨f, hf, hpath⟩ := (hfirst b.path).1 hanswer
    refine ⟨f, hf.mem, ?_, hf.le hsorted hg (.inr hextends)⟩
    rw [Bears, hpath]
    exact hb
  · intro h
    refine { bearer := fun hbearer ↦ ?_, extension := fun hnone p ↦ ?_, missing := fun hnone ↦ ?_ }
    · have hsome : ∃ f ∈ fs, Bears id f ∨ Extends id f :=
        hbearer.imp fun b hb ↦ ⟨hb.1, .inl hb.2⟩
      obtain ⟨f, hf⟩ := exists_isFirst hsome
      refine ⟨f, hf.mem, ?_, (hfirst f.path).2 ⟨f, hf, rfl⟩⟩
      rcases hf.holds with hbears | hextends
      · exact hbears
      · -- A file that bears the id and is not behind this one is at the same path.
        obtain ⟨b, hb, hbears, hle⟩ := h hbearer f hf.mem hextends
        have hpath := path_eq_of_le hfiles hb hf.mem hle (hf.le hsorted hb (.inl hbears))
        rw [Bears, ← hpath]
        exact hbears
    · rw [hfirst]
      refine exists_congr fun f ↦ and_congr_left fun _ ↦ IsFirst.congr fun g hg ↦ ?_
      exact or_iff_right (hnone g hg)
    · rw [hmissing]
      exact forall₂_congr fun f hf ↦ and_iff_right (hnone f hf)

/-- **What a lookup by id finds.** -/
theorem lookup_settles (hnames : ∀ w ∈ d.places, "" ∉ w) (hbase : d.isDirectory base = true)
    (hnone : ∀ p ∈ candidates base id o, d.contains p = false) :
    ∃ fs, files d base everything o = .ok fs ∧
      fs.Pairwise (fun f g ↦ Path.le f.path g.path = true) ∧
      Settles id base fs (fileFor d base id o) := by
  obtain ⟨fs, hfiles⟩ := exists_files_everything o hbase
  have hstems : ∀ f ∈ fs, f.path.id? = some f.stem := fun f ↦ id?_of_mem_files hnames hfiles
  have hfirst (p : Path) := fileFor_eq_ok_iff (p := p) hnone hfiles hstems
  have hmissing := fileFor_eq_refuse_iff hnone hfiles hstems
  exact ⟨fs, hfiles, pairwise_files hfiles, hfirst, hmissing, agrees_iff hfiles hfirst hmissing⟩

/-! ### Notes in one directory -/

/-- Where the content is. -/
def notesRoot : Path := ⟨.relative, ["content"]⟩

/-- The path of a note. -/
def note (name : String) : Path := ⟨.relative, ["content", "notes", name]⟩

/-- A directory of notes with a file for an id and another one. -/
def notesTree (other : String) : Disk :=
  ⟨[], [(["content"], .directory), (["content", "notes"], .directory),
    (["content", "notes", "a.md"], .file []), (["content", "notes", other], .file [])]⟩

theorem not_contains_candidates (other : String) :
    ∀ p ∈ candidates notesRoot "a" .markdown, (notesTree other).contains p = false := by
  have hcandidates : candidates notesRoot "a" .markdown = [⟨.relative, ["content", "a.md"]⟩] := by
    cbv
  rw [hcandidates, List.forall_mem_singleton]
  rfl

theorem accepts_note {name : String} (hextension : extension ⟨.relative, ["notes", name]⟩ = "md")
    (hkept : isExcluded FindOptions.any.exclude ⟨.relative, ["notes", name]⟩ = false) :
    accepts .markdown (found notesRoot (note name)).relative = true := by
  show accepts .markdown ⟨.relative, ["notes", name]⟩ = true
  simp only [accepts, FindOptions.markdown, hextension, hkept]
  rfl

theorem files_notesTree {other : String} {names : List String}
    (hselect : wholeTree.select (notesTree other) notesRoot =
      notesRoot.child "notes" :: names.map note)
    (hnotes : ∀ n ∈ names, accepts .markdown (found notesRoot (note n)).relative = true ∧
      (notesTree other).isFile (note n) = true) :
    files (notesTree other) notesRoot everything .markdown =
      .ok ((names.map note).map (found notesRoot)) := by
  refine files_eq_ok_iff.2 ⟨rfl, wholeTree, ofString_everything, ?_⟩
  have hdirectory : (notesTree other).isFile (notesRoot.child "notes") = false := rfl
  rw [hselect, List.filter_cons_of_neg
    (by rw [hdirectory, Bool.and_false]; exact Bool.false_ne_true), List.filter_eq_self.2]
  intro q hq
  obtain ⟨n, hn, rfl⟩ := List.mem_map.1 hq
  rw [(hnotes n hn).1, (hnotes n hn).2]
  rfl

theorem accepts_first : accepts .markdown (found notesRoot (note "a.md")).relative = true :=
  accepts_note (by decide +kernel) (by cbv)

theorem id?_first : (note "a.md").id? = some "a" := by decide +kernel

theorem files_notesTree_hyphen : files (notesTree "a-b.md") notesRoot everything .markdown =
    .ok [found notesRoot (note "a-b.md"), found notesRoot (note "a.md")] := by
  have hselect : wholeTree.select (notesTree "a-b.md") notesRoot =
      notesRoot.child "notes" :: ["a-b.md", "a.md"].map note := by cbv
  have haccepts : accepts .markdown (found notesRoot (note "a-b.md")).relative = true :=
    accepts_note (by decide +kernel) (by cbv)
  refine files_notesTree hselect ?_
  simp only [List.forall_mem_cons]
  exact ⟨⟨haccepts, rfl⟩, ⟨accepts_first, rfl⟩, List.forall_mem_nil _⟩

theorem files_notesTree_underscore : files (notesTree "a_b.md") notesRoot everything .markdown =
    .ok [found notesRoot (note "a.md"), found notesRoot (note "a_b.md")] := by
  have hselect : wholeTree.select (notesTree "a_b.md") notesRoot =
      notesRoot.child "notes" :: ["a.md", "a_b.md"].map note := by cbv
  have haccepts : accepts .markdown (found notesRoot (note "a_b.md")).relative = true :=
    accepts_note (by decide +kernel) (by cbv)
  refine files_notesTree hselect ?_
  simp only [List.forall_mem_cons]
  exact ⟨⟨accepts_first, rfl⟩, ⟨haccepts, rfl⟩, List.forall_mem_nil _⟩

/-- With an underscore in the other name, the file that bears the id is found. -/
theorem lookup_settles_underscore :
    (∀ p ∈ candidates notesRoot "a" .markdown, (notesTree "a_b.md").contains p = false) ∧
    (notesTree "a_b.md").isDirectory notesRoot = true ∧
    fileFor (notesTree "a_b.md") notesRoot "a" .markdown = .ok (note "a.md") := by
  have hnone := not_contains_candidates "a_b.md"
  obtain ⟨fs, hfiles, -, hsettles⟩ :=
    lookup_settles (d := notesTree "a_b.md") (by decide) rfl hnone
  obtain rfl := Except.ok.inj (hfiles.symm.trans files_notesTree_underscore)
  refine ⟨hnone, rfl, ?_⟩
  have hbears : Bears "a" (found notesRoot (note "a.md")) := id?_first
  have hle : Path.le (note "a.md") (note "a_b.md") = true :=
    Path.le_child_underscore ⟨.relative, ["content", "notes"]⟩ "a" "b.md" "md"
  have hleads : BearerLeads "a"
      [found notesRoot (note "a.md"), found notesRoot (note "a_b.md")] := by
    intro g hg _
    refine ⟨_, List.mem_cons_self, hbears, ?_⟩
    simp only [List.mem_cons, List.not_mem_nil, or_false] at hg
    rcases hg with rfl | rfl
    · exact Path.le_refl _
    · exact hle
  obtain ⟨f, hf, hf', hanswer⟩ :=
    (hsettles.agrees.2 fun _ ↦ hleads).bearer ⟨_, List.mem_cons_self, hbears⟩
  have hother : (note "a_b.md").id? = some "a_b" := by decide +kernel
  simp only [List.mem_cons, List.not_mem_nil, or_false] at hf
  rcases hf with rfl | rfl
  · exact hanswer
  · rw [Bears, found, hother] at hf'
    exact absurd (Option.some.inj hf') (by decide)

/-- **With a hyphen in the other name, the file that bears the id is passed over.** -/
theorem lookup_passes_over :
    (∀ p ∈ candidates notesRoot "a" .markdown, (notesTree "a-b.md").contains p = false) ∧
    ∃ fs, files (notesTree "a-b.md") notesRoot everything .markdown = .ok fs ∧
      (∃ f ∈ fs, Bears "a" f) ∧
      fileFor (notesTree "a-b.md") notesRoot "a" .markdown = .ok (note "a-b.md") ∧
      (note "a-b.md").id? = some "a-b" ∧
      ¬ Agrees "a" notesRoot fs (fileFor (notesTree "a-b.md") notesRoot "a" .markdown) := by
  have hnone := not_contains_candidates "a-b.md"
  have hbears : Bears "a" (found notesRoot (note "a.md")) := id?_first
  have hid : (note "a-b.md").id? = some "a-b" := by decide +kernel
  have hextends : Extends "a" (found notesRoot (note "a-b.md")) := ⟨"b", .inl (by decide +kernel)⟩
  have hanswer : fileFor (notesTree "a-b.md") notesRoot "a" .markdown = .ok (note "a-b.md") := by
    have hstems (f : FoundFile) := id?_of_mem_files (f := f) (by decide) files_notesTree_hyphen
    rw [fileFor_eq_ok_iff hnone files_notesTree_hyphen hstems]
    exact ⟨_, ⟨[], [_], rfl, .inr hextends, List.forall_mem_nil _⟩, rfl⟩
  refine ⟨hnone, _, files_notesTree_hyphen, ⟨_, by simp, hbears⟩, hanswer, hid, fun h ↦ ?_⟩
  obtain ⟨f, -, hf, hpath⟩ := h.bearer ⟨_, by simp, hbears⟩
  rw [hanswer] at hpath
  rw [Bears, ← Except.ok.inj hpath, hid] at hf
  exact absurd (Option.some.inj hf) (by decide)

end Discovery

end ConceptAtlas
