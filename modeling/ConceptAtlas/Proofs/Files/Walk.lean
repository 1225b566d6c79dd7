import Mathlib.Data.List.Nodup
import Mathlib.Data.List.Flatten
import ConceptAtlas.Proofs.Files.Discovery
import ConceptAtlas.Proofs.Files.Tree
import ConceptAtlas.Proofs.Outcome

/-!
# Walks and saves

What a glob selects before and after a file is saved. A walk over the disk before comes to nothing
that a walk over the disk after does not come to (`Glob.mem_walk_of_replaces`). The other way round
a walk may come to the saved file and to new directories, but to no other file: above a file that
was there before there are only directories that were there before, so a walk that only goes down
got to it through them (`Glob.mem_walk_of_file`). A glob with `..` is another matter, as it may go
down into a new directory and up again.
-/

namespace ConceptAtlas

variable {d d' : Disk} {p q : Path} {place w more : List String}

/-! ### What is in a directory -/

namespace Disk

/-- What stands directly in a place has one more name. -/
theorem entryIn_eq_some_iff {y : List String × Entry} {x : String × Entry} :
    (match y.1.getLast? with
      | some name => if y.1.dropLast = w then some (name, y.2) else none
      | none => none) = some x ↔ y = (w ++ [x.1], x.2) := by
  constructor
  · intro h
    split at h
    · rename_i n hlast
      obtain ⟨names, hnames⟩ := List.getLast?_eq_some_iff.1 hlast
      rw [hnames, List.dropLast_concat] at h
      obtain ⟨rfl, hx⟩ := Option.ite_none_right_eq_some.1 h
      obtain rfl := Option.some.inj hx
      exact Prod.ext hnames rfl
    · cases h
  · rintro rfl
    simp only [List.getLast?_concat, List.dropLast_concat, if_true]

theorem Sound.mem_list_iff (h : d.Sound) {x : String × Entry} :
    x ∈ d.list p ↔ ∃ w, d.locate p = .ok w ∧ d.entryAt? (w ++ [x.1]) = some x.2 := by
  rw [list]
  rcases d.locate p with cause | w
  · simp
  · simp only [Except.ok.injEq, exists_eq_left']
    rw [List.mem_filterMap]
    constructor
    · rintro ⟨y, hy, hx⟩
      obtain rfl := entryIn_eq_some_iff.1 hx
      exact (h.mem_entries_iff.1 hy).2
    · intro hentry
      exact ⟨_, h.mem_entries_iff.2 ⟨by simp, hentry⟩, entryIn_eq_some_iff.2 rfl⟩

/-- Every name in a directory is there once. -/
theorem Sound.nodup_list (h : d.Sound) (p : Path) :
    (d.list p).Pairwise fun x y ↦ x.1 ≠ y.1 := by
  rw [list]
  rcases d.locate p with cause | w
  · exact .nil
  · refine List.Pairwise.filterMap _ ?_ (List.pairwise_map.1 h.nodup)
    intro y y' hne x hx x' hx' heq
    obtain rfl := entryIn_eq_some_iff.1 hx
    obtain rfl := entryIn_eq_some_iff.1 hx'
    exact hne (congrArg (w ++ [·]) heq)

theorem Sound.mem_directories_iff (h : d.Sound) : q ∈ d.directories p ↔
    ∃ w, d.locate p = .ok w ∧ ∃ more, q = { p with names := p.names ++ more } ∧
      (more = [] ∨ d.entryAt? (w ++ more) = some .directory) := by
  rw [directories]
  rcases d.locate p with cause | w
  · simp
  · simp only [Except.ok.injEq, exists_eq_left', List.mem_cons, List.mem_filterMap,
      h.mem_entries_iff]
    constructor
    · rintro (rfl | ⟨y, ⟨-, hentry⟩, hy⟩)
      · exact ⟨[], by rw [List.append_nil], .inl rfl⟩
      · obtain ⟨⟨hdirectory, hbelow, -⟩, hq⟩ := Option.ite_none_right_eq_some.1 hy
        obtain ⟨more, hmore⟩ := List.isPrefixOf_iff_prefix.1 hbelow
        rw [← hmore, List.drop_left] at hq
        rw [← hmore, hdirectory] at hentry
        exact ⟨more, (Option.some.inj hq).symm, .inr hentry⟩
    · rintro ⟨more, rfl, rfl | hentry⟩
      · exact .inl (by rw [List.append_nil])
      · by_cases hmore : more = []
        · exact .inl (by rw [hmore, List.append_nil])
        · refine .inr ⟨(w ++ more, .directory), ⟨by simp [hmore], hentry⟩, ?_⟩
          have hbelow := List.isPrefixOf_iff_prefix.2 (List.prefix_append w more)
          rw [if_pos ⟨rfl, hbelow, by simpa using hmore⟩, List.drop_left]

/-- A directory stays one, and nothing else becomes one. -/
theorem Replaces.kind_eq (h : d.Replaces d' place) {e e' : Entry} (he : d.entryAt? w = some e)
    (he' : d'.entryAt? w = some e') : (e' == .directory) = (e == .directory) := by
  obtain ⟨e'', he'', hkind⟩ := h.kept w e he
  obtain rfl : e' = e'' := Option.some.inj (he'.symm.trans he'')
  rw [Bool.eq_iff_iff, beq_iff_eq, beq_iff_eq]
  exact hkind

theorem Replaces.directory_of_directory (h : d.Replaces d' place) {e : Entry}
    (he : d.entryAt? w = some e) (he' : d'.entryAt? w = some .directory) :
    d.entryAt? w = some .directory := by
  have hkind := h.kind_eq he he'
  rw [beq_self_eq_true] at hkind
  rw [he, eq_of_beq hkind.symm]

/-- What there was is still there after a save. -/
theorem Replaces.contains (h : d.Replaces d' place) (hp : d.contains p = true) :
    d'.contains p = true := by
  rw [Disk.contains, lookup?] at hp ⊢
  rcases hw : d.locate p with cause | w
  · rw [hw] at hp
    cases hp
  · rw [hw] at hp
    obtain ⟨e, he⟩ := Option.isSome_iff_exists.1 hp
    obtain ⟨e', he', -⟩ := h.kept w e he
    rw [h.keeps.locate hw]
    exact Option.isSome_iff_exists.2 ⟨e', he'⟩

theorem Keeps.isDirectory (h : d.Keeps d') (hp : d.isDirectory p = true) :
    d'.isDirectory p = true := by
  obtain ⟨w, hw, hentry⟩ := isDirectory_iff.1 hp
  exact isDirectory_iff.2 ⟨w, h.locate hw, h.directories w hentry⟩

/-- A file stays one. -/
theorem Replaces.isFile (h : d.Replaces d' place) (hp : d.isFile p = true) :
    d'.isFile p = true := by
  obtain ⟨bytes, hread⟩ := isFile_iff.1 hp
  obtain ⟨w, hw, hentry⟩ := read_eq_ok_iff.1 hread
  obtain ⟨e, he, hkind⟩ := h.kept w _ hentry
  cases e with
  | directory => cases hkind.1 rfl
  | file b => exact isFile_iff.2 ⟨b, read_eq_ok_iff.2 ⟨w, h.keeps.locate hw, he⟩⟩

/-- A save changes no file but the one that is saved. -/
theorem Replaces.read (h : d.Replaces d' place) {bytes : List UInt8} (hread : d.read p = .ok bytes)
    (hplace : d'.locate p ≠ .ok place) : d'.read p = .ok bytes := by
  obtain ⟨w, hw, hentry⟩ := read_eq_ok_iff.1 hread
  have hw' := h.keeps.locate hw
  have hne : w ≠ place := fun heq ↦ hplace (heq ▸ hw')
  obtain ⟨e, he, hkind⟩ := h.kept w _ hentry
  cases e with
  | directory => cases hkind.1 rfl
  | file b =>
    rw [h.added w b hne he] at hentry
    cases hentry
    exact read_eq_ok_iff.2 ⟨w, hw', he⟩

/-- A file that a path goes down to after a save was there before, unless it is the saved one. -/
theorem Replaces.file_below (h : d.Replaces d' place) {bytes : List UInt8}
    (hp : d.locate p = .ok w) (hmore : ".." ∉ more)
    (hread : d'.read { p with names := p.names ++ more } = .ok bytes)
    (hplace : d'.locate { p with names := p.names ++ more } ≠ .ok place) :
    d.entryAt? (w ++ more) = some (.file bytes) := by
  obtain ⟨w', hw', hentry⟩ := read_eq_ok_iff.1 hread
  have hne : w' ≠ place := fun hw ↦ hplace (hw ▸ hw')
  rw [locate_append] at hw'
  obtain ⟨v, hv, hdescend⟩ := bind_eq_ok.1 hw'
  obtain rfl : w = v := Except.ok.inj ((h.keeps.locate hp).symm.trans hv)
  rw [eq_append_of_descend hdescend hmore] at hne hentry
  exact h.added _ _ hne hentry

end Disk

namespace Glob

open Disk

variable {directoriesOnly : Bool} {steps : List Step}

/-! ### What a walk comes to -/

/-- **A save takes nothing away from a walk.** -/
theorem mem_walk_of_replaces (h : d.Replaces d' place) (hd : d.Sound) (hd' : d'.Sound)
    (hq : q ∈ walk d directoriesOnly steps p) : q ∈ walk d' directoriesOnly steps p := by
  induction steps generalizing p with
  | nil => exact hq
  | cons s rest ih =>
    cases s with
    | name n =>
      simp only [walk] at hq ⊢
      obtain ⟨hchild, hq⟩ := List.mem_ite_nil_right.1 hq
      refine List.mem_ite_nil_right.2 ⟨?_, ih hq⟩
      split at hchild
      · rename_i hdirectory
        rw [if_pos hdirectory]
        exact h.keeps.isDirectory hchild
      · rename_i hdirectory
        rw [if_neg hdirectory]
        exact h.contains hchild
    | wild pattern =>
      simp only [walk] at hq ⊢
      obtain ⟨⟨n, e⟩, hlist, hq⟩ := List.mem_flatMap.1 hq
      obtain ⟨hfits, hq⟩ := List.mem_ite_nil_right.1 hq
      obtain ⟨w, hw, hentry⟩ := hd.mem_list_iff.1 hlist
      obtain ⟨e', hentry', -⟩ := h.kept _ _ hentry
      refine List.mem_flatMap.2 ⟨(n, e'), hd'.mem_list_iff.2 ⟨w, h.keeps.locate hw, hentry'⟩, ?_⟩
      refine List.mem_ite_nil_right.2 ⟨?_, ih hq⟩
      dsimp only at hfits ⊢
      rw [h.kind_eq hentry hentry']
      exact hfits
    | up => exact ih hq
    | deep =>
      simp only [walk, List.mem_eraseDups] at hq ⊢
      obtain ⟨r, hr, hq⟩ := List.mem_flatMap.1 hq
      refine List.mem_flatMap.2 ⟨r, ?_, ih hq⟩
      obtain ⟨w, hw, more, rfl, hmore⟩ := hd.mem_directories_iff.1 hr
      refine hd'.mem_directories_iff.2 ⟨w, h.keeps.locate hw, more, rfl, ?_⟩
      exact hmore.imp_right (h.keeps.directories _)

/-- Steps that only go down. -/
def Descends (steps : List Step) : Prop := ∀ s ∈ steps, s ≠ .up ∧ s ≠ .name ".."

/-- A walk that only goes down comes to paths without `..` below its start. -/
theorem exists_names_of_mem_walk (hd : d.Sound) (hsteps : Descends steps)
    (hq : q ∈ walk d directoriesOnly steps p) :
    ∃ more, q = { p with names := p.names ++ more } ∧ ".." ∉ more := by
  induction steps generalizing p with
  | nil => exact ⟨[], by simpa [walk] using hq, List.not_mem_nil⟩
  | cons s rest ih =>
    have hrest : Descends rest := fun s hs ↦ hsteps s (List.mem_cons_of_mem _ hs)
    have hchild {n : String} (hn : n ≠ "..") (hq : q ∈ walk d directoriesOnly rest (p.child n)) :
        ∃ more, q = { p with names := p.names ++ more } ∧ ".." ∉ more := by
      obtain ⟨more, rfl, hmore⟩ := ih hrest hq
      exact ⟨n :: more, by simp [Path.child], by simp [hmore, hn.symm]⟩
    obtain ⟨hup, hname⟩ := hsteps s List.mem_cons_self
    cases s with
    | name n =>
      simp only [walk] at hq
      exact hchild (fun hn ↦ hname (hn ▸ rfl)) (List.mem_ite_nil_right.1 hq).2
    | wild pattern =>
      simp only [walk] at hq
      obtain ⟨x, hx, hq⟩ := List.mem_flatMap.1 hq
      obtain ⟨w, -, hentry⟩ := hd.mem_list_iff.1 hx
      refine hchild ?_ (List.mem_ite_nil_right.1 hq).2
      intro hn
      exact hd.not_mem_of_entryAt? hentry (by simp [hn])
    | up => exact absurd rfl hup
    | deep =>
      simp only [walk, List.mem_eraseDups] at hq
      obtain ⟨r, hr, hq⟩ := List.mem_flatMap.1 hq
      obtain ⟨w, -, more, rfl, hmore⟩ := hd.mem_directories_iff.1 hr
      obtain ⟨rest, rfl, hrest⟩ := ih hrest hq
      refine ⟨more ++ rest, by simp, ?_⟩
      rw [List.mem_append, not_or]
      refine ⟨?_, hrest⟩
      rcases hmore with rfl | hentry
      · exact List.not_mem_nil
      · exact fun hup ↦ hd.not_mem_of_entryAt? hentry (List.mem_append_right w hup)

/-- **A walk that only goes down comes to a file that was there before a save in the same way**. -/
theorem mem_walk_of_file (h : d.Replaces d' place) (hd : d.Sound) (hd' : d'.Sound)
    (hsteps : Descends steps) (hp : d.locate p = .ok w) {b : List UInt8}
    (hfile : d.entryAt? (w ++ more) = some (.file b))
    (hq : { p with names := p.names ++ more } ∈ walk d' directoriesOnly steps p) :
    { p with names := p.names ++ more } ∈ walk d directoriesOnly steps p := by
  induction steps generalizing p w more with
  | nil => exact hq
  | cons s rest ih =>
    have hrest : Descends rest := fun s hs ↦ hsteps s (List.mem_cons_of_mem _ hs)
    -- What a path through a child leads to stands below the place of the child.
    have hchild {n : String}
        (hq : { p with names := p.names ++ more } ∈ walk d' directoriesOnly rest (p.child n)) :
        ∃ e, d.entryAt? (w ++ [n]) = some e ∧ d.locate (p.child n) = .ok (w ++ [n]) ∧
          { p with names := p.names ++ more } ∈ walk d directoriesOnly rest (p.child n) := by
      obtain ⟨rest', hnames⟩ := names_of_mem_walk hq
      obtain rfl : more = [n] ++ rest' := by simpa [Path.child] using hnames
      rw [← List.append_assoc] at hfile
      obtain ⟨e, he⟩ := hd.exists_entry_above hfile
      have hlocate : d.locate (p.child n) = .ok (w ++ [n]) := hd.locate_below hp he
      refine ⟨e, he, hlocate, ?_⟩
      rw [hnames] at hq ⊢
      exact ih hrest hlocate hfile hq
    cases s with
    | name n =>
      simp only [walk] at hq ⊢
      obtain ⟨hthere, hq⟩ := List.mem_ite_nil_right.1 hq
      obtain ⟨e, he, hlocate, hq⟩ := hchild hq
      refine List.mem_ite_nil_right.2 ⟨?_, hq⟩
      split at hthere
      · rename_i hdirectory
        rw [if_pos hdirectory]
        obtain ⟨w', hw', hentry'⟩ := isDirectory_iff.1 hthere
        obtain rfl : w ++ [n] = w' := Except.ok.inj ((h.keeps.locate hlocate).symm.trans hw')
        exact isDirectory_iff.2 ⟨_, hlocate, h.directory_of_directory he hentry'⟩
      · rename_i hdirectory
        rw [if_neg hdirectory, contains, lookup?, hlocate]
        exact Option.isSome_iff_exists.2 ⟨e, he⟩
    | wild pattern =>
      simp only [walk] at hq ⊢
      obtain ⟨⟨n, e'⟩, hlist, hq⟩ := List.mem_flatMap.1 hq
      obtain ⟨hfits, hq⟩ := List.mem_ite_nil_right.1 hq
      obtain ⟨e, he, hlocate, hq⟩ := hchild hq
      refine List.mem_flatMap.2 ⟨(n, e), hd.mem_list_iff.2 ⟨w, hp, he⟩, ?_⟩
      refine List.mem_ite_nil_right.2 ⟨?_, hq⟩
      obtain ⟨w', hw', hentry'⟩ := hd'.mem_list_iff.1 hlist
      obtain rfl : w = w' := Except.ok.inj ((h.keeps.locate hp).symm.trans hw')
      dsimp only at hfits ⊢
      rw [← h.kind_eq he hentry']
      exact hfits
    | up => exact absurd rfl (hsteps _ List.mem_cons_self).1
    | deep =>
      simp only [walk, List.mem_eraseDups] at hq ⊢
      obtain ⟨r, hr, hq⟩ := List.mem_flatMap.1 hq
      obtain ⟨w', hw', above, rfl, habove⟩ := hd'.mem_directories_iff.1 hr
      obtain rfl : w = w' := Except.ok.inj ((h.keeps.locate hp).symm.trans hw')
      obtain ⟨rest', hnames⟩ := names_of_mem_walk hq
      obtain rfl : more = above ++ rest' := by simpa using hnames
      rw [← List.append_assoc] at hfile
      obtain ⟨e, he⟩ := hd.exists_entry_above hfile
      refine List.mem_flatMap.2
        ⟨{ p with names := p.names ++ above }, hd.mem_directories_iff.2 ⟨w, hp, above, rfl, ?_⟩, ?_⟩
      · exact habove.imp_right (h.directory_of_directory he)
      · rw [hnames] at hq ⊢
        exact ih hrest (hd.locate_below hp he) hfile hq

/-! ### In which order -/

theorem nodup_eraseDups {α : Type} [BEq α] [LawfulBEq α] : (xs : List α) → xs.eraseDups.Nodup
  | [] => List.nodup_nil
  | x :: xs => by
    rw [List.eraseDups_cons, List.nodup_cons]
    exact ⟨by simp, nodup_eraseDups _⟩
termination_by xs => xs.length
decreasing_by exact Nat.lt_succ_of_le (List.length_filter_le ..)

/-- **A walk comes to a path once.** -/
theorem nodup_walk (hd : d.Sound) : (walk d directoriesOnly steps p).Nodup := by
  have hite (c : Prop) [Decidable c] {ps : List Path} (h : ps.Nodup) :
      (if c then ps else []).Nodup := by
    split
    · exact h
    · exact List.nodup_nil
  induction steps generalizing p with
  | nil => exact List.nodup_singleton p
  | cons s rest ih =>
    cases s with
    | name n =>
      simp only [walk]
      exact hite _ ih
    | wild pattern =>
      simp only [walk]
      refine List.nodup_flatMap.2 ⟨fun x _ ↦ hite _ ih, (hd.nodup_list p).imp fun {x y} hne ↦ ?_⟩
      -- Paths through two children differ in the name of the child.
      intro q hx hy
      obtain ⟨more, hmore⟩ := names_of_mem_walk (List.mem_ite_nil_right.1 hx).2
      obtain ⟨more', hmore'⟩ := names_of_mem_walk (List.mem_ite_nil_right.1 hy).2
      have hnames := congrArg Path.names (hmore.symm.trans hmore')
      simp only [Path.child, List.append_assoc, List.append_cancel_left_eq] at hnames
      exact hne (List.cons.inj hnames).1
    | up => exact ih
    | deep =>
      simp only [walk]
      exact nodup_eraseDups _

end Glob

namespace Path

theorem namesLe_cons {n m : String} {ns ms : List String} :
    namesLe (n :: ns) (m :: ms) = true ↔ n < m ∨ n = m ∧ namesLe ns ms = true := by
  rw [namesLe]
  split
  · rename_i hnm
    simp [hnm]
  · rename_i hnm
    simp [hnm]

theorem namesLe_total (ns ms : List String) : namesLe ns ms = true ∨ namesLe ms ns = true := by
  induction ns generalizing ms with
  | nil => exact .inl rfl
  | cons n ns ih =>
    cases ms with
    | nil => exact .inr rfl
    | cons m ms =>
      rw [namesLe_cons, namesLe_cons]
      by_cases hlt : n < m
      · exact .inl (.inl hlt)
      by_cases hgt : m < n
      · exact .inr (.inl hgt)
      have hnm : n = m := String.le_antisymm (String.not_lt.1 hgt) (String.not_lt.1 hlt)
      exact (ih ms).imp (fun h ↦ .inr ⟨hnm, h⟩) fun h ↦ .inr ⟨hnm.symm, h⟩

theorem namesLe_trans {ns ms ks : List String} (h : namesLe ns ms = true)
    (h' : namesLe ms ks = true) : namesLe ns ks = true := by
  induction ns generalizing ms ks with
  | nil => rfl
  | cons n ns ih =>
    cases ms with
    | nil => cases h
    | cons m ms =>
      cases ks with
      | nil => cases h'
      | cons k ks =>
        rw [namesLe_cons] at h h' ⊢
        rcases h with h | ⟨rfl, h⟩
        · rcases h' with h' | ⟨rfl, -⟩
          · exact .inl (String.lt_trans h h')
          · exact .inl h
        · exact h'.imp_right fun h' ↦ ⟨h'.1, ih h h'.2⟩

theorem eq_of_namesLe {ns ms : List String} (h : namesLe ns ms = true)
    (h' : namesLe ms ns = true) : ns = ms := by
  induction ns generalizing ms with
  | nil =>
    cases ms with
    | nil => rfl
    | cons m ms => cases h'
  | cons n ns ih =>
    cases ms with
    | nil => cases h
    | cons m ms =>
      rw [namesLe_cons] at h h'
      rcases h with h | ⟨rfl, h⟩
      · rcases h' with h' | ⟨rfl, -⟩
        · exact absurd h' (String.lt_asymm h)
        · exact absurd h (String.lt_irrefl m)
      · rw [ih h (h'.resolve_left (String.lt_irrefl n)).2]

/-- Paths from one start that come before each other are the same. -/
theorem eq_of_le {p q : Path} (hanchor : p.anchor = q.anchor) (hpq : le p q = true)
    (hqp : le q p = true) : p = q := by
  have hkey : p.key = q.key := eq_of_namesLe hpq hqp
  obtain ⟨anchor, ns⟩ := p
  obtain ⟨anchor', ms⟩ := q
  obtain rfl : anchor = anchor' := hanchor
  cases anchor with
  | relative => exact congrArg (Path.mk _) hkey
  | _ => exact congrArg (Path.mk _) (List.cons.inj hkey).2

theorem pairwise_mergeSort_le (ps : List Path) :
    (ps.mergeSort le).Pairwise fun p q ↦ le p q = true := by
  refine List.pairwise_mergeSort (fun p q r hpq hqr ↦ ?_) (fun p q ↦ ?_) ps
  · exact namesLe_trans hpq hqr
  · rw [Bool.or_eq_true]
    exact namesLe_total p.key q.key

end Path

/-- What is left of two selections is the same if the same paths are left of the walks. -/
theorem Glob.filter_select_eq {g : Glob} {base : Path} {keep keep' : Path → Bool} (hd : d.Sound)
    (hd' : d'.Sound) (hbase : d.isDirectory base = true) (hbase' : d'.isDirectory base = true)
    (h : ∀ q, (q ∈ walk d' g.directoriesOnly g.steps base ∧ keep' q = true) ↔
      q ∈ walk d g.directoriesOnly g.steps base ∧ keep q = true) :
    (g.select d' base).filter keep' = (g.select d base).filter keep := by
  have hanchor {d : Disk} {q : Path} (hq : q ∈ walk d g.directoriesOnly g.steps base) :
      q.anchor = base.anchor := by
    obtain ⟨more, rfl⟩ := names_of_mem_walk hq
    rfl
  have hsorted (ps : List Path) (keep : Path → Bool) :
      ((ps.mergeSort Path.le).filter keep).Pairwise fun p q ↦ Path.le p q = true :=
    (Path.pairwise_mergeSort_le ps).filter keep
  have hperm : ((walk d' g.directoriesOnly g.steps base).filter keep').Perm
      ((walk d g.directoriesOnly g.steps base).filter keep) := by
    refine (List.perm_ext_iff_of_nodup ((nodup_walk hd').filter _) ((nodup_walk hd).filter _)).2 ?_
    intro q
    rw [List.mem_filter, List.mem_filter]
    exact h q
  rw [select, select, if_pos hbase, if_pos hbase']
  refine List.Perm.eq_of_pairwise ?_ (hsorted _ keep') (hsorted _ keep) ?_
  · intro p q hp hq
    have hp' := hanchor (List.mem_mergeSort.1 (List.mem_filter.1 hp).1)
    have hq' := hanchor (List.mem_mergeSort.1 (List.mem_filter.1 hq).1)
    exact Path.eq_of_le (hp'.trans hq'.symm)
  · exact ((List.mergeSort_perm _ _).filter _).trans
      (hperm.trans ((List.mergeSort_perm _ _).filter _).symm)

/-! ### What is discovered -/

/-- A glob without `..` only goes down. -/
theorem Glob.descends_of_ofString {text : String} {g : Glob} (h : ofString text = .ok g)
    (hnames : ".." ∉ (Path.ofString text).names) : Descends g.steps := by
  have hsteps : (Path.ofString text).names.mapM Step.ofName = .ok g.steps := by
    rw [ofString] at h
    split at h
    · cases h
    split at h
    · cases h
    split at h
    · cases h
    · obtain ⟨steps, hsteps, h⟩ := bind_eq_ok.1 h
      cases h
      exact hsteps
  intro s hs
  obtain ⟨n, hn, hstep⟩ := exists_of_forall₂ (mapM_eq_ok_iff.1 hsteps).flip hs
  have hne : n ≠ ".." := fun h ↦ hnames (h ▸ hn)
  change Step.ofName n = .ok s at hstep
  rw [Step.ofName, if_neg hne] at hstep
  split at hstep
  · cases hstep
    exact ⟨nofun, nofun⟩
  split at hstep
  · cases hstep
  split at hstep
  · cases hstep
    exact ⟨nofun, nofun⟩
  · cases hstep
    exact ⟨nofun, fun h ↦ hne (Step.name.inj h)⟩

namespace Discovery

variable {base : Path} {glob : String} {o : FindOptions} {fs : List FoundFile}

theorem isFile_of_mem_files (h : files d base glob o = .ok fs) {f : FoundFile} (hf : f ∈ fs) :
    d.isFile f.path = true := by
  obtain ⟨-, g, -, rfl⟩ := files_eq_ok_iff.1 h
  obtain ⟨q, hq, rfl⟩ := List.mem_map.1 hf
  have hkept := (List.mem_filter.1 hq).2
  rw [Bool.and_eq_true] at hkept
  exact hkept.2

/-- **A save changes nothing about what is discovered**, if the glob only goes down and the saved
file is not discovered itself. -/
theorem files_of_replaces (h : d.Replaces d' place) (hd : d.Sound) (hd' : d'.Sound)
    (hglob : ".." ∉ (Path.ofString glob).names) (hfiles : files d base glob o = .ok fs)
    (hplace : ∀ fs', files d' base glob o = .ok fs' → ∀ f ∈ fs', d'.locate f.path ≠ .ok place) :
    files d' base glob o = .ok fs := by
  obtain ⟨hbase, g, hg, rfl⟩ := files_eq_ok_iff.1 hfiles
  have hsteps := Glob.descends_of_ofString hg hglob
  have hbase' : d'.isDirectory base = true := h.keeps.isDirectory hbase
  have hsame := (files_eq_ok_iff (o := o)).2 ⟨hbase', g, hg, rfl⟩
  rw [hsame]
  refine congrArg (Except.ok <| List.map (found base) ·)
    (Glob.filter_select_eq hd hd' hbase hbase' fun q ↦ ?_)
  simp only [Bool.and_eq_true]
  constructor
  · rintro ⟨hq, haccepts, hfile⟩
    have hselected : q ∈ g.select d' base := by
      rw [Glob.select, if_pos hbase']
      exact List.mem_mergeSort.2 hq
    have hfound : found base q ∈ ((g.select d' base).filter fun q ↦
        accepts o (found base q).relative && d'.isFile q).map (found base) :=
      List.mem_map_of_mem (List.mem_filter.2 ⟨hselected, by rw [haccepts, hfile]; rfl⟩)
    have hnotplace : d'.locate q ≠ .ok place := hplace _ hsame _ hfound
    obtain ⟨more, rfl, hmore⟩ := Glob.exists_names_of_mem_walk hd' hsteps hq
    obtain ⟨w, hw, -⟩ := Disk.isDirectory_iff.1 hbase
    obtain ⟨bytes, hread⟩ := Disk.isFile_iff.1 hfile
    have hentry := h.file_below hw hmore hread hnotplace
    refine ⟨Glob.mem_walk_of_file h hd hd' hsteps hw hentry hq, haccepts, ?_⟩
    exact Disk.isFile_iff.2 ⟨bytes, Disk.read_eq_ok_iff.2 ⟨_, hd.locate_below hw hentry, hentry⟩⟩
  · rintro ⟨hq, haccepts, hfile⟩
    exact ⟨Glob.mem_walk_of_replaces h hd hd' hq, haccepts, h.isFile hfile⟩

end Discovery

end ConceptAtlas
