import Mathlib
import ConceptAtlas.Command.Graph
import ConceptAtlas.Proofs.Build.Saving

/-!
# Histories of a snapshot

What becomes of a snapshot file while the content around it is edited and `build` is run again and
again. A history is any list of edits and runs. Next to the disk it keeps a record that no command
sees: on which disk, and with what update, the latest run was that saved.

The file only ever holds what it held at the start or what that run wrote, which is the text of a
complete build with the fingerprint of the content it was built from (`State.Holds`). Everything
else leaves it alone: dry runs, runs that find it fresh, and runs that fail at any point, even if
they made directories on the way.

A run that may use the cache says that the file is up to date as soon as it finds the content that
the file was made from, whatever edits and runs lie between (`Settles.fresh`). Right after a save it
does find it, if the file is no part of the content (`Settles.next`): the directories that a save
makes are nothing to a glob that only goes down.

A run starts where the configuration is loaded and its log file open. `Proofs.Command.Launch`
carries this to whole command lines.
-/

namespace ConceptAtlas

/-- Whether an update did what it was asked for. -/
def Update.completes : Outcome Result → Bool
  | .ok (.built _ (.failed _)) => false
  | .ok _ => true
  | .error _ => false

/-- Whether an update replaced the snapshot. -/
def Update.saves : Outcome Result → Bool
  | .ok (.built _ .done) => true
  | _ => false

namespace Command

variable {c : GraphContext} {s : BuildSettings} {d : Disk} {u : Update}

/-! ### What a run replies -/

/-- The update that a run carries out, if there is one and its content is there. -/
def BuildSettings.update? (s : BuildSettings) (c : GraphContext) (d : Disk) : Option Update :=
  (s.update c).toOption.filter fun u ↦ (Config.directoryIssues d u.source).isEmpty

theorem BuildSettings.update?_eq_some_iff : s.update? c d = some u ↔
    s.update c = .ok u ∧ (Config.directoryIssues d u.source).isEmpty = true := by
  rw [update?, Option.filter_eq_some_iff]
  refine and_congr_left' ?_
  rcases s.update c with f | v
  · exact iff_of_false nofun nofun
  · rw [Except.toOption, Option.some.injEq, Except.ok.injEq]

theorem reply_build (h : s.update c = .ok u) : (build c s).reply d =
    if (Config.directoryIssues d u.source).isEmpty then (carryOut u).reply d
    else
      (Action.fail (buildLead ++
        "; ".intercalate (Config.directoryIssues d u.source))).reply d := by
  rw [build, h]
  show Action.reply (fun σ ↦
    (if !(Config.directoryIssues σ.disk u.source).isEmpty then _ else _ : Action Unit) σ) d = _
  cases hissues : (Config.directoryIssues d u.source).isEmpty with
  | true =>
    simp only [Action.reply, EStateM.run, hissues]
    rfl
  | false =>
    simp only [Action.reply, EStateM.run, hissues]
    rfl

/-- A run with an update is that update. -/
theorem reply_build_of_some (h : s.update? c d = some u) :
    (build c s).reply d = (carryOut u).reply d := by
  obtain ⟨hupdate, hissues⟩ := BuildSettings.update?_eq_some_iff.1 h
  rw [reply_build hupdate, if_pos hissues]

/-- A run without an update fails and does nothing. -/
theorem reply_build_of_none (h : s.update? c d = none) :
    ((build c s).reply d).disk = d ∧ ((build c s).reply d).ending ≠ .done := by
  rcases hs : s.update c with (f | b) | u
  · rw [build, hs]
    exact ⟨rfl, nofun⟩
  · rw [build, hs]
    exact ⟨rfl, nofun⟩
  · have hissues : ¬ (Config.directoryIssues d u.source).isEmpty = true := by
      intro hissues
      have hsome := BuildSettings.update?_eq_some_iff.2 ⟨hs, hissues⟩
      exact Option.some_ne_none u (hsome.symm.trans h)
    rw [reply_build hs, if_neg hissues]
    exact ⟨rfl, nofun⟩

/-- The reply to an update, by what the update came to. -/
theorem reply_carryOut (u : Update) (d : Disk) : (carryOut u).reply d = Action.reply (do
    Action.say [s!"🔍 Building graph from: {u.source.text}"]
    Action.setDisk (u.run d).1
    sayResult u.target (u.run d).2) d := rfl

theorem disk_reply_carryOut (u : Update) (d : Disk) :
    ((carryOut u).reply d).disk = (u.run d).1 := by
  rw [reply_carryOut]
  rcases (u.run d).2 with (f | b) | - | ⟨t, - | - | (f | b)⟩ <;> rfl

/-- A run is done if its update does what it was asked for, and no other run is. -/
theorem ending_reply_carryOut (u : Update) (d : Disk) :
    ((carryOut u).reply d).ending = .done ↔ Update.completes (u.run d).2 = true := by
  rw [reply_carryOut]
  rcases (u.run d).2 with (f | b) | - | ⟨t, - | - | (f | b)⟩
  · exact iff_of_false nofun nofun
  · exact iff_of_false nofun nofun
  · exact iff_of_true rfl rfl
  · exact iff_of_true rfl rfl
  · exact iff_of_true rfl rfl
  · exact iff_of_false nofun nofun
  · exact iff_of_false nofun nofun

/-- Lines as they are written to the output. -/
def said (lines : List String) : List UInt8 :=
  lines.flatMap fun l ↦ Text.encodeUtf8 (Action.shown (l ++ "\n"))

/-- The reply to a run that finds the snapshot up to date. -/
def upToDate (u : Update) (d : Disk) : Reply where
  disk := d
  output := said [s!"🔍 Building graph from: {u.source.text}",
    s!"✅ Graph is up to date: {u.target.text}"]
  remarks := ""
  ending := .done

theorem reply_carryOut_of_fresh (h : u.run d = (d, .ok .fresh)) :
    (carryOut u).reply d = upToDate u d := by
  have hline (l : String) : String.join ([l].map fun l ↦ l ++ "\n") = l ++ "\n" :=
    String.empty_append
  rw [reply_carryOut, h]
  show Reply.mk d ([] ++ Text.encodeUtf8 (Action.shown (String.join ([_].map _))) ++
    Text.encodeUtf8 (Action.shown (String.join ([_].map _)))) "" .done = _
  rw [hline, hline, upToDate, said, List.flatMap_cons, List.flatMap_singleton, List.nil_append]

/-! ### Histories -/

/-- A change of the disk that leaves a file as it is. -/
structure Edit (target : Path) where
  apply : Disk → Disk
  bytes?_apply : ∀ d, (apply d).bytes? target = d.bytes? target

/-- A run of `build` whose snapshot is a file. -/
structure Run (target : Path) where
  context : GraphContext
  settings : BuildSettings
  target_eq : ∀ u, settings.update context = .ok u → u.target = target

/-- What happens in a history. -/
inductive Event (target : Path)
  | edit (e : Edit target)
  | run (r : Run target)

variable {target : Path}

namespace Run

/-- The reply to a run. -/
def reply (r : Run target) (d : Disk) : Reply := (build r.context r.settings).reply d

/-- The update that a run carries out. -/
def update? (r : Run target) (d : Disk) : Option Update := r.settings.update? r.context d

/-- The update that a run carries out, if that replaces the snapshot. -/
def saved? (r : Run target) (d : Disk) : Option Update :=
  (r.update? d).filter fun u ↦ Update.saves (u.run d).2

end Run

/-- A disk, and what the latest run that saved ran on and was asked for. -/
structure State where
  disk : Disk
  saved : Option (Disk × Update)

/-- The state after an event. -/
def State.after (s : State) : Event target → State
  | .edit e => { s with disk := e.apply s.disk }
  | .run r => ⟨(r.reply s.disk).disk, ((r.saved? s.disk).map (s.disk, ·)).or s.saved⟩

/-- The state after a history. -/
def history (start : Disk) (events : List (Event target)) : State :=
  events.foldl State.after ⟨start, none⟩

/-- The content of an update that finds files is there. -/
theorem directoryIssues_of_content {fs : List (Path × List UInt8)} (h : u.content d = .ok fs) :
    Config.directoryIssues d u.source = [] := by
  obtain ⟨files, hfiles, -⟩ := Update.content_eq_ok h
  obtain ⟨hdirectory, -⟩ := Discovery.files_eq_ok_iff.1 hfiles
  have hcontains : d.contains u.source = true := Disk.contains_of_isDirectory hdirectory
  rw [Config.directoryIssues, hcontains, hdirectory]
  rfl

theorem dryRun_update (h : s.update c = .ok u) : u.dryRun = s.dryRun := by
  obtain ⟨source, -, h⟩ := bind_eq_ok.1 h
  obtain ⟨output, -, h⟩ := bind_eq_ok.1 h
  obtain ⟨glob, -, h⟩ := bind_eq_ok.1 h
  obtain ⟨glob', -, h⟩ := bind_eq_ok.1 h
  obtain ⟨useCache, -, h⟩ := bind_eq_ok.1 h
  obtain ⟨name, -, h⟩ := bind_eq_ok.1 h
  obtain ⟨name', -, h⟩ := bind_eq_ok.1 h
  obtain ⟨policy, -, h⟩ := bind_eq_ok.1 h
  cases h
  rfl

namespace Run

theorem update?_eq_some {r : Run target} (h : r.update? d = some u) :
    r.settings.update r.context = .ok u ∧ u.target = target := by
  obtain ⟨hupdate, -⟩ := BuildSettings.update?_eq_some_iff.1 h
  exact ⟨hupdate, r.target_eq u hupdate⟩

/-- A run that saves is done, and saves a complete build at the target. -/
theorem writes_of_saved? {r : Run target} (h : r.saved? d = some u) :
    (r.reply d).ending = .done ∧ u.dryRun = false ∧ ∃ g m text,
      u.Writes d g m text ∧ d.save target (Text.encodeUtf8 text) = ((r.reply d).disk, none) := by
  obtain ⟨hupdate, hsaves⟩ := Option.filter_eq_some_iff.1 h
  have htarget := (update?_eq_some hupdate).2
  rw [reply, reply_build_of_some hupdate, ending_reply_carryOut, disk_reply_carryOut, ← htarget]
  have hleaves := u.leaves_run d
  generalize u.run d = came at hsaves hleaves ⊢
  cases hleaves with
  | saved hdry hwrites hsave => exact ⟨rfl, hdry, _, _, _, hwrites, hsave⟩
  | _ => cases hsaves

/-- A run that does not save leaves what is at the target. -/
theorem bytes?_of_not_saved {r : Run target} (h : r.saved? d = none) :
    (r.reply d).disk.bytes? target = d.bytes? target := by
  rcases hupdate : r.update? d with - | u
  · rw [reply, (reply_build_of_none hupdate).1]
  · rw [saved?, hupdate] at h
    have hsaves := Option.filter_eq_none_iff.1 h u rfl
    have htarget := (update?_eq_some hupdate).2
    rw [reply, reply_build_of_some hupdate, disk_reply_carryOut, ← htarget]
    have hleaves := u.leaves_run d
    generalize u.run d = came at hsaves hleaves ⊢
    cases hleaves with
    | unsaved hdry hkept => exact hkept
    | saved hdry hwrites hsave => exact absurd rfl hsaves
    | _ => rfl

/-- A run whose update finds the snapshot fresh, or is a dry one, changes nothing on the disk. -/
theorem disk_of_idle {r : Run target}
    (h : ∀ u ∈ r.update? d, (u.run d).2 = .ok .fresh ∨ u.dryRun = true) :
    (r.reply d).disk = d := by
  rcases hupdate : r.update? d with - | u
  · rw [reply, (reply_build_of_none hupdate).1]
  · rw [reply, reply_build_of_some hupdate, disk_reply_carryOut]
    rcases h u hupdate with hfresh | hdry
    · have hleaves := u.leaves_run d
      generalize u.run d = came at hfresh hleaves ⊢
      cases hleaves with
      | fresh => rfl
      | _ => cases hfresh
    · exact Update.run_of_dryRun hdry d

/-- What was saved is up to date for a run that finds the same content. -/
theorem reply_of_written {r : Run target} {u₀ : Update} {d₀ : Disk} {g : Graph Float} {m : Stamp}
    {text : String} (hwrites : u₀.Writes d₀ g m text)
    (hbytes : d.bytes? target = some (Text.encodeUtf8 text))
    (hupdate : r.settings.update r.context = .ok u) (hcontent : u.content d = u₀.content d₀)
    (hcache : u.useCache = true) (hdry : u.dryRun = false) : r.reply d = upToDate u d := by
  have htarget : u.target = target := r.target_eq u hupdate
  have hrun := Update.run_of_saved hwrites (htarget ▸ hbytes) hcontent hcache hdry
  obtain ⟨fs, hfs⟩ := hwrites.exists_content
  rw [reply, reply_build hupdate, directoryIssues_of_content (hcontent.trans hfs)]
  exact reply_carryOut_of_fresh hrun

/-- **What was saved is up to date for the next run**, because saving it has changed nothing about
the content. -/
theorem reply_of_saved? {r next : Run target} {u₀ : Update} (h : r.saved? d = some u₀)
    (hupdate : next.settings.update next.context = .ok u) (hsource : u.source = u₀.source)
    (hglob : u.glob = u₀.glob) (hcache : u.useCache = true) (hdry : u.dryRun = false)
    (hd : d.Sound) (hdown : ".." ∉ (Path.ofString u.glob).names)
    (hspares : u.Spares (r.reply d).disk) :
    next.reply (r.reply d).disk = upToDate u (r.reply d).disk := by
  obtain ⟨-, -, g, m, text, hwrites, hsave⟩ := writes_of_saved? h
  have hbytes := Disk.bytes?_eq_some_iff.2 (Disk.read_of_save hsave)
  have hcontent (d : Disk) : u.content d = u₀.content d := by
    rw [Update.content, Update.content, hsource, hglob]
  obtain ⟨fs, hfs⟩ := hwrites.exists_content
  have hsaved : d.save u.target (Text.encodeUtf8 text) = ((r.reply d).disk, none) := by
    rw [next.target_eq u hupdate]
    exact hsave
  have hsame : u.content (r.reply d).disk = .ok fs :=
    Update.content_of_save hsaved hd hdown hspares ((hcontent d).trans hfs)
  exact reply_of_written hwrites hbytes hupdate (hsame.trans hfs.symm) hcache hdry

end Run

/-! ### What a history leaves -/

/-- What is at the target after a history: what was there at the start, or what the latest run that
saved wrote from the content it ran on. -/
inductive State.Holds (target : Path) (start : Disk) (s : State) : Prop
  | untouched : s.saved = none → s.disk.bytes? target = start.bytes? target → s.Holds target start
  | written {d : Disk} {u : Update} {g : Graph Float} {m : Stamp} {text : String} :
    s.saved = some (d, u) → u.Writes d g m text →
    s.disk.bytes? target = some (Text.encodeUtf8 text) → s.Holds target start

theorem State.Holds.after {start : Disk} {s : State} (h : s.Holds target start)
    (event : Event target) : (s.after event).Holds target start := by
  have hkept {s' : State} (hsaved : s'.saved = s.saved)
      (hbytes : s'.disk.bytes? target = s.disk.bytes? target) : s'.Holds target start := by
    cases h with
    | untouched hnone hstart => exact .untouched (hsaved.trans hnone) (hbytes.trans hstart)
    | written hsome hwrites hwritten =>
      exact .written (hsaved.trans hsome) hwrites (hbytes.trans hwritten)
  cases event with
  | edit e => exact hkept rfl (e.bytes?_apply s.disk)
  | run r =>
    rcases hsaved : r.saved? s.disk with - | u
    · refine hkept ?_ (Run.bytes?_of_not_saved hsaved)
      rw [State.after, hsaved]
      rfl
    · obtain ⟨-, -, g, m, text, hwrites, hsave⟩ := Run.writes_of_saved? hsaved
      have hbytes := Disk.bytes?_eq_some_iff.2 (Disk.read_of_save hsave)
      refine .written (d := s.disk) (u := u) ?_ hwrites hbytes
      rw [State.after, hsaved]
      rfl

theorem holds_history (start : Disk) (events : List (Event target)) :
    (history start events).Holds target start := by
  have hfold (s : State) (h : s.Holds target start) :
      (events.foldl State.after s).Holds target start := by
    induction events generalizing s with
    | nil => exact h
    | cons event events ih => exact ih _ (h.after event)
  exact hfold _ (.untouched rfl rfl)

/-- How things stand with a snapshot file after a history, and what one more run makes of them. -/
structure Settles (start : Disk) (s : State) (r : Run target) : Prop where
  /-- The file has its first bytes or those of the latest run that saved. -/
  holds : s.Holds target start
  /-- A run that saves does what it was asked for, which was not a dry run. -/
  saved : ∀ u, r.saved? s.disk = some u → (r.reply s.disk).ending = .done ∧ u.dryRun = false
  /-- Any other run leaves the file. -/
  unsaved : r.saved? s.disk = none → (r.reply s.disk).disk.bytes? target = s.disk.bytes? target
  /-- A run that fails leaves the file. -/
  failed : (r.reply s.disk).ending ≠ .done →
    (r.reply s.disk).disk.bytes? target = s.disk.bytes? target
  /-- A dry run leaves the disk. -/
  dry : r.settings.dryRun = true → (r.reply s.disk).disk = s.disk
  /-- A run that finds the snapshot fresh leaves the disk. -/
  hit : ∀ u, r.update? s.disk = some u → (u.run s.disk).2 = .ok .fresh →
    (r.reply s.disk).disk = s.disk
  /-- A run finds the snapshot up to date if the content is that of the latest run that saved. -/
  fresh : ∀ d₀ u₀ u, s.saved = some (d₀, u₀) → r.settings.update r.context = .ok u →
    u.useCache = true → u.dryRun = false → u.content s.disk = u₀.content d₀ →
    r.reply s.disk = upToDate u s.disk
  /-- After a run that saves, the next one with its configuration finds the snapshot up to date. -/
  next : ∀ (next : Run target) u₀ u, r.saved? s.disk = some u₀ →
    next.settings.update next.context = .ok u → u.source = u₀.source → u.glob = u₀.glob →
    u.useCache = true → u.dryRun = false → s.disk.Sound → ".." ∉ (Path.ofString u.glob).names →
    u.Spares (r.reply s.disk).disk →
    next.reply (r.reply s.disk).disk = upToDate u (r.reply s.disk).disk

/-- **Only a complete build replaces a snapshot.** -/
theorem settles_history (start : Disk) (events : List (Event target)) (r : Run target) :
    Settles start (history start events) r := by
  have hholds := holds_history start events
  generalize history start events = s at hholds ⊢
  have hunsaved : (r.reply s.disk).ending ≠ .done → r.saved? s.disk = none := by
    intro hending
    rw [Option.eq_none_iff_forall_ne_some]
    exact fun u hu ↦ hending (Run.writes_of_saved? hu).1
  refine {
    holds := hholds
    saved := fun u hu ↦ ⟨(Run.writes_of_saved? hu).1, (Run.writes_of_saved? hu).2.1⟩
    unsaved := Run.bytes?_of_not_saved
    failed := fun hending ↦ Run.bytes?_of_not_saved (hunsaved hending)
    dry := fun hdry ↦ Run.disk_of_idle fun u hu ↦ .inr ?_
    hit := fun u hu hfresh ↦ Run.disk_of_idle fun v hv ↦ .inl ?_
    fresh := fun d₀ u₀ u hsaved hupdate hcache hdry hcontent ↦ ?_
    next := fun next u₀ u h hupdate hsource hglob hcache hdry hd hdown hspares ↦
      Run.reply_of_saved? h hupdate hsource hglob hcache hdry hd hdown hspares }
  · rw [dryRun_update (Run.update?_eq_some hu).1, hdry]
  · obtain rfl : u = v := Option.some.inj (hu.symm.trans hv)
    exact hfresh
  · cases hholds with
    | untouched hnone hstart =>
      rw [hnone] at hsaved
      cases hsaved
    | written hsome hwrites hbytes =>
      rw [hsome] at hsaved
      cases hsaved
      exact Run.reply_of_written hwrites hbytes hupdate hcontent hcache hdry

/-- The update of a run that is told nothing, with the built-in configuration. -/
def plainUpdate : Update :=
  { source := ⟨.relative, ["content"]⟩, glob := "**/*.md", policy := .collect,
    target := ⟨.relative, ["data", "graphs", "graph.json"]⟩, useCache := true, dryRun := false,
    seconds := 0 }

/-- A tree of one file with nothing in it. -/
def plainTree : Disk := ⟨[], [(["content"], .directory), (["content", "a.md"], .file [])]⟩

/-- The tree with a snapshot beside it. -/
def savedTree (bytes : List UInt8) : Disk :=
  ⟨[], plainTree.entries ++ [(["data"], .directory), (["data", "graphs"], .directory),
    (["data", "graphs", "graph.json"], .file bytes)]⟩

theorem update_plain :
    BuildSettings.initial.update ⟨Config.builtIn, none, 0⟩ = .ok plainUpdate := by
  cbv

/-- A run that is told nothing, with the built-in configuration. -/
def plainRun : Run plainUpdate.target :=
  ⟨⟨Config.builtIn, none, 0⟩, .initial, fun u hu ↦ by
    rw [update_plain] at hu
    rw [← Except.ok.inj hu]⟩

theorem save_plainTree (bytes : List UInt8) :
    plainTree.save plainUpdate.target bytes = (savedTree bytes, none) := rfl

theorem sound_plainTree : plainTree.Sound := by
  constructor <;> decide

/-- The glob for Markdown files at any depth. -/
def deepMarkdown : Glob := ⟨[.deep, .wild (Pattern.ofString "*.md")], false⟩

theorem ofString_deepMarkdown : Glob.ofString plainUpdate.glob = .ok deepMarkdown := by
  have hpath : Path.ofString "**/*.md" = ⟨.relative, ["**", "*.md"]⟩ := by cbv
  have hdeep : Glob.Step.ofName "**" = .ok .deep := by cbv
  have hwild : Glob.Step.ofName "*.md" = .ok (.wild (Pattern.ofString "*.md")) := by cbv
  have hslash : "**/*.md".endsWith "/" = false := by decide +kernel
  rw [plainUpdate, Glob.ofString, hpath]
  simp only [Glob.ofNames, List.mapM_cons, hdeep, hwild, hslash]
  rfl

/-- The path of the only file. -/
def onlyPath : Path := ⟨.relative, ["content", "a.md"]⟩

theorem files_of_select {d : Disk} (hsource : d.isDirectory plainUpdate.source = true)
    (hselect : deepMarkdown.select d plainUpdate.source = [onlyPath])
    (hfile : d.isFile onlyPath = true) :
    Discovery.files d plainUpdate.source plainUpdate.glob FindOptions.any =
      .ok [Discovery.found plainUpdate.source onlyPath] := by
  have haccepts : Discovery.accepts FindOptions.any ⟨.relative, ["a.md"]⟩ = true := by cbv
  refine Discovery.files_eq_ok_iff.2 ⟨hsource, _, ofString_deepMarkdown, ?_⟩
  rw [hselect, List.filter_cons_of_pos]
  · rfl
  · rw [hfile, Bool.and_true]
    exact haccepts

theorem files_plainTree :
    Discovery.files plainTree plainUpdate.source plainUpdate.glob FindOptions.any =
      .ok [Discovery.found plainUpdate.source onlyPath] :=
  files_of_select rfl (by cbv) rfl

theorem files_savedTree (bytes : List UInt8) :
    Discovery.files (savedTree bytes) plainUpdate.source plainUpdate.glob FindOptions.any =
      .ok [Discovery.found plainUpdate.source onlyPath] :=
  files_of_select rfl (by cbv) rfl

theorem spares_savedTree (bytes : List UInt8) : plainUpdate.Spares (savedTree bytes) := by
  intro files hfiles f hf
  rw [files_savedTree] at hfiles
  cases hfiles
  rw [List.mem_singleton.1 hf]
  show (savedTree bytes).locate onlyPath ≠ _
  have hplace : (savedTree bytes).locate onlyPath = .ok ["content", "a.md"] := rfl
  have htarget : (savedTree bytes).locate plainUpdate.target =
      .ok ["data", "graphs", "graph.json"] := rfl
  rw [hplace, htarget]
  exact nofun

theorem content_plainTree : plainUpdate.content plainTree = .ok [(⟨.relative, ["a.md"]⟩, [])] :=
  bind_eq_ok.2 ⟨_, files_plainTree, mapError_eq_ok.2 rfl⟩

theorem built_plainTree : ∃ g t, Build.run plainTree plainUpdate.request = .ok (g, t) ∧
    g.nodes = [Node.plain "a" "a"] ∧ g.edges = [] ∧ t.filesProcessed = 1 := by
  have hos : Build.outcomes plainTree plainUpdate.source plainUpdate.request =
      .ok [(onlyPath, .ok ⟨Node.plain "a" "a", []⟩)] := by
    have hid : onlyPath.id? = some "a" := by decide +kernel
    have hread : plainTree.read onlyPath = .ok [] := rfl
    have hextract := extract_of_read_nil hread hid plainUpdate.source
    refine bind_eq_ok.2 ⟨_, files_plainTree, ?_⟩
    exact congrArg (fun x ↦ Except.ok [(onlyPath, x)]) hextract
  exact ⟨_, _, Build.run_collect rfl rfl hos, rfl, rfl, rfl⟩

/-- The first run saves. -/
theorem run_plainTree :
    ∃ bytes t, plainUpdate.run plainTree = (savedTree bytes, .ok (.built t .done)) := by
  obtain ⟨g, t, hrun, hnodes, hedges, hprocessed⟩ := built_plainTree
  have hk := Update.fingerprint_eq_of_content content_plainTree
  generalize Digest.fingerprintBy Sha256.hex [(⟨.relative, ["a.md"]⟩, [])] = k at hk
  have hproduct : plainUpdate.product? plainTree = .ok (some ⟨k, g, t⟩) :=
    bind_eq_ok.2 ⟨k, hk, bind_eq_ok.2 ⟨false, rfl, bind_eq_ok.2 ⟨_, hrun, rfl⟩⟩⟩
  obtain ⟨text, htext⟩ : ∃ text, g.serialize (some (plainUpdate.stamp ⟨k, g, t⟩)) = .ok text := by
    refine ⟨_, if_pos ?_⟩
    rw [Snapshot.ofGraph, hnodes, hedges, Update.stamp, hprocessed]
    rfl
  have hsave : Snapshot.save plainTree plainUpdate.target g (some (plainUpdate.stamp ⟨k, g, t⟩)) =
      (savedTree (Text.encodeUtf8 text), .ok ()) := by
    rw [Snapshot.save, htext]
    dsimp only
    rw [save_plainTree]
  refine ⟨Text.encodeUtf8 text, t, ?_⟩
  rw [Update.run, hproduct]
  simp only [Update.save, hsave]
  rfl

/-- The first run saves what it was told to. -/
theorem saves_plainRun : ∃ bytes, plainRun.saved? plainTree = some plainUpdate ∧
    (plainRun.reply plainTree).disk = savedTree bytes := by
  obtain ⟨bytes, t, hrun⟩ := run_plainTree
  have hupdate : plainRun.update? plainTree = some plainUpdate :=
    BuildSettings.update?_eq_some_iff.2 ⟨update_plain, rfl⟩
  refine ⟨bytes, ?_, ?_⟩
  · rw [Run.saved?, hupdate, Option.filter_some, hrun]
    rfl
  · rw [Run.reply, reply_build_of_some hupdate, disk_reply_carryOut, hrun]

/-- Two runs, one after the other: the first one saves, and the second one finds that up to date. -/
theorem settles_history_twice :
    ∃ bytes g m text,
      (history plainTree [.run plainRun]).saved = some (plainTree, plainUpdate) ∧
      (history plainTree [.run plainRun]).disk = savedTree bytes ∧
      plainUpdate.Writes plainTree g m text ∧ bytes = Text.encodeUtf8 text ∧
      plainRun.reply (savedTree bytes) = upToDate plainUpdate (savedTree bytes) := by
  obtain ⟨bytes, hsaved, hdisk⟩ := saves_plainRun
  have hstate : history plainTree [.run plainRun] =
      ⟨savedTree bytes, some (plainTree, plainUpdate)⟩ := by
    show State.mk (plainRun.reply plainTree).disk (((plainRun.saved? plainTree).map _).or none) = _
    rw [hdisk, hsaved]
    rfl
  have hnext := (settles_history plainTree [] plainRun).next plainRun plainUpdate plainUpdate hsaved
    update_plain rfl rfl rfl rfl sound_plainTree (by decide +kernel)
  have hholds := (settles_history plainTree [.run plainRun] plainRun).holds
  rw [show (history plainTree []).disk = plainTree from rfl, hdisk] at hnext
  rw [hstate] at hholds ⊢
  cases hholds with
  | untouched hnone hstart => cases hnone
  | written hsome hwrites hbytes =>
    cases hsome
    have hread : (savedTree bytes).bytes? plainUpdate.target = some bytes := rfl
    refine ⟨bytes, _, _, _, rfl, rfl, hwrites, ?_, hnext (spares_savedTree bytes)⟩
    exact Option.some.inj (hread.symm.trans hbytes)

end Command

end ConceptAtlas
