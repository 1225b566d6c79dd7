import ConceptAtlas.Proofs.Command.History
import ConceptAtlas.Proofs.Command.Preparation

/-!
# Histories of whole commands

A history of a snapshot is made of edits and runs of `build`. What is started is a command line: its
arguments are read, the configuration is loaded from the disk, a log file may be opened, and only
then is something done. Here the law of histories is carried to whole commands.

**A launch is an edit and at most one run** (`State.launched_eq`). Reading its arguments is an edit,
if the log file is another file than the snapshot (`Launch.bytes?_opened`). `build` is then a run on
the disk that this left, and any other command is one more edit. So after whole commands, too, the
snapshot holds what it held at the start or what the latest build that saved wrote
(`settles_launch`).

What may not happen is said of each launch on the disk where it happens (`Launch.Spares`): that the
log file is the snapshot, that `build` is told of another target which is the same file, and that
`init` writes a configuration over the snapshot. Commands that do not write cannot do the last two.
-/

namespace ConceptAtlas.Command

/-- A command line, with what it is started with. -/
structure Launch where
  environment : Environment
  seconds : Int
  args : List String

variable {target : Path} {l : Launch} {d d' : Disk} {t : Task}

/-! ### Launches -/

/-- A step after one that had an answer. -/
theorem reply_bind_of_ok {α : Type} {a : Action α} {f : α → Action Unit} {x : α}
    (h : a ⟨d, [], ""⟩ = .ok x ⟨d', [], ""⟩) : (a >>= f).reply d = (f x).reply d' := by
  have hrun : (a >>= f) ⟨d, [], ""⟩ = f x ⟨d', [], ""⟩ := by
    show EStateM.bind a f _ = _
    rw [EStateM.bind, h]
  rw [Action.reply, Action.reply, EStateM.run, EStateM.run, hrun]

/-- No step after one that ended the command. -/
theorem disk_reply_bind_of_error {α : Type} {a : Action α} {f : α → Action Unit} {e : Ending}
    {s : Session} (h : a ⟨d, [], ""⟩ = .error e s) : ((a >>= f).reply d).disk = s.disk := by
  have hrun : (a >>= f) ⟨d, [], ""⟩ = .error e s := by
    show EStateM.bind a f _ = _
    rw [EStateM.bind, h]
  rw [Action.reply, EStateM.run, hrun]

theorem Keeps.disk_reply {a : Action Unit} (h : Keeps a) (d : Disk) : (a.reply d).disk = d := by
  have hd := h ⟨d, [], ""⟩
  rw [Comes] at hd
  rw [Action.reply, EStateM.run]
  rcases hrun : a ⟨d, [], ""⟩ with ⟨x, s⟩ | ⟨e, s⟩
  · rw [hrun] at hd
    exact hd
  · rw [hrun] at hd
    exact hd

namespace Launch

/-- What comes of a launch. -/
def reply (l : Launch) (d : Disk) : Reply := run d l.environment l.seconds l.args

/-- What comes of reading the arguments. -/
def prepared (l : Launch) (d : Disk) : EStateM.Result Ending Session Task :=
  prepare l.environment l.seconds l.args ⟨d, [], ""⟩

/-- The disk once the arguments are read. -/
def opened (l : Launch) (d : Disk) : Disk :=
  match l.prepared d with
  | .ok _ s => s.disk
  | .error _ s => s.disk

/-- What the arguments ask for, if they can be read and ask for something. -/
def task? (l : Launch) (d : Disk) : Option Task :=
  match l.prepared d with
  | .ok t _ => some t
  | .error _ _ => none

/-- Reading arguments opens a log file at most. -/
theorem opens (l : Launch) (d : Disk) : Opens l.environment d (l.opened d) := by
  have h := comes_prepare l.environment l.seconds l.args ⟨d, [], ""⟩
  rw [Comes, ← prepared] at h
  rw [opened]
  rcases hrun : l.prepared d with ⟨t, s⟩ | ⟨e, s⟩
  · rw [hrun] at h
    exact h.1
  · rw [hrun] at h
    exact h

theorem prepared_of_task (h : l.task? d = some t) : l.prepared d = .ok t ⟨l.opened d, [], ""⟩ := by
  have hcomes := comes_prepare l.environment l.seconds l.args ⟨d, [], ""⟩
  rw [Comes, ← prepared] at hcomes
  rw [task?] at h
  rw [opened]
  rcases hrun : l.prepared d with ⟨t', s⟩ | ⟨e, s⟩
  · rw [hrun] at h hcomes
    obtain rfl : t' = t := Option.some.inj h
    exact congrArg (EStateM.Result.ok t') hcomes.2
  · rw [hrun] at h
    cases h

/-- A task is performed on the disk that reading the arguments left. -/
theorem reply_of_task (h : l.task? d = some t) : l.reply d = t.perform.reply (l.opened d) :=
  reply_bind_of_ok (prepared_of_task h)

/-- Without a task, reading the arguments is all there is. -/
theorem disk_reply_of_none (h : l.task? d = none) : (l.reply d).disk = l.opened d := by
  rw [task?] at h
  rcases hrun : l.prepared d with ⟨t, s⟩ | ⟨e, s⟩
  · rw [hrun] at h
    cases h
  · rw [opened, hrun]
    exact disk_reply_bind_of_error hrun

/-- **A log file elsewhere is no harm**: reading arguments leaves every file but the one that the
configuration names as log file. -/
theorem bytes?_opened (h : ∀ asked c file, Config.load Yaml.parse d l.environment asked = .ok c →
      c.value "logging.file" = .ok (.str file) →
      (l.opened d).locate target ≠ (l.opened d).locate (Log.filePath d file)) :
    (l.opened d).bytes? target = d.bytes? target := by
  have hopens := l.opens d
  generalize l.opened d = d' at h hopens ⊢
  cases hopens with
  | nothing => rfl
  | log hload hlog =>
    rw [withLog] at hlog
    split at hlog
    · rename_i file hfile
      split at hlog
      · cases hlog
        rfl
      · simp only [Log.openFile] at hlog
        split at hlog
        · cases hlog
          rfl
        · exact Disk.bytes?_of_write hlog (h _ _ _ hload hfile)
    · cases hlog
      rfl

/-- Whether what an outcome has is as it should be. -/
instance {ε α : Type} {x : Except ε α} {P : α → Prop} [DecidablePred P] :
    Decidable (∀ a, x = .ok a → P a) :=
  match x with
  | .ok a => decidable_of_iff (P a) ⟨fun h _ ha ↦ Except.ok.inj ha ▸ h, fun h ↦ h a rfl⟩
  | .error _ => isTrue fun _ h ↦ nomatch h

/-- The run of `build` that a launch is, if its snapshot is a file. -/
def run? (target : Path) (l : Launch) (d : Disk) : Option (Run target) :=
  match l.task? d with
  | some (.build c s) =>
    if h : ∀ u, s.update c = .ok u → u.target = target then some ⟨c, s, h⟩ else none
  | _ => none

/-- The update that a launch carries out, if that replaces a snapshot. -/
def saved? (target : Path) (l : Launch) (d : Disk) : Option Update :=
  (l.run? target d).bind fun r ↦ r.saved? (l.opened d)

/-- What a launch may do, for a file to be a snapshot that only runs of `build` write. -/
structure Spares (target : Path) (l : Launch) (d : Disk) : Prop where
  /-- The log file is another file. -/
  opened : (l.opened d).bytes? target = d.bytes? target
  /-- What a task writes is another file, unless it is a run. -/
  performed : ∀ t, l.task? d = some t → t.writes = true → l.run? target d = none →
    (l.reply d).disk.bytes? target = (l.opened d).bytes? target

theorem reply_of_run {r : Run target} (h : l.run? target d = some r) :
    l.reply d = r.reply (l.opened d) := by
  rw [run?] at h
  split at h
  · rename_i c s htask
    split at h
    · cases h
      exact reply_of_task htask
    · cases h
  · cases h

/-- A launch that is no run leaves what it spares. -/
theorem Spares.bytes?_of_none (h : l.Spares target d) (hrun : l.run? target d = none) :
    (l.reply d).disk.bytes? target = (l.opened d).bytes? target := by
  rcases htask : l.task? d with - | t
  · rw [disk_reply_of_none htask]
  · cases hwrites : t.writes with
    | true => exact h.performed t htask hwrites hrun
    | false => rw [reply_of_task htask, (keeps_perform hwrites).disk_reply]

end Launch

/-! ### Histories -/

/-- The edit that brings a disk about, where that leaves the file as it is. -/
def Edit.onto (target : Path) (d : Disk) : Edit target where
  apply x := if x.bytes? target = d.bytes? target then d else x
  bytes?_apply x := by
    split
    · rename_i h
      exact h.symm
    · rfl

theorem State.after_onto {s : State} (h : d.bytes? target = s.disk.bytes? target) :
    s.after (.edit (.onto target d)) = { s with disk := d } := by
  have hdisk : (Edit.onto target d).apply s.disk = d := if_pos h.symm
  rw [State.after, hdisk]

/-- The state after a launch. -/
def State.launched (target : Path) (s : State) (l : Launch) : State :=
  ⟨(l.reply s.disk).disk, ((l.saved? target s.disk).map (l.opened s.disk, ·)).or s.saved⟩

/-- The states that edits and whole commands bring about, all of which spare a file. -/
inductive Unfolds (target : Path) (start : Disk) : State → Prop
  | start : Unfolds target start ⟨start, none⟩
  | edit {s : State} {d : Disk} : Unfolds target start s →
    d.bytes? target = s.disk.bytes? target → Unfolds target start { s with disk := d }
  | launch {s : State} {l : Launch} : Unfolds target start s → l.Spares target s.disk →
    Unfolds target start (s.launched target l)

variable {start : Disk} {s : State}

theorem history_append (start : Disk) (events more : List (Event target)) :
    history start (events ++ more) = more.foldl State.after (history start events) :=
  List.foldl_append

/-- A launch is an edit and a run, or two edits. -/
theorem State.launched_eq (h : l.Spares target s.disk) :
    ∃ events : List (Event target), s.launched target l = events.foldl State.after s := by
  have hopened := State.after_onto (s := s) h.opened
  rcases hrun : l.run? target s.disk with - | r
  · refine ⟨[.edit (.onto target (l.opened s.disk)),
      .edit (.onto target (l.reply s.disk).disk)], ?_⟩
    rw [List.foldl_cons, List.foldl_cons, hopened, State.after_onto (h.bytes?_of_none hrun),
      State.launched, Launch.saved?, hrun]
    rfl
  · refine ⟨[.edit (.onto target (l.opened s.disk)), .run r], ?_⟩
    rw [List.foldl_cons, List.foldl_cons, hopened, State.launched, Launch.saved?, hrun,
      Launch.reply_of_run hrun]
    rfl

/-- **Whole commands make histories.** -/
theorem Unfolds.exists_events (h : Unfolds target start s) :
    ∃ events : List (Event target), s = history start events := by
  induction h with
  | start => exact ⟨[], rfl⟩
  | @edit s d _ hbytes ih =>
    obtain ⟨events, rfl⟩ := ih
    refine ⟨events ++ [.edit (.onto target d)], ?_⟩
    rw [history_append]
    exact (State.after_onto hbytes).symm
  | launch _ hspares ih =>
    obtain ⟨events, rfl⟩ := ih
    obtain ⟨more, hmore⟩ := State.launched_eq hspares
    exact ⟨events ++ more, by rw [hmore, history_append]⟩

/-- How things stand with a snapshot file after whole commands, and what one more makes of them. -/
structure LaunchSettles (target : Path) (start : Disk) (s : State) (l : Launch) : Prop where
  /-- The file has its first bytes or those of the latest build that saved. -/
  holds : s.Holds target start
  /-- A build that saves does what it was asked for, and saves a complete build. -/
  saved : ∀ u, l.saved? target s.disk = some u → (l.reply s.disk).ending = .done ∧
    u.dryRun = false ∧ ∃ g m text, u.Writes (l.opened s.disk) g m text ∧
      (l.reply s.disk).disk.bytes? target = some (Text.encodeUtf8 text)
  /-- Any other command leaves the file. -/
  unsaved : l.saved? target s.disk = none →
    (l.reply s.disk).disk.bytes? target = s.disk.bytes? target
  /-- A command that fails leaves the file. -/
  failed : (l.reply s.disk).ending ≠ .done →
    (l.reply s.disk).disk.bytes? target = s.disk.bytes? target
  /-- A build that is a dry run, or finds the snapshot fresh, changes nothing more on the disk. -/
  idle : ∀ r, l.run? target s.disk = some r → (∀ u ∈ r.update? (l.opened s.disk),
    (u.run (l.opened s.disk)).2 = .ok .fresh ∨ u.dryRun = true) →
    (l.reply s.disk).disk = l.opened s.disk
  /-- A build finds the snapshot up to date if the content is that of the latest one that saved. -/
  fresh : ∀ d₀ u₀ r u, s.saved = some (d₀, u₀) → l.run? target s.disk = some r →
    r.settings.update r.context = .ok u → u.useCache = true → u.dryRun = false →
    u.content (l.opened s.disk) = u₀.content d₀ →
    l.reply s.disk = upToDate u (l.opened s.disk)

/-- A launch that saves is a run that does, on the disk that reading its arguments left. -/
theorem Launch.exists_run_of_saved? {u : Update} (h : l.saved? target d = some u) :
    ∃ r : Run target, l.reply d = r.reply (l.opened d) ∧ r.saved? (l.opened d) = some u := by
  obtain ⟨r, hrun, hsaved⟩ := Option.bind_eq_some_iff.1 h
  exact ⟨r, reply_of_run hrun, hsaved⟩

theorem Launch.Spares.bytes?_of_not_saved (h : l.Spares target d)
    (hsaved : l.saved? target d = none) : (l.reply d).disk.bytes? target = d.bytes? target := by
  refine .trans ?_ h.opened
  rcases hrun : l.run? target d with - | r
  · exact h.bytes?_of_none hrun
  · rw [saved?, hrun] at hsaved
    rw [reply_of_run hrun]
    exact Run.bytes?_of_not_saved hsaved

/-- **Only a complete build replaces a snapshot, whatever else the program is told to do.** -/
theorem settles_launch (h : Unfolds target start s) (hl : l.Spares target s.disk) :
    LaunchSettles target start s l := by
  have hholds : s.Holds target start := by
    obtain ⟨events, rfl⟩ := h.exists_events
    exact holds_history start events
  have hunsaved (hending : (l.reply s.disk).ending ≠ .done) : l.saved? target s.disk = none := by
    rw [Option.eq_none_iff_forall_ne_some]
    intro u hu
    obtain ⟨r, hreply, hsaved⟩ := Launch.exists_run_of_saved? hu
    exact hending (hreply ▸ (Run.writes_of_saved? hsaved).1)
  refine {
    holds := hholds
    saved := fun u hu ↦ ?_
    unsaved := hl.bytes?_of_not_saved
    failed := fun hending ↦ hl.bytes?_of_not_saved (hunsaved hending)
    idle := fun r hrun hidle ↦ ?_
    fresh := fun d₀ u₀ r u hsaved hrun hupdate hcache hdry hcontent ↦ ?_ }
  · obtain ⟨r, hreply, hsaved⟩ := Launch.exists_run_of_saved? hu
    obtain ⟨hdone, hdry, g, m, text, hwrites, hsave⟩ := Run.writes_of_saved? hsaved
    rw [hreply]
    exact ⟨hdone, hdry, g, m, text, hwrites, Disk.bytes?_eq_some_iff.2 (Disk.read_of_save hsave)⟩
  · rw [Launch.reply_of_run hrun, Run.disk_of_idle hidle]
  · rw [Launch.reply_of_run hrun]
    cases hholds with
    | untouched hnone hstart =>
      rw [hnone] at hsaved
      cases hsaved
    | written hsome hwrites hbytes =>
      rw [hsome] at hsaved
      cases hsaved
      exact Run.reply_of_written hwrites (hl.opened.trans hbytes) hupdate hcontent hcache hdry

/-! ### Two launches -/

/-- A command line that builds and says nothing else. -/
def plainLaunch : Launch := ⟨[], 0, ["graph", "build"]⟩

/-- A disk on which it is the plain run. -/
def IsPlain (d : Disk) : Prop :=
  plainLaunch.prepared d = .ok (.build plainRun.context plainRun.settings) ⟨d, [], ""⟩

theorem isPlain_plainTree : IsPlain plainTree := by
  rw [IsPlain]
  cbv

theorem isPlain_savedTree (bytes : List UInt8) : IsPlain (savedTree bytes) := by
  rw [IsPlain]
  cbv

theorem IsPlain.opened (h : IsPlain d) : plainLaunch.opened d = d := by
  rw [Launch.opened, h]

theorem IsPlain.run? (h : IsPlain d) :
    plainLaunch.run? plainUpdate.target d = some plainRun := by
  rw [Launch.run?, Launch.task?, h]
  exact dif_pos plainRun.target_eq

theorem IsPlain.spares (h : IsPlain d) : plainLaunch.Spares plainUpdate.target d where
  opened := by rw [h.opened]
  performed t _ _ hrun := by
    rw [h.run?] at hrun
    cases hrun

/-- Two launches, one after the other: the second one finds up to date what the first one saved. -/
theorem settles_launch_twice : ∃ bytes,
    (plainLaunch.reply plainTree).disk = savedTree bytes ∧
      plainLaunch.reply (savedTree bytes) = upToDate plainUpdate (savedTree bytes) := by
  obtain ⟨bytes, hsaved, hdisk⟩ := saves_plainRun
  have hplain := isPlain_plainTree
  have hnext := isPlain_savedTree bytes
  have hstate : State.launched plainUpdate.target ⟨plainTree, none⟩ plainLaunch =
      ⟨savedTree bytes, some (plainTree, plainUpdate)⟩ := by
    rw [State.launched, Launch.saved?, hplain.run?, Launch.reply_of_run hplain.run?, hplain.opened,
      hdisk]
    show State.mk _ (((plainRun.saved? plainTree).map _).or none) = _
    rw [hsaved]
    rfl
  have hunfolds : Unfolds plainUpdate.target plainTree
      (State.launched plainUpdate.target ⟨plainTree, none⟩ plainLaunch) :=
    .launch .start hplain.spares
  rw [hstate] at hunfolds
  have hcontent : plainUpdate.content (savedTree bytes) = plainUpdate.content plainTree := by
    rw [content_plainTree]
    exact bind_eq_ok.2 ⟨_, files_savedTree bytes, mapError_eq_ok.2 rfl⟩
  have hfresh := (settles_launch hunfolds hnext.spares).fresh _ _ _ _ rfl hnext.run? update_plain
    rfl rfl (by rw [hnext.opened, hcontent])
  rw [hnext.opened] at hfresh
  exact ⟨bytes, by rw [Launch.reply_of_run hplain.run?, hplain.opened, hdisk], hfresh⟩

end ConceptAtlas.Command
