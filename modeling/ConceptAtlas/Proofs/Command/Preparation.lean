import Mathlib.Data.List.Nodup
import ConceptAtlas.Command.Basic

/-!
# Reading arguments

What a command does before it does what it was asked for. Almost every step on the way only asks: if
it has an answer, it has changed nothing and said nothing, and if it ends the command, it has at
most said why (`Asks`). The one step that does something opens the log file, after the configuration
was loaded and before the name of a graph command is looked at. So once arguments are read, the disk
is the one from before, or has the log file that the configuration in effect names
(`comes_prepare`).

Of the tasks, those that do not write leave the disk as it is, however they end (`keeps_perform`).
-/

namespace ConceptAtlas.Command

variable {α β : Type} {P Q E : Session → Prop} {a : Action α} {f : α → Action β} {s : Session}

/-! ### Steps -/

/-- Whether a step has an answer in a session of one kind, or an ending in one of another. -/
def Comes (P E : Session → Prop) (a : Action α) (s : Session) : Prop :=
  match a s with
  | .ok _ s' => P s'
  | .error _ s' => E s'

theorem Comes.bind (ha : Comes P E a s) (hf : ∀ x s', a s = .ok x s' → Comes Q E (f x) s') :
    Comes Q E (a >>= f) s := by
  have hrun : (a >>= f) s = EStateM.bind a f s := rfl
  rw [Comes, hrun, EStateM.bind]
  rw [Comes] at ha
  rcases h : a s with ⟨x, s'⟩ | ⟨e, s'⟩
  · exact hf x s' h
  · rw [h] at ha
    exact ha

theorem Comes.mono {P' E' : Session → Prop} (h : Comes P E a s) (hP : ∀ s', P s' → P' s')
    (hE : ∀ s', E s' → E' s') : Comes P' E' a s := by
  rw [Comes] at h ⊢
  rcases hrun : a s with ⟨x, s'⟩ | ⟨e, s'⟩
  · rw [hrun] at h
    exact hP s' h
  · rw [hrun] at h
    exact hE s' h

/-- A step that only asks: an answer leaves the session as it is, and an ending leaves the disk. -/
def Asks (a : Action α) : Prop := ∀ s, Comes (· = s) (·.disk = s.disk) a s

/-- A step that leaves the disk as it is. -/
def Keeps (a : Action α) : Prop := ∀ s, Comes (·.disk = s.disk) (·.disk = s.disk) a s

/-- After a step that asks, things stand as before it. -/
theorem Asks.then (ha : Asks a) (hE : ∀ s', s'.disk = s.disk → E s')
    (hf : ∀ x, a s = .ok x s → Comes Q E (f x) s) : Comes Q E (a >>= f) s := by
  have hs := ha s
  refine Comes.bind (hs.mono (fun _ h ↦ h) hE) fun x s' hx ↦ ?_
  rw [Comes, hx] at hs
  obtain rfl : s' = s := hs
  exact hf x hx

theorem Asks.bind (ha : Asks a) (hf : ∀ x, Asks (f x)) : Asks (a >>= f) :=
  fun s ↦ ha.then (fun _ h ↦ h) fun x _ ↦ hf x s

theorem Asks.keeps (ha : Asks a) : Keeps a :=
  fun s ↦ (ha s).mono (fun _ h ↦ congrArg Session.disk h) fun _ h ↦ h

theorem Keeps.bind (ha : Keeps a) (hf : ∀ x, Keeps (f x)) : Keeps (a >>= f) := by
  intro s
  have hs := ha s
  refine Comes.bind hs fun x s' hx ↦ ?_
  rw [Comes, hx] at hs
  have hdisk : s'.disk = s.disk := hs
  have hx' := hf x s'
  rw [hdisk] at hx'
  exact hx'

theorem asks_pure (x : α) : Asks (pure x) := fun _ ↦ rfl

theorem asks_throw (e : Ending) : Asks (throw e : Action α) := fun _ ↦ rfl

theorem asks_disk : Asks Action.disk := fun _ ↦ rfl

/-- What is said before an ending does not matter to the disk. -/
theorem asks_say_throw (lines : List String) (e : Ending) :
    Asks (do Action.say lines; throw e : Action α) := fun _ ↦ rfl

theorem asks_orFail (lead : String) (x : Outcome α) : Asks (Action.orFail lead x) := by
  rcases x with (f | b) | a
  · exact asks_say_throw _ _
  · exact asks_throw _
  · exact asks_pure _

theorem asks_orFault (lead : String) (x : Except Fault α) : Asks (Action.orFault lead x) :=
  asks_orFail lead _

theorem keeps_say (lines : List String) : Keeps (Action.say lines) := fun _ ↦ rfl

/-! ### Arguments -/

section Arguments

variable {σ κ : Type}

theorem asks_settle (scan : Except Misuse (Scan σ)) : Asks (settle scan) := by
  rcases scan with cause | ⟨settings, - | page, positional⟩
  · exact asks_throw _
  · exact asks_pure _
  · exact asks_say_throw _ _

theorem asks_arguments (options : List (Opt σ)) (initial : σ) (args : List String) :
    Asks (arguments options initial args) := asks_settle _

theorem asks_groupArguments (options : List (Opt σ)) (initial : σ) (args : List String) :
    Asks (groupArguments options initial args) := by
  rw [groupArguments]
  split
  · exact asks_throw _
  · exact asks_settle _

theorem asks_choose (options : List (Opt σ)) (initial : σ) (commands : List (String × κ))
    (args : List String) : Asks (choose options initial commands args) := by
  cases args with
  | nil => exact asks_throw _
  | cons name rest =>
    rw [choose]
    rcases Assoc.find? name commands with - | command
    · exact (asks_settle _).bind fun _ ↦ asks_throw _
    · exact asks_pure _

/-- What is chosen is one of the commands. -/
theorem mem_of_choose {options : List (Opt σ)} {initial : σ} {commands : List (String × κ)}
    {args : List String} {x : κ × List String} (hnodup : (commands.map Prod.fst).Nodup)
    (h : choose options initial commands args s = .ok x s) : ∃ name, (name, x.1) ∈ commands := by
  cases args with
  | nil => cases h
  | cons name rest =>
    rw [choose] at h
    rcases hfind : Assoc.find? name commands with - | command
    · rw [hfind] at h
      -- The name is refused, however it is written.
      have hrefused : EStateM.bind (settle (scanLeading options initial (name :: rest)))
          (fun _ ↦ Action.misuse (.noCommand name)) s = .ok x s := h
      rw [EStateM.bind] at hrefused
      split at hrefused <;> cases hrefused
    · rw [hfind] at h
      cases h
      exact ⟨name, (Assoc.find?_eq_some_iff hnodup).1 hfind⟩

theorem asks_fileOption (name : Option String) : Asks (fileOption name) := by
  rw [fileOption]
  rcases filled name with - | name
  · exact asks_pure _
  · refine asks_disk.bind fun d ↦ ?_
    split
    · exact asks_throw _
    · exact asks_pure _

theorem asks_integerOption (default : Int) (text : Option String) :
    Asks (integerOption default text) := by
  cases text with
  | none => exact asks_pure _
  | some text =>
    simp only [integerOption]
    split
    · exact asks_pure _
    · exact asks_throw _

theorem asks_noMore (args : List String) : Asks (noMore args) := by
  cases args with
  | nil => exact asks_pure _
  | cons arg rest => exact asks_throw _

theorem asks_oneArgument (name : String) (args : List String) : Asks (oneArgument name args) := by
  cases args with
  | nil => exact asks_throw _
  | cons arg rest => exact (asks_noMore rest).bind fun _ ↦ asks_pure _

end Arguments

theorem asks_question (q : QuerySettings) : Asks q.question := by
  refine (asks_integerOption 1 q.radius).bind fun radius ↦ ?_
  split
  all_goals first | exact asks_pure _ | exact asks_throw _

theorem asks_load (c : ConfigContext) : Asks c.load :=
  asks_disk.bind fun _ ↦ asks_orFail _ _

/-- Every graph command only asks for its arguments. -/
theorem asks_of_mem_graphCommands {name : String} {command : Handler GraphContext}
    (h : (name, command) ∈ graphCommands) (c : GraphContext) (args : List String) :
    Asks (command c args) := by
  simp only [graphCommands, List.mem_cons, Prod.mk.injEq, List.not_mem_nil, or_false] at h
  rcases h with ⟨-, rfl⟩ | ⟨-, rfl⟩ | ⟨-, rfl⟩ | ⟨-, rfl⟩ | ⟨-, rfl⟩
  · exact (asks_arguments _ _ _).bind fun _ ↦ (asks_fileOption _).bind fun _ ↦
      (asks_noMore _).bind fun _ ↦ asks_pure _
  · exact (asks_arguments _ _ _).bind fun _ ↦ (asks_noMore _).bind fun _ ↦ asks_pure _
  · exact (asks_arguments _ _ _).bind fun _ ↦ (asks_integerOption _ _).bind fun _ ↦
      (asks_noMore _).bind fun _ ↦ asks_pure _
  · exact (asks_arguments _ _ _).bind fun _ ↦ (asks_noMore _).bind fun _ ↦ asks_pure _
  · exact (asks_arguments _ _ _).bind fun _ ↦ (asks_question _).bind fun _ ↦
      (asks_oneArgument _ _).bind fun _ ↦ asks_pure _

theorem asks_bare {γ : Type} (task : γ → Task) (c : γ) (args : List String) :
    Asks (bare task c args) :=
  (asks_arguments _ _ _).bind fun _ ↦ (asks_noMore _).bind fun _ ↦ asks_pure _

/-- Every configuration command only asks for its arguments. -/
theorem asks_of_mem_configCommands {name : String} {command : Handler ConfigContext}
    (h : (name, command) ∈ configCommands) (c : ConfigContext) (args : List String) :
    Asks (command c args) := by
  simp only [configCommands, List.mem_cons, Prod.mk.injEq, List.not_mem_nil, or_false] at h
  rcases h with ⟨-, rfl⟩ | ⟨-, rfl⟩ | ⟨-, rfl⟩ | ⟨-, rfl⟩
  · exact asks_bare _ c args
  · exact asks_bare _ c args
  · exact (asks_arguments _ _ _).bind fun _ ↦ (asks_oneArgument _ _).bind fun _ ↦ asks_pure _
  · exact (asks_arguments _ _ _).bind fun _ ↦ (asks_fileOption _).bind fun _ ↦
      (asks_noMore _).bind fun _ ↦ asks_pure _

theorem asks_prepareGraph (config : Config) (seconds : Int) (args : List String) :
    Asks (prepareGraph config seconds args) := by
  refine (asks_groupArguments _ _ _).bind fun x ↦ (asks_fileOption _).bind fun _ s ↦ ?_
  refine (asks_choose _ _ _ _).then (fun _ h ↦ h) fun y hy ↦ ?_
  obtain ⟨name, hmem⟩ := mem_of_choose (by decide) hy
  exact asks_of_mem_graphCommands hmem _ _ s

theorem asks_prepareConfig (c : ConfigContext) (args : List String) :
    Asks (prepareConfig c args) := by
  refine (asks_groupArguments _ _ _).bind fun x s ↦ ?_
  refine (asks_choose _ _ _ _).then (fun _ h ↦ h) fun y hy ↦ ?_
  obtain ⟨name, hmem⟩ := mem_of_choose (by decide) hy
  exact asks_of_mem_configCommands hmem _ _ s

/-! ### The log file -/

/-- What reading arguments may do to a disk: nothing, or open the log file that a configuration
names, which was loaded from that disk. -/
inductive Opens (env : Environment) (d : Disk) : Disk → Prop
  | nothing : Opens env d d
  | log {asked : Option String} {c : Config} {d' : Disk} :
    Config.load Yaml.parse d env asked = .ok c → withLog c d = .ok d' → Opens env d d'

theorem load_eq_ok {c : ConfigContext} {config : Config} (h : c.load s = .ok config s) :
    Config.load Yaml.parse s.disk c.environment c.file = .ok config := by
  have hrun : Action.orFail "" (Config.load Yaml.parse s.disk c.environment c.file) s =
      .ok config s := h
  rcases hload : Config.load Yaml.parse s.disk c.environment c.file with (f | b) | config'
  · rw [hload] at hrun
    cases hrun
  · rw [hload] at hrun
    cases hrun
  · rw [hload] at hrun
    cases hrun
    rfl

theorem comes_openLog (config : Config) (s : Session) :
    Comes (fun s' ↦ withLog config s.disk = .ok s'.disk ∧ s' = { s with disk := s'.disk })
      (·.disk = s.disk) (openLog config) s := by
  rw [openLog]
  refine asks_disk.then (fun _ h ↦ h) fun d hd ↦ ?_
  cases hd
  split
  · rename_i d hlog
    exact ⟨hlog, rfl⟩
  · exact rfl

/-- **Reading arguments comes to a task or ends the command.** Either way it has at most opened the
log file, and with a task it has said nothing. -/
theorem comes_prepare (env : Environment) (seconds : Int) (args : List String) (s : Session) :
    Comes (fun s' ↦ Opens env s.disk s'.disk ∧ s' = { s with disk := s'.disk })
      (fun s' ↦ Opens env s.disk s'.disk) (prepare env seconds args) s := by
  have hkept (s' : Session) (h : s'.disk = s.disk) : Opens env s.disk s'.disk := h ▸ .nothing
  refine (asks_groupArguments _ _ _).then hkept fun x _ ↦ ?_
  refine (asks_fileOption _).then hkept fun _ _ ↦ ?_
  refine (asks_choose _ _ _ _).then hkept fun y _ ↦ ?_
  obtain ⟨group, rest⟩ := y
  cases group with
  | config => exact (asks_prepareConfig _ _ s).mono (fun _ h ↦ h ▸ ⟨.nothing, rfl⟩) hkept
  | graph =>
    refine (asks_load _).then hkept fun config hload ↦ ?_
    have hlog := comes_openLog config s
    refine Comes.bind (hlog.mono (fun _ h ↦ h) hkept) fun _ s' hs' ↦ ?_
    rw [Comes, hs'] at hlog
    have hopens : Opens env s.disk s'.disk := .log (load_eq_ok hload) hlog.1
    exact (asks_prepareGraph _ _ _ s').mono (fun _ h ↦ h ▸ ⟨hopens, hlog.2⟩)
      fun _ h ↦ h ▸ hopens

/-! ### Tasks -/

theorem keeps_graph (c : GraphContext) (lead : String) : Keeps (c.graph lead) :=
  (asks_orFail _ _).keeps.bind fun _ ↦ asks_disk.keeps.bind fun _ ↦ (asks_orFail _ _).keeps

theorem keeps_sayJson (j : Json) : Keeps (sayJson j) := keeps_say _

/-- An answer in one form or the other. -/
theorem keeps_ite {b : Bool} {a a' : Action α} (ha : Keeps a) (ha' : Keeps a') :
    Keeps (if b then a else a') := by
  cases b with
  | true => exact ha
  | false => exact ha'

theorem keeps_validate (c : GraphContext) (settings : FormSettings) :
    Keeps (validate c settings) := by
  refine (keeps_graph _ _).bind fun g ↦ (asks_orFail _ _).keeps.bind fun summary ↦ ?_
  have hverdict : Keeps (if !(g.validate summary).isValid then throw .failed else pure () :
      Action Unit) := keeps_ite (asks_throw _).keeps (asks_pure _).keeps
  exact keeps_ite ((keeps_sayJson _).bind fun _ ↦ hverdict) ((keeps_say _).bind fun _ ↦ hverdict)

theorem keeps_stats (c : GraphContext) (limit : Int) (json : Bool) : Keeps (stats c limit json) :=
  (keeps_graph _ _).bind fun _ ↦ keeps_ite (keeps_sayJson _) (keeps_say _)

theorem keeps_info (c : GraphContext) (settings : FormSettings) : Keeps (info c settings) :=
  (keeps_graph _ _).bind fun _ ↦ keeps_ite (keeps_sayJson _) (keeps_say _)

theorem keeps_query (c : GraphContext) (id : String) (q : Question) (json : Bool) :
    Keeps (query c id q json) :=
  (keeps_graph _ _).bind fun _ ↦ (asks_orFault _ _).keeps.bind fun _ ↦
    keeps_ite (keeps_sayJson _) (keeps_say _)

theorem keeps_showPath (c : ConfigContext) : Keeps (showPath c) :=
  (keeps_say _).bind fun _ ↦ asks_disk.keeps.bind fun _ ↦
    keeps_ite (fun _ ↦ rfl) (asks_pure _).keeps

theorem keeps_writeValue (v : Value) : Keeps (writeValue v) := by
  cases v <;> exact fun _ ↦ rfl

theorem keeps_showConfig (c : ConfigContext) : Keeps (showConfig c) :=
  (asks_load c).keeps.bind fun _ _ ↦ rfl

theorem keeps_showValue (c : ConfigContext) (key : String) : Keeps (showValue c key) :=
  (asks_load c).keeps.bind fun _ ↦ (asks_orFault _ _).keeps.bind fun _ ↦ keeps_writeValue _

/-- Whether a task may write to the disk. -/
def Task.writes : Task → Bool
  | .build .. | .initConfig .. => true
  | _ => false

/-- **A task that does not write leaves the disk**, however it ends. -/
theorem keeps_perform {t : Task} (h : t.writes = false) : Keeps t.perform := by
  cases t with
  | build | initConfig => cases h
  | validate c settings => exact keeps_validate c settings
  | stats c limit json => exact keeps_stats c limit json
  | info c settings => exact keeps_info c settings
  | query c id q json => exact keeps_query c id q json
  | showPath c => exact keeps_showPath c
  | showConfig c => exact keeps_showConfig c
  | showValue c key => exact keeps_showValue c key

end ConceptAtlas.Command
