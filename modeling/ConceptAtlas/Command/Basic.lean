import ConceptAtlas.Command.Config
import ConceptAtlas.Command.Graph
import ConceptAtlas.Config.Log

/-!
# The command line

From arguments to a reply. Arguments are read level by level, and what they come to is a task
(`prepare`), which is performed last. The levels are not independent of the disk: the configuration
is loaded, and its log file opened, before the name and the arguments of a graph command are looked
at.
-/

namespace ConceptAtlas.Command

/-- The name that the program goes by. -/
def programName : String := "conceptgraph"

/-- The text of a page. -/
def Page.lines : Page → List String
  | .version => [s!"{programName}, version {currentVersion}"]
  | .help =>
    [s!"Usage: {programName} [--config FILE] [--verbose] COMMAND",
      "",
      "  build, validate and query concept knowledge graphs.",
      "",
      "Commands:",
      "  graph [--graph FILE] build|validate|stats|info|query",
      "  config path|show|get|init"]

/-- What was scanned; a page that is asked for ends the command. -/
def settle {σ : Type} (scan : Except Misuse (Scan σ)) : Action (σ × List String) := do
  match scan with
  | .error cause => Action.misuse cause
  | .ok s =>
    match s.page with
    | some page =>
      Action.say page.lines
      throw .done
    | none => return (s.settings, s.positional)

/-- Settings and positional arguments of a command. -/
def arguments {σ : Type} (options : List (Opt σ)) (initial : σ) (args : List String) :
    Action (σ × List String) := settle (scanMixed options initial args)

/-- Settings of a group of commands, and the arguments from the name of the command on. -/
def groupArguments {σ : Type} (options : List (Opt σ)) (initial : σ) (args : List String) :
    Action (σ × List String) :=
  if args.isEmpty then Action.misuse .commandMissing else settle (scanLeading options initial args)

/-- The command that arguments name, and what follows its name. A name that is written as an option,
which can only follow `--`, is read as one before it is refused. -/
def choose {σ κ : Type} (options : List (Opt σ)) (initial : σ) (commands : List (String × κ)) :
    List String → Action (κ × List String)
  | [] => Action.misuse .commandMissing
  | name :: rest =>
    match Assoc.find? name commands with
    | some command => return (command, rest)
    | none => do
      let _ ← settle (scanLeading options initial (name :: rest))
      Action.misuse (.noCommand name)

/-- Nothing to be told. -/
def noOptions : List (Opt Unit) := []

/-! ### Tasks -/

/-- What arguments ask for. -/
inductive Task
  | build (c : GraphContext) (s : BuildSettings)
  | validate (c : GraphContext) (s : FormSettings)
  | stats (c : GraphContext) (limit : Int) (json : Bool)
  | info (c : GraphContext) (s : FormSettings)
  | query (c : GraphContext) (id : String) (q : Question) (json : Bool)
  | showPath (c : ConfigContext)
  | showConfig (c : ConfigContext)
  | showValue (c : ConfigContext) (key : String)
  | initConfig (c : ConfigContext) (s : InitSettings)

/-- Does what is asked for. -/
def Task.perform : Task → Action Unit
  | .build c s => Command.build c s
  | .validate c s => Command.validate c s
  | .stats c limit json => Command.stats c limit json
  | .info c s => Command.info c s
  | .query c id q json => Command.query c id q json
  | .showPath c => Command.showPath c
  | .showConfig c => Command.showConfig c
  | .showValue c key => Command.showValue c key
  | .initConfig c s => Command.initConfig c s

/-- A command that is given its arguments. -/
abbrev Handler (γ : Type) := γ → List String → Action Task

/-! ### Graph commands -/

/-- What the graph commands can be told together. -/
structure GraphSettings where
  snapshot : Option String

/-- The options of the graph commands together. -/
def GraphSettings.options : List (Opt GraphSettings) :=
  [⟨["--graph"], .value fun v s ↦ { s with snapshot := some v }⟩]

/-- The graph commands. -/
def graphCommands : List (String × Handler GraphContext) :=
  [("build", fun c args ↦ do
      let (s, rest) ← arguments BuildSettings.options .initial args
      fileOption s.output
      noMore rest
      return .build c s),
    ("validate", fun c args ↦ do
      let (s, rest) ← arguments FormSettings.options ⟨false⟩ args
      noMore rest
      return .validate c s),
    ("stats", fun c args ↦ do
      let (s, rest) ← arguments StatsSettings.options ⟨none, false⟩ args
      let limit ← integerOption 5 s.top
      noMore rest
      return .stats c limit s.json),
    ("info", fun c args ↦ do
      let (s, rest) ← arguments FormSettings.options ⟨false⟩ args
      noMore rest
      return .info c s),
    ("query", fun c args ↦ do
      let (s, rest) ← arguments QuerySettings.options .initial args
      let question ← s.question
      let id ← oneArgument "NODE_ID" rest
      return .query c id question s.json)]

/-- What the arguments of the graph group ask for. -/
def prepareGraph (config : Config) (seconds : Int) (args : List String) : Action Task := do
  let (s, rest) ← groupArguments GraphSettings.options ⟨none⟩ args
  fileOption s.snapshot
  let (command, rest) ← choose GraphSettings.options ⟨none⟩ graphCommands rest
  command ⟨config, s.snapshot, seconds⟩ rest

/-! ### Configuration commands -/

/-- A command that takes no options and no arguments. -/
def bare {γ : Type} (task : γ → Task) : Handler γ := fun c args ↦ do
  let (_, rest) ← arguments noOptions () args
  noMore rest
  return task c

/-- The configuration commands. -/
def configCommands : List (String × Handler ConfigContext) :=
  [("path", bare .showPath),
    ("show", bare .showConfig),
    ("get", fun c args ↦ do
      let (_, rest) ← arguments noOptions () args
      return .showValue c (← oneArgument "KEY" rest)),
    ("init", fun c args ↦ do
      let (s, rest) ← arguments InitSettings.options .initial args
      fileOption s.file
      noMore rest
      return .initConfig c s)]

/-- What the arguments of the configuration group ask for. -/
def prepareConfig (c : ConfigContext) (args : List String) : Action Task := do
  let (_, rest) ← groupArguments noOptions () args
  let (command, rest) ← choose noOptions () configCommands rest
  command c rest

/-! ### The program -/

/-- What can be told before the name of a group. `verbose` asks for a fuller log. -/
structure Settings where
  config : Option String
  verbose : Bool

namespace Settings

/-- Nothing told. -/
def initial : Settings := ⟨none, false⟩

/-- The options before the name of a group. -/
def options : List (Opt Settings) :=
  [⟨["--version"], .page .version⟩,
    ⟨["--config"], .value fun v s ↦ { s with config := some v }⟩,
    ⟨["--verbose", "-v"], .flag fun s ↦ { s with verbose := true }⟩]

end Settings

/-- The disk with the log file that a configuration names, if it names one. -/
def withLog (config : Config) (d : Disk) : Except OsFault Disk :=
  match config.value "logging.file" with
  | .ok (.str file) => if file.isEmpty then .ok d else Log.openFile d file
  | _ => .ok d

/-- Opens the log file that a configuration names. -/
def openLog (config : Config) : Action Unit := do
  match withLog config (← Action.disk) with
  | .ok d => Action.setDisk d
  | .error fault => throw (.broken (.os fault))

/-- The groups of commands. -/
inductive Group
  | graph
  | config
  deriving DecidableEq, Repr

/-- The groups by their names. -/
def groups : List (String × Group) := [("graph", .graph), ("config", .config)]

/-- What arguments ask for. -/
def prepare (env : Environment) (seconds : Int) (args : List String) : Action Task := do
  let (s, rest) ← groupArguments Settings.options .initial args
  fileOption s.config
  let (group, rest) ← choose Settings.options .initial groups rest
  let context : ConfigContext := ⟨env, s.config⟩
  match group with
  -- A configuration that cannot be loaded has to be open to inspection.
  | .config => prepareConfig context rest
  | .graph => do
    let config ← context.load
    openLog config
    prepareGraph config seconds rest

/-- Does what arguments ask for. -/
def act (env : Environment) (seconds : Int) (args : List String) : Action Unit := do
  (← prepare env seconds args).perform

/-- The reply to arguments, on a disk, in an environment, at a time in seconds. -/
def run (d : Disk) (env : Environment) (seconds : Int) (args : List String) : Reply :=
  (act env seconds args).reply d

end ConceptAtlas.Command
