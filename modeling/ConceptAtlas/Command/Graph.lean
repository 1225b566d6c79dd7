import ConceptAtlas.Build.Update
import ConceptAtlas.Command.Query
import ConceptAtlas.Command.Session
import ConceptAtlas.Config.Store
import ConceptAtlas.Decimal.Numeral
import ConceptAtlas.Graph.Bridge

/-!
# Commands on the graph

`build`, `validate`, `stats`, `info` and `query`: what each can be told, and what it does with a
configuration and the snapshot that was chosen.
-/

namespace ConceptAtlas.Command

/-- What graph commands have in common: the configuration, the snapshot that was asked for, and the
time in seconds. -/
structure GraphContext where
  config : Config
  snapshot : Option String
  seconds : Int

/-- A text with content. -/
def filled (s : Option String) : Option String := s.filter (!·.isEmpty)

/-- Refuses a directory where a file is wanted. -/
def fileOption (name : Option String) : Action Unit := do
  match filled name with
  | some s => if (← Action.disk).isDirectory (.ofString s) then Action.misuse (.isDirectory s)
  | none => return

/-- The integer of an option. -/
def integerOption (default : Int) (text : Option String) : Action Int :=
  match text with
  | none => return default
  | some s =>
    match Decimal.integer 10 s.toList with
    | .ok n => return n
    | .error _ => Action.misuse (.notInteger s)

/-- Refuses arguments that are left over. -/
def noMore (args : List String) : Action Unit :=
  match args with
  | [] => return
  | arg :: _ => Action.misuse (.argumentLeft arg)

/-- One argument and no more. -/
def oneArgument (name : String) (args : List String) : Action String :=
  match args with
  | [] => Action.misuse (.argumentMissing name)
  | arg :: rest => do
    noMore rest
    return arg

/-- Writes a JSON value. -/
def sayJson (j : Json) : Action Unit := Action.say [j.pretty .ascii]

namespace GraphContext

/-- The place of the snapshot. -/
def path (c : GraphContext) : Outcome Path :=
  match filled c.snapshot with
  | some s => .ok (.ofString s)
  | none => c.config.snapshotPath

/-- The graph in the snapshot. -/
def graph (c : GraphContext) (lead : String) : Action (Graph Float) := do
  let p ← Action.orFail lead c.path
  Action.orFail lead (Snapshot.loadGraph (← Action.disk) p)

end GraphContext

/-! ### Building -/

/-- What `build` can be told. -/
structure BuildSettings where
  output : Option String
  dryRun : Bool
  useCache : Option Bool

namespace BuildSettings

/-- Nothing told. -/
def initial : BuildSettings := ⟨none, false, none⟩

/-- The options of `build`. -/
def options : List (Opt BuildSettings) :=
  [⟨["--output", "-o"], .value fun v s ↦ { s with output := some v }⟩,
    ⟨["--dry-run"], .flag fun s ↦ { s with dryRun := true }⟩,
    ⟨["--use-cache"], .flag fun s ↦ { s with useCache := some true }⟩,
    ⟨["--no-cache"], .flag fun s ↦ { s with useCache := some false }⟩]

end BuildSettings

/-- What leads the wording of a failed build. -/
def buildLead : String := "Build failed: "

/-- The text of a value that is one. -/
def textOf : Value → Outcome String
  | .str s => .ok s
  | _ => breakDown .wrongKind

/-- The update that a configuration and settings ask for. -/
def BuildSettings.update (s : BuildSettings) (c : GraphContext) : Outcome Update := do
  let source ← c.config.contentPath
  let target ← (filled s.output).elim c.path fun name ↦ .ok (.ofString name)
  let glob ← textOf (← c.config.inSection "content" "glob")
  let useCache ← s.useCache.elim ((c.config.inSection "graph" "use_cache").map Value.isTruthy) .ok
  let policy ← textOf (← c.config.inSection "graph" "error_handling")
  let policy ← (Policy.ofName policy).mapError Failure.fault
  return { source, glob, policy, target, useCache, dryRun := s.dryRun, seconds := c.seconds }

/-- Says what became of a graph that was built. -/
def saySaving (target : Path) : Update.Saving → Action Unit
  | .skipped => Action.say ["", "Dry run: graph not saved."]
  | .done => Action.say ["", s!"✅ Graph saved to: {target.text}"]
  | .failed failure => Action.orFail buildLead (.error failure)

/-- Says what an update came to. -/
def sayResult (target : Path) (result : Outcome Update.Result) : Action Unit := do
  match ← Action.orFail buildLead result with
  | .fresh => Action.say [s!"✅ Graph is up to date: {target.text}"]
  | .built tally saving =>
    Action.say (Display.tally tally)
    saySaving target saving

/-- Brings a snapshot up to date. -/
def carryOut (u : Update) : Action Unit := do
  Action.say [s!"🔍 Building graph from: {u.source.text}"]
  let (d, result) := u.run (← Action.disk)
  Action.setDisk d
  sayResult u.target result

/-- Builds the graph of the content and saves it. -/
def build (c : GraphContext) (s : BuildSettings) : Action Unit := do
  let update ← Action.orFail buildLead (s.update c)
  let issues := Config.directoryIssues (← Action.disk) update.source
  if !issues.isEmpty then Action.fail (buildLead ++ "; ".intercalate issues)
  carryOut update

/-! ### Judging and counting -/

/-- What commands without settings of their own can be told: whether to answer in JSON. -/
structure FormSettings where
  json : Bool

/-- The option for answers in JSON. -/
def jsonOption {σ : Type} (set : σ → σ) : Opt σ := ⟨["--json"], .flag set⟩

/-- The options of a command that can answer in JSON and nothing else. -/
def FormSettings.options : List (Opt FormSettings) := [jsonOption fun s ↦ { s with json := true }]

/-- Validates the graph. -/
def validate (c : GraphContext) (s : FormSettings) : Action Unit := do
  let g ← c.graph "Validation failed: "
  let r := g.validate (← Action.orFail "" (wantsSummary (.map c.config)))
  if s.json then sayJson (View.report r) else Action.say (Display.report r)
  if !r.isValid then throw .failed

/-- What `stats` can be told. -/
structure StatsSettings where
  top : Option String
  json : Bool

/-- The options of `stats`. -/
def StatsSettings.options : List (Opt StatsSettings) :=
  [⟨["--top"], .value fun v s ↦ { s with top := some v }⟩,
    jsonOption fun s ↦ { s with json := true }]

/-- Statistics as JSON, with the rankings and the bridges after them. -/
def statsJson (s : Stats Float) (top : List (String × Nat)) (central : List (String × Float))
    (bridges : List (Edge Float)) : Json :=
  .obj (View.statsFields s ++
    [("top_nodes", .arr (top.map fun t ↦ .obj [("id", .str t.1), ("degree", Json.ofNat t.2)])),
      ("centrality", .arr (central.map fun c ↦ .obj [("id", .str c.1), ("score", .float c.2)])),
      ("bridges", Json.ofTexts (bridges.map Edge.describe))])

/-- Shows the statistics of the graph, with as many nodes of each ranking as `limit` lets through.
-/
def stats (c : GraphContext) (limit : Int) (json : Bool) : Action Unit := do
  let g ← c.graph "Stats failed: "
  let s := g.stats Decimal.quotient
  let top := firstItems limit (g.ranking .both)
  let central := firstItems limit (g.centrality Decimal.quotient)
  if json then sayJson (statsJson s top central g.bridges)
  else Action.say (Display.stats s top central g.bridges)

/-- Shows the overview of the graph. -/
def info (c : GraphContext) (s : FormSettings) : Action Unit := do
  let g ← c.graph "Info failed: "
  let summary := g.stats Decimal.quotient
  if s.json then sayJson (View.overview summary) else Action.say (Display.overview summary.overview)

/-! ### Asking -/

/-- What `query` can be told. -/
structure QuerySettings where
  kind : Option String
  target : Option String
  radius : Option String
  json : Bool

namespace QuerySettings

/-- Nothing told. -/
def initial : QuerySettings := ⟨none, none, none, false⟩

/-- The options of `query`. -/
def options : List (Opt QuerySettings) :=
  [⟨["--type"], .value fun v s ↦ { s with kind := some v }⟩,
    ⟨["--to"], .value fun v s ↦ { s with target := some v }⟩,
    ⟨["--radius"], .value fun v s ↦ { s with radius := some v }⟩,
    jsonOption fun s ↦ { s with json := true }]

/-- The question that is asked; about related concepts, unless another kind is named. -/
def question (s : QuerySettings) : Action Question := do
  let radius ← integerOption 1 s.radius
  match s.kind.getD "related" with
  | "related" => return .related
  | "prerequisites" => return .prerequisites
  | "path" => return .route s.target
  | "neighborhood" => return .neighborhood radius
  | other => Action.misuse (.notChoice other)

end QuerySettings

/-- Answers a question about a concept. -/
def query (c : GraphContext) (id : String) (q : Question) (json : Bool) : Action Unit := do
  let g ← c.graph "Query failed: "
  let answer ← Action.orFault "Query failed: " (q.answer g id)
  if json then sayJson answer.toJson else Action.say answer.lines

end ConceptAtlas.Command
