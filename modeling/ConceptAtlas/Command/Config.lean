import ConceptAtlas.Command.Session
import ConceptAtlas.Config.Store
import ConceptAtlas.Yaml.Reading

/-!
# Commands on the configuration

`path`, `show`, `get` and `init`. They work without a configuration that can be loaded, as far as
they do not have to load it themselves.
-/

namespace ConceptAtlas.Command

/-- What configuration commands have in common: the environment, and the file that was asked for. -/
structure ConfigContext where
  environment : Environment
  file : Option String

namespace ConfigContext

/-- The configuration file. -/
def path (c : ConfigContext) : Path := Config.file c.environment c.file

/-- The configuration in effect. -/
def load (c : ConfigContext) : Action Config := do
  Action.orFail "" (Config.load Yaml.parse (← Action.disk) c.environment c.file)

end ConfigContext

/-- Shows where the configuration is. -/
def showPath (c : ConfigContext) : Action Unit := do
  Action.say [c.path.text]
  if !(← Action.disk).contains c.path then
    Action.remark "(file does not exist; run \x60conceptgraph config init\x60 to create it)"

/-- Shows the configuration in effect. -/
def showConfig (c : ConfigContext) : Action Unit := do
  Action.write (← c.load).text

/-- Writes a value of a configuration: collections as YAML, null as an empty line, bytes as they
are. -/
def writeValue : Value → Action Unit
  | .map entries => Action.write (Yaml.print (.map entries))
  | .list items => Action.write (Yaml.print (.list items))
  | .null => Action.say [""]
  | .bytes bytes => Action.put (bytes ++ Text.encodeUtf8 "\n")
  | v => Action.say [v.text]

/-- Shows the value under a dotted key. -/
def showValue (c : ConfigContext) (key : String) : Action Unit := do
  writeValue (← Action.orFault "" ((← c.load).value key))

/-- What `init` can be told. -/
structure InitSettings where
  file : Option String
  force : Bool

namespace InitSettings

/-- Nothing told. -/
def initial : InitSettings := ⟨none, false⟩

/-- The options of `init`. -/
def options : List (Opt InitSettings) :=
  [⟨["--file"], .value fun v s ↦ { s with file := some v }⟩,
    ⟨["--force"], .flag fun s ↦ { s with force := true }⟩]

end InitSettings

/-- Writes the built-in configuration to a file. -/
def initConfig (c : ConfigContext) (s : InitSettings) : Action Unit := do
  let p := ((s.file.filter (!·.isEmpty)).map Path.ofString).getD c.path
  let (d, result) := Config.write (← Action.disk) p s.force
  Action.setDisk d
  Action.orFault "" result
  Action.say [s!"✅ Configuration written to: {p.text}"]

end ConceptAtlas.Command
