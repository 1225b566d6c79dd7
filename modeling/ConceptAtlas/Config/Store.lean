import ConceptAtlas.Config.Check
import ConceptAtlas.Config.Environment
import ConceptAtlas.Files.Discovery
import ConceptAtlas.Yaml.Printer

/-!
# Configuration files

Which file holds the configuration, reading it over the built-in configuration, and writing the
built-in one. `load` answers only with a configuration that the check accepts
(`isValid_of_load`), whatever parser reads the file.
-/

namespace ConceptAtlas.Config

/-- The variable that names the configuration file. -/
def fileVariable : String := "CONCEPTGRAPH_CONFIG"

/-- The home directory; slashes at its end do not count. -/
def home (env : Environment) : Path :=
  let cs := ((env.value? "HOME").getD "").toList
  let dropped := (cs.reverse.dropWhile (· == '/')).reverse
  Path.ofString (if dropped.isEmpty then "/" else String.ofList dropped)

/-- The place of the configuration in a home directory. -/
def homeFile (env : Environment) : Path :=
  (((home env).child ".config").child "conceptgraph").child "config.yaml"

/-- The configuration file: the one that is asked for, else the one that the environment names, else
the one in the home directory. Empty names do not count. -/
def file (env : Environment) (asked : Option String) : Path :=
  match asked.filter (!·.isEmpty), (env.value? fileVariable).filter (!·.isEmpty) with
  | some name, _ => .ofString name
  | none, some name => .ofString name
  | none, none => homeFile env

/-! ### Reading -/

/-- What a configuration file holds, or what is wrong with it; `shown` is its name in what is said.
-/
def contentOf (parse : Yaml.Parser) (d : Disk) (shown : String) :
    Outcome (Except String Config) :=
  let p := Path.ofString shown
  if !d.contains p then .ok (.error s!"Configuration file not found: {shown}")
  else
    match d.readText p with
    | .error (.os fault) => .ok (.error s!"Error reading config file: {fault.message}")
    | .error (.encoding fault) => breakDown (.encoding fault)
    | .ok text =>
      match parse text.toList with
      | .error .malformed => .ok (.error "Invalid YAML syntax in config file: <detail>")
      | .error (.breakdown b) => breakDown b
      | .ok .null => .ok (.ok [])
      | .ok (.map entries) => .ok (.ok entries)
      | .ok _ => .ok (.error "Configuration file must contain a dictionary at root level")

/-- What is wrong with a configuration file as a file. -/
def fileIssues (parse : Yaml.Parser) (d : Disk) (shown : String) : Outcome (List String) :=
  (contentOf parse d shown).map fun r ↦
    match r with
    | .error issue => [issue]
    | .ok _ => []

/-- What is wrong with a content directory. -/
def directoryIssues (d : Disk) (p : Path) : List String :=
  if !d.contains p then [s!"Content directory does not exist: {p.text}"]
  else if !d.isDirectory p then [s!"Content path is not a directory: {p.text}"]
  else []

/-- A configuration that the check accepts. -/
def checked (c : Config) : Outcome Config :=
  match check c with
  | .error b => breakDown b
  | .ok verdict =>
    if verdict.isValid then .ok c else refuse (.config (.refused verdict.errors))

/-- What the entries of a file make of the built-in configuration. References are replaced in them
first, which has to come to an end. -/
def ofEntries (env : Environment) (entries : Config) : Outcome Config :=
  if Environment.anyEntryEndless entries then breakDown .endless
  else .ok (merge builtIn (env.expandEntries entries))

/-- The configuration in effect. A file that is asked for has to be there. -/
def load (parse : Yaml.Parser) (d : Disk) (env : Environment) (asked : Option String) :
    Outcome Config :=
  let p := file env asked
  if !d.contains p then
    if (asked.filter (!·.isEmpty)).isSome then refuse (.config (.fileMissing p))
    else checked builtIn
  else do
    match ← contentOf parse d p.text with
    | .error issue => refuse (.config (.fileRefused [issue]))
    | .ok entries => checked (← ofEntries env entries)

/-- The check of a configuration that was checked finds no error. -/
theorem isValid_of_checked {a c : Config} (h : checked a = .ok c) :
    ∃ verdict, check c = .ok verdict ∧ verdict.isValid = true := by
  rw [checked] at h
  split at h
  · cases h
  · rename_i verdict hverdict
    split at h
    · rename_i hvalid
      cases h
      exact ⟨verdict, hverdict, hvalid⟩
    · cases h

/-- A configuration that is loaded has passed the check. -/
theorem isValid_of_load {parse : Yaml.Parser} {d : Disk} {env : Environment}
    {asked : Option String} {c : Config} (h : load parse d env asked = .ok c) :
    ∃ verdict, check c = .ok verdict ∧ verdict.isValid = true := by
  simp only [load] at h
  split at h
  · split at h
    · simp [refuse] at h
    · exact isValid_of_checked h
  · obtain ⟨r, -, h⟩ := bind_eq_ok.1 h
    cases r with
    | error issue => simp [refuse] at h
    | ok entries =>
      obtain ⟨a, -, h⟩ := bind_eq_ok.1 h
      exact isValid_of_checked h

/-! ### Writing -/

/-- The text of a configuration. -/
def text (c : Config) : String := Yaml.print (.map c)

/-- The disk with the built-in configuration at a path; a file that is there already has to be
forced away. -/
def write (d : Disk) (p : Path) (force : Bool) : Disk × Except Fault Unit :=
  if d.contains p && !force then (d, .error (.config (.fileExists p)))
  else
    match d.save p (Text.encodeUtf8 (text builtIn)) with
    | (d, none) => (d, .ok ())
    | (d, some fault) => (d, .error (.io (.writingConfig fault) (some p)))

end ConceptAtlas.Config
