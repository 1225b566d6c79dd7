import ConceptAtlas.Calendar
import ConceptAtlas.Files.Disk
import ConceptAtlas.Files.Glob
import ConceptAtlas.Text.Utf8
import ConceptAtlas.Value.Literal

/-!
# Faults and breakdowns

What can go wrong, by cause. A `Fault` is a failure that the library foresees: it has a kind, which
callers sort failures by, and one wording, `Fault.message`. A `Breakdown` is a failure below the
library's own rules, such as a date that no calendar has; commands do not report it but end with it.
-/

namespace ConceptAtlas

/-! ### Faults -/

/-- The kinds that faults are sorted by. -/
inductive FaultKind
  | io
  | config
  | notFound
  | invalidPath
  | parse
  | invalidData
  | operation
  deriving DecidableEq, Repr

/-- The name of a kind. -/
def FaultKind.name : FaultKind → String
  | .io => "io"
  | .config => "config"
  | .notFound => "not_found"
  | .invalidPath => "invalid_path"
  | .parse => "parse"
  | .invalidData => "invalid_data"
  | .operation => "operation"

/-- All kinds. -/
def FaultKind.all : List FaultKind :=
  [.io, .config, .notFound, .invalidPath, .parse, .invalidData, .operation]

/-- Why a text could not be read from a file. -/
inductive ReadCause
  | os (fault : OsFault)
  | encoding (fault : Text.Utf8Fault)
  deriving DecidableEq, Repr

/-- The wording of a cause. -/
def ReadCause.message : ReadCause → String
  | .os fault => fault.message
  | .encoding fault => fault.message

/-- Why reading or writing failed. -/
inductive IoCause
  | reading (cause : ReadCause)
  | saving (fault : OsFault)
  | hashing (fault : OsFault)
  | writingConfig (fault : OsFault)
  | notDirectory
  | other (text : String)

/-- The wording of a cause. -/
def IoCause.message : IoCause → String
  | .reading cause => s!"Failed to read file: {cause.message}"
  | .saving fault => s!"Failed to save graph: {fault.message}"
  | .hashing fault => s!"Failed to hash file: {fault.message}"
  | .writingConfig fault => s!"Failed to write configuration: {fault.message}"
  | .notDirectory => "Not a directory"
  | .other text => text

/-- Why a configuration, or a request that one has to settle, cannot be used. -/
inductive ConfigCause
  | unknownPolicy (name : String)
  | noContentPath
  | fileMissing (path : Path)
  | fileRefused (issues : List String)
  | refused (errors : List String)
  | unknownKey (key : String)
  | fileExists (path : Path)
  | noTarget
  | other (text : String)

/-- The wording of a cause. -/
def ConfigCause.message : ConfigCause → String
  | .unknownPolicy name => s!"Unknown error handling policy: {name}"
  | .noContentPath => "Content path not set; call with_content_path() before build()"
  | .fileMissing path => s!"Configuration file not found: {path.text}"
  | .fileRefused issues => "Configuration file validation failed: " ++ "; ".intercalate issues
  | .refused errors => "Configuration validation failed: " ++ "; ".intercalate errors
  | .unknownKey key => s!"Key '{key}' not found in configuration"
  | .fileExists path =>
    s!"Configuration file already exists: {path.text} (use --force to overwrite)"
  | .noTarget => "--to is required for path queries"
  | .other text => text

/-- Why a text, a record or a card cannot be read. -/
inductive ParseCause
  | invalid (what : String) (value : Json)
  | missing (what : String) (shown : Option Json) (key : String)
  | relationship (value : Json)
  | origin (value : Json)
  | snapshotText
  | snapshotKind
  | snapshotParts
  | frontMatterOpen
  | frontMatterText
  | frontMatterKind (kind : String)
  | noId (path : Path)
  | idList (key : String) (kind : String)
  | other (text : String)

/-- The wording of a cause. -/
def ParseCause.message : ParseCause → String
  | .invalid what value => s!"Invalid {what}: {value.literal}"
  | .missing what (some record) key => s!"Invalid {what} {record.literal}: {Text.literal key}"
  | .missing what none key => s!"Invalid {what}: {Text.literal key}"
  | .relationship value => s!"Unrecognized relationship: {value.literal}"
  | .origin value => s!"Unrecognized edge origin: {value.literal}"
  | .snapshotText => "Failed to parse graph JSON: <detail>"
  | .snapshotKind => "Graph snapshot must be a JSON object"
  | .snapshotParts => "Graph snapshot is missing nodes or edges"
  | .frontMatterOpen => "Unterminated frontmatter block"
  | .frontMatterText => "Invalid YAML frontmatter: <detail>"
  | .frontMatterKind kind => s!"Frontmatter must be a mapping, got {kind}"
  | .noId path => s!"Cannot derive concept id from {path.text}"
  | .idList key kind => s!"'{key}' must be a list of concept ids, got {kind}"
  | .other text => text

/-- Why data that is well formed cannot be taken. -/
inductive DataCause
  | sourceMissing (id : String)
  | targetMissing (id : String)
  | other (text : String)
  deriving DecidableEq, Repr

/-- The wording of a cause. -/
def DataCause.message : DataCause → String
  | .sourceMissing id => s!"Edge source node not found: {id}"
  | .targetMissing id => s!"Edge target node not found: {id}"
  | .other text => text

/-- What was looked for and not found. -/
inductive Missing
  | node (id : String)
  | contentDirectory (path : Path)
  | fileFor (id : String) (base : Path)
  | file (path : Path)
  | resource (kind id : String) (text : Option String)
  deriving DecidableEq, Repr

/-- The wording of something not found; a text of its own counts if it is not empty. -/
def Missing.message : Missing → String
  | .node id => s!"node not found: {id}"
  | .contentDirectory path => s!"content directory not found: {path.text}"
  | .fileFor id base => s!"File with id '{id}' not found in {base.text}"
  | .file path => s!"File not found: {path.text}"
  | .resource kind id text =>
    match text with
    | some t => if t.isEmpty then s!"{kind} not found: {id}" else t
    | none => s!"{kind} not found: {id}"

/-- A failure that the library foresees. -/
inductive Fault
  | io (cause : IoCause) (path : Option Path)
  | config (cause : ConfigCause)
  | notFound (what : Missing)
  | invalidPath (path : Path) (reason : String)
  | parse (cause : ParseCause)
  | invalidData (cause : DataCause)
  | operation (text : String)

namespace Fault

/-- The kind of a fault. -/
def kind : Fault → FaultKind
  | .io _ _ => .io
  | .config _ => .config
  | .notFound _ => .notFound
  | .invalidPath _ _ => .invalidPath
  | .parse _ => .parse
  | .invalidData _ => .invalidData
  | .operation _ => .operation

/-- The wording of a fault. -/
def message : Fault → String
  | .io cause (some path) => s!"I/O error: {cause.message} ({path.text})"
  | .io cause none => s!"I/O error: {cause.message}"
  | .config cause => s!"Configuration error: {cause.message}"
  | .notFound what => what.message
  | .invalidPath path reason => s!"Invalid path {path.text}: {reason}"
  | .parse cause => s!"Parse error: {cause.message}"
  | .invalidData cause => s!"Invalid data: {cause.message}"
  | .operation text => text

end Fault

/-! ### Breakdowns -/

/-- A failure below the library's own rules. -/
inductive Breakdown
  | weightTooLarge
  | integerTooLong (digits : Nat)
  | integerUnwritable
  | sixtiethsTooLarge
  | endless
  | calendar (fault : CalendarFault)
  | numeral (text : String) (base : Nat)
  | decimal (text : String)
  | noNumeral
  | truthName (name : String)
  | timestamp
  | codePoint (representable : Bool)
  | glob (fault : GlobFault)
  | logLevel (name : String)
  | direction (name : String)
  | noIndex (index : Int)
  | missingKey (key : String)
  | noMapping
  | wrongKind
  | encoding (fault : Text.Utf8Fault)
  | os (fault : OsFault)
  deriving DecidableEq, Repr

/-- The wording of a glob's fault. -/
def GlobFault.message : GlobFault → String
  | .empty => "a glob may not be empty"
  | .absolute => "a glob may not start at the root"
  | .noName => "a glob needs a name"
  | .noStep => "a glob needs a name before its slash"
  | .mixedStars => "'**' may only be a whole name of a glob"

/-- The wording of a breakdown. -/
def Breakdown.message : Breakdown → String
  | .weightTooLarge => "integer weight too large for a double"
  | .integerTooLong digits =>
    s!"Exceeds the limit (4300 digits) for integer string conversion: value has {digits} " ++
      "digits; use sys.set_int_max_str_digits() to increase the limit"
  | .integerUnwritable =>
    "Exceeds the limit (4300 digits) for integer string conversion; " ++
      "use sys.set_int_max_str_digits() to increase the limit"
  | .sixtiethsTooLarge => "int too large to convert to float"
  | .endless => "a value without end"
  | .calendar fault => fault.message
  | .numeral text base => s!"invalid literal for int() with base {base}: {Text.literal text}"
  | .decimal text => s!"could not convert string to float: {Text.literal text}"
  | .noNumeral => "string index out of range"
  | .truthName name => Text.literal name
  | .timestamp => "'NoneType' object has no attribute 'groupdict'"
  | .codePoint true => "chr() arg not in range(0x110000)"
  | .codePoint false => "Python int too large to convert to C int"
  | .glob fault => fault.message
  | .logLevel name => s!"Invalid log level: {name}"
  | .direction name => s!"Unknown direction: {name}"
  | .noIndex index => s!"No node at index {index}"
  | .missingKey key => s!"Missing key: {key}"
  | .noMapping => "a mapping is needed"
  | .wrongKind => "a value of another kind is needed"
  | .encoding fault => fault.message
  | .os fault => fault.message

/-! ### Failures -/

/-- A failure of either sort. -/
inductive Failure
  | fault (fault : Fault)
  | breakdown (breakdown : Breakdown)

/-- The wording of a failure. -/
def Failure.message : Failure → String
  | .fault f => f.message
  | .breakdown b => b.message

/-- An answer or a failure. -/
abbrev Outcome := Except Failure

/-- A sequence of two steps succeeds exactly if the first one does and the second one does with what
the first one gave. -/
theorem bind_eq_ok {ε α β : Type _} {x : Except ε α} {f : α → Except ε β} {b : β} :
    (x >>= f) = .ok b ↔ ∃ a, x = .ok a ∧ f a = .ok b := by
  cases x with
  | error e => exact ⟨(nomatch ·), fun ⟨_, h, _⟩ ↦ nomatch h⟩
  | ok a => exact ⟨fun h ↦ ⟨a, rfl, h⟩, fun ⟨_, h, hf⟩ ↦ Except.ok.inj h ▸ hf⟩

/-- A sequence of two steps fails as the first one does, or as the second one does with what the
first one gave. -/
theorem bind_eq_error {ε α β : Type _} {x : Except ε α} {f : α → Except ε β} {e : ε} :
    (x >>= f) = .error e ↔ x = .error e ∨ ∃ a, x = .ok a ∧ f a = .error e := by
  cases x with
  | error e' =>
    refine ⟨fun h ↦ .inl (congrArg Except.error (Except.error.inj h)), ?_⟩
    rintro (h | ⟨a, ha, -⟩)
    · exact congrArg Except.error (Except.error.inj h)
    · cases ha
  | ok a =>
    refine ⟨fun h ↦ .inr ⟨a, rfl, h⟩, ?_⟩
    rintro (h | ⟨b, hb, h⟩)
    · cases h
    · cases hb
      exact h

theorem map_eq_ok {ε α β : Type _} {f : α → β} {x : Except ε α} {b : β} :
    x.map f = .ok b ↔ ∃ a, x = .ok a ∧ f a = b := by
  cases x with
  | error e => exact ⟨(nomatch ·), fun ⟨_, h, _⟩ ↦ nomatch h⟩
  | ok a =>
    exact ⟨fun h ↦ ⟨a, rfl, Except.ok.inj h⟩, fun ⟨_, h, hf⟩ ↦ Except.ok.inj h ▸ congrArg _ hf⟩

/-- Another account of what went wrong changes no success. -/
theorem mapError_eq_ok {ε δ α : Type _} {x : Except ε α} {f : ε → δ} {a : α} :
    x.mapError f = .ok a ↔ x = .ok a := by
  cases x with
  | error e => exact ⟨(nomatch ·), (nomatch ·)⟩
  | ok b => exact ⟨fun h ↦ congrArg _ (Except.ok.inj h), fun h ↦ congrArg _ (Except.ok.inj h)⟩

/-- Fails with a fault. -/
def refuse {α : Type _} (f : Fault) : Outcome α := .error (.fault f)

/-- Fails with a breakdown. -/
def breakDown {α : Type _} (b : Breakdown) : Outcome α := .error (.breakdown b)

end ConceptAtlas
