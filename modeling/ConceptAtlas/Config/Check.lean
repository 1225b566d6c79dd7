import ConceptAtlas.Config.Basic
import ConceptAtlas.Text.Class

/-!
# Checking a configuration

What is wrong with a configuration, in the order of its sections. Errors make it unusable, warnings
do not. What is said of a value shows it; a value that cannot be written breaks the check down.

A checker may be asked about one configuration after the other. It holds what it found last, and
forgets that when it is asked again (`Checker.ask`). `check` is the answer of a new checker.
-/

namespace ConceptAtlas.Config

/-- The names of the ways to handle errors. -/
def policies : List String := ["collect", "fail_fast"]

/-- The names of the levels of a log. -/
def logLevels : List String := ["DEBUG", "INFO", "WARNING", "ERROR", "CRITICAL"]

/-- What checks found. -/
structure Verdict where
  errors : List String
  warnings : List String
  deriving DecidableEq, Repr

/-- A single check: what it finds, unless it breaks down. -/
abbrev Check := Except Breakdown Verdict

namespace Verdict

/-- Whether there are no errors. -/
def isValid (v : Verdict) : Bool := v.errors.isEmpty

/-- All that was found. -/
def issues (v : Verdict) : List String := v.errors ++ v.warnings

/-- Nothing. -/
def none : Verdict := ⟨[], []⟩

/-- What two checks found. -/
def append (v w : Verdict) : Verdict := ⟨v.errors ++ w.errors, v.warnings ++ w.warnings⟩

instance : Append Verdict := ⟨append⟩

@[simp]
theorem errors_append (v w : Verdict) : (v ++ w).errors = v.errors ++ w.errors := rfl

/-- Two checks together find no error exactly if neither finds one. -/
theorem isValid_append (v w : Verdict) : (v ++ w).isValid = (v.isValid && w.isValid) := by
  cases v with
  | mk es _ => cases es <;> simp [isValid]

/-- What was found and what checks add to it, one after the other; a breakdown ends them. -/
def take (v : Verdict) : List Check → Verdict × Option Breakdown
  | [] => (v, .none)
  | .ok w :: rest => take (v ++ w) rest
  | .error b :: _ => (v, some b)

end Verdict

/-! ### Single checks -/

/-- Whether a value is a text. -/
def isText : Value → Bool
  | .str _ => true
  | _ => false

/-- Whether a value is a text with content. -/
def isFilledText : Value → Bool
  | .str s => !s.isEmpty
  | _ => false

/-- Whether a value is a truth value. -/
def isTruth : Value → Bool
  | .bool _ => true
  | _ => false

/-- Whether a value is one of some texts. -/
def isOneOf (names : List String) : Value → Bool
  | .str s => names.contains s
  | _ => false

/-- Whether a value names a level of a log, in letters of any case. -/
def isLevel : Value → Bool
  | .str s => logLevels.contains (Text.toUpper s)
  | _ => false

/-- Whether a value is null or a text. -/
def isNullOrText : Value → Bool
  | .null => true
  | v => isText v

/-- The text of a value in what is said about it. -/
def shown (v : Value) : Except Breakdown String :=
  if v.isWritable then .ok v.text else .error .integerUnwritable

/-- An error about a value, if a condition does not hold. -/
def require (holds : Bool) (v : Value) (error : String → String) : Check :=
  if holds then .ok .none else (shown v).map fun text ↦ ⟨[error text], []⟩

/-- A warning about a value, if a text with content does not end as it should. -/
def expectEnd (ending : String) (v : Value) (warning : String → String) : Check :=
  match v with
  | .str s => .ok (if s.isEmpty || s.endsWith ending then .none else ⟨[], [warning s]⟩)
  | _ => .ok .none

/-- The texts of a list, as a value's literal. -/
def choices (names : List String) : String := (Value.list (names.map .str)).literal

/-! ### Sections -/

/-- The checks of the entries of a section; a section that is left out counts as empty. -/
def checkSection (c : Config) (name : String) (checks : Config → List Check) : List Check :=
  match (Value.value? name c).getD (.map []) with
  | .map entries => checks entries
  | _ => [.ok ⟨[s!"{name} section must be a dictionary"], []⟩]

/-- Checks where the content is. -/
def checkContent (c : Config) : List Check :=
  let path := Value.valueOrNull "path" c
  let glob := Value.valueOrNull "glob" c
  [require (isFilledText path) path fun t ↦ s!"content.path must be a non-empty string, got: {t}",
    require (isFilledText glob) glob fun t ↦ s!"content.glob must be a non-empty string, got: {t}"]

/-- Checks how the graph is built. -/
def checkGraph (c : Config) : List Check :=
  let output := Value.valueOrNull "output_path" c
  let policy := Value.valueOrNull "error_handling" c
  let cache := Value.valueOrNull "use_cache" c
  let valid := choices policies
  [require (isFilledText output) output fun t ↦
      s!"graph.output_path must be a non-empty string, got: {t}",
    expectEnd ".json" output fun t ↦ s!"graph.output_path does not end in .json: {t}",
    require (isOneOf policies policy) policy fun t ↦
      s!"Invalid graph.error_handling '{t}'. Valid: {valid}",
    require (isTruth cache) cache fun t ↦ s!"graph.use_cache must be boolean, got: {t}"]

/-- Checks how the graph is validated. -/
def checkValidation (c : Config) : List Check :=
  let summary := (Value.value? "include_summary" c).getD (.bool true)
  [require (isTruth summary) summary fun t ↦
    s!"validation.include_summary must be boolean, got: {t}"]

/-- Checks how a log is written. -/
def checkLogging (c : Config) : List Check :=
  let level := Value.valueOrNull "level" c
  let file := Value.valueOrNull "file" c
  let valid := choices logLevels
  [require (isLevel level) level fun t ↦ s!"Invalid logging.level '{t}'. Valid: {valid}",
    require (isNullOrText file) file fun t ↦ s!"logging.file must be a string or null, got: {t}"]

/-! ### Whole configurations -/

/-- The checks of a configuration, in order. -/
def checks (c : Config) : List Check :=
  let project := Value.valueOrNull "project_name" c
  let base := Value.valueOrNull "base_path" c
  [require (isFilledText project) project fun t ↦
      s!"project_name must be a non-empty string, got: {t}",
    require (isText base) base fun t ↦ s!"base_path must be a string, got: {t}"] ++
    checkSection c "content" checkContent ++
    checkSection c "graph" checkGraph ++
    checkSection c "validation" checkValidation ++
    checkSection c "logging" checkLogging

/-- A checker: what it found when it was asked last. -/
abbrev Checker := Verdict

/-- A checker that is asked about a configuration: what it holds then, and its answer, which is
whether the configuration is valid, and all issues. -/
def Checker.ask (k : Checker) (c : Config) : Checker × Except Breakdown (Bool × List String) :=
  let forgetful : Checker := { k with errors := [], warnings := [] }
  match forgetful.take (checks c) with
  | (k, none) => (k, .ok (k.isValid, k.issues))
  | (k, some b) => (k, .error b)

/-- What a new checker finds in a configuration. -/
def check (c : Config) : Check :=
  match Checker.ask .none c with
  | (k, .ok _) => .ok k
  | (_, .error b) => .error b

end ConceptAtlas.Config
