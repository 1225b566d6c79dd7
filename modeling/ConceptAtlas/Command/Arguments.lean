/-!
# Arguments

Options and positional arguments of a command. An option is named by two hyphens and a word, and may
also have a hyphen and one letter. A value stands after `=`, right after the letter, or in the next
argument; letters without values may stand together. `--` ends the options. What is given twice
counts as given last.

A scan only sorts arguments. The values it puts into the settings are texts, checked afterwards.
-/

namespace ConceptAtlas.Command

/-- Why arguments cannot be understood. -/
inductive Misuse
  | noOption (name : String)
  | noValue (option : String)
  | needlessValue (option : String)
  | noCommand (name : String)
  | commandMissing
  | argumentMissing (name : String)
  | argumentLeft (text : String)
  | notInteger (text : String)
  | notChoice (text : String)
  | isDirectory (path : String)
  deriving DecidableEq, Repr

/-- The wording of a misuse. -/
def Misuse.message : Misuse → String
  | .noOption name => s!"No such option: {name}"
  | .noValue option => s!"Option '{option}' requires an argument."
  | .needlessValue option => s!"Option '{option}' does not take a value."
  | .noCommand name => s!"No such command '{name}'."
  | .commandMissing => "Missing command."
  | .argumentMissing name => s!"Missing argument '{name}'."
  | .argumentLeft text => s!"Got unexpected extra argument ({text})"
  | .notInteger text => s!"'{text}' is not a valid integer."
  | .notChoice text => s!"'{text}' is not one of the choices."
  | .isDirectory path => s!"File '{path}' is a directory."

/-- What is shown in place of running a command. -/
inductive Page
  | help
  | version
  deriving DecidableEq, Repr

/-- What an option does: it sets something, by itself or by a value, or asks for a page. -/
inductive Effect (σ : Type)
  | flag (set : σ → σ)
  | value (set : String → σ → σ)
  | page (p : Page)

/-- An option with its names. -/
structure Opt (σ : Type) where
  names : List String
  effect : Effect σ

/-- The option that every command has. -/
def helpOption {σ : Type} : Opt σ := ⟨["--help"], .page .help⟩

/-- What arguments say: settings, the page that is asked for first, and positional arguments. -/
structure Scan (σ : Type) where
  settings : σ
  page : Option Page
  positional : List String

namespace Scan

variable {σ : Type}

/-- The scan of no arguments. -/
def start (settings : σ) : Scan σ := ⟨settings, none, []⟩

/-- The scan after a page was asked for. -/
def ask (p : Page) (s : Scan σ) : Scan σ := { s with page := s.page.or (some p) }

/-- The scan after a setting. -/
def set (f : σ → σ) (s : Scan σ) : Scan σ := { s with settings := f s.settings }

/-- The scan after a positional argument. -/
def push (arg : String) (s : Scan σ) : Scan σ := { s with positional := s.positional ++ [arg] }

/-- The scan after all further arguments, none of which is an option. -/
def close (args : List String) (s : Scan σ) : Scan σ :=
  { s with positional := s.positional ++ args }

end Scan

variable {σ : Type}

/-- The option with a name. -/
def optionNamed? (options : List (Opt σ)) (name : String) : Option (Opt σ) :=
  options.find? fun o ↦ o.names.contains name

/-- What an argument in hand and the next one do to a scan: the scan after them, and whether the
next one was used. -/
abbrev Taken (σ : Type) := Except Misuse (Scan σ × Bool)

/-- Gives an option the next argument as its value. -/
def takeNext (name : String) (set : String → σ → σ) (next : Option String) (s : Scan σ) : Taken σ :=
  match next with
  | some v => .ok (s.set (set v), true)
  | none => .error (.noValue name)

/-- Takes an option by its word. -/
def takeWord (options : List (Opt σ)) (arg : String) (next : Option String) (s : Scan σ) :
    Taken σ :=
  let name := String.ofList (arg.toList.takeWhile (· != '='))
  let value? : Option String :=
    match arg.toList.dropWhile (· != '=') with
    | [] => none
    | _ :: v => some (String.ofList v)
  match (optionNamed? options name).map Opt.effect, value? with
  | none, _ => .error (.noOption name)
  | some (.flag set), none => .ok (s.set set, false)
  | some (.page p), none => .ok (s.ask p, false)
  | some (.value set), none => takeNext name set next s
  | some (.value set), some v => .ok (s.set (set v), false)
  | some _, some _ => .error (.needlessValue name)

/-- Takes options by their letters. -/
def takeLetters (options : List (Opt σ)) (next : Option String) : List Char → Scan σ → Taken σ
  | [], s => .ok (s, false)
  | c :: cs, s =>
    let name := String.ofList ['-', c]
    match (optionNamed? options name).map Opt.effect with
    | none => .error (.noOption name)
    | some (.flag set) => takeLetters options next cs (s.set set)
    | some (.page p) => takeLetters options next cs (s.ask p)
    | some (.value set) =>
      if cs.isEmpty then takeNext name set next s else .ok (s.set (set (String.ofList cs)), false)

/-- Whether an argument is written as an option. -/
def isOption (arg : String) : Bool := arg.startsWith "-" && arg.length > 1

/-- Takes an argument that is written as an option. -/
def take (options : List (Opt σ)) (arg : String) (next : Option String) (s : Scan σ) : Taken σ :=
  if arg.startsWith "--" then takeWord options arg next s
  else takeLetters options next (arg.toList.drop 1) s

/-- Sorts arguments. Unless options may follow positional arguments, the first one ends them. -/
def scanFrom (options : List (Opt σ)) (mixed : Bool) (s : Scan σ) :
    List String → Except Misuse (Scan σ)
  | [] => .ok s
  | arg :: rest =>
    if arg = "--" then .ok (s.close rest)
    else if isOption arg then
      match take options arg rest.head? s with
      | .error e => .error e
      | .ok (s, used) => scanFrom options mixed s (if used then rest.drop 1 else rest)
    else if mixed then scanFrom options mixed (s.push arg) rest
    else .ok (s.close (arg :: rest))
termination_by args => args.length
decreasing_by
  · split <;> simp only [List.length_cons, List.length_drop] <;> omega
  · simp

/-- Sorts the arguments of a command whose options may follow positional arguments. -/
def scanMixed (options : List (Opt σ)) (settings : σ) (args : List String) :
    Except Misuse (Scan σ) := scanFrom (helpOption :: options) true (.start settings) args

/-- Sorts the arguments of a group of commands, whose options come first. -/
def scanLeading (options : List (Opt σ)) (settings : σ) (args : List String) :
    Except Misuse (Scan σ) := scanFrom (helpOption :: options) false (.start settings) args

/-- Without options among them, arguments are positional. -/
theorem scanFrom_of_not_isOption (options : List (Opt σ)) (s : Scan σ) {args : List String}
    (h : ∀ a ∈ args, isOption a = false) : scanFrom options true s args = .ok (s.close args) := by
  induction args generalizing s with
  | nil => simp [scanFrom, Scan.close]
  | cons a args ih =>
    have ha : isOption a = false := h a (by simp)
    have hne : a ≠ "--" := by
      rintro rfl
      revert ha
      decide +kernel
    rw [scanFrom, if_neg hne, if_neg (by simp [ha]), if_pos rfl,
      ih _ fun b hb ↦ h b (List.mem_cons_of_mem _ hb)]
    simp [Scan.push, Scan.close]

end ConceptAtlas.Command
