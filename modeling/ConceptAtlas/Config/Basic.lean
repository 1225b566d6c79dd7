import ConceptAtlas.Fault

/-!
# Configurations

A configuration is a mapping with sections. This module has the built-in one, the merging of a
configuration over another, the value under a dotted key, and the paths that a configuration names.

Merging goes into two mappings under one key; anything else is replaced. A key that is in both keeps
its place.
-/

namespace ConceptAtlas

/-- The entries of a configuration. -/
abbrev Config := List (Value × Value)

namespace Config

/-- A text as a key. -/
def entry (key : String) (v : Value) : Value × Value := (.str key, v)

/-- The built-in configuration. -/
def builtIn : Config :=
  [entry "project_name" (.str "conceptgraph"),
    entry "base_path" (.str "."),
    entry "content" (.map [entry "path" (.str "content"), entry "glob" (.str "**/*.md")]),
    entry "graph" (.map [entry "output_path" (.str "data/graphs/graph.json"),
      entry "error_handling" (.str "collect"), entry "use_cache" (.bool true)]),
    entry "validation" (.map [entry "include_summary" (.bool true)]),
    entry "logging" (.map [entry "level" (.str "INFO"), entry "file" .null])]

/-! ### Merging -/

mutual

/-- The entries of `base` with overriding ones over them. -/
def merge (base overrides : Config) : Config :=
  match overrides with
  | [] => base
  | (k, v) :: rest =>
    let merged := mergeValue (Assoc.findBy? Value.sameKey k base) v
    merge (Assoc.putBy Value.sameKey k merged base) rest
termination_by structural overrides

/-- What stands under a key where `v` comes over what was there. -/
def mergeValue (old : Option Value) (v : Value) : Value :=
  match v with
  | .map overrides =>
    match old with
    | some (.map base) => .map (merge base overrides)
    | _ => .map overrides
  | v => v
termination_by structural v

end

/-! ### Looking up -/

/-- The value under a list of keys, each in the mapping that the one before leads to. -/
def lookup? (v : Value) : List String → Option Value
  | [] => some v
  | key :: keys =>
    match v with
    | .map entries => (Value.value? key entries).bind (lookup? · keys)
    | _ => none

/-- The value under a dotted key. -/
def value (c : Config) (key : String) : Except Fault Value :=
  match lookup? (.map c) (Text.splitOn '.' key) with
  | some v => .ok v
  | none => .error (.config (.unknownKey key))

/-! ### Paths -/

/-- A text as a path; only texts are paths. -/
def asPath : Value → Outcome Path
  | .str s => .ok (.ofString s)
  | _ => breakDown .wrongKind

/-- The base of all relative paths; the current directory if it is left out. -/
def basePath (c : Config) : Outcome Path :=
  let v := Value.valueOrNull "base_path" c
  if v.isTruthy then asPath v else .ok (.ofString ".")

/-- What stands under a key of a section. -/
def inSection (c : Config) (name key : String) : Outcome Value :=
  match Value.value? name c with
  | none => breakDown (.missingKey name)
  | some (.map entries) =>
    match Value.value? key entries with
    | some v => .ok v
    | none => breakDown (.missingKey key)
  | some _ => breakDown .wrongKind

/-- A path of a section; a relative one is below the base path. -/
def pathIn (c : Config) (name key : String) : Outcome Path := do
  let path ← asPath (← c.inSection name key)
  if path.isAbsolute then return path else return (← c.basePath).under path

/-- The root of the content. -/
def contentPath (c : Config) : Outcome Path := c.pathIn "content" "path"

/-- The place of the snapshot. -/
def snapshotPath (c : Config) : Outcome Path := c.pathIn "graph" "output_path"

end Config

end ConceptAtlas
