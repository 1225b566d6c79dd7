import Mathlib
import ConceptAtlas.Config.Store
import ConceptAtlas.Proofs.Config.Checking
import ConceptAtlas.Proofs.Files.Disk
import ConceptAtlas.Proofs.Files.Path
import ConceptAtlas.Yaml.Reading

/-!
# What loading a configuration comes to

A file for the configuration goes through five stages: its bytes are decoded, the text is read as
YAML, the value has to be a mapping, references to the environment are replaced, and the result is
checked over the built-in configuration. Each stage may refuse, and every refusal is a fault of the
configuration.

**There are four ways past the refusals** (`Config.Breaks`): bytes that are no text, a value that
the parser cannot make, a collection inside itself, and a value that the check can not show.
Otherwise loading comes to a configuration that the check accepts, or to a fault of the
configuration (`load_settles`). One byte is enough for the first way (`load_breaks`).

The four ways are those of this model, in which a file is decoded before it is parsed, a name in a
reference is a text of whole characters, and nesting has no bound. A system that decodes piecewise
may find malformed YAML before a bad byte; one whose names are encoded breaks down at a reference
with half a surrogate pair in its name; and one with a limit of recursion breaks down there.
-/

namespace ConceptAtlas.Config

variable {parse : Yaml.Parser} {d : Disk} {env : Environment} {asked : Option String} {p : Path}
  {c entries : Config} {b : Breakdown}

/-! ### The place of the file -/

/-- The place of the configuration file is spelled by its own text. -/
theorem named_file (env : Environment) (asked : Option String) : (file env asked).Named := by
  rw [file]
  split
  · exact Path.named_ofString _
  · exact Path.named_ofString _
  · exact (((Path.named_ofString _).child (by decide)).child (by decide)).child (by decide)

/-! ### What a file holds -/

/-- The entries that a value stands for in a configuration file; null stands for none. -/
inductive StandsFor : Value → Config → Prop
  | null : StandsFor .null []
  | map (entries : Config) : StandsFor (.map entries) entries

theorem standsFor_iff {v : Value} :
    StandsFor v entries ↔ v = .null ∧ entries = [] ∨ v = .map entries := by
  constructor
  · intro h
    cases h with
    | null => exact .inl ⟨rfl, rfl⟩
    | map => exact .inr rfl
  · rintro (⟨rfl, rfl⟩ | rfl)
    · exact .null
    · exact .map entries

/-- A file spells a mapping with these entries, or nothing. -/
def Holds (parse : Yaml.Parser) (d : Disk) (p : Path) (entries : Config) : Prop :=
  ∃ text v, d.Spells p text ∧ parse text.toList = .ok v ∧ StandsFor v entries

/-- A file breaks its reader down: its bytes are no text, or YAML cannot make a value of the
text. -/
inductive Garbled (parse : Yaml.Parser) (d : Disk) (p : Path) : Breakdown → Prop
  | bytes {bytes : List UInt8} {fault : Text.Utf8Fault} : d.read p = .ok bytes →
    Text.decodeUtf8 bytes = .error fault → Garbled parse d p (.encoding fault)
  | value {text : String} {b : Breakdown} : d.Spells p text →
    parse text.toList = .error (.breakdown b) → Garbled parse d p b

theorem holds_iff : Holds parse d p entries ↔
    ∃ text v, d.readText p = .ok text ∧ parse text.toList = .ok v ∧ StandsFor v entries := by
  simp only [Disk.readText_eq_ok_iff]
  rfl

theorem garbled_iff : Garbled parse d p b ↔
    (∃ fault, d.readText p = .error (.encoding fault) ∧ b = .encoding fault) ∨
      ∃ text, d.readText p = .ok text ∧ parse text.toList = .error (.breakdown b) := by
  simp only [Disk.readText_eq_ok_iff, Disk.readText_eq_encoding_iff]
  constructor
  · intro h
    cases h with
    | bytes hread hdecode => exact .inl ⟨_, ⟨_, hread, hdecode⟩, rfl⟩
    | value hspells hparse => exact .inr ⟨_, hspells, hparse⟩
  · rintro (⟨fault, ⟨bytes, hread, hdecode⟩, rfl⟩ | ⟨text, hspells, hparse⟩)
    · exact .bytes hread hdecode
    · exact .value hspells hparse

/-- A file that is there holds entries, is refused, or is garbled, and what is read of it says
which. -/
theorem contentOf_cases (hp : d.contains p = true) (hnamed : p.Named) :
    (∃ es, contentOf parse d p.text = .ok (.ok es) ∧ (∀ es', Holds parse d p es' ↔ es' = es) ∧
      ∀ b, ¬ Garbled parse d p b) ∨
    (∃ issue, contentOf parse d p.text = .ok (.error issue) ∧ (∀ es, ¬ Holds parse d p es) ∧
      ∀ b, ¬ Garbled parse d p b) ∨
    ∃ b, contentOf parse d p.text = breakDown b ∧ (∀ es, ¬ Holds parse d p es) ∧
      ∀ b', Garbled parse d p b' ↔ b' = b := by
  simp only [holds_iff, garbled_iff, contentOf, hnamed.ofString_text, hp]
  rcases d.readText p with (os | fault) | text
  · exact .inr (.inl ⟨_, rfl, by simp, by simp⟩)
  · exact .inr (.inr ⟨_, rfl, by simp, by simp⟩)
  · simp only [Except.ok.injEq, exists_and_left, exists_eq_left', reduceCtorEq, false_and,
      exists_false, false_or]
    rcases parse text.toList with (- | b) | v
    · exact .inr (.inl ⟨_, rfl, by simp, by simp⟩)
    · exact .inr (.inr ⟨_, rfl, by simp, by simp [eq_comm]⟩)
    · cases v with
      | null => exact .inl ⟨[], rfl, by simp [standsFor_iff], by simp⟩
      | map es => exact .inl ⟨es, rfl, by simp [standsFor_iff, eq_comm], by simp⟩
      | _ => exact .inr (.inl ⟨_, rfl, by simp [standsFor_iff], by simp⟩)

theorem contentOf_eq_ok_iff (hp : d.contains p = true) (hnamed : p.Named) :
    contentOf parse d p.text = .ok (.ok entries) ↔ Holds parse d p entries := by
  rcases contentOf_cases hp hnamed with
    ⟨es, h, hholds, -⟩ | ⟨issue, h, hnone, -⟩ | ⟨b, h, hnone, -⟩
  · rw [h, hholds, Except.ok.injEq, Except.ok.injEq, eq_comm]
  · rw [h]
    exact iff_of_false nofun (hnone entries)
  · rw [h]
    exact iff_of_false nofun (hnone entries)

theorem contentOf_eq_breakDown_iff (hp : d.contains p = true) (hnamed : p.Named) :
    contentOf parse d p.text = breakDown b ↔ Garbled parse d p b := by
  rcases contentOf_cases hp hnamed with ⟨es, h, -, hnone⟩ | ⟨issue, h, -, hnone⟩ | ⟨b', h, -, hb⟩
  · rw [h]
    exact iff_of_false nofun (hnone b)
  · rw [h]
    exact iff_of_false nofun (hnone b)
  · rw [h, hb]
    simp [breakDown, eq_comm]

/-! ### Replacing and checking -/

theorem ofEntries_eq_ok_iff : ofEntries env entries = .ok c ↔
    Environment.anyEntryEndless entries = false ∧
      c = merge builtIn (env.expandEntries entries) := by
  rw [ofEntries]
  cases Environment.anyEntryEndless entries with
  | false => simp [eq_comm]
  | true => simp [breakDown]

theorem ofEntries_eq_breakDown_iff : ofEntries env entries = breakDown b ↔
    Environment.anyEntryEndless entries = true ∧ b = .endless := by
  rw [ofEntries]
  cases Environment.anyEntryEndless entries with
  | false => simp [breakDown]
  | true => simp [breakDown, eq_comm]

/-- What checking comes to is what a checker answers. -/
theorem checked_eq (c : Config) : checked c =
    match (Checker.ask .none c).2 with
    | .error b => breakDown b
    | .ok (true, _) => .ok c
    | .ok (false, _) => refuse (.config (.refused (Checker.ask .none c).1.errors)) := by
  rw [checked, check, ask_eq]
  rcases Verdict.none.take (checks c) with ⟨w, - | b⟩
  · dsimp only
    cases w.isValid <;> rfl
  · rfl

theorem checked_eq_ok_iff {a : Config} :
    checked a = .ok c ↔ c = a ∧ ∃ issues, (Checker.ask .none a).2 = .ok (true, issues) := by
  rw [checked_eq]
  rcases (Checker.ask .none a).2 with b | ⟨- | -, issues⟩
  · simp [breakDown]
  · simp [refuse]
  · simp [eq_comm]

theorem checked_eq_breakDown_iff :
    checked c = breakDown b ↔ (Checker.ask .none c).2 = .error b := by
  rw [checked_eq]
  rcases (Checker.ask .none c).2 with b' | ⟨- | -, issues⟩
  · simp [breakDown]
  · simp [breakDown, refuse]
  · simp [breakDown]

/-! ### Loading -/

/-- The ways past the refusals, as far as this model goes: the file is garbled, a collection in it
stands inside itself, or the check breaks down. -/
inductive Breaks (parse : Yaml.Parser) (d : Disk) (env : Environment) (p : Path) : Breakdown → Prop
  | garbled {b : Breakdown} : Garbled parse d p b → Breaks parse d env p b
  | endless {entries : Config} : Holds parse d p entries →
    Environment.anyEntryEndless entries = true → Breaks parse d env p .endless
  | unshown {entries : Config} {b : Breakdown} : Holds parse d p entries →
    Environment.anyEntryEndless entries = false →
    (Checker.ask .none (merge builtIn (env.expandEntries entries))).2 = .error b →
    Breaks parse d env p b

/-- What loading does with what was read. -/
theorem load_eq (hp : d.contains (file env asked) = true) : load parse d env asked =
    contentOf parse d (file env asked).text >>= fun r ↦
      match r with
      | .error issue => refuse (.config (.fileRefused [issue]))
      | .ok entries => ofEntries env entries >>= checked := by
  simp only [load, hp]
  rfl

theorem load_eq_ok_iff (hp : d.contains (file env asked) = true) : load parse d env asked = .ok c ↔
    ∃ entries, Holds parse d (file env asked) entries ∧
      Environment.anyEntryEndless entries = false ∧
      c = merge builtIn (env.expandEntries entries) ∧
      ∃ issues, (Checker.ask .none c).2 = .ok (true, issues) := by
  rw [load_eq hp, bind_eq_ok]
  constructor
  · rintro ⟨issue | entries, hcontent, h⟩
    · cases h
    · obtain ⟨a, ha, hchecked⟩ := bind_eq_ok.1 h
      obtain ⟨hend, rfl⟩ := ofEntries_eq_ok_iff.1 ha
      obtain ⟨rfl, hvalid⟩ := checked_eq_ok_iff.1 hchecked
      exact ⟨entries, (contentOf_eq_ok_iff hp (named_file _ _)).1 hcontent, hend, rfl, hvalid⟩
  · rintro ⟨entries, hholds, hend, rfl, hvalid⟩
    exact ⟨.ok entries, (contentOf_eq_ok_iff hp (named_file _ _)).2 hholds,
      bind_eq_ok.2 ⟨_, ofEntries_eq_ok_iff.2 ⟨hend, rfl⟩, checked_eq_ok_iff.2 ⟨rfl, hvalid⟩⟩⟩

theorem load_eq_breakDown_iff (hp : d.contains (file env asked) = true) :
    load parse d env asked = breakDown b ↔ Breaks parse d env (file env asked) b := by
  rw [load_eq hp, breakDown, bind_eq_error, ← breakDown,
    contentOf_eq_breakDown_iff hp (named_file env asked)]
  constructor
  · rintro (hgarbled | ⟨issue | entries, hcontent, h⟩)
    · exact .garbled hgarbled
    · cases h
    · have hholds := (contentOf_eq_ok_iff hp (named_file _ _)).1 hcontent
      rcases bind_eq_error.1 h with h | ⟨a, ha, h⟩
      · obtain ⟨hendless, rfl⟩ := ofEntries_eq_breakDown_iff.1 h
        exact .endless hholds hendless
      · obtain ⟨hend, rfl⟩ := ofEntries_eq_ok_iff.1 ha
        exact .unshown hholds hend (checked_eq_breakDown_iff.1 h)
  · intro h
    cases h with
    | garbled hgarbled => exact .inl hgarbled
    | endless hholds hendless =>
      exact .inr ⟨_, (contentOf_eq_ok_iff hp (named_file _ _)).2 hholds,
        bind_eq_error.2 (.inl (ofEntries_eq_breakDown_iff.2 ⟨hendless, rfl⟩))⟩
    | unshown hholds hend hask =>
      exact .inr ⟨_, (contentOf_eq_ok_iff hp (named_file _ _)).2 hholds, bind_eq_error.2
        (.inr ⟨_, ofEntries_eq_ok_iff.2 ⟨hend, rfl⟩, checked_eq_breakDown_iff.2 hask⟩)⟩

/-- Every refusal is a fault of the configuration. -/
theorem eq_config_of_load {f : Fault} (hp : d.contains (file env asked) = true)
    (h : load parse d env asked = refuse f) : ∃ cause, f = .config cause := by
  rw [load_eq hp, refuse] at h
  rcases bind_eq_error.1 h with h | ⟨issue | entries, -, h⟩
  · rcases contentOf_cases hp (named_file env asked) with ⟨_, h', -⟩ | ⟨_, h', -⟩ | ⟨_, h', -⟩ <;>
      rw [h'] at h <;> cases h
  · cases h
    exact ⟨_, rfl⟩
  · rcases bind_eq_error.1 h with h | ⟨a, -, h⟩
    · rw [ofEntries] at h
      split at h <;> cases h
    · rw [checked_eq] at h
      split at h <;> cases h
      exact ⟨_, rfl⟩

/-- **A configuration file comes to a valid configuration or to a fault of the configuration, unless
there is a way past the refusals.** That holds for every parser of the file. The configuration is
that of the entries of the file over the built-in one, and a breakdown is one of `Breaks`. -/
theorem load_settles (hp : d.contains (file env asked) = true) :
    (((∃ c issues, load parse d env asked = .ok c ∧ (Checker.ask .none c).2 = .ok (true, issues)) ∨
        ∃ cause, load parse d env asked = refuse (.config cause)) ↔
      ∀ b, ¬ Breaks parse d env (file env asked) b) ∧
    (∀ c, load parse d env asked = .ok c ↔
      ∃ entries, Holds parse d (file env asked) entries ∧
        Environment.anyEntryEndless entries = false ∧
        c = merge builtIn (env.expandEntries entries) ∧
        ∃ issues, (Checker.ask .none c).2 = .ok (true, issues)) ∧
    ∀ b, load parse d env asked = breakDown b ↔ Breaks parse d env (file env asked) b := by
  refine ⟨?_, fun c ↦ load_eq_ok_iff hp, fun b ↦ load_eq_breakDown_iff hp⟩
  simp only [← load_eq_breakDown_iff hp]
  rcases hload : load parse d env asked with (f | b) | c
  · obtain ⟨cause, rfl⟩ := eq_config_of_load hp hload
    exact iff_of_true (.inr ⟨cause, rfl⟩) nofun
  · refine iff_of_false ?_ fun h ↦ h b rfl
    rintro (⟨c, issues, h, -⟩ | ⟨cause, h⟩)
    · cases h
    · cases h
  · obtain ⟨-, -, -, -, issues, hvalid⟩ := (load_eq_ok_iff hp).1 hload
    exact iff_of_true (.inl ⟨c, issues, rfl, hvalid⟩) nofun

/-- The disk with a configuration file. -/
def configured (bytes : List UInt8) : Disk := ⟨[], [(["c.yaml"], .file bytes)]⟩

theorem file_configured (env : Environment) :
    file env (some "c.yaml") = ⟨.relative, ["c.yaml"]⟩ := by
  show Path.ofString "c.yaml" = ⟨.relative, ["c.yaml"]⟩
  decide +kernel

theorem contains_configured (bytes : List UInt8) (env : Environment) :
    (configured bytes).contains (file env (some "c.yaml")) = true := by
  rw [file_configured]
  rfl

/-- An empty file breaks nothing and comes to the built-in configuration. -/
theorem load_settles_empty :
    (configured []).contains (file [] (some "c.yaml")) = true ∧
    load Yaml.parse (configured []) [] (some "c.yaml") = .ok builtIn := by
  have hholds : Holds Yaml.parse (configured []) (file [] (some "c.yaml")) [] := by
    rw [file_configured]
    exact ⟨"", .null, Disk.spells_of_read rfl rfl, by cbv, .null⟩
  have hp := contains_configured [] []
  exact ⟨hp, ((load_settles hp).2.1 builtIn).2 ⟨[], hholds, rfl, rfl, [], ask_builtIn⟩⟩

/-- **A byte that starts no character breaks loading down.** It comes neither to a configuration nor
to a fault. -/
theorem load_breaks :
    (configured [0xff]).contains (file [] (some "c.yaml")) = true ∧
    load Yaml.parse (configured [0xff]) [] (some "c.yaml") =
      breakDown (.encoding ⟨0, 0xff, 1, .startByte⟩) := by
  have hp := contains_configured [0xff] []
  have hdecode : Text.decodeUtf8 [0xff] = .error ⟨0, 0xff, 1, .startByte⟩ := by
    rw [Text.decodeUtf8, Text.decodeFrom]
    rfl
  refine ⟨hp, (load_eq_breakDown_iff hp).2 (.garbled ?_)⟩
  rw [file_configured]
  exact .bytes rfl hdecode

end ConceptAtlas.Config
