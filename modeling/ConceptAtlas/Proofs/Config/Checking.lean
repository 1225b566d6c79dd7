import Mathlib.Data.List.Basic
import ConceptAtlas.Command.Graph
import ConceptAtlas.Config.Check
import ConceptAtlas.Config.Log
import ConceptAtlas.Graph.Validation

/-!
# What a checked configuration is good for

A check reads the same nested values as the commands that use a configuration later, but not in the
same way: what is missing counts as null or as an empty section for the check, has a default for
some commands and breaks others down. So what the check accepts is told first, without defaults:
each section that a command needs is there, and each entry in it is of its kind (`Config.Accepted`).
Then every command finds what it looks for (`Config.Serviceable`).

A checker that is asked again starts anew, so it answers as if it were asked for the first time
(`Config.ask_eq`), and so it does over a whole sequence of questions.
-/

namespace ConceptAtlas.Config

/-! ### Single checks -/

/-- A check comes to an end and finds no error. -/
def Check.Passes (ch : Check) : Prop := ∃ v, ch = .ok v ∧ v.isValid = true

theorem passes_require_iff {holds : Bool} {v : Value} {error : String → String} :
    Check.Passes (require holds v error) ↔ holds = true := by
  rw [require]
  cases holds with
  | true => exact iff_of_true ⟨_, rfl, rfl⟩ rfl
  | false =>
    refine iff_of_false ?_ Bool.false_ne_true
    rintro ⟨w, hw, hvalid⟩
    rw [if_neg Bool.false_ne_true] at hw
    obtain ⟨text, -, rfl⟩ := map_eq_ok.1 hw
    exact Bool.false_ne_true hvalid

/-- A warning is no error. -/
theorem passes_expectEnd (ending : String) (v : Value) (warning : String → String) :
    Check.Passes (expectEnd ending v warning) := by
  unfold expectEnd
  split
  · rename_i s
    by_cases h : s.isEmpty || s.endsWith ending
    · exact ⟨_, by rw [if_pos h], rfl⟩
    · exact ⟨_, by rw [if_neg h], rfl⟩
  · exact ⟨_, rfl, rfl⟩

/-- A section passes if it is a mapping, or missing and so counts as empty, whose entries pass. -/
theorem passes_checkSection_iff {c : Config} {name : String} {checks : Config → List Check} :
    (∀ ch ∈ checkSection c name checks, ch.Passes) ↔
      ∃ entries, (Value.value? name c).getD (.map []) = .map entries ∧
        ∀ ch ∈ checks entries, ch.Passes := by
  rw [checkSection]
  split
  · rename_i entries h
    constructor
    · exact fun hall ↦ ⟨entries, h, hall⟩
    · rintro ⟨entries', h', hall⟩
      rw [h] at h'
      cases h'
      exact hall
  · rename_i hno
    constructor
    · intro hall
      obtain ⟨v, hv, hvalid⟩ := hall _ List.mem_cons_self
      cases hv
      exact absurd hvalid Bool.false_ne_true
    · rintro ⟨entries, h, -⟩
      exact absurd h (hno entries)

/-- Checks that are taken one after the other find no error exactly if each of them passes. -/
theorem take_eq_none_iff {v : Verdict} {chs : List Check} :
    (∃ w, v.take chs = (w, none) ∧ w.isValid = true) ↔
      v.isValid = true ∧ ∀ ch ∈ chs, ch.Passes := by
  induction chs generalizing v with
  | nil => simp [Verdict.take]
  | cons ch chs ih =>
    rw [List.forall_mem_cons]
    cases ch with
    | error b =>
      refine iff_of_false ?_ ?_
      · rintro ⟨w, hw, -⟩
        cases hw
      · rintro ⟨-, ⟨w, hw, -⟩, -⟩
        cases hw
    | ok w =>
      have hpasses : Check.Passes (.ok w) ↔ w.isValid = true := by
        constructor
        · rintro ⟨w', hw', hvalid⟩
          cases hw'
          exact hvalid
        · exact fun h ↦ ⟨w, rfl, h⟩
      rw [Verdict.take, ih, Verdict.isValid_append, Bool.and_eq_true, hpasses, and_assoc]

/-! ### What is accepted -/

/-- What the check accepts: texts with content for the project, the paths and the glob, a text for
the base path, a policy and a level by their names, truth values for the cache and the summary, and
a log file that is a text or null. Only the section about validation may be missing, and the log
file. -/
structure Accepted (c : Config) : Prop where
  project : isFilledText (Value.valueOrNull "project_name" c) = true
  base : isText (Value.valueOrNull "base_path" c) = true
  content : ∃ es, Value.value? "content" c = some (.map es) ∧
    isFilledText (Value.valueOrNull "path" es) = true ∧
    isFilledText (Value.valueOrNull "glob" es) = true
  graph : ∃ es, Value.value? "graph" c = some (.map es) ∧
    isFilledText (Value.valueOrNull "output_path" es) = true ∧
    isOneOf policies (Value.valueOrNull "error_handling" es) = true ∧
    isTruth (Value.valueOrNull "use_cache" es) = true
  validation : ∃ es, (Value.value? "validation" c).getD (.map []) = .map es ∧
    isTruth ((Value.value? "include_summary" es).getD (.bool true)) = true
  logging : ∃ es, Value.value? "logging" c = some (.map es) ∧
    isLevel (Value.valueOrNull "level" es) = true ∧
    isNullOrText (Value.valueOrNull "file" es) = true

theorem passes_checkContent_iff {es : Config} : (∀ ch ∈ checkContent es, ch.Passes) ↔
    isFilledText (Value.valueOrNull "path" es) = true ∧
      isFilledText (Value.valueOrNull "glob" es) = true := by
  simp only [checkContent, List.forall_mem_cons, List.not_mem_nil, passes_require_iff,
    false_implies, implies_true, and_true]

theorem passes_checkGraph_iff {es : Config} : (∀ ch ∈ checkGraph es, ch.Passes) ↔
    isFilledText (Value.valueOrNull "output_path" es) = true ∧
      isOneOf policies (Value.valueOrNull "error_handling" es) = true ∧
      isTruth (Value.valueOrNull "use_cache" es) = true := by
  simp only [checkGraph, List.forall_mem_cons, List.not_mem_nil, passes_require_iff,
    passes_expectEnd, false_implies, implies_true, and_true, true_and]

theorem passes_checkValidation_iff {es : Config} : (∀ ch ∈ checkValidation es, ch.Passes) ↔
    isTruth ((Value.value? "include_summary" es).getD (.bool true)) = true := by
  simp only [checkValidation, List.forall_mem_cons, List.not_mem_nil, passes_require_iff,
    false_implies, implies_true, and_true]

theorem passes_checkLogging_iff {es : Config} : (∀ ch ∈ checkLogging es, ch.Passes) ↔
    isLevel (Value.valueOrNull "level" es) = true ∧
      isNullOrText (Value.valueOrNull "file" es) = true := by
  simp only [checkLogging, List.forall_mem_cons, List.not_mem_nil, passes_require_iff,
    false_implies, implies_true, and_true]

/-- A section in which something has to stand is not missing. -/
theorem passes_needed_iff {c : Config} {name : String} {checks : Config → List Check}
    {p : Config → Prop} (hchecks : ∀ es, (∀ ch ∈ checks es, ch.Passes) ↔ p es) (hp : ¬ p []) :
    (∀ ch ∈ checkSection c name checks, ch.Passes) ↔
      ∃ es, Value.value? name c = some (.map es) ∧ p es := by
  rw [passes_checkSection_iff]
  refine exists_congr fun es ↦ ?_
  rw [hchecks]
  refine and_congr_left fun hes ↦ ?_
  rcases Value.value? name c with - | v
  · refine iff_of_false (fun h ↦ ?_) nofun
    cases h
    exact hp hes
  · rw [Option.getD_some, Option.some.injEq]

/-- **Accepted is what passes all checks.** -/
theorem forall_passes_iff {c : Config} : (∀ ch ∈ checks c, ch.Passes) ↔ c.Accepted := by
  have hcontent : (∀ ch ∈ checkSection c "content" checkContent, ch.Passes) ↔ _ :=
    passes_needed_iff (fun _ ↦ passes_checkContent_iff) (by decide)
  have hgraph : (∀ ch ∈ checkSection c "graph" checkGraph, ch.Passes) ↔ _ :=
    passes_needed_iff (fun _ ↦ passes_checkGraph_iff) (by decide)
  have hvalidation : (∀ ch ∈ checkSection c "validation" checkValidation, ch.Passes) ↔ _ :=
    passes_checkSection_iff
  have hlogging : (∀ ch ∈ checkSection c "logging" checkLogging, ch.Passes) ↔ _ :=
    passes_needed_iff (fun _ ↦ passes_checkLogging_iff) (by decide)
  simp only [passes_checkValidation_iff] at hvalidation
  simp only [checks, List.forall_mem_append, List.forall_mem_cons, List.not_mem_nil,
    false_implies, implies_true, passes_require_iff, hcontent, hgraph, hvalidation, hlogging]
  constructor
  · rintro ⟨⟨⟨⟨⟨hproject, hbase, -⟩, hcontent⟩, hgraph⟩, hvalidation⟩, hlogging⟩
    exact ⟨hproject, hbase, hcontent, hgraph, hvalidation, hlogging⟩
  · intro h
    exact ⟨⟨⟨⟨⟨h.project, h.base, trivial⟩, h.content⟩, h.graph⟩, h.validation⟩, h.logging⟩

/-! ### Asking a checker -/

/-- **A checker forgets**: what it holds after a question, and what it answers, is what the checks
find from nothing on. -/
theorem ask_eq (k : Checker) (c : Config) : k.ask c =
    match Verdict.none.take (checks c) with
    | (w, none) => (w, .ok (w.isValid, w.issues))
    | (w, some b) => (w, .error b) := rfl

/-- A checker answers that a configuration is valid exactly if the configuration is accepted. -/
theorem ask_isValid_iff {k : Checker} {c : Config} :
    (∃ issues, (k.ask c).2 = .ok (true, issues)) ↔ c.Accepted := by
  have htake : (∃ w, Verdict.none.take (checks c) = (w, none) ∧ w.isValid = true) ↔ c.Accepted :=
    (take_eq_none_iff.trans (and_iff_right rfl)).trans forall_passes_iff
  rw [← htake, ask_eq]
  rcases Verdict.none.take (checks c) with ⟨w, - | b⟩
  · constructor
    · rintro ⟨issues, h⟩
      exact ⟨w, rfl, (Prod.mk.inj (Except.ok.inj h)).1⟩
    · rintro ⟨w', hw, hvalid⟩
      cases hw
      exact ⟨w.issues, congrArg (fun b ↦ Except.ok (b, w.issues)) hvalid⟩
  · refine iff_of_false ?_ ?_
    · rintro ⟨issues, h⟩
      cases h
    · rintro ⟨w', hw, -⟩
      cases hw

/-- The answers of a checker that is asked about one configuration after the other. -/
def Checker.answers (k : Checker) : List Config → List (Except Breakdown (Bool × List String))
  | [] => []
  | c :: cs => (k.ask c).2 :: (k.ask c).1.answers cs

/-! ### What commands find -/

/-- Every command finds what it looks for in a configuration: the root of the content and the place
of the snapshot, a glob, whether the cache counts, a policy, a level with its number, a log file
that is a text or null, and whether the summary is wanted. So whatever is asked of a build, there is
an update to run. -/
structure Serviceable (c : Config) : Prop where
  contentPath : ∃ p, c.contentPath = .ok p
  snapshotPath : ∃ p, c.snapshotPath = .ok p
  glob : ∃ s, c.inSection "content" "glob" = .ok (.str s) ∧ s ≠ ""
  cache : ∃ b, c.inSection "graph" "use_cache" = .ok (.bool b)
  policy : ∃ s p, c.inSection "graph" "error_handling" = .ok (.str s) ∧ Policy.ofName s = .ok p
  level : ∃ s n, c.inSection "logging" "level" = .ok (.str s) ∧ Log.level s = .ok n ∧
    n ∈ [10, 20, 30, 40, 50]
  logFile : ∃ es, Value.value? "logging" c = some (.map es) ∧
    (Value.valueOrNull "file" es = .null ∨ ∃ s, Value.valueOrNull "file" es = .str s)
  summary : ∃ es b, (Value.value? "validation" c).getD (.map []) = .map es ∧
    (Value.value? "include_summary" es).getD (.bool true) = .bool b ∧
    wantsSummary (.map c) = .ok b
  update : ∀ (snapshot : Option String) (seconds : Int) (s : Command.BuildSettings),
    ∃ u, s.update ⟨c, snapshot, seconds⟩ = .ok u

theorem isFilledText_iff {v : Value} : isFilledText v = true ↔ ∃ s, v = .str s ∧ s ≠ "" := by
  cases v <;> simp [isFilledText]

theorem isText_iff {v : Value} : isText v = true ↔ ∃ s, v = .str s := by
  cases v <;> simp [isText]

theorem isTruth_iff {v : Value} : isTruth v = true ↔ ∃ b, v = .bool b := by
  cases v <;> simp [isTruth]

theorem isOneOf_iff {names : List String} {v : Value} :
    isOneOf names v = true ↔ ∃ s, v = .str s ∧ s ∈ names := by
  cases v <;> simp [isOneOf]

theorem isLevel_iff {v : Value} :
    isLevel v = true ↔ ∃ s, v = .str s ∧ Text.toUpper s ∈ logLevels := by
  cases v <;> simp [isLevel]

theorem isNullOrText_iff {v : Value} :
    isNullOrText v = true ↔ v = .null ∨ ∃ s, v = .str s := by
  cases v <;> simp [isNullOrText, isText]

/-- What stands in a section under a key and is not null is found there. -/
theorem inSection_eq {c es : Config} {name key : String} {v : Value}
    (hsection : Value.value? name c = some (.map es)) (h : Value.valueOrNull key es = v)
    (hnull : v ≠ .null) : c.inSection name key = .ok v := by
  rw [Value.valueOrNull] at h
  simp only [inSection, hsection]
  rcases hv : Value.value? key es with - | w
  · rw [hv, Option.getD_none] at h
    exact absurd h.symm hnull
  · rw [hv, Option.getD_some] at h
    rw [h]

/-- Both names that the check knows are names of policies. -/
theorem exists_ofName {s : String} (h : s ∈ policies) : ∃ p, Policy.ofName s = .ok p := by
  have hall : ∀ s ∈ policies, (Policy.ofName s).isOk = true := by decide +kernel
  specialize hall s h
  rcases hs : Policy.ofName s with e | p
  · rw [hs] at hall
    cases hall
  · exact ⟨p, rfl⟩

/-- Every name that the check knows is the name of a level with a number, in letters of any case. -/
theorem exists_level {s : String} (h : Text.toUpper s ∈ logLevels) :
    ∃ n ∈ [10, 20, 30, 40, 50], Log.level s = .ok n := by
  have hall : ∀ t ∈ logLevels, ∃ n ∈ [10, 20, 30, 40, 50], Assoc.find? t Log.levels = some n := by
    decide
  obtain ⟨n, hn, hfind⟩ := hall _ h
  exact ⟨n, hn, by rw [Log.level, hfind]⟩

/-- A path in a section is found, whatever text the base path is. -/
theorem exists_pathIn {c es : Config} {name key : String}
    (hbase : isText (Value.valueOrNull "base_path" c) = true)
    (hsection : Value.value? name c = some (.map es))
    (h : isFilledText (Value.valueOrNull key es) = true) : ∃ p, c.pathIn name key = .ok p := by
  obtain ⟨s, hs, -⟩ := isFilledText_iff.1 h
  obtain ⟨t, ht⟩ := isText_iff.1 hbase
  have hfound : c.inSection name key = .ok (.str s) := inSection_eq hsection hs nofun
  have hbasePath : ∃ q, c.basePath = .ok q := by
    simp only [basePath, ht, asPath]
    split <;> exact ⟨_, rfl⟩
  obtain ⟨q, hq⟩ := hbasePath
  simp only [pathIn, hfound, bind, Except.bind, asPath, hq]
  split <;> exact ⟨_, rfl⟩

/-- The summary is wanted as the configuration says, and if it says nothing. -/
theorem wantsSummary_eq {c es : Config} {b : Bool}
    (hsection : (Value.value? "validation" c).getD (.map []) = .map es)
    (h : (Value.value? "include_summary" es).getD (.bool true) = .bool b) :
    wantsSummary (.map c) = .ok b := by
  rw [wantsSummary]
  rcases hv : Value.value? "validation" c with - | v
  · rw [hv] at hsection
    cases hsection
    cases h
    split <;> rfl
  · obtain rfl : v = .map es := by rw [← hsection, hv, Option.getD_some]
    have hpresent : (Value.map c).isTruthy = true := by
      cases c with
      | nil => cases hv
      | cons e c => rfl
    rw [hpresent, Bool.not_true, if_neg Bool.false_ne_true]
    show Except.ok (((Value.value? "include_summary" es).map Value.isTruthy).getD true) = _
    rcases hw : Value.value? "include_summary" es with - | w
    · rw [hw] at h
      cases h
      rfl
    · rw [hw] at h
      cases h
      rfl

/-- What a build is to do is found, whatever else it was told. -/
theorem exists_update {c : Config} {source target : Path} {glob name : String} {policy : Policy}
    {cache : Bool} (hsource : c.contentPath = .ok source) (htarget : c.snapshotPath = .ok target)
    (hglob : c.inSection "content" "glob" = .ok (.str glob))
    (hcache : c.inSection "graph" "use_cache" = .ok (.bool cache))
    (hname : c.inSection "graph" "error_handling" = .ok (.str name))
    (hpolicy : Policy.ofName name = .ok policy) (snapshot : Option String) (seconds : Int)
    (s : Command.BuildSettings) : ∃ u, s.update ⟨c, snapshot, seconds⟩ = .ok u := by
  have hpath : ∃ p, Command.GraphContext.path ⟨c, snapshot, seconds⟩ = .ok p := by
    rw [Command.GraphContext.path]
    split
    · exact ⟨_, rfl⟩
    · exact ⟨target, htarget⟩
  have houtput : ∃ p, (Command.filled s.output).elim
      (Command.GraphContext.path ⟨c, snapshot, seconds⟩) (fun name ↦ .ok (.ofString name)) =
        .ok p := by
    cases Command.filled s.output with
    | none => exact hpath
    | some name => exact ⟨_, rfl⟩
  have huse : ∃ b, s.useCache.elim ((c.inSection "graph" "use_cache").map Value.isTruthy) .ok =
      .ok b := by
    rw [hcache]
    cases s.useCache with
    | none => exact ⟨_, rfl⟩
    | some b => exact ⟨b, rfl⟩
  obtain ⟨p, hp⟩ := houtput
  obtain ⟨b, hb⟩ := huse
  exact ⟨_, bind_eq_ok.2 ⟨source, hsource, bind_eq_ok.2 ⟨p, hp, bind_eq_ok.2 ⟨_, hglob,
    bind_eq_ok.2 ⟨glob, rfl, bind_eq_ok.2 ⟨b, hb, bind_eq_ok.2 ⟨_, hname, bind_eq_ok.2 ⟨name, rfl,
      bind_eq_ok.2 ⟨policy, mapError_eq_ok.2 hpolicy, rfl⟩⟩⟩⟩⟩⟩⟩⟩⟩

/-- What is accepted serves every command. -/
theorem Accepted.serviceable {c : Config} (h : c.Accepted) : c.Serviceable := by
  obtain ⟨content, hcontent, hpath, hglob⟩ := h.content
  obtain ⟨graph, hgraph, houtput, hpolicy, hcache⟩ := h.graph
  obtain ⟨validation, hvalidation, hsummary⟩ := h.validation
  obtain ⟨logging, hlogging, hlevel, hfile⟩ := h.logging
  obtain ⟨source, hsource⟩ := exists_pathIn h.base hcontent hpath
  obtain ⟨target, htarget⟩ := exists_pathIn h.base hgraph houtput
  obtain ⟨glob, hglob, hglobFilled⟩ := isFilledText_iff.1 hglob
  have hglobFound := inSection_eq hcontent hglob nofun
  obtain ⟨useCache, hcache⟩ := isTruth_iff.1 hcache
  have hcacheFound := inSection_eq hgraph hcache nofun
  obtain ⟨name, hname, hknown⟩ := isOneOf_iff.1 hpolicy
  have hnameFound := inSection_eq hgraph hname nofun
  obtain ⟨policy, hofName⟩ := exists_ofName hknown
  obtain ⟨level, hlevel, hknownLevel⟩ := isLevel_iff.1 hlevel
  have hlevelFound := inSection_eq hlogging hlevel nofun
  obtain ⟨n, hn, hnumber⟩ := exists_level hknownLevel
  obtain ⟨b, hb⟩ := isTruth_iff.1 hsummary
  exact {
    contentPath := ⟨source, hsource⟩
    snapshotPath := ⟨target, htarget⟩
    glob := ⟨glob, hglobFound, hglobFilled⟩
    cache := ⟨useCache, hcacheFound⟩
    policy := ⟨name, policy, hnameFound, hofName⟩
    level := ⟨level, n, hlevelFound, hnumber, hn⟩
    logFile := ⟨logging, hlogging, isNullOrText_iff.1 hfile⟩
    summary := ⟨validation, b, hvalidation, hb, wantsSummary_eq hvalidation hb⟩
    update := exists_update hsource htarget hglobFound hcacheFound hnameFound hofName }

/-- **A valid answer can be relied on.** Whatever a checker was asked before, it answers every
question as a new checker would, and a configuration that it calls valid serves every command. -/
theorem answers_serve (k : Checker) (cs : List Config) :
    List.Forall₂ (fun c answer ↦ answer = (Checker.ask .none c).2 ∧
      ∀ issues, answer = .ok (true, issues) → c.Serviceable) cs (k.answers cs) := by
  induction cs generalizing k with
  | nil => exact .nil
  | cons c cs ih =>
    refine .cons ⟨by rw [ask_eq, ask_eq], fun issues h ↦ ?_⟩ (ih _)
    exact (ask_isValid_iff.1 ⟨issues, h⟩).serviceable

theorem ask_builtIn : (Checker.ask .none builtIn).2 = .ok (true, []) := by decide +kernel

/-- The built-in configuration is called valid, also after an empty one that is not. -/
theorem answers_serve_builtIn :
    (∃ issues, (Checker.ask .none []).2 = .ok (false, issues)) ∧
    (Checker.ask (Checker.ask .none []).1 builtIn).2 = .ok (true, []) ∧ builtIn.Serviceable := by
  obtain ⟨-, h⟩ := List.forall₂_cons.1 (answers_serve .none [[], builtIn])
  obtain ⟨⟨hanswer, hserves⟩, -⟩ := List.forall₂_cons.1 h
  exact ⟨⟨_, rfl⟩, hanswer.trans ask_builtIn, hserves [] (hanswer.trans ask_builtIn)⟩

end ConceptAtlas.Config
