import Mathlib.Data.List.Basic
import ConceptAtlas.Build.Basic
import ConceptAtlas.Proofs.Graph.Observers

/-!
# What a build accounts for

A build is told about files one by one, and says at the end what became of each of them and of each
edge. Here both loops of `settle` are brought to a closed form over the list of outcomes. The first
one splits the list in the files that gave something (`extracts`) and those that failed
(`failures`), and a file that failed is in the second part only. The second one splits the staged
edges by their ends, all by the same ids: adding edges brings no ids (`foldlM_placeEdge`).

The two policies are one run as long as nothing fails, so `failFast` needs no account of its own
(`foldlM_takeFile_failFast`).

Below a base, a build is both loops on what the discovered files gave (`outcomes_eq_ok_iff`,
`run_of_content`), and so its account is theirs (`run_accounts`).
-/

namespace ConceptAtlas.Build

open Arena (Holds)

/-! ### Outcomes -/

/-- What the files gave that did not fail. -/
def extracts (outcomes : List (Path × Outcome Extract)) : List Extract :=
  outcomes.filterMap fun o ↦ o.2.toOption

/-- The files that failed. -/
def failures (outcomes : List (Path × Outcome Extract)) : List FileFault :=
  outcomes.filterMap fun o ↦
    match o.2 with
    | .error e => some ⟨o.1, e.message⟩
    | .ok _ => none

/-- The failure of the first file that failed. -/
def firstFailure? (outcomes : List (Path × Outcome Extract)) : Option Failure :=
  outcomes.findSome? fun o ↦
    match o.2 with
    | .error e => some e
    | .ok _ => none

/-- The edges that a build has to place: those of the files, then those made by hand. -/
def stagedEdges (outcomes : List (Path × Outcome Extract)) (manualEdges : List (Edge Float)) :
    List (Edge Float) := (extracts outcomes).flatMap Extract.edges ++ manualEdges

/-- Every file is among those that gave something or among those that failed. -/
theorem length_extracts_add_failures (outcomes : List (Path × Outcome Extract)) :
    (extracts outcomes).length + (failures outcomes).length = outcomes.length := by
  induction outcomes with
  | nil => rfl
  | cons o os ih =>
    obtain ⟨p, r⟩ := o
    cases r with
    | ok x =>
      show (extracts os).length + 1 + (failures os).length = os.length + 1
      omega
    | error e =>
      show (extracts os).length + ((failures os).length + 1) = os.length + 1
      omega

theorem firstFailure?_eq_none_iff {outcomes : List (Path × Outcome Extract)} :
    firstFailure? outcomes = none ↔ ∀ o ∈ outcomes, ∃ x, o.2 = .ok x := by
  rw [firstFailure?, List.findSome?_eq_none_iff]
  refine forall₂_congr fun o _ ↦ ?_
  cases o.2 <;> simp

/-- There is a first failure if there is a failure. -/
theorem exists_firstFailure?_iff {outcomes : List (Path × Outcome Extract)} :
    (∃ e, firstFailure? outcomes = some e) ↔ ∃ o ∈ outcomes, ∃ e, o.2 = .error e := by
  have hfailed : (∃ o ∈ outcomes, ∃ e, o.2 = .error e) ↔ ¬ ∀ o ∈ outcomes, ∃ x, o.2 = .ok x := by
    rw [not_forall]
    refine exists_congr fun o ↦ ?_
    cases o.2 <;> simp
  rw [hfailed, ← firstFailure?_eq_none_iff]
  exact Option.ne_none_iff_exists'.symm

/-- Leaving out the files that failed leaves out nothing that was given. -/
theorem extracts_filter_isOk (outcomes : List (Path × Outcome Extract)) :
    extracts (outcomes.filter fun o ↦ o.2.isOk) = extracts outcomes := by
  rw [extracts, List.filterMap_filter, extracts]
  refine List.filterMap_congr fun o _ ↦ ?_
  cases o.2 <;> rfl

theorem failures_filter_isOk (outcomes : List (Path × Outcome Extract)) :
    failures (outcomes.filter fun o ↦ o.2.isOk) = [] := by
  rw [failures, List.filterMap_filter, List.filterMap_eq_nil_iff]
  intro o _
  cases o.2 <;> rfl

/-! ### The loop over the files -/

/-- A tally after files that gave something and files that failed. -/
def Tally.withFiles (t : Tally) (given : List Extract) (failed : List FileFault) : Tally :=
  { t with
    filesProcessed := t.filesProcessed + given.length
    filesSkipped := t.filesSkipped + failed.length
    errors := t.errors ++ failed }

/-- **Files that fail leave no trace** but a report: the nodes and the staged edges are those of the
other files. -/
theorem foldlM_takeFile_collect (outcomes : List (Path × Outcome Extract)) (s : Progress) :
    outcomes.foldlM (takeFile .collect) s =
      .ok {
        arena := s.arena.addNodes ((extracts outcomes).map Extract.node)
        tally := s.tally.withFiles (extracts outcomes) (failures outcomes)
        staged := s.staged ++ (extracts outcomes).flatMap Extract.edges } := by
  induction outcomes generalizing s with
  | nil => simp [extracts, failures, Tally.withFiles, Arena.addNodes, pure, Except.pure]
  | cons o os ih =>
    obtain ⟨p, r⟩ := o
    rw [List.foldlM_cons]
    cases r with
    | ok x =>
      have hgiven : extracts ((p, .ok x) :: os) = x :: extracts os := rfl
      have hfailed : failures ((p, .ok x) :: os) = failures os := rfl
      refine (ih _).trans ?_
      rw [hgiven, hfailed]
      simp [Tally.withFiles, Arena.addNodes, Nat.add_assoc, Nat.add_comm 1]
    | error e =>
      have hgiven : extracts ((p, .error e) :: os) = extracts os := rfl
      have hfailed : failures ((p, .error e) :: os) = ⟨p, e.message⟩ :: failures os := rfl
      refine (ih _).trans ?_
      rw [hgiven, hfailed]
      simp [Tally.withFiles, Nat.add_assoc, Nat.add_comm 1]

/-- **Failing fast** is the failure of the first file that fails; if none does, the policies agree.
-/
theorem foldlM_takeFile_failFast (outcomes : List (Path × Outcome Extract)) (s : Progress) :
    outcomes.foldlM (takeFile .failFast) s =
      match firstFailure? outcomes with
      | some e => .error e
      | none => outcomes.foldlM (takeFile .collect) s := by
  induction outcomes generalizing s with
  | nil => rfl
  | cons o os ih =>
    obtain ⟨p, r⟩ := o
    cases r with
    | ok x => exact ih _
    | error e => rfl

/-! ### The loop over the edges -/

/-- A tally after edges, each of them added or found to be dangling. -/
def Tally.withEdges (t : Tally) (joins : Edge Float → Bool) (es : List (Edge Float)) : Tally :=
  { t with
    edgesCreated := t.edgesCreated + (es.filter joins).length
    dangling := t.dangling ++ (es.filter fun e ↦ !joins e).map Edge.describe }

/-- **Adding an edge never fails in a build**, and every edge is judged by the same ids. -/
theorem foldlM_placeEdge {a : Arena Float} {g : Graph Float} (h : Holds a g)
    (es : List (Edge Float)) (t : Tally) :
    es.foldlM placeEdge (a, t) = .ok (es.foldl Arena.offerEdge a, t.withEdges g.joins es) := by
  induction es generalizing a g t with
  | nil => simp [Tally.withEdges, pure, Except.pure]
  | cons e es ih =>
    -- The graph moves along with the arena, but its ids stay, and with them the test for the rest.
    have h' : Holds (a.offerEdge e) (g.offerEdge e) := h.offerEdge e
    rw [List.foldlM_cons, List.foldl_cons, placeEdge, h.joins]
    by_cases hj : g.joins e = true
    · obtain ⟨hs, ht⟩ := Graph.joins_iff.1 hj
      have hadd : a.addEdge e = (a.offerEdge e, .ok ()) := by
        rw [Arena.offerEdge, h.joins, if_pos hj, h.addEdge_eq hs ht]
      rw [if_pos hj, hadd]
      refine (ih h' _).trans ?_
      simp [Tally.withEdges, Graph.joins_offerEdge, hj, Nat.add_assoc, Nat.add_comm 1]
    · have hkeep : a.offerEdge e = a := by rw [Arena.offerEdge, h.joins, if_neg hj]
      rw [if_neg hj, hkeep]
      refine (ih h _).trans ?_
      simp [Tally.withEdges, hj]

/-! ### The account of a build -/

/-- An arena and a tally account for outcomes and for edges made by hand: each file and each staged
edge is told apart by what became of it, and the numbers are those of the lists. -/
structure Accounts (outcomes : List (Path × Outcome Extract)) (manualEdges : List (Edge Float))
    (a : Arena Float) (t : Tally) : Prop where
  holds : a.Holds a.graph
  nodes : a.nodes =
    ((extracts outcomes).map Extract.node).foldl (fun ns n ↦ Graph.upsert n ns) []
  edges : a.edges = (stagedEdges outcomes manualEdges).filter fun e ↦
    e.source ∈ a.ids ∧ e.target ∈ a.ids
  dangling : t.dangling = ((stagedEdges outcomes manualEdges).filter fun e ↦
    ¬ (e.source ∈ a.ids ∧ e.target ∈ a.ids)).map Edge.describe
  processed : t.filesProcessed = (extracts outcomes).length
  skipped : t.filesSkipped = (failures outcomes).length
  files : t.filesProcessed + t.filesSkipped = outcomes.length
  errors : t.errors = failures outcomes
  edgesCreated : t.edgesCreated = a.edgeCount
  staged : t.edgesCreated + t.dangling.length = (stagedEdges outcomes manualEdges).length
  nodesCreated : t.nodesCreated = a.nodeCount

/-- The graph that outcomes make before any edge is placed. -/
def bare (outcomes : List (Path × Outcome Extract)) : Graph Float :=
  ((extracts outcomes).map Extract.node).foldl Graph.addNode .empty

/-- The arena that outcomes make. -/
def settled (outcomes : List (Path × Outcome Extract)) (manualEdges : List (Edge Float)) :
    Arena Float :=
  .ofRecords ((extracts outcomes).map Extract.node) (stagedEdges outcomes manualEdges)

/-- The tally that outcomes make. -/
def settledTally (outcomes : List (Path × Outcome Extract)) (manualEdges : List (Edge Float)) :
    Tally :=
  { (Tally.zero.withFiles (extracts outcomes) (failures outcomes)).withEdges (bare outcomes).joins
      (stagedEdges outcomes manualEdges) with
    nodesCreated := (settled outcomes manualEdges).nodeCount }

/-- Collecting errors is one pass over the records of the files that did not fail. -/
theorem settle_collect (outcomes : List (Path × Outcome Extract))
    (manualEdges : List (Edge Float)) :
    settle .collect outcomes manualEdges =
      .ok (settled outcomes manualEdges, settledTally outcomes manualEdges) := by
  have hnodes : Holds ((Arena.empty : Arena Float).addNodes ((extracts outcomes).map Extract.node))
      (bare outcomes) := Holds.empty.addNodes _
  rw [settle, foldlM_takeFile_collect]
  simp only [Progress.start, List.nil_append, bind, Except.bind]
  rw [← stagedEdges, foldlM_placeEdge hnodes]
  rfl

theorem settle_failFast (outcomes : List (Path × Outcome Extract))
    (manualEdges : List (Edge Float)) :
    settle .failFast outcomes manualEdges =
      match firstFailure? outcomes with
      | some e => .error e
      | none => settle .collect outcomes manualEdges := by
  rw [settle, foldlM_takeFile_failFast]
  cases firstFailure? outcomes <;> rfl

/-- Under either policy a build that comes to an end comes to the records of the files that did not
fail. -/
theorem eq_settled_of_settle {policy : Policy} {outcomes : List (Path × Outcome Extract)}
    {manualEdges : List (Edge Float)} {a : Arena Float} {t : Tally}
    (h : settle policy outcomes manualEdges = .ok (a, t)) :
    a = settled outcomes manualEdges ∧ t = settledTally outcomes manualEdges := by
  have hcollect : settle .collect outcomes manualEdges = .ok (a, t) := by
    cases policy with
    | collect => exact h
    | failFast =>
      rw [settle_failFast] at h
      split at h
      · cases h
      · exact h
  rw [settle_collect] at hcollect
  cases hcollect
  exact ⟨rfl, rfl⟩

theorem holds_settled (outcomes : List (Path × Outcome Extract))
    (manualEdges : List (Edge Float)) :
    Holds (settled outcomes manualEdges)
      (.ofRecords ((extracts outcomes).map Extract.node) (stagedEdges outcomes manualEdges)) :=
  Holds.ofRecords _ _

/-- An edge is judged by the ids of the nodes alone, and these are the ids in the end. -/
theorem joins_bare (outcomes : List (Path × Outcome Extract)) (manualEdges : List (Edge Float))
    (e : Edge Float) :
    (bare outcomes).joins e = decide (e.source ∈ (settled outcomes manualEdges).ids ∧
      e.target ∈ (settled outcomes manualEdges).ids) := by
  -- Edges bring no ids: the ids before the first edge are those after the last one.
  have hids : (settled outcomes manualEdges).ids = (bare outcomes).ids := by
    rw [(holds_settled outcomes manualEdges).ids, Graph.ids, Graph.ofRecords,
      Graph.nodes_foldl_offerEdge, ← Graph.ids, bare]
  rw [Bool.eq_iff_iff, Graph.joins_iff, decide_eq_true_iff, hids]

theorem accounts_settled (outcomes : List (Path × Outcome Extract))
    (manualEdges : List (Edge Float)) :
    Accounts outcomes manualEdges (settled outcomes manualEdges)
      (settledTally outcomes manualEdges) := by
  have h := holds_settled outcomes manualEdges
  have hjoins := joins_bare outcomes manualEdges
  have hedges : (settled outcomes manualEdges).edges =
      (stagedEdges outcomes manualEdges).filter (bare outcomes).joins := by
    rw [h.edges, Graph.edges_ofRecords, bare]
  exact {
    holds := by
      rw [h.graph]
      exact h
    nodes := by rw [h.nodes, Graph.nodes_ofRecords]
    edges := by rw [hedges, funext hjoins]
    dangling := by
      simp only [settledTally, Tally.withEdges, Tally.withFiles, Tally.zero, List.nil_append,
        hjoins, decide_not]
    processed := Nat.zero_add _
    skipped := Nat.zero_add _
    files := by
      rw [← length_extracts_add_failures outcomes]
      exact congrArg₂ (· + ·) (Nat.zero_add _) (Nat.zero_add _)
    errors := List.nil_append _
    edgesCreated := by
      rw [h.edgeCount, ← h.edges, hedges]
      exact Nat.zero_add _
    staged := by
      rw [List.length_eq_length_filter_add (bare outcomes).joins]
      simp only [settledTally, Tally.withEdges, Tally.withFiles, Tally.zero, List.nil_append,
        List.length_map, Nat.zero_add]
    nodesCreated := rfl }

/-- **A build accounts for every file and every edge.** Collecting errors always comes to a graph
and a tally that accounts for the outcomes; without the files that failed it comes to the same
graph, and the tally lacks nothing but their report. Failing fast fails if a file fails, with the
failure of the first one, and otherwise it is the same build. -/
theorem settle_accounts (outcomes : List (Path × Outcome Extract))
    (manualEdges : List (Edge Float)) :
    (∃ a t, settle .collect outcomes manualEdges = .ok (a, t) ∧ Accounts outcomes manualEdges a t ∧
      settle .collect (outcomes.filter fun o ↦ o.2.isOk) manualEdges =
        .ok (a, { t with filesSkipped := 0, errors := [] })) ∧
    settle .failFast outcomes manualEdges =
      (match firstFailure? outcomes with
      | some e => .error e
      | none => settle .collect outcomes manualEdges) ∧
    ((∃ e, settle .failFast outcomes manualEdges = .error e) ↔
      ∃ o ∈ outcomes, ∃ e, o.2 = .error e) := by
  refine ⟨⟨_, _, settle_collect .., accounts_settled .., ?_⟩, settle_failFast .., ?_⟩
  · rw [settle_collect]
    simp only [settled, settledTally, stagedEdges, bare, extracts_filter_isOk,
      failures_filter_isOk]
    rfl
  · rw [settle_failFast, settle_collect, ← exists_firstFailure?_iff]
    cases firstFailure? outcomes with
    | none => exact iff_of_false (fun ⟨_, h⟩ ↦ nomatch h) fun ⟨_, h⟩ ↦ nomatch h
    | some e => exact iff_of_true ⟨e, rfl⟩ ⟨e, rfl⟩

/-! ### Builds below a base -/

/-- The outcomes of a build are those of the files that it discovers, each once. -/
theorem outcomes_eq_ok_iff {d : Disk} {base : Path} {r : Request}
    {os : List (Path × Outcome Extract)} : outcomes d base r = .ok os ↔
      ∃ files, Discovery.files d base r.glob r.options = .ok files ∧
        os = files.map fun f ↦ (f.path, r.extractor.extract d base f.path) := by
  rw [outcomes, bind_eq_ok]
  refine exists_congr fun files ↦ and_congr_right fun _ ↦ ?_
  exact ⟨fun h ↦ (Except.ok.inj h).symm, fun h ↦ h ▸ rfl⟩

/-- Below a base, a build is its files, what they gave, and the graph of the arena. -/
theorem run_of_content {d : Disk} {r : Request} {base : Path} (hbase : r.content = some base) :
    run d r = ((outcomes d base r).bind fun os ↦ settle r.policy os r.manualEdges).map
      fun x ↦ (x.1.graph, x.2) := by
  rw [run, hbase]
  dsimp only
  cases outcomes d base r with
  | error e => rfl
  | ok os =>
    show (settle r.policy os r.manualEdges).bind _ = (settle r.policy os r.manualEdges).map _
    cases settle r.policy os r.manualEdges <;> rfl

/-- The graph and the tally of a build that comes to an end. -/
theorem eq_of_run {d : Disk} {r : Request} {base : Path} {os : List (Path × Outcome Extract)}
    {g : Graph Float} {t : Tally} (hbase : r.content = some base) (hos : outcomes d base r = .ok os)
    (h : run d r = .ok (g, t)) :
    g = .ofRecords ((extracts os).map Extract.node) (stagedEdges os r.manualEdges) ∧
      t = settledTally os r.manualEdges := by
  rw [run_of_content hbase, hos] at h
  obtain ⟨⟨a, t'⟩, hsettle, hg⟩ := map_eq_ok.1 h
  obtain ⟨rfl, rfl⟩ := eq_settled_of_settle hsettle
  cases hg
  exact ⟨(holds_settled os r.manualEdges).graph, rfl⟩

/-- A build sorts the edges that it had to place by the nodes of its graph. -/
theorem edges_of_run {d : Disk} {r : Request} {base : Path} {os : List (Path × Outcome Extract)}
    {g : Graph Float} {t : Tally} (hbase : r.content = some base) (hos : outcomes d base r = .ok os)
    (h : run d r = .ok (g, t)) :
    g.edges = (stagedEdges os r.manualEdges).filter g.joins ∧
      t.dangling = ((stagedEdges os r.manualEdges).filter fun e ↦ !g.joins e).map
        Edge.describe := by
  obtain ⟨rfl, rfl⟩ := eq_of_run hbase hos h
  rw [Graph.joins_ofRecords]
  exact ⟨Graph.edges_ofRecords .., List.nil_append _⟩

/-- The ids of a graph that was built are those of what the files gave. -/
theorem mem_ids_of_run {d : Disk} {r : Request} {base : Path} {os : List (Path × Outcome Extract)}
    {g : Graph Float} {t : Tally} (hbase : r.content = some base) (hos : outcomes d base r = .ok os)
    (h : run d r = .ok (g, t)) {id : String} :
    id ∈ g.ids ↔ ∃ x ∈ extracts os, x.node.id = id := by
  obtain ⟨rfl, -⟩ := eq_of_run hbase hos h
  rw [Graph.mem_ids_ofRecords, List.map_map, List.mem_map]
  rfl

/-- A build that collects errors always has a graph, once the files are found. -/
theorem run_collect {d : Disk} {r : Request} {base : Path}
    {os : List (Path × Outcome Extract)} (hbase : r.content = some base)
    (hpolicy : r.policy = .collect) (hos : outcomes d base r = .ok os) :
    run d r = .ok (.ofRecords ((extracts os).map Extract.node) (stagedEdges os r.manualEdges),
      settledTally os r.manualEdges) := by
  rw [run_of_content hbase, hos, hpolicy]
  show (settle .collect os r.manualEdges).map _ = _
  rw [settle_collect, ← (holds_settled os r.manualEdges).graph]
  rfl

/-- A build that fails fast is one that collects errors, unless a file fails. -/
theorem run_failFast {d : Disk} {r : Request} {base : Path} {os : List (Path × Outcome Extract)}
    (hbase : r.content = some base) (hpolicy : r.policy = .failFast)
    (hos : outcomes d base r = .ok os) :
    run d r =
      match firstFailure? os with
      | some e => .error e
      | none => run d { r with policy := .collect } := by
  rw [run_of_content hbase, hos, hpolicy]
  show (settle .failFast os r.manualEdges).map _ = _
  rw [settle_failFast]
  cases firstFailure? os with
  | some e => rfl
  | none =>
    -- The policy does not bear on which files there are and on what becomes of each.
    have hcollect := @run_of_content d { r with policy := .collect } base hbase
    refine .trans ?_ hcollect.symm
    show _ = Except.map _ ((outcomes d base r).bind _)
    rw [hos]
    rfl

/-- **What `run` comes to accounts for the discovered files and for all edges**, those on the cards
and those asked for by hand. Collecting errors comes to a graph in any case; failing fast comes to
the same graph, or to the failure of the first file that fails. -/
theorem run_accounts {d : Disk} {r : Request} {base : Path} {os : List (Path × Outcome Extract)}
    (hbase : r.content = some base) (hos : outcomes d base r = .ok os) :
    (r.policy = .collect →
      ∃ a t, run d r = .ok (a.graph, t) ∧ Accounts os r.manualEdges a t) ∧
    (r.policy = .failFast → run d r =
      match firstFailure? os with
      | some e => .error e
      | none => run d { r with policy := .collect }) ∧
    ((∃ e, run d r = .error e) ↔ r.policy = .failFast ∧ ∃ o ∈ os, ∃ e, o.2 = .error e) := by
  have hgraph := (holds_settled os r.manualEdges).graph
  refine ⟨fun hpolicy ↦ ⟨settled os r.manualEdges, _, ?_, accounts_settled ..⟩,
    fun hpolicy ↦ run_failFast hbase hpolicy hos, ?_⟩
  · rw [run_collect hbase hpolicy hos, hgraph]
  · rw [← exists_firstFailure?_iff]
    rcases hpolicy : r.policy with - | -
    · have hcollect := @run_collect d { r with policy := .collect } base os hbase rfl hos
      rw [run_failFast hbase hpolicy hos, hcollect]
      cases firstFailure? os with
      | none => exact iff_of_false (fun ⟨_, h⟩ ↦ nomatch h) fun ⟨_, _, h⟩ ↦ nomatch h
      | some e => exact iff_of_true ⟨e, rfl⟩ ⟨rfl, e, rfl⟩
    · rw [run_collect hbase hpolicy hos]
      exact iff_of_false (fun ⟨_, h⟩ ↦ nomatch h) fun ⟨h, _⟩ ↦ nomatch h

end ConceptAtlas.Build
