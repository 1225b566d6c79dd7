import ConceptAtlas.Proofs.Graph.Duplicate

/-!
# One more loop

What a new loop changes in the report about a graph, and what it leaves alone
(`Graph.GainsLoop`, `Graph.gainsLoop_validate`). Two reports are compared, the one before and the
one after, and each list of the second is told from the lists of the first.

* The error about loops has one more entry, or is new; it is the only one of its code.
* No other error changes, so the same cycle of prerequisites is reported, node by node.
* The node of the loop leaves the isolated ones. A warning that is left without nodes is gone.
* The loop is a last duplicate if one with its label was at the node.

Each check reads the edges through a list of its own, and one edge more is followed through these
lists: loops and duplicates grow at their end, links between different nodes do not see the loop,
and isolated nodes are filtered once more.
-/

namespace ConceptAtlas

/-! ### The lists of a report -/

namespace Finding

variable {broken : Prop} {f : Finding} {fs fs' : List Finding} {nodes edges : List String}

/-- The nodes that are named by the findings with a code. -/
def nodesUnder (code : Finding.Code) (fs : List Finding) : List String :=
  (fs.filter (·.code = code)).flatMap Finding.nodes

/-- The edges that are named by the findings with a code. -/
def edgesUnder (code : Finding.Code) (fs : List Finding) : List String :=
  (fs.filter (·.code = code)).flatMap Finding.edges

/-- The nodes of a finding are listed, also where there are none and so no finding. -/
theorem ReportedIf.nodesUnder_eq (h : f.ReportedIf (nodes ≠ []) fs) (heq : f.nodes = nodes) :
    nodesUnder f.code fs = nodes := by
  rw [nodesUnder]
  rcases Classical.em (nodes = []) with hnil | hsome
  · rw [filter_code_eq_nil (h.2 (not_not.2 hnil)), hnil, List.flatMap_nil]
  · rw [h.1 hsome, List.flatMap_singleton, heq]

/-- The edges of a finding are listed, also where there are none and so no finding. -/
theorem ReportedIf.edgesUnder_eq (h : f.ReportedIf (edges ≠ []) fs) (heq : f.edges = edges) :
    edgesUnder f.code fs = edges := by
  rw [edgesUnder]
  rcases Classical.em (edges = []) with hnil | hsome
  · rw [filter_code_eq_nil (h.2 (not_not.2 hnil)), hnil, List.flatMap_nil]
  · rw [h.1 hsome, List.flatMap_singleton, heq]

/-- What two lists report alike is the same in both. -/
theorem ReportedIf.filter_code_eq (h : f.ReportedIf broken fs) (h' : f.ReportedIf broken fs') :
    fs.filter (·.code = f.code) = fs'.filter (·.code = f.code) := by
  rcases Classical.em broken with hbroken | hfine
  · rw [h.1 hbroken, h'.1 hbroken]
  · rw [filter_code_eq_nil (h.2 hfine), filter_code_eq_nil (h'.2 hfine)]

end Finding

namespace Graph

variable {W : Type} {g h : Graph W} {e : Edge W}

/-- The error about loops that are listed like this. -/
def loopErrorOf (loops : List String) : Finding :=
  ⟨.selfLoops, s!"{loops.length} edge(s) are self-loops", [], loops⟩

/-- The warning about isolated nodes that are listed like this. -/
def orphanWarningOf (orphans : List String) : Finding :=
  ⟨.orphanNodes, s!"{orphans.length} node(s) have no connections", orphans, []⟩

/-- The warning about duplicates that are listed like this. -/
def duplicateWarningOf (duplicates : List String) : Finding :=
  ⟨.duplicateEdges, s!"{duplicates.length} duplicate edge(s) found", [], duplicates⟩

section Validate

variable (g : Graph W) (withSummary : Bool)

theorem loops_ne_nil_iff : g.loops ≠ [] ↔ ∃ e ∈ g.edges, e.source = e.target := by
  rw [loops_eq, ne_eq, ← List.map_id (List.filter _ _), map_filter_eq_nil_iff, not_not]

theorem loopErrorOf_loops : loopErrorOf (g.loops.map Edge.describe) = g.loopError := by
  rw [loopErrorOf, loopError, loops_eq, List.length_map]

theorem loopFinding?_eq_some (hsome : g.loops ≠ []) :
    g.loopFinding? = some (loopErrorOf (g.loops.map Edge.describe)) := by
  rw [loopFinding?_eq_ite, if_pos (g.loops_ne_nil_iff.1 hsome), loopErrorOf_loops]

theorem reportedIf_loopErrorOf : (loopErrorOf (g.loops.map Edge.describe)).ReportedIf
    (g.loops.map Edge.describe ≠ []) (g.validate withSummary).errors := by
  rw [loopErrorOf_loops, ne_eq, List.map_eq_nil_iff, ← ne_eq, loops_ne_nil_iff]
  exact g.reportedIf_loopError withSummary

theorem reportedIf_orphanWarningOf :
    (orphanWarningOf g.orphans).ReportedIf (g.orphans ≠ []) (g.validate withSummary).warnings := by
  have horphans : g.orphans ≠ [] ↔ ∃ id ∈ g.ids, g.Isolated id := by
    rw [orphans_eq, ← not_iff_comm, ← map_filter_eq_nil_iff, List.map_id']
  have hwarning : orphanWarningOf g.orphans = g.orphanWarning := by
    rw [orphanWarningOf, orphanWarning, orphans_eq]
  rw [horphans, hwarning]
  exact g.reportedIf_orphanWarning withSummary

theorem reportedIf_duplicateWarningOf :
    (duplicateWarningOf (g.duplicates.map describeDuplicate)).ReportedIf
      (g.duplicates.map describeDuplicate ≠ []) (g.validate withSummary).warnings := by
  have hwarning : duplicateWarningOf (g.duplicates.map describeDuplicate) =
      duplicateWarning g.duplicates := by
    rw [duplicateWarningOf, duplicateWarning, List.length_map]
  rw [hwarning, ne_eq, List.map_eq_nil_iff]
  exact g.reportedIf_duplicateWarning withSummary

theorem edgesUnder_selfLoops : Finding.edgesUnder .selfLoops (g.validate withSummary).errors =
    g.loops.map Edge.describe :=
  (g.reportedIf_loopErrorOf withSummary).edgesUnder_eq rfl

theorem nodesUnder_orphanNodes :
    Finding.nodesUnder .orphanNodes (g.validate withSummary).warnings = g.orphans :=
  (g.reportedIf_orphanWarningOf withSummary).nodesUnder_eq rfl

theorem edgesUnder_duplicateEdges :
    Finding.edgesUnder .duplicateEdges (g.validate withSummary).warnings =
      g.duplicates.map describeDuplicate :=
  (g.reportedIf_duplicateWarningOf withSummary).edgesUnder_eq rfl

/-- The errors of other codes than that of loops. -/
theorem filter_errors_validate :
    (g.validate withSummary).errors.filter (·.code ≠ .selfLoops) =
      g.cycleFinding?.toList ++ g.referenceFinding?.toList := by
  have hloops : g.loopFinding?.toList.filter (·.code ≠ .selfLoops) = [] := by
    refine List.filter_eq_nil_iff.2 fun f hf ↦ ?_
    rw [decide_eq_true_iff, not_not]
    exact code_of_mem_finding? hf
  rw [validate, List.append_assoc, List.filter_append, hloops, List.nil_append]
  exact List.filter_eq_self.2 fun f hf ↦ decide_eq_true (g.code_ne_selfLoops f hf)

end Validate

/-! ### The lists of a graph with one more loop -/

section Concat

variable (hnodes : h.nodes = g.nodes) (hedges : h.edges = g.edges ++ [e])
  (hloop : e.source = e.target)

include hedges hloop in
theorem loops_eq_concat : h.loops = g.loops ++ [e] := by
  have he : e.isLoop = true := beq_iff_eq.2 hloop
  rw [loops, hedges, List.filter_append, List.filter_cons_of_pos he, List.filter_nil, loops]

include hedges hloop in
theorem prerequisiteLinks_eq_of_loop : h.prerequisiteLinks = g.prerequisiteLinks := by
  have he : e.isLoop = true := beq_iff_eq.2 hloop
  rw [prerequisiteLinks, hedges, List.filterMap_append, prerequisiteLinks]
  simp [he]

include hnodes hedges hloop in
theorem cycleFinding?_eq_of_loop : h.cycleFinding? = g.cycleFinding? := by
  have hids : h.ids = g.ids := congrArg (List.map Node.id) hnodes
  rw [cycleFinding?, prerequisiteCycle?, prerequisiteLinks_eq_of_loop hedges hloop, hids]
  rfl

include hnodes in
theorem referenceFinding?_eq_of_nodes_eq : h.referenceFinding? = g.referenceFinding? := by
  have hcontains : h.contains = g.contains := by
    funext id
    rw [contains, hnodes, contains]
  have hbroken : h.brokenReference? = g.brokenReference? := by
    funext n
    rw [brokenReference?, hcontains, brokenReference?]
  rw [referenceFinding?, hbroken, hnodes, referenceFinding?]

include hedges hloop in
theorem isolated_iff_of_loop {id : String} : h.Isolated id ↔ g.Isolated id ∧ id ≠ e.source := by
  rw [Isolated, hedges, List.forall_mem_append, List.forall_mem_singleton, ← hloop, and_self,
    ne_comm, Isolated]

include hnodes hedges hloop in
theorem orphans_eq_filter : h.orphans = g.orphans.filter (· ≠ e.source) := by
  have hids : h.ids = g.ids := congrArg (List.map Node.id) hnodes
  rw [orphans_eq, orphans_eq, hids, List.filter_filter]
  refine List.filter_congr fun id _ ↦ ?_
  rw [Bool.eq_iff_iff, decide_eq_true_iff, isolated_iff_of_loop hedges hloop, Bool.and_eq_true,
    decide_eq_true_iff, decide_eq_true_iff, and_comm]

end Concat

/-! ### The two reports -/

/-- The node of a loop has one with the same label already. -/
def HasTwin (g : Graph W) (e : Edge W) : Prop :=
  ∃ d ∈ g.edges, d.source = e.source ∧ d.target = e.source ∧
    d.relationship.label = e.relationship.label

/-- A report is another one with a loop more. -/
structure GainsLoop (g : Graph W) (e : Edge W) (r r' : Report) : Prop where
  /-- One error is about loops, with the new one last, and all others are there as before. -/
  errors : r'.errors =
    loopErrorOf (Finding.edgesUnder .selfLoops r.errors ++ [e.describe]) ::
      r.errors.filter (·.code ≠ .selfLoops)
  /-- A node that was isolated is no longer, and the warning goes with the last one. -/
  joined : g.Isolated e.source → e.source ∈ Finding.nodesUnder .orphanNodes r.warnings ∧
    let others := (Finding.nodesUnder .orphanNodes r.warnings).filter (· ≠ e.source)
    (orphanWarningOf others).ReportedIf (others ≠ []) r'.warnings
  /-- A node with edges was not among the isolated ones, and these stay. -/
  settled : ¬ g.Isolated e.source → e.source ∉ Finding.nodesUnder .orphanNodes r.warnings ∧
    r'.warnings.filter (·.code = .orphanNodes) = r.warnings.filter (·.code = .orphanNodes)
  /-- A loop with a twin is one more duplicate, the last. -/
  repeated : g.HasTwin e → r'.warnings.filter (·.code = .duplicateEdges) =
    [duplicateWarningOf (Finding.edgesUnder .duplicateEdges r.warnings ++ [describeDuplicate e])]
  /-- A loop without a twin is none. -/
  fresh : ¬ g.HasTwin e → r'.warnings.filter (·.code = .duplicateEdges) =
    r.warnings.filter (·.code = .duplicateEdges)
  /-- There are no other warnings. -/
  codes : ∀ f ∈ r'.warnings, f.code = .orphanNodes ∨ f.code = .duplicateEdges
  /-- A summary differs in the number of edges. -/
  infos : r'.infos = r.infos.map fun f ↦
    { f with message := s!"Graph has {g.nodes.length} nodes and {g.edges.length + 1} edges" }
  invalid : r'.isValid = false

section Concat

variable (hnodes : h.nodes = g.nodes) (hedges : h.edges = g.edges ++ [e])
  (hloop : e.source = e.target)

include hedges hloop in
theorem duplicates_of_hasTwin (htwin : g.HasTwin e) : h.duplicates = g.duplicates ++ [e] := by
  obtain ⟨d, hd, hs, ht, hlabel⟩ := htwin
  have hkey : edgeKey e ∈ g.edges.map edgeKey :=
    List.mem_map.2 ⟨d, hd, sameLabel_iff_edgeKey_eq.1 ⟨hs, ht.trans hloop, hlabel⟩⟩
  rw [duplicates_eq_of_edges_eq_concat hedges, if_pos hkey]

include hedges hloop in
theorem duplicates_of_not_hasTwin (hfresh : ¬ g.HasTwin e) : h.duplicates = g.duplicates := by
  have hkey : edgeKey e ∉ g.edges.map edgeKey := fun hmem ↦ by
    obtain ⟨d, hd, hsame⟩ := List.mem_map.1 hmem
    obtain ⟨hs, ht, hlabel⟩ := sameLabel_iff_edgeKey_eq.2 hsame
    exact hfresh ⟨d, hd, hs, ht.trans hloop.symm, hlabel⟩
  rw [duplicates_eq_of_edges_eq_concat hedges, if_neg hkey, List.append_nil]

include hnodes hedges hloop in
/-- A graph with one loop more is judged like that. -/
theorem gainsLoop_of_edges_eq_concat (hid : e.source ∈ g.ids) (withSummary : Bool) :
    g.GainsLoop e (g.validate withSummary) (h.validate withSummary) := by
  have hloops : h.loops = g.loops ++ [e] := loops_eq_concat hedges hloop
  have horphans : h.orphans = g.orphans.filter (· ≠ e.source) :=
    orphans_eq_filter hnodes hedges hloop
  have hmem : e.source ∈ g.orphans ↔ g.Isolated e.source := by
    rw [orphans_eq, List.mem_filter, decide_eq_true_iff, and_iff_right hid]
  have herrors : (h.validate withSummary).errors = loopErrorOf (h.loops.map Edge.describe) ::
      (g.validate withSummary).errors.filter (·.code ≠ .selfLoops) := by
    have hsome : h.loops ≠ [] := hloops ▸ List.concat_ne_nil _ _
    rw [validate, loopFinding?_eq_some h hsome, cycleFinding?_eq_of_loop hnodes hedges hloop,
      referenceFinding?_eq_of_nodes_eq hnodes, filter_errors_validate, List.append_assoc]
    rfl
  exact {
    errors := by
      rw [herrors, hloops, List.map_append, List.map_singleton, edgesUnder_selfLoops]
    joined := fun hisolated ↦ by
      rw [nodesUnder_orphanNodes, ← horphans]
      exact ⟨hmem.2 hisolated, h.reportedIf_orphanWarningOf withSummary⟩
    settled := fun hsettled ↦ by
      have hsame : h.orphans = g.orphans := by
        rw [horphans, List.filter_eq_self]
        exact fun id hid ↦ decide_eq_true fun heq ↦ hsettled (hmem.1 (heq ▸ hid))
      have hreported := h.reportedIf_orphanWarningOf withSummary
      rw [hsame] at hreported
      rw [nodesUnder_orphanNodes]
      exact ⟨mt hmem.1 hsettled,
        hreported.filter_code_eq (g.reportedIf_orphanWarningOf withSummary)⟩
    repeated := fun htwin ↦ by
      have hreported := h.reportedIf_duplicateWarningOf withSummary
      rw [duplicates_of_hasTwin hedges hloop htwin, List.map_append,
        List.map_singleton] at hreported
      rw [edgesUnder_duplicateEdges]
      exact hreported.1 (List.concat_ne_nil _ _)
    fresh := fun hfresh ↦ by
      have hreported := h.reportedIf_duplicateWarningOf withSummary
      rw [duplicates_of_not_hasTwin hedges hloop hfresh] at hreported
      exact hreported.filter_code_eq (g.reportedIf_duplicateWarningOf withSummary)
    codes := fun f hf ↦
      (List.mem_append.1 hf).imp code_of_mem_finding? code_of_mem_finding?
    infos := by
      rw [validate, validate]
      cases withSummary with
      | false => rfl
      | true => simp [summaryFinding, hnodes, hedges]
    invalid := by rw [Report.isValid, herrors, List.isEmpty_cons] }

end Concat

/-- **A loop changes nothing else**: the report about a graph with a loop more is the one before,
with the loop in it. -/
theorem gainsLoop_validate (hid : e.source ∈ g.ids) (hloop : e.source = e.target)
    (withSummary : Bool) : ∃ h : Graph W, g.addEdge e = .ok h ∧
      g.GainsLoop e (g.validate withSummary) (h.validate withSummary) := by
  have htarget : e.target ∈ g.ids := hloop ▸ hid
  have hadd : g.addEdge e = .ok (g.withEdge e hid htarget) := by
    rw [addEdge, dif_pos hid, dif_pos htarget]
  have hnodes : (g.withEdge e hid htarget).nodes = g.nodes := rfl
  have hedges : (g.withEdge e hid htarget).edges = g.edges ++ [e] := rfl
  exact ⟨_, hadd, gainsLoop_of_edges_eq_concat hnodes hedges hloop hid withSummary⟩

/-- A gate and a path that need each other, and a shed beside them. -/
def yard : Graph Unit where
  nodes := [.plain "gate" "Gate", .plain "path" "Path", .plain "shed" "Shed"]
  edges := [⟨"gate", "path", .prerequisite, (), .manual⟩,
    ⟨"path", "gate", .prerequisite, (), .manual⟩]
  nodup_ids := by decide
  source_mem := by decide
  target_mem := by decide

/-- A loop at the shed. -/
def shedLoop : Edge Unit := ⟨"shed", "shed", .prerequisite, (), .manual⟩

/-- With a loop the shed is no longer isolated, and the warning about it is gone. -/
theorem gainsLoop_validate_yard : shedLoop.source ∈ yard.ids ∧
    shedLoop.source = shedLoop.target ∧
    Finding.nodesUnder .orphanNodes (yard.validate true).warnings = ["shed"] ∧
    ∃ h, yard.addEdge shedLoop = .ok h ∧
      yard.GainsLoop shedLoop (yard.validate true) (h.validate true) ∧
      ∀ f ∈ (h.validate true).warnings, f.code ≠ .orphanNodes := by
  have hid : shedLoop.source ∈ yard.ids := by decide
  have horphans : Finding.nodesUnder .orphanNodes (yard.validate true).warnings = ["shed"] := by
    decide +kernel
  obtain ⟨h, hadd, hgains⟩ := gainsLoop_validate hid rfl true
  have hjoined := (hgains.joined (by decide)).2
  rw [horphans] at hjoined
  exact ⟨hid, rfl, horphans, h, hadd, hgains, hjoined.2 (by decide)⟩

end Graph

end ConceptAtlas
