import ConceptAtlas.Graph.Validation
import ConceptAtlas.Proofs.Graph.Cycle

/-!
# The verdict of a validation

What a report says about a graph, told without the checks that wrote it (`Graph.Judges`): a graph is
valid if it has no loop, no cycle of prerequisites between different nodes, and no variant without
its canonical node. Each condition that is broken is one error, and each error is one of the three.

The conditions speak of the stored edges and nodes alone. Prerequisites are a relation on ids
(`IsPrerequisite`), in which parallel edges count once; the arcs that are searched for a cycle are
that relation without its loops. A search that has to come back with a cycle does so
(`find?_of_cyclic`), so a report is always complete.
-/

namespace ConceptAtlas

variable {W : Type}

/-! ### One finding of its code -/

/-- A finding is the only one of its code where something is broken, and elsewhere none has that
code. -/
def Finding.ReportedIf (broken : Prop) (f : Finding) (fs : List Finding) : Prop :=
  (broken → fs.filter (·.code = f.code) = [f]) ∧ (¬ broken → ∀ x ∈ fs, x.code ≠ f.code)

theorem Finding.filter_code_eq_nil {code : Finding.Code} {fs : List Finding}
    (h : ∀ x ∈ fs, x.code ≠ code) : fs.filter (·.code = code) = [] := by
  refine List.filter_eq_nil_iff.2 fun x hx ↦ ?_
  simpa using h x hx

/-- A code is in use exactly if something is broken. -/
theorem Finding.ReportedIf.exists_code_iff {broken : Prop} {f : Finding} {fs : List Finding}
    (h : f.ReportedIf broken fs) : (∃ x ∈ fs, x.code = f.code) ↔ broken := by
  constructor
  · rintro ⟨x, hx, hcode⟩
    by_contra hfine
    exact h.2 hfine x hx hcode
  · intro hbroken
    have hf : f ∈ fs.filter (·.code = f.code) := by
      rw [h.1 hbroken]
      exact List.mem_singleton_self f
    exact ⟨f, (List.mem_filter.1 hf).1, rfl⟩

/-- What one check finds stays the only finding of its code between findings of other codes. -/
theorem Finding.ReportedIf.of_toList {broken : Prop} {f : Finding} {found : Option Finding}
    {before after : List Finding} (hsome : broken → found = some f)
    (hnone : ¬ broken → found = none) (hbefore : ∀ x ∈ before, x.code ≠ f.code)
    (hafter : ∀ x ∈ after, x.code ≠ f.code) :
    ReportedIf broken f (before ++ found.toList ++ after) := by
  refine ⟨fun h ↦ ?_, fun h x hx ↦ ?_⟩
  · rw [hsome h, List.filter_append, List.filter_append, filter_code_eq_nil hbefore,
      filter_code_eq_nil hafter]
    simp
  · rw [hnone h, Option.toList_none, List.append_nil] at hx
    exact (List.mem_append.1 hx).elim (hbefore x) (hafter x)

namespace Graph

/-! ### The conditions -/

/-- One concept is a direct prerequisite of another. -/
def IsPrerequisite (g : Graph W) (u v : String) : Prop :=
  ∃ e ∈ g.edges, e.relationship = .prerequisite ∧ e.source = u ∧ e.target = v

/-- One concept is a direct prerequisite of a different one. -/
def IsProperPrerequisite (g : Graph W) (u v : String) : Prop := g.IsPrerequisite u v ∧ u ≠ v

/-- No edge is at a node. -/
def Isolated (g : Graph W) (id : String) : Prop := ∀ e ∈ g.edges, e.source ≠ id ∧ e.target ≠ id

instance (g : Graph W) (id : String) : Decidable (g.Isolated id) :=
  inferInstanceAs (Decidable (∀ e ∈ g.edges, e.source ≠ id ∧ e.target ≠ id))

/-- A variant names no node of the graph as its canonical one. -/
def Unresolved (g : Graph W) (n : Node) : Prop :=
  n.isCanonical = false ∧ ∀ id ∈ n.canonicalId, id ∉ g.ids

instance (g : Graph W) (n : Node) : Decidable (g.Unresolved n) :=
  inferInstanceAs (Decidable (n.isCanonical = false ∧ ∀ id ∈ n.canonicalId, id ∉ g.ids))

/-- What is said about a variant without its canonical node. -/
def complaint (n : Node) : String :=
  match n.canonicalId with
  | none => s!"{n.id} is non-canonical but has no canonical_id"
  | some id => s!"{n.id} references missing canonical {id}"

/-! ### The checks -/

theorem isOrphan_iff {g : Graph W} {id : String} : g.isOrphan id = true ↔ g.Isolated id := by
  rw [isOrphan, degree, inDegree, outDegree, beq_iff_eq, Nat.add_eq_zero_iff,
    List.length_eq_zero_iff, List.length_eq_zero_iff, incoming, outgoing, List.filter_eq_nil_iff,
    List.filter_eq_nil_iff]
  simp only [beq_iff_eq]
  constructor
  · rintro ⟨hin, hout⟩ e he
    exact ⟨hout e he, hin e he⟩
  · intro h
    exact ⟨fun e he ↦ (h e he).2, fun e he ↦ (h e he).1⟩

theorem orphans_eq (g : Graph W) : g.orphans = g.ids.filter fun id ↦ g.Isolated id := by
  refine List.filter_congr fun id _ ↦ ?_
  rw [Bool.eq_iff_iff, isOrphan_iff, decide_eq_true_iff]

theorem loops_eq (g : Graph W) : g.loops = g.edges.filter fun e ↦ e.source = e.target := by
  refine List.filter_congr fun e _ ↦ ?_
  rw [Edge.isLoop, Bool.eq_iff_iff, beq_iff_eq, decide_eq_true_iff]

theorem brokenReference?_eq (g : Graph W) (n : Node) :
    g.brokenReference? n = if g.Unresolved n then some (complaint n) else none := by
  rw [brokenReference?]
  rcases hn : n.isCanonical with - | -
  · rcases hid : n.canonicalId with - | id
    · simp [Unresolved, complaint, hn, hid]
    · cases hc : g.contains id <;> simp [Unresolved, complaint, hn, hid, ← contains_iff, hc]
  · simp [Unresolved, hn]

theorem filterMap_brokenReference? (g : Graph W) :
    g.nodes.filterMap g.brokenReference? =
      (g.nodes.filter fun n ↦ g.Unresolved n).map complaint := by
  rw [← List.filterMap_eq_filter, List.map_filterMap]
  refine List.filterMap_congr fun n _ ↦ ?_
  rw [brokenReference?_eq]
  split <;> simp_all [Option.guard]

/-- A check that collects what is broken finds it, or finds nothing. -/
theorem finding?_eq_ite {code : Finding.Code} (message : Nat → String) {nodes edges : List String}
    {broken : Prop} [Decidable broken] (h : nodes = [] ∧ edges = [] ↔ ¬ broken) :
    finding? code message nodes edges =
      if broken then some ⟨code, message (nodes.length + edges.length), nodes, edges⟩
      else none := by
  split
  · rename_i hbroken
    rw [finding?, if_neg]
    rw [Nat.add_eq_zero_iff, List.length_eq_zero_iff, List.length_eq_zero_iff]
    exact fun hnil ↦ h.1 hnil hbroken
  · rename_i hfine
    exact finding?_eq_none_iff.2 (h.2 hfine)

theorem code_of_mem_finding? {code : Finding.Code} {message : Nat → String}
    {nodes edges : List String} {f : Finding}
    (h : f ∈ (finding? code message nodes edges).toList) : f.code = code := by
  rw [finding?] at h
  split at h
  · exact absurd h List.not_mem_nil
  · rw [List.mem_singleton.1 h]

theorem code_of_mem_cycleFinding? {g : Graph W} {f : Finding} (h : f ∈ g.cycleFinding?.toList) :
    f.code = .prerequisiteCycle := by
  rw [Option.mem_toList, cycleFinding?, Option.map_eq_some_iff] at h
  obtain ⟨cycle, -, rfl⟩ := h
  rfl

/-! ### The prerequisite cycle -/

theorem mem_prerequisiteLinks {g : Graph W} {u v : String} :
    (u, v) ∈ g.prerequisiteLinks ↔ g.IsProperPrerequisite u v := by
  simp only [prerequisiteLinks, List.mem_filterMap, Option.ite_none_right_eq_some, Edge.isLoop,
    beq_iff_eq, Option.some.injEq, Prod.mk.injEq]
  constructor
  · rintro ⟨e, he, ⟨hr, hne⟩, rfl, rfl⟩
    exact ⟨⟨e, he, hr, rfl, rfl⟩, hne⟩
  · rintro ⟨⟨e, he, hr, rfl, rfl⟩, hne⟩
    exact ⟨e, he, ⟨hr, hne⟩, rfl, rfl⟩

theorem IsPrerequisite.mem_ids {g : Graph W} {u v : String} (h : g.IsPrerequisite u v) :
    u ∈ g.ids ∧ v ∈ g.ids := by
  obtain ⟨e, he, -, rfl, rfl⟩ := h
  exact ⟨g.source_mem e he, g.target_mem e he⟩

/-- The links between all nodes are the proper prerequisites. -/
theorem link_prerequisiteLinks (g : Graph W) :
    Cycle.Link g.prerequisiteLinks g.ids = g.IsProperPrerequisite := by
  funext u v
  rw [Cycle.Link, mem_prerequisiteLinks]
  refine propext ⟨fun h ↦ h.1, fun h ↦ ?_⟩
  exact ⟨h, h.1.mem_ids⟩

/-- **The search is never without an answer** where there is a cycle. -/
theorem find?_of_cyclic {g : Graph W} (h : Cycle.Cyclic g.IsProperPrerequisite) :
    ∃ cycle, Cycle.find? g.prerequisiteLinks g.ids = some cycle := by
  refine Cycle.exists_find?_eq_some (fun a ha ↦ ?_) (g.link_prerequisiteLinks ▸ h)
  exact (mem_prerequisiteLinks.1 ha).1.mem_ids.2

theorem exists?_prerequisiteLinks (g : Graph W) :
    Cycle.exists? g.prerequisiteLinks g.ids = true ↔ Cycle.Cyclic g.IsProperPrerequisite := by
  rw [Cycle.exists?_iff, link_prerequisiteLinks]

/-- A cycle is reported as the search has found it. -/
theorem prerequisiteCycle?_of_cyclic {g : Graph W} (h : Cycle.Cyclic g.IsProperPrerequisite) :
    g.prerequisiteCycle? = Cycle.find? g.prerequisiteLinks g.ids := by
  obtain ⟨cycle, hcycle⟩ := find?_of_cyclic h
  rw [prerequisiteCycle?, if_pos (g.exists?_prerequisiteLinks.2 h), hcycle, Option.getD_some]

theorem prerequisiteCycle?_of_not_cyclic {g : Graph W}
    (h : ¬ Cycle.Cyclic g.IsProperPrerequisite) : g.prerequisiteCycle? = none := by
  rw [prerequisiteCycle?, if_neg fun hc ↦ h (g.exists?_prerequisiteLinks.1 hc)]

/-! ### The report -/

/-- The error about loops: all of them, in the order of edges. -/
def loopError (g : Graph W) : Finding :=
  let loops := g.edges.filter fun e ↦ e.source = e.target
  ⟨.selfLoops, s!"{loops.length} edge(s) are self-loops", [], loops.map Edge.describe⟩

/-- The error about a cycle of prerequisites. -/
def cycleError (cycle : List String) : Finding :=
  ⟨.prerequisiteCycle, "Cycle detected in prerequisite relationships", cycle, []⟩

/-- The error about variants: a complaint about each that is unresolved, in the order of nodes. -/
def referenceError (g : Graph W) : Finding :=
  let variants := g.nodes.filter fun n ↦ g.Unresolved n
  ⟨.canonicalReference, s!"{variants.length} invalid canonical reference(s)",
    variants.map complaint, []⟩

/-- The warning about isolated nodes: all of them, in the order of nodes. -/
def orphanWarning (g : Graph W) : Finding :=
  let orphans := g.ids.filter fun id ↦ g.Isolated id
  ⟨.orphanNodes, s!"{orphans.length} node(s) have no connections", orphans, []⟩

/-- A report says of a graph what there is to say about its edges and variants. -/
structure Judges (g : Graph W) (r : Report) : Prop where
  /-- The verdict is that no condition is broken. -/
  valid : r.isValid = true ↔
    (∀ e ∈ g.edges, e.source ≠ e.target) ∧ ¬ Cycle.Cyclic g.IsProperPrerequisite ∧
      ∀ n ∈ g.nodes, n.isCanonical = false → ∃ id ∈ g.ids, n.canonicalId = some id
  /-- Nothing but the errors decides it. -/
  decided : ∀ warnings infos, ({ r with warnings, infos } : Report).isValid = r.isValid
  /-- Every error is about one of the three conditions. -/
  codes : ∀ f ∈ r.errors,
    f.code = .selfLoops ∨ f.code = .prerequisiteCycle ∨ f.code = .canonicalReference
  loops : g.loopError.ReportedIf (∃ e ∈ g.edges, e.source = e.target) r.errors
  /-- A cycle is reported as the search for it comes back with it. -/
  cycle : ∃ nodes, (cycleError nodes).ReportedIf (Cycle.Cyclic g.IsProperPrerequisite) r.errors ∧
    (Cycle.Cyclic g.IsProperPrerequisite → Cycle.find? g.prerequisiteLinks g.ids = some nodes)
  references : g.referenceError.ReportedIf (∃ n ∈ g.nodes, g.Unresolved n) r.errors
  orphans : g.orphanWarning.ReportedIf (∃ id ∈ g.ids, g.Isolated id) r.warnings

theorem map_filter_eq_nil_iff {α β : Type} {p : α → Prop} [DecidablePred p] {f : α → β}
    {l : List α} : (l.filter (p ·)).map f = [] ↔ ¬ ∃ x ∈ l, p x := by
  simp [List.filter_eq_nil_iff]

theorem loopFinding?_eq_ite (g : Graph W) :
    g.loopFinding? = if ∃ e ∈ g.edges, e.source = e.target then some g.loopError else none := by
  have hnil : ([] : List String) = [] ∧ g.loops.map Edge.describe = [] ↔
      ¬ ∃ e ∈ g.edges, e.source = e.target := by
    rw [loops_eq, map_filter_eq_nil_iff, eq_self, true_and]
  rw [loopFinding?, finding?_eq_ite _ hnil, loops_eq, List.length_nil, Nat.zero_add,
    List.length_map]
  rfl

theorem referenceFinding?_eq_ite (g : Graph W) :
    g.referenceFinding? =
      if ∃ n ∈ g.nodes, g.Unresolved n then some g.referenceError else none := by
  have hnil : g.nodes.filterMap g.brokenReference? = [] ∧ ([] : List String) = [] ↔
      ¬ ∃ n ∈ g.nodes, g.Unresolved n := by
    rw [filterMap_brokenReference?, map_filter_eq_nil_iff, eq_self, and_true]
  rw [referenceFinding?, finding?_eq_ite _ hnil, filterMap_brokenReference?, List.length_map]
  rfl

theorem orphanFinding?_eq_ite (g : Graph W) :
    g.orphanFinding? = if ∃ id ∈ g.ids, g.Isolated id then some g.orphanWarning else none := by
  have hnil : g.orphans = [] ∧ ([] : List String) = [] ↔ ¬ ∃ id ∈ g.ids, g.Isolated id := by
    rw [orphans_eq, ← map_filter_eq_nil_iff, List.map_id', eq_self, and_true]
  rw [orphanFinding?, finding?_eq_ite _ hnil, orphans_eq]
  rfl

theorem cycleFinding?_of_cyclic {g : Graph W} (h : Cycle.Cyclic g.IsProperPrerequisite) :
    ∃ nodes, g.cycleFinding? = some (cycleError nodes) ∧
      Cycle.find? g.prerequisiteLinks g.ids = some nodes := by
  obtain ⟨nodes, hnodes⟩ := find?_of_cyclic h
  refine ⟨nodes, ?_, hnodes⟩
  rw [cycleFinding?, prerequisiteCycle?_of_cyclic h, hnodes]
  rfl

theorem cycleFinding?_of_not_cyclic {g : Graph W} (h : ¬ Cycle.Cyclic g.IsProperPrerequisite) :
    g.cycleFinding? = none := by
  rw [cycleFinding?, prerequisiteCycle?_of_not_cyclic h, Option.map_none]

theorem cycleFinding?_eq_none_iff {g : Graph W} :
    g.cycleFinding? = none ↔ ¬ Cycle.Cyclic g.IsProperPrerequisite := by
  refine ⟨fun h hc ↦ ?_, cycleFinding?_of_not_cyclic⟩
  obtain ⟨nodes, hfound, -⟩ := cycleFinding?_of_cyclic hc
  rw [hfound] at h
  nomatch h

theorem not_unresolved_iff {g : Graph W} {n : Node} :
    ¬ g.Unresolved n ↔ (n.isCanonical = false → ∃ id ∈ g.ids, n.canonicalId = some id) := by
  rw [Unresolved, not_and]
  refine forall_congr' fun _ ↦ ?_
  push Not
  exact exists_congr fun id ↦ and_comm

/-- A graph is valid if each of its three checks for errors finds nothing. -/
theorem isValid_validate_iff {g : Graph W} {withSummary : Bool} :
    (g.validate withSummary).isValid = true ↔
      g.loopFinding? = none ∧ g.cycleFinding? = none ∧ g.referenceFinding? = none := by
  simp only [Report.isValid, validate, List.isEmpty_iff, List.append_eq_nil_iff,
    Option.toList_eq_nil_iff, and_assoc]

theorem code_ne_selfLoops (g : Graph W) :
    ∀ f ∈ g.cycleFinding?.toList ++ g.referenceFinding?.toList, f.code ≠ .selfLoops := by
  rw [List.forall_mem_append]
  exact ⟨fun f hf ↦ ne_of_eq_of_ne (code_of_mem_cycleFinding? hf) (by decide),
    fun f hf ↦ ne_of_eq_of_ne (code_of_mem_finding? hf) (by decide)⟩

section Validate

variable (g : Graph W) (withSummary : Bool)

theorem code_of_mem_errors_validate {f : Finding} (hf : f ∈ (g.validate withSummary).errors) :
    f.code = .selfLoops ∨ f.code = .prerequisiteCycle ∨ f.code = .canonicalReference := by
  rcases List.mem_append.1 hf with hf | hf
  · rcases List.mem_append.1 hf with hf | hf
    · exact .inl (code_of_mem_finding? hf)
    · exact .inr (.inl (code_of_mem_cycleFinding? hf))
  · exact .inr (.inr (code_of_mem_finding? hf))

theorem reportedIf_loopError : g.loopError.ReportedIf (∃ e ∈ g.edges, e.source = e.target)
    (g.validate withSummary).errors := by
  have herrors : (g.validate withSummary).errors =
      [] ++ g.loopFinding?.toList ++ (g.cycleFinding?.toList ++ g.referenceFinding?.toList) := by
    rw [validate, List.nil_append, List.append_assoc]
  rw [herrors]
  exact .of_toList (fun h ↦ g.loopFinding?_eq_ite.trans (if_pos h))
    (fun h ↦ g.loopFinding?_eq_ite.trans (if_neg h)) (List.forall_mem_nil _) g.code_ne_selfLoops

theorem exists_reportedIf_cycleError : ∃ nodes,
    (cycleError nodes).ReportedIf (Cycle.Cyclic g.IsProperPrerequisite)
      (g.validate withSummary).errors ∧
    (Cycle.Cyclic g.IsProperPrerequisite → Cycle.find? g.prerequisiteLinks g.ids = some nodes) := by
  have hbefore : ∀ f ∈ g.loopFinding?.toList, f.code ≠ .prerequisiteCycle := fun f hf ↦
    ne_of_eq_of_ne (code_of_mem_finding? hf) (by decide)
  have hafter : ∀ f ∈ g.referenceFinding?.toList, f.code ≠ .prerequisiteCycle := fun f hf ↦
    ne_of_eq_of_ne (code_of_mem_finding? hf) (by decide)
  rcases Classical.em (Cycle.Cyclic g.IsProperPrerequisite) with hc | hc
  · obtain ⟨nodes, hfound, hsearch⟩ := cycleFinding?_of_cyclic hc
    exact ⟨nodes, .of_toList (fun _ ↦ hfound) (absurd hc) hbefore hafter, fun _ ↦ hsearch⟩
  · exact ⟨[], .of_toList (fun h ↦ absurd h hc) cycleFinding?_of_not_cyclic hbefore hafter,
      fun h ↦ absurd h hc⟩

theorem reportedIf_referenceError : g.referenceError.ReportedIf (∃ n ∈ g.nodes, g.Unresolved n)
    (g.validate withSummary).errors := by
  have hcodes : ∀ f ∈ g.loopFinding?.toList ++ g.cycleFinding?.toList,
      f.code ≠ .canonicalReference := by
    rw [List.forall_mem_append]
    exact ⟨fun f hf ↦ ne_of_eq_of_ne (code_of_mem_finding? hf) (by decide),
      fun f hf ↦ ne_of_eq_of_ne (code_of_mem_cycleFinding? hf) (by decide)⟩
  have herrors : (g.validate withSummary).errors =
      g.loopFinding?.toList ++ g.cycleFinding?.toList ++ g.referenceFinding?.toList ++ [] :=
    (List.append_nil _).symm
  rw [herrors]
  exact .of_toList (fun h ↦ g.referenceFinding?_eq_ite.trans (if_pos h))
    (fun h ↦ g.referenceFinding?_eq_ite.trans (if_neg h)) hcodes (List.forall_mem_nil _)

theorem reportedIf_orphanWarning : g.orphanWarning.ReportedIf (∃ id ∈ g.ids, g.Isolated id)
    (g.validate withSummary).warnings := by
  have hcodes : ∀ f ∈ g.duplicateFinding?.toList, f.code ≠ .orphanNodes := fun f hf ↦
    ne_of_eq_of_ne (code_of_mem_finding? hf) (by decide)
  exact .of_toList (fun h ↦ g.orphanFinding?_eq_ite.trans (if_pos h))
    (fun h ↦ g.orphanFinding?_eq_ite.trans (if_neg h)) (List.forall_mem_nil _) hcodes

end Validate

/-- **The verdict is exact**, with or without the summary, and so is the list of what it rests
on. -/
theorem judges_validate (g : Graph W) (withSummary : Bool) :
    g.Judges (g.validate withSummary) ∧ (g.validate withSummary).isValid = g.isValid := by
  refine ⟨?_, rfl⟩
  exact {
    valid := by
      rw [isValid_validate_iff, loopFinding?_eq_ite, cycleFinding?_eq_none_iff,
        referenceFinding?_eq_ite]
      simp only [ite_eq_right_iff, reduceCtorEq, imp_false, not_exists, not_and,
        not_unresolved_iff, ne_eq]
    decided := fun _ _ ↦ rfl
    codes := fun _ ↦ code_of_mem_errors_validate g withSummary
    loops := reportedIf_loopError g withSummary
    cycle := exists_reportedIf_cycleError g withSummary
    references := reportedIf_referenceError g withSummary
    orphans := reportedIf_orphanWarning g withSummary }

end Graph

end ConceptAtlas
