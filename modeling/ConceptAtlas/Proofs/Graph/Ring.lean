import ConceptAtlas.Proofs.Graph.Validation

/-!
# The cycle that is reported

A validation that finds a cycle of prerequisites names the concepts on one, and these are a ring: no
concept twice, each a prerequisite of the next, the last of the first, and two of them at least
(`Graph.reported_cycle_is_ring`).

The walk has a path without repetition in which each thing leads to the next. It stops at the first
arc that leads back into the path and cuts off what is before the place where the arc arrives, so
what remains is closed by the arc (`isRing_dropWhile`). What was walked through and left before that
is no part of the path, however much of it there was, so it has no part in the ring either.

How much fuel there is has no part in the answer (`foldlM_explore_eq`): a walk with fuel for all
things that were not seen is the walk with any more of it.
-/

namespace ConceptAtlas

namespace Cycle

variable {α : Type}

/-! ### What the walk comes back with -/

/-- Things in a ring: none twice, each leading to the next, and the last to the first. -/
structure IsRing (arcs : List (α × α)) (ring : List α) : Prop where
  nodup : ring.Nodup
  chain : ring.IsChain fun u v ↦ (u, v) ∈ arcs
  closed : ∃ u ∈ ring.getLast?, ∃ v ∈ ring.head?, (u, v) ∈ arcs

namespace IsRing

variable {arcs : List (α × α)} {ring : List α}

/-- Around the ring each thing leads to the next. -/
theorem arc (h : IsRing arcs ring) {i : Nat} {u v : α} (hu : ring[i]? = some u)
    (hv : ring[(i + 1) % ring.length]? = some v) : (u, v) ∈ arcs := by
  obtain ⟨hi, rfl⟩ := List.getElem?_eq_some_iff.1 hu
  rcases Nat.lt_or_ge (i + 1) ring.length with hlt | hge
  · rw [Nat.mod_eq_of_lt hlt, List.getElem?_eq_getElem hlt] at hv
    cases hv
    exact List.isChain_iff_getElem.1 h.chain i hlt
  · obtain ⟨x, hx, y, hy, hxy⟩ := h.closed
    have hlast : i + 1 = ring.length := Nat.le_antisymm hi hge
    rw [hlast, Nat.mod_self, ← List.head?_eq_getElem?] at hv
    rw [Option.mem_def, List.getLast?_eq_getElem?, ← hlast, Nat.add_sub_cancel, hu] at hx
    rw [Option.mem_def, hv] at hy
    cases hx
    cases hy
    exact hxy

/-- Where nothing leads to itself a ring has two things at least. -/
theorem two_le_length (h : IsRing arcs ring) (hirrefl : ∀ v, (v, v) ∉ arcs) :
    2 ≤ ring.length := by
  obtain ⟨u, hu, v, hv, huv⟩ := h.closed
  match ring, hu, hv with
  | [w], rfl, rfl => exact absurd huv (hirrefl w)
  | _ :: _ :: ws, _, _ => exact Nat.le_add_left 2 ws.length

end IsRing

section Ring

variable [BEq α] [LawfulBEq α] {arcs : List (α × α)} {path : List α} {v w : α}

/-- The first arc into a path cuts a ring out of it. -/
theorem isRing_dropWhile (hnodup : (path ++ [v]).Nodup)
    (hchain : (path ++ [v]).IsChain fun u v ↦ (u, v) ∈ arcs) (hw : w ∈ path ++ [v])
    (hvw : (v, w) ∈ arcs) : IsRing arcs ((path ++ [v]).dropWhile fun x ↦ !(x == w)) := by
  obtain ⟨before, after, hsplit, hbefore⟩ := List.eq_append_cons_of_mem hw
  have hdrop : (path ++ [v]).dropWhile (fun x ↦ !(x == w)) = w :: after := by
    have hskip : ∀ x ∈ before, (!(x == w)) = true := by
      intro x hx
      rw [Bool.not_eq_true', beq_eq_false_iff_ne]
      exact fun e ↦ hbefore (e ▸ hx)
    rw [hsplit, List.dropWhile_append_of_pos hskip, List.dropWhile_cons_of_neg (by simp)]
  have hsuffix : w :: after <:+ path ++ [v] := ⟨before, hsplit.symm⟩
  have hlast : (w :: after).getLast? = some v := by
    rw [← List.getLast?_append_cons before w after, ← hsplit, List.getLast?_concat]
  rw [hdrop]
  exact {
    nodup := hnodup.sublist hsuffix.sublist
    chain := hchain.suffix hsuffix
    closed := ⟨v, hlast, w, rfl, hvw⟩ }

omit [LawfulBEq α] in
/-- Exploring things one after the other comes back with what the first one does that fails. -/
theorem exists_of_foldlM_eq_error {fuel : Nat} {seen ws ring : List α}
    (h : ws.foldlM (explore arcs fuel path) seen = .error ring) :
    ∃ w ∈ ws, ∃ seen', explore arcs fuel path seen' w = .error ring := by
  induction ws generalizing seen with
  | nil => cases h
  | cons w ws ih =>
    rw [List.foldlM_cons] at h
    rcases bind_eq_error.1 h with hw | ⟨seen', -, hrest⟩
    · exact ⟨w, List.mem_cons_self, seen, hw⟩
    · obtain ⟨x, hx, hring⟩ := ih hrest
      exact ⟨x, List.mem_cons_of_mem _ hx, hring⟩

/-- **What a walk comes back with is a ring**: its path is a chain without repetition, and so is the
path that it goes on with. -/
theorem isRing_of_walk {fuel : Nat} {seen ring : List α} (hnodup : (path ++ [v]).Nodup)
    (hchain : (path ++ [v]).IsChain fun u v ↦ (u, v) ∈ arcs)
    (h : walk arcs fuel path seen v = .error ring) : IsRing arcs ring := by
  induction fuel generalizing path seen v with
  | zero => cases h
  | succ fuel ih =>
    rw [walk_succ] at h
    obtain ⟨w, hw, seen', hring⟩ := exists_of_foldlM_eq_error h
    have hvw : (v, w) ∈ arcs := mem_successors.1 hw
    rw [explore] at hring
    split at hring
    · next hon =>
      cases hring
      exact isRing_dropWhile hnodup hchain (List.contains_iff_mem.1 hon) hvw
    · next hoff =>
      split at hring
      · cases hring
      · refine ih ?_ ?_ hring
        · rw [← List.concat_eq_append]
          exact hnodup.concat (mt List.contains_iff_mem.2 hoff)
        · exact List.isChain_append.2 ⟨hchain, .singleton w, by simpa using hvw⟩

/-- The search finds nothing but rings. -/
theorem isRing_of_find? {things ring : List α} (h : find? arcs things = some ring) :
    IsRing arcs ring := by
  rw [find?_eq] at h
  split at h
  · cases h
  · next hsearch =>
    cases h
    obtain ⟨w, -, seen, hring⟩ := exists_of_foldlM_eq_error hsearch
    rw [explore, if_neg (by simp)] at hring
    split at hring
    · cases hring
    · exact isRing_of_walk (List.nodup_singleton w) (.singleton w) hring

end Ring

/-! ### How much fuel a walk takes -/

section Fuel

variable [BEq α] [LawfulBEq α] {arcs : List (α × α)} {things path seen after ws : List α} {v w : α}
  {fuel more : Nat}

omit [LawfulBEq α] in
theorem subset_of_explore
    (hwalk : ∀ {seen after w}, walk arcs fuel path (seen ++ [w]) w = .ok after → seen ⊆ after)
    (h : explore arcs fuel path seen w = .ok after) : seen ⊆ after := by
  rw [explore] at h
  split at h
  · cases h
  · split at h
    · cases h
      exact List.Subset.refl _
    · exact hwalk h

omit [LawfulBEq α] in
/-- A walk forgets nothing that was seen. -/
theorem subset_of_walk (h : walk arcs fuel path (seen ++ [w]) w = .ok after) : seen ⊆ after := by
  induction fuel generalizing path seen w after with
  | zero =>
    cases h
    exact List.subset_append_left seen [w]
  | succ fuel ih =>
    have hfold : ∀ {ws seen : List α},
        ws.foldlM (explore arcs fuel (path ++ [w])) seen = .ok after → seen ⊆ after := by
      intro ws
      induction ws with
      | nil =>
        intro seen h
        cases h
        exact List.Subset.refl _
      | cons u us ihus =>
        intro seen h
        rw [List.foldlM_cons] at h
        obtain ⟨mid, hmid, hrest⟩ := bind_eq_ok.1 h
        exact List.Subset.trans (subset_of_explore ih hmid) (ihus hrest)
    exact List.Subset.trans (List.subset_append_left seen [w]) (hfold h)

omit [LawfulBEq α] in
/-- Exploring from what was seen, and more, is the same with two amounts of fuel if it is the same
for each thing. -/
theorem foldlM_explore_congr
    (h : ∀ later, seen ⊆ later → ∀ w ∈ ws,
      explore arcs fuel path later w = explore arcs more path later w) :
    ws.foldlM (explore arcs fuel path) seen = ws.foldlM (explore arcs more path) seen := by
  induction ws generalizing seen with
  | nil => rfl
  | cons w ws ih =>
    rw [List.foldlM_cons, List.foldlM_cons, h seen (List.Subset.refl _) w List.mem_cons_self]
    cases hmid : explore arcs more path seen w with
    | error ring => rfl
    | ok mid =>
      refine ih fun later hlater u hu ↦ h later ?_ u (List.mem_cons_of_mem _ hu)
      exact List.Subset.trans (subset_of_explore subset_of_walk hmid) hlater

/-- **More fuel changes nothing** once there is fuel for all things that were not seen. -/
theorem explore_eq_of_le (htargets : ∀ a ∈ arcs, a.2 ∈ things) (hw : w ∈ things)
    (h : (unseen things seen).length ≤ fuel) (hmore : fuel ≤ more) :
    explore arcs fuel path seen w = explore arcs more path seen w := by
  induction fuel generalizing more path seen w with
  | zero =>
    have hseen : w ∈ seen := by
      by_contra hno
      have hnil := List.length_eq_zero_iff.1 (Nat.le_zero.1 h)
      exact absurd (hnil ▸ mem_unseen.2 ⟨hw, hno⟩) List.not_mem_nil
    simp [explore, hseen]
  | succ fuel ih =>
    by_cases hseen : w ∈ seen
    · simp [explore, hseen]
    · cases more with
      | zero => cases hmore
      | succ more =>
        have hless := length_unseen_concat_lt hw hseen
        rw [explore, explore, walk_succ, walk_succ]
        congr 2
        refine foldlM_explore_congr fun later hlater u hu ↦ ?_
        have hle := (unseen_sublist things hlater).length_le
        refine ih (htargets _ (mem_successors.1 hu)) ?_ (Nat.le_of_succ_le_succ hmore)
        omega

/-- The search with any fuel for all things is the search. -/
theorem foldlM_explore_eq (htargets : ∀ a ∈ arcs, a.2 ∈ things) (h : things.length ≤ more) :
    things.foldlM (explore arcs things.length []) [] =
      things.foldlM (explore arcs more []) [] :=
  foldlM_explore_congr fun _ _ _ hw ↦
    explore_eq_of_le htargets hw (List.length_filter_le ..) h

end Fuel

end Cycle

namespace Graph

variable {W : Type}

theorem mem_errors_of_code {g : Graph W} {withSummary : Bool} {f : Finding}
    (hf : f ∈ (g.validate withSummary).errors) (hcode : f.code = .prerequisiteCycle) :
    g.cycleFinding? = some f := by
  rcases List.mem_append.1 hf with hf | hf
  · rcases List.mem_append.1 hf with hf | hf
    · nomatch (code_of_mem_finding? hf).symm.trans hcode
    · exact Option.mem_toList.1 hf
  · nomatch (code_of_mem_finding? hf).symm.trans hcode

/-- **The cycle that a validation reports is one.** Once there is a cycle the search has an answer,
which is reported; and what is reported as a cycle is the answer of the search, a ring of different
concepts along stored prerequisite edges. -/
theorem reported_cycle_is_ring (g : Graph W) (withSummary : Bool) :
    (Cycle.exists? g.prerequisiteLinks g.ids = true →
      ∃ nodes, Cycle.find? g.prerequisiteLinks g.ids = some nodes ∧
        ∃ f ∈ (g.validate withSummary).errors, f.code = .prerequisiteCycle ∧ f.nodes = nodes) ∧
    ∀ f ∈ (g.validate withSummary).errors, f.code = .prerequisiteCycle →
      Cycle.find? g.prerequisiteLinks g.ids = some f.nodes ∧
      2 ≤ f.nodes.length ∧ f.nodes.Nodup ∧
      ∀ i u v, f.nodes[i]? = some u → f.nodes[(i + 1) % f.nodes.length]? = some v →
        g.IsPrerequisite u v := by
  constructor
  · intro hexists
    have hcyclic := g.exists?_prerequisiteLinks.1 hexists
    obtain ⟨nodes, hfound, hsearch⟩ := cycleFinding?_of_cyclic hcyclic
    refine ⟨nodes, hsearch, cycleError nodes, ?_, rfl, rfl⟩
    exact List.mem_append_left _ (List.mem_append_right _ (Option.mem_toList.2 hfound))
  · intro f hf hcode
    have hfound := mem_errors_of_code hf hcode
    have hcyclic : Cycle.Cyclic g.IsProperPrerequisite := by
      by_contra hno
      nomatch (cycleFinding?_of_not_cyclic hno).symm.trans hfound
    obtain ⟨nodes, hfound', hsearch⟩ := cycleFinding?_of_cyclic hcyclic
    obtain rfl : cycleError nodes = f := Option.some.inj (hfound'.symm.trans hfound)
    have hring := Cycle.isRing_of_find? hsearch
    refine ⟨hsearch, hring.two_le_length fun v hv ↦ (mem_prerequisiteLinks.1 hv).2 rfl,
      hring.nodup, fun i u v hu hv ↦ (mem_prerequisiteLinks.1 (hring.arc hu hv)).1⟩

/-- Lessons with a ring of two behind one that is on none and a dead end. -/
def knot : Graph Unit where
  nodes := [.plain "sets" "Sets", .plain "words" "Words", .plain "maps" "Maps",
    .plain "groups" "Groups"]
  edges := [⟨"sets", "words", .prerequisite, (), .manual⟩,
    ⟨"sets", "maps", .prerequisite, (), .manual⟩,
    ⟨"maps", "words", .prerequisite, (), .manual⟩,
    ⟨"maps", "groups", .prerequisite, (), .manual⟩,
    ⟨"groups", "groups", .prerequisite, (), .manual⟩,
    ⟨"groups", "maps", .prerequisite, (), .manual⟩]
  nodup_ids := by decide
  source_mem := by decide
  target_mem := by decide

theorem reported_cycle_is_ring_knot :
    ∃ f ∈ (knot.validate false).errors, f.code = .prerequisiteCycle ∧
      f.nodes = ["maps", "groups"] ∧ knot.IsPrerequisite "maps" "groups" ∧
      knot.IsPrerequisite "groups" "maps" := by
  have hexists : Cycle.exists? knot.prerequisiteLinks knot.ids = true := by decide
  have hfind : Cycle.find? knot.prerequisiteLinks knot.ids = some ["maps", "groups"] := by decide
  obtain ⟨hfound, hring⟩ := reported_cycle_is_ring knot false
  obtain ⟨nodes, hnodes, f, hf, hcode, rfl⟩ := hfound hexists
  have hf' : f.nodes = ["maps", "groups"] := Option.some.inj (hnodes.symm.trans hfind)
  obtain ⟨-, -, -, harc⟩ := hring f hf hcode
  rw [hf'] at harc
  exact ⟨f, hf, hcode, hf', harc 0 _ _ rfl rfl, harc 1 _ _ rfl rfl⟩

end Graph

end ConceptAtlas
