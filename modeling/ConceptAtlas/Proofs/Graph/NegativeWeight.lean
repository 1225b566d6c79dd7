import ConceptAtlas.Proofs.Graph.WayBack

/-!
# Routes with negative weights

Weights may be negative as long as no cycle is. A search still ends then, and what it answers is a
chain of stored edges over nodes that do not repeat, or that there is none (`Graph.route_genuine`).
It need not be the cheapest chain, for the distance of a node may get less after its turn has come.

* **The search ends** with any weights. An edge is looked at once, when its source has its turn, so
  there are no more entries than edges and one (`Search.entered_run_le`). No node that can be
  reached is missed: a node is known as soon as an edge comes to it from a settled node.
* **The way back ends** because no cycle is negative. A distance is a potential: on the way back it
  drops by the weight of each edge at least (`Search.Tracks.noted`). Suppose an edge leads to a
  shorter way to a node that is on the way back from its own source. That part of the way and the
  edge are a cycle, and its weights sum up to less than nothing
  (`Search.Tracks.target_not_mem_of_improves`). So the note that the edge leaves closes no circle,
  and the source, which is on every way back, never gets a note at all.

The notes of settled nodes may be written anew, and the distances of nodes further back may fall
below what a note was made with, so on the way back distances are bounds and not sums.
-/

namespace ConceptAtlas

namespace Graph

variable {W : Type} [Zero W] [Add W] [LE W]

/-- No directed cycle has a negative sum. -/
def NoNegativeCycle (g : Graph W) : Prop :=
  ∀ u es, g.IsChain u es u → (es.map Edge.target).Nodup → 0 ≤ Route.weightSum es

/-- Where each edge leads up by no more than its weight, no cycle is negative. -/
theorem noNegativeCycle_of_potential {W : Type} [AddCommGroup W] [LinearOrder W]
    [IsOrderedAddMonoid W] {g : Graph W} (height : String → W)
    (h : ∀ e ∈ g.edges, height e.target ≤ height e.source + e.weight) : g.NoNegativeCycle := by
  have hchain : ∀ {u v es}, g.IsChain u es v → height v ≤ height u + Route.weightSum es := by
    intro u v es hes
    induction es using List.reverseRecOn generalizing v with
    | nil =>
      rw [show u = v from hes]
      exact (add_zero (height v)).ge
    | append_singleton es e ih =>
      obtain ⟨x, hx, he, rfl, rfl⟩ := isChain_append.1 hes
      calc height e.target ≤ height e.source + e.weight := h e he
        _ ≤ height u + Route.weightSum es + e.weight := by gcongr; exact ih hx
        _ = height u + Route.weightSum (es ++ [e]) := by
            rw [Route.weightSum_concat, add_assoc]
  exact fun u es hes _ ↦ nonneg_of_le_add_right (hchain hes)

end Graph

namespace Route

namespace Search

/-! ### The number of entries -/

section Entries

variable {W : Type} [Add W] [LT W] [DecidableLT W] [BEq W]

theorem entered_foldl_relax_le (distance : W) (es : List (Edge W)) (s : Search W) :
    (es.foldl (relax distance) s).entered ≤ s.entered + es.length := by
  induction es generalizing s with
  | nil => exact Nat.le_refl _
  | cons e es ih =>
    have hone : (s.relax distance e).entered ≤ s.entered + 1 := by
      simp only [relax]
      split
      · exact Nat.le_refl _
      · exact Nat.le_succ _
    have hrest := ih (s.relax distance e)
    rw [List.foldl_cons, List.length_cons]
    omega

/-- **Every edge makes one entry at most.** -/
theorem entered_run_le (g : Graph W) (target : String) (s : Search W) :
    (run g target s).entered ≤ s.entered + s.ahead g := by
  fun_induction run g target s with
  | case1 s hpop => exact Nat.le_add_right ..
  | case2 s entry queue hpop hold ih => exact ih
  | case3 s entry queue hpop hnew heq => exact Nat.le_add_right ..
  | case4 s entry queue hpop hnew hne ih =>
    have hahead := ahead_settle g { s with queue } (Bool.eq_false_iff.2 hnew)
    have hentered : (settle g entry { s with queue }).entered ≤
        s.entered + (g.outgoing entry.id).length := entered_foldl_relax_le ..
    simp only [ahead] at hahead ih ⊢
    omega

theorem entered_run_start_le [Zero W] (g : Graph W) (source target : String) :
    (run g target (start source)).entered ≤ g.edges.length + 1 := by
  have hle := entered_run_le g target (start source)
  have hahead : ahead g (start source) ≤ g.edges.length := List.length_filter_le ..
  have hstart : (start (W := W) source).entered = 1 := rfl
  omega

end Entries

/-! ### What a search keeps -/

section Tracks

variable {W : Type} [AddCommGroup W] [LinearOrder W] {g : Graph W} {source u v : String}
  {bound d : W} {pending : List (Edge W)} {s : Search W} {e : Edge W} {es : List (Edge W)}

/-- What a search from a node keeps, also with negative weights; `pending` are edges from settled
nodes that were not taken into account. -/
structure Tracks (g : Graph W) (source : String) (pending : List (Edge W)) (s : Search W) :
    Prop extends Queued s where
  start : s.distance? source = some 0
  /-- A note is an edge into its node, and the distance drops by its weight at least. -/
  noted : ∀ v e, Assoc.find? v s.arrivals = some e → e ∈ g.edges ∧ e.target = v ∧
    ∃ c d, s.distance? e.source = some c ∧ s.distance? v = some d ∧ c + e.weight ≤ d
  traced : ∀ v d, s.distance? v = some d → ∃ es, LeadsBack s.arrivals source v es
  known : ∀ v ∈ s.settled, ∃ d, s.distance? v = some d
  relaxed : ∀ e ∈ g.edges, e.source ∈ s.settled →
    e ∈ pending ∨ ∃ d, s.distance? e.target = some d

theorem tracks_start (g : Graph W) (source : String) :
    Tracks g source [] (Search.start (W := W) source) where
  toQueued := queued_start source
  start := by simp [distance?, Search.start, Assoc.find?_cons]
  noted := nofun
  traced v d hd := by
    obtain ⟨rfl, -⟩ := by simpa [distance?, Search.start, Assoc.find?_cons] using hd
    exact ⟨[], rfl⟩
  known := nofun
  relaxed := nofun

theorem Tracks.note (h : Tracks g source pending s) (v : String) (e : Edge W)
    (he : Assoc.find? v s.arrivals = some e) : e ∈ g.edges ∧ e.target = v :=
  ⟨(h.noted v e he).1, (h.noted v e he).2.1⟩

variable [IsOrderedAddMonoid W]

/-- From a node on the way back the distance rises by no less than the sum of the weights. -/
theorem Tracks.exists_part (h : Tracks g source pending s)
    (hback : LeadsBack s.arrivals source u es) (hd : s.distance? u = some d)
    (hv : v ∈ u :: es.map Edge.source) :
    ∃ fs c, s.distance? v = some c ∧ g.IsChain v fs u ∧ c + weightSum fs ≤ d ∧
      (v :: fs.map Edge.target).Nodup ∧ ∀ x ∈ fs.map Edge.target, x ∈ u :: es.map Edge.source := by
  induction es generalizing u d with
  | nil =>
    obtain rfl := List.mem_singleton.1 hv
    exact ⟨[], d, hd, rfl, (add_zero d).le, List.nodup_singleton v, nofun⟩
  | cons e es ih =>
    rcases List.mem_cons.1 hv with rfl | hback'
    · exact ⟨[], d, hd, rfl, (add_zero d).le, List.nodup_singleton v, nofun⟩
    obtain ⟨he, rfl, b, d', hb, hd', hle⟩ := h.noted u e hback.2.1
    obtain rfl : d' = d := Option.some.inj (hd'.symm.trans hd)
    obtain ⟨fs, c, hc, hchain, hsum, hnodup, hsub⟩ := ih hback.2.2 hb hback'
    have hfresh := (List.nodup_cons.1 hback.nodup).1
    refine ⟨fs ++ [e], c, hc, Graph.isChain_append.2 ⟨_, hchain, he, rfl, rfl⟩, ?_, ?_, ?_⟩
    · calc c + weightSum (fs ++ [e]) = c + weightSum fs + e.weight := by
            rw [weightSum_concat, add_assoc]
        _ ≤ b + e.weight := by gcongr
        _ ≤ d' := hle
    · rw [List.map_append, ← List.cons_append]
      refine List.nodup_append.2 ⟨hnodup, List.nodup_singleton _, fun x hx y hy heq ↦ hfresh ?_⟩
      rw [List.map_singleton, List.mem_singleton] at hy
      subst hy heq
      rcases List.mem_cons.1 hx with rfl | hx
      · exact hback'
      · exact hsub _ hx
    · rw [List.map_append, List.map_singleton]
      intro x hx
      rcases List.mem_append.1 hx with hx | hx
      · exact List.mem_cons_of_mem _ (hsub x hx)
      · exact List.mem_cons.2 (.inl (List.mem_singleton.1 hx))

/-- **No shorter way closes a circle.** Where no cycle is negative, an edge that leads to a shorter
way comes to a node that is not on the way back from its source. -/
theorem Tracks.target_not_mem_of_improves (h : Tracks g source pending s)
    (hg : g.NoNegativeCycle) (he : e ∈ g.edges) (hd : s.distance? e.source = some d)
    (hle : d ≤ bound) (hback : LeadsBack s.arrivals source e.source es)
    (hi : s.improves e.target (bound + e.weight) = true) :
    e.target ∉ e.source :: es.map Edge.source := by
  intro hmem
  obtain ⟨fs, c, hc, hchain, hsum, hnodup, -⟩ := h.exists_part hback hd hmem
  have hcycle : 0 ≤ weightSum (fs ++ [e]) := by
    refine hg e.target _ (Graph.isChain_append.2 ⟨_, hchain, he, rfl, rfl⟩) ?_
    rw [List.map_append]
    exact List.nodup_append_comm.1 hnodup
  have hlt : c < c := calc
    c ≤ c + weightSum (fs ++ [e]) := le_add_of_nonneg_right hcycle
    _ = c + weightSum fs + e.weight := by rw [weightSum_concat, add_assoc]
    _ ≤ bound + e.weight := by gcongr; exact hsum.trans hle
    _ < c := improves_iff.1 hi c hc
  exact absurd hlt (lt_irrefl c)

/-! ### One edge -/

section Relax

variable [BEq W]

omit [IsOrderedAddMonoid W] in
theorem exists_distance?_relax (hv : ∃ d, s.distance? v = some d) (bound : W) (e : Edge W) :
    ∃ d, (s.relax bound e).distance? v = some d := by
  obtain ⟨d, hd⟩ := hv
  obtain ⟨c, hc, -⟩ := exists_distance?_relax_le bound e hd
  exact ⟨c, hc⟩

omit [IsOrderedAddMonoid W] in
theorem exists_distance?_target_relax (s : Search W) (bound : W) (e : Edge W) :
    ∃ d, (s.relax bound e).distance? e.target = some d := by
  rcases Classical.em (s.improves e.target (bound + e.weight) = true) with hi | hi
  · exact ⟨_, by rw [distance?_relax hi, if_pos rfl]⟩
  · have hknown := mt improves_iff.2 hi
    push Not at hknown
    obtain ⟨d, hd, -⟩ := hknown
    exact ⟨d, by rw [relax_of_not_improves hi, hd]⟩

/-- A search goes on over an edge that leads to a shorter way. -/
theorem Tracks.relax_of_improves (h : Tracks g source (e :: pending) s) (hg : g.NoNegativeCycle)
    (he : e ∈ g.edges) (hd : s.distance? e.source = some d) (hle : d ≤ bound)
    (hi : s.improves e.target (bound + e.weight) = true) :
    Tracks g source pending (s.relax bound e) := by
  obtain ⟨es, hback⟩ := h.traced _ d hd
  have hfresh := h.target_not_mem_of_improves hg he hd hle hback hi
  have hsource : e.target ≠ source := fun heq ↦ hfresh (heq ▸ hback.source_mem)
  have hself : e.target ≠ e.source := fun heq ↦ hfresh (heq ▸ List.mem_cons_self)
  have harrivals : (s.relax bound e).arrivals = Assoc.put e.target e s.arrivals := by
    rw [Search.relax, if_pos hi]
  have hnew : LeadsBack (Assoc.put e.target e s.arrivals) source e.source es :=
    hback.congr fun x hx ↦
      Assoc.find?_put_of_ne (fun heq : e.target = x ↦ hfresh (heq ▸ hx)) e s.arrivals
  exact {
    toQueued := h.toQueued.relax bound e
    start := by rw [distance?_relax hi, if_neg hsource, h.start]
    noted := fun v f hf ↦ by
      rw [harrivals, Assoc.find?_put] at hf
      split at hf
      · rename_i heq
        cases hf
        obtain rfl := eq_of_beq heq
        refine ⟨he, rfl, d, bound + e.weight, ?_, ?_, by gcongr⟩
        · rw [distance?_relax hi, if_neg hself, hd]
        · rw [distance?_relax hi, if_pos rfl]
      · rename_i hne
        obtain ⟨hmem, htarget, a, b, ha, hb, hab⟩ := h.noted v f hf
        obtain ⟨a', ha', hle'⟩ := exists_distance?_relax_le bound e ha
        refine ⟨hmem, htarget, a', b, ha', ?_, le_trans (by gcongr) hab⟩
        rw [distance?_relax hi, if_neg (mt beq_iff_eq.2 hne), hb]
    traced := fun v b hb ↦ by
      rw [distance?_relax hi] at hb
      rw [harrivals]
      rcases Classical.em (e.target = v) with rfl | hne
      · exact ⟨e :: es, hsource, Assoc.find?_put_self .., hnew⟩
      · rw [if_neg hne] at hb
        obtain ⟨fs, hfs⟩ := h.traced v b hb
        exact hfs.exists_put hsource hnew
    known := fun v hv ↦ by
      rw [settled_relax] at hv
      exact exists_distance?_relax (h.known v hv) bound e
    relaxed := fun f hf hfs ↦ by
      rw [settled_relax] at hfs
      rcases h.relaxed f hf hfs with hpending | hknown
      · rcases List.mem_cons.1 hpending with rfl | hpending
        · exact .inr (exists_distance?_target_relax s bound f)
        · exact .inl hpending
      · exact .inr (exists_distance?_relax hknown bound e) }

theorem Tracks.relax (h : Tracks g source (e :: pending) s) (hg : g.NoNegativeCycle)
    (he : e ∈ g.edges) (hd : s.distance? e.source = some d) (hle : d ≤ bound) :
    Tracks g source pending (s.relax bound e) := by
  rcases Classical.em (s.improves e.target (bound + e.weight) = true) with hi | hi
  · exact h.relax_of_improves hg he hd hle hi
  · have htarget := exists_distance?_target_relax s bound e
    rw [relax_of_not_improves hi] at htarget ⊢
    refine { h with relaxed := fun f hf hfs ↦ ?_ }
    rcases h.relaxed f hf hfs with hpending | hknown
    · rcases List.mem_cons.1 hpending with rfl | hpending
      · exact .inr htarget
      · exact .inl hpending
    · exact .inr hknown

theorem Tracks.foldl_relax (h : Tracks g source es s) (hg : g.NoNegativeCycle)
    (hes : ∀ e ∈ es, e ∈ g.edges ∧ e.source = u) (hd : s.distance? u = some d) (hle : d ≤ bound) :
    Tracks g source [] (es.foldl (Search.relax bound) s) := by
  induction es generalizing s d with
  | nil => exact h
  | cons e es ih =>
    obtain ⟨⟨he, rfl⟩, hes⟩ := List.forall_mem_cons.1 hes
    obtain ⟨c, hc, hcd⟩ := exists_distance?_relax_le bound e hd
    rw [List.foldl_cons]
    exact ih (h.relax hg he hd hle) hes hc (hcd.trans hle)

end Relax

/-! ### The whole run -/

section Run

variable [BEq W] {entry : Entry W} {queue : Array (Entry W)}

omit [IsOrderedAddMonoid W] in
theorem Tracks.skip (h : Tracks g source pending s)
    (hpop : Heap.pop? Entry.before s.queue = some (entry, queue)) (hold : entry.id ∈ s.settled) :
    Tracks g source pending { s with queue } where
  toQueued := h.toQueued.skip hpop hold
  start := h.start
  noted := h.noted
  traced := h.traced
  known := h.known
  relaxed := h.relaxed

omit [IsOrderedAddMonoid W] in
theorem Tracks.settle (h : Tracks g source [] s)
    (hpop : Heap.pop? Entry.before s.queue = some (entry, queue)) :
    Tracks g source (g.outgoing entry.id)
      { s with queue, settled := s.settled ++ [entry.id] } where
  toQueued := h.toQueued.settle hpop
  start := h.start
  noted := h.noted
  traced := h.traced
  known v hv := by
    rcases List.mem_append.1 hv with hv | hv
    · exact h.known v hv
    · obtain ⟨d, hd, -⟩ := h.entered entry ((mem_queue_of_pop? hpop).2 (.inr rfl))
      rw [List.mem_singleton.1 hv]
      exact ⟨d, hd⟩
  relaxed e he hes := by
    rcases List.mem_append.1 hes with hold | hlast
    · exact .inr ((h.relaxed e he hold).resolve_left List.not_mem_nil)
    · exact .inl (List.mem_filter.2 ⟨he, by simpa using hlast⟩)

theorem Tracks.settle_relax (h : Tracks g source [] s) (hg : g.NoNegativeCycle)
    (hpop : Heap.pop? Entry.before s.queue = some (entry, queue)) :
    Tracks g source [] (Search.settle g entry { s with queue }) := by
  obtain ⟨d, hd, hle⟩ := h.entered entry ((mem_queue_of_pop? hpop).2 (.inr rfl))
  refine (h.settle hpop).foldl_relax hg (fun e he ↦ ?_) hd hle
  obtain ⟨hmem, hs⟩ := List.mem_filter.1 he
  exact ⟨hmem, eq_of_beq hs⟩

omit [IsOrderedAddMonoid W] [BEq W] in
/-- When nothing waits, all that can be reached is settled. -/
theorem Tracks.mem_settled_of_isChain (h : Tracks g source [] s) (hempty : s.queue.size = 0)
    (hd : s.distance? u = some d) (hchain : g.IsChain u es v) : v ∈ s.settled := by
  have hall : ∀ x c, s.distance? x = some c → x ∈ s.settled := fun x c hc ↦ by
    by_contra hx
    obtain ⟨q, hq, -⟩ := h.waiting x c hc hx
    rw [Array.size_eq_zero_iff.1 hempty] at hq
    exact absurd hq (Array.not_mem_empty q)
  induction es generalizing u d with
  | nil => exact hchain ▸ hall u d hd
  | cons e es ih =>
    obtain ⟨he, rfl, hrest⟩ := hchain
    obtain ⟨c, hc⟩ := (h.relaxed e he (hall _ d hd)).resolve_left List.not_mem_nil
    exact ih hc hrest

/-- **A run ends with the target settled exactly if a chain leads to it.** -/
theorem Tracks.run (h : Tracks g source [] s) (hg : g.NoNegativeCycle) (target : String) :
    (∃ pending, Tracks g source pending (Search.run g target s)) ∧
      ((∃ es, g.IsChain source es target) → target ∈ (Search.run g target s).settled) := by
  fun_induction Search.run g target s with
  | case1 s hpop =>
    have hempty := Heap.pop?_eq_none_iff.1 hpop
    refine ⟨⟨[], h⟩, ?_⟩
    rintro ⟨es, hchain⟩
    exact h.mem_settled_of_isChain hempty h.start hchain
  | case2 s entry queue hpop hold ih => exact ih (h.skip hpop (List.contains_iff_mem.1 hold))
  | case3 s entry queue hpop hnew heq =>
    obtain rfl := eq_of_beq heq
    exact ⟨⟨_, h.settle hpop⟩, fun _ ↦ List.mem_append_right _ (List.mem_singleton_self _)⟩
  | case4 s entry queue hpop hnew hne ih => exact ih (h.settle_relax hg hpop)

end Run

end Tracks

end Search

/-! ### The answer -/

section Answer

variable {W : Type} [AddCommGroup W] [LinearOrder W] [BEq W] {g : Graph W}
  {source target : String}

/-- An answer that is a chain of stored edges over nodes that do not repeat, or that there is none;
how it was come by is part of it. -/
structure Genuine (g : Graph W) (source target : String) (r : Route W) : Prop where
  found_iff : r.found = true ↔ ∃ es, g.IsChain source es target
  chain : r.found = true → g.IsChain source r.edges target
  /-- The nodes are the source and the targets of the edges. -/
  nodes : r.found = true → r.nodes.map Node.id = source :: r.edges.map Edge.target
  stored : ∀ n ∈ r.nodes, g.node? n.id = some n
  nodup : (r.nodes.map Node.id).Nodup
  total : r.totalWeight = weightSum r.edges
  missing : r.found = false → r.nodes = [] ∧ r.edges = [] ∧ r.totalWeight = 0
  /-- The search makes no more entries than there are edges, and the first one. -/
  entered : (Search.run g target (.start source)).entered ≤ g.edges.length + 1
  /-- The way back from the target does not break off, and comes to its end. -/
  back : r.found = true →
    LeadsBack (Search.run g target (.start source)).arrivals source target r.edges.reverse

theorem genuine_here {start : Node} (hstart : g.node? source = some start)
    (hid : start.id = source) : Genuine g source source ⟨[start], [], 0, true⟩ where
  found_iff := ⟨fun _ ↦ ⟨[], rfl⟩, fun _ ↦ rfl⟩
  chain _ := rfl
  nodes _ := by rw [List.map_singleton, hid, List.map_nil]
  stored n hn := by rw [List.mem_singleton.1 hn, hid, hstart]
  nodup := by simp
  total := rfl
  missing := nofun
  entered := Search.entered_run_start_le ..
  back _ := rfl

theorem genuine_none (h : ∀ es, ¬ g.IsChain source es target) :
    Genuine g source target (none (W := W)) where
  found_iff := ⟨nofun, fun ⟨es, hes⟩ ↦ absurd hes (h es)⟩
  chain := nofun
  nodes := nofun
  stored := nofun
  nodup := List.nodup_nil
  total := rfl
  missing _ := ⟨rfl, rfl, rfl⟩
  entered := Search.entered_run_start_le ..
  back := nofun

theorem genuine_along {pending es : List (Edge W)} {start : Node}
    (hstart : g.node? source = some start) (hid : start.id = source)
    (h : Search.Tracks g source pending (Search.run g target (.start source)))
    (hback : LeadsBack (Search.run g target (.start source)).arrivals source target es) :
    Genuine g source target (along g start es.reverse) := by
  have hchain := hback.isChain h.note
  exact {
    found_iff := ⟨fun _ ↦ ⟨_, hchain⟩, fun _ ↦ rfl⟩
    chain := fun _ ↦ hchain
    nodes := fun _ ↦ map_id_nodes_along hid hchain
    stored := fun _ hn ↦ node?_of_mem_nodes_along hid hstart hn
    nodup := by
      rw [map_id_nodes_along hid hchain, List.map_reverse, ← List.reverse_concat,
        List.nodup_reverse, hback.map_target h.note]
      exact hback.nodup
    total := rfl
    missing := nofun
    entered := Search.entered_run_start_le ..
    back := fun _ ↦ es.reverse_reverse.symm ▸ hback }

end Answer

end Route

/-- **A question for a route has a genuine answer if no cycle is negative.** -/
theorem Graph.route_genuine {W : Type} [AddCommGroup W] [LinearOrder W] [IsOrderedAddMonoid W]
    [BEq W] (g : Graph W) (hg : g.NoNegativeCycle) {source target : String}
    (hsource : source ∈ g.ids) (htarget : target ∈ g.ids) :
    ∃ r, g.route source target = .ok r ∧ Route.Genuine g source target r := by
  obtain ⟨start, hstart, rfl⟩ := List.mem_map.1 hsource
  obtain ⟨goal, hgoal, rfl⟩ := List.mem_map.1 htarget
  obtain ⟨⟨pending, htracks⟩, hreach⟩ :=
    (Route.Search.tracks_start g start.id).run hg goal.id
  rcases Classical.em (start.id = goal.id) with heq | hne
  · rw [← heq]
    exact ⟨_, route_self hstart, Route.genuine_here (node?_of_mem hstart) rfl⟩
  rcases Classical.em (goal.id ∈ (Route.Search.run g goal.id (.start start.id)).settled) with
    hsettled | hsettled
  · obtain ⟨d, hd⟩ := htracks.known _ hsettled
    obtain ⟨es, hback⟩ := htracks.traced _ d hd
    exact ⟨_, route_of_settled hstart hgoal hne hsettled hback,
      Route.genuine_along (node?_of_mem hstart) rfl htracks hback⟩
  · exact ⟨_, route_of_not_settled hstart hgoal hne hsettled,
      Route.genuine_none fun es hes ↦ hsettled (hreach ⟨es, hes⟩)⟩

/-- Four places on a trail that goes round. From the lake it runs down to the ridge, which has had
its turn by the time the lake has its own. -/
def trail : Graph ℚ where
  nodes := [.plain "camp" "Camp", .plain "ridge" "Ridge", .plain "lake" "Lake", .plain "hut" "Hut"]
  edges := [⟨"camp", "ridge", .leadsTo, 1, .manual⟩, ⟨"camp", "lake", .leadsTo, 2, .manual⟩,
    ⟨"ridge", "hut", .leadsTo, 1, .manual⟩, ⟨"lake", "ridge", .leadsTo, -3, .manual⟩,
    ⟨"hut", "camp", .leadsTo, 2, .manual⟩]
  nodup_ids := by decide
  source_mem := by decide
  target_mem := by decide

theorem route_genuine_trail : trail.NoNegativeCycle ∧ "camp" ∈ trail.ids ∧ "hut" ∈ trail.ids ∧
    ∃ r, trail.route "camp" "hut" = .ok r ∧ r.found = true ∧ trail.IsChain "camp" r.edges "hut" ∧
      r.totalWeight = Route.weightSum r.edges := by
  have hg : trail.NoNegativeCycle := by
    refine Graph.noNegativeCycle_of_potential
      (fun id ↦ if id = "lake" then 2 else if id = "ridge" then -1 else 0) ?_
    simp only [trail, List.forall_mem_cons, String.reduceEq, if_true, if_false]
    norm_num
  have hsource : "camp" ∈ trail.ids := by decide
  have htarget : "hut" ∈ trail.ids := by decide
  have hchain : trail.IsChain "camp" [⟨"camp", "ridge", .leadsTo, 1, .manual⟩,
      ⟨"ridge", "hut", .leadsTo, 1, .manual⟩] "hut" := by
    simp [Graph.IsChain, trail]
  obtain ⟨r, hr, hgenuine⟩ := trail.route_genuine hg hsource htarget
  have hfound := hgenuine.found_iff.2 ⟨_, hchain⟩
  exact ⟨hg, hsource, htarget, r, hr, hfound, hgenuine.chain hfound, hgenuine.total⟩

end ConceptAtlas
