import Mathlib.Algebra.Order.Ring.Rat
import Mathlib.Data.List.Nodup
import Mathlib.Tactic.NormNum
import ConceptAtlas.Graph.Route
import ConceptAtlas.Proofs.Graph.History
import ConceptAtlas.Proofs.Heap

/-!
# The cheapest route

A question for a route is answered with a chain of stored edges of the least sum, or with none where
there is no chain (`Graph.cheapest_route`). All that is asked of weights is that they are in a total
order, that a step which is not negative never lowers a sum, and that the same step after two sums
keeps their order (`Costs`): sums are never taken in another order than along the chain, and no two
steps change places.

What a search keeps (`Search.Holds`) has two sides, and they carry different halves of the result.

* **No chain is missed** (`Search.Holds.exists_entry_le`). A chain to a node that is not settled
  leaves the settled nodes somewhere, and there it passes a node that waits in the queue. So as long
  as a chain is open the queue is not empty, and its first entry is not farther than any chain.
* **The way back is there** (`Search.Holds.exists_trace`). A node is reached over an edge from one
  that was settled before, so following these edges ends at the source and meets no node twice.
  Along the way sums are exact because the distance of a settled node never changes again. This is
  where negative weights would do harm.
-/

namespace ConceptAtlas

/-- Weights in which a step that is not negative never lowers a sum, and the same step after two
sums keeps their order. -/
class Costs (W : Type) [LinearOrder W] [Zero W] [Add W] : Prop where
  le_add : ∀ d w : W, 0 ≤ w → d ≤ d + w
  add_le_add : ∀ {c d : W} (w : W), c ≤ d → c + w ≤ d + w

/-- Exact arithmetic is of this kind. -/
instance {W : Type} [AddCommMonoid W] [LinearOrder W] [IsOrderedAddMonoid W] : Costs W where
  le_add _ _ := le_add_of_nonneg_right
  add_le_add w h := by gcongr

namespace Graph

variable {W : Type}

/-- Stored edges that lead from one node to another, each from where the one before has led. -/
def IsChain (g : Graph W) : String → List (Edge W) → String → Prop
  | u, [], v => u = v
  | u, e :: es, v => e ∈ g.edges ∧ e.source = u ∧ g.IsChain e.target es v

theorem isChain_append {g : Graph W} {u v : String} {es fs : List (Edge W)} :
    g.IsChain u (es ++ fs) v ↔ ∃ w, g.IsChain u es w ∧ g.IsChain w fs v := by
  induction es generalizing u with
  | nil => simp [IsChain]
  | cons e es ih => simp [IsChain, ih, and_assoc]

theorem IsChain.mem {g : Graph W} {u v : String} {es : List (Edge W)} (h : g.IsChain u es v) :
    ∀ e ∈ es, e ∈ g.edges := by
  induction es generalizing u with
  | nil => exact fun _ he ↦ absurd he List.not_mem_nil
  | cons e es ih => exact List.forall_mem_cons.2 ⟨h.1, ih h.2.2⟩

end Graph

namespace Route

variable {W : Type}

theorem weightSum_concat [Zero W] [Add W] (es : List (Edge W)) (e : Edge W) :
    weightSum (es ++ [e]) = weightSum es + e.weight := List.foldl_concat ..

/-- Going on never lowers a sum. -/
theorem le_foldl_add [LinearOrder W] [Zero W] [Add W] [Costs W] {es : List (Edge W)}
    (h : ∀ e ∈ es, 0 ≤ e.weight) (c : W) : c ≤ es.foldl (fun sum e ↦ sum + e.weight) c := by
  induction es generalizing c with
  | nil => exact le_refl c
  | cons e es ih =>
    obtain ⟨he, hes⟩ := List.forall_mem_cons.1 h
    exact (Costs.le_add c e.weight he).trans (ih hes _)

section Order

variable [LinearOrder W] [BEq W] [LawfulBEq W]

theorem ranks_before : Heap.Ranks (Entry.before (W := W)) where
  asymm {x y} h := by
    simp only [Entry.before, beq_iff_eq] at h ⊢
    grind
  trans {x y z} hyx hzy := by
    simp only [Entry.before, beq_iff_eq] at hyx hzy ⊢
    grind

theorem Entry.distance_le {x y : Entry W} (h : Entry.before y x = false) :
    x.distance ≤ y.distance := by
  simp only [Entry.before, beq_iff_eq] at h
  grind

end Order

namespace Search

/-! ### What a search keeps -/

section Holds

variable [LinearOrder W] [Zero W] [Add W] [BEq W] {g : Graph W} {source v : String} {bound : W}
  {pending : List (Edge W)} {s : Search W}

/-- The distance of a node that is known best so far. -/
def distance? (s : Search W) (v : String) : Option W := Assoc.find? v s.distances

/-- An edge over which a node was reached at a distance: it comes from a node settled before. -/
structure Arrival (g : Graph W) (s : Search W) (e : Edge W) (v : String) (d : W) : Prop where
  mem : e ∈ g.edges
  target : e.target = v
  source : e.source ∈ s.settled
  earlier : v ∈ s.settled → s.settled.idxOf e.source < s.settled.idxOf v
  distance : ∃ c, s.distance? e.source = some c ∧ d = c + e.weight

/-- The target of an edge is known to be no farther than over the edge. -/
def Reaches (s : Search W) (e : Edge W) : Prop :=
  ∃ c d, s.distance? e.source = some c ∧ s.distance? e.target = some d ∧ d ≤ c + e.weight

/-- The queue and what is known fit together, whatever the weights are. -/
structure Queued (s : Search W) : Prop where
  /-- An entry of the queue is about a known node, and may be overtaken. -/
  entered : ∀ q ∈ s.queue, ∃ d, s.distance? q.id = some d ∧ d ≤ q.distance
  /-- A known node that is not settled waits in the queue with its distance. -/
  waiting : ∀ v d, s.distance? v = some d → v ∉ s.settled →
    ∃ q ∈ s.queue, q.id = v ∧ q.distance = d

/-- What a search from a node keeps. The distances of settled nodes are final and at most `bound`,
those in the queue are at least that; `pending` are edges from settled nodes that were not taken
into account. -/
structure Holds (g : Graph W) (source : String) (bound : W) (pending : List (Edge W))
    (s : Search W) : Prop where
  ordered : Heap.Ordered Entry.before s.queue
  nonneg : 0 ≤ bound
  least : ∀ q ∈ s.queue, bound ≤ q.distance
  start : s.distance? source = some 0
  /-- An entry of the queue is about a known node, and may be overtaken. -/
  entered : ∀ q ∈ s.queue, ∃ d, s.distance? q.id = some d ∧ d ≤ q.distance
  /-- A known node that is not settled waits in the queue with its distance. -/
  waiting : ∀ v d, s.distance? v = some d → v ∉ s.settled →
    ∃ q ∈ s.queue, q.id = v ∧ q.distance = d
  settled : ∀ v ∈ s.settled, ∃ d, s.distance? v = some d ∧ d ≤ bound
  nodup : s.settled.Nodup
  arrived : ∀ v d, s.distance? v = some d → v ≠ source →
    ∃ e, Assoc.find? v s.arrivals = some e ∧ s.Arrival g e v d
  relaxed : ∀ e ∈ g.edges, e.source ∈ s.settled → e ∈ pending ∨ s.Reaches e

omit [Add W] [BEq W] in
theorem queued_start (source : String) : Queued (start (W := W) source) where
  entered q hq := by
    obtain rfl := by simpa [start] using hq
    exact ⟨0, by simp [distance?, start, Assoc.find?_cons], le_refl 0⟩
  waiting v d hd _ := by
    obtain ⟨rfl, rfl⟩ := by simpa [distance?, start, Assoc.find?_cons] using hd
    exact ⟨⟨0, 0, source⟩, by simp [start], rfl, rfl⟩

/-- The search before its first step. -/
theorem holds_start (g : Graph W) (source : String) :
    Holds g source 0 [] (start (W := W) source) where
  ordered j hj := Heap.after_of_size_le (show 1 ≤ j from hj)
  nonneg := le_refl 0
  least q hq := by
    obtain rfl := by simpa [start] using hq
    exact le_refl 0
  start := by simp [distance?, start, Assoc.find?_cons]
  entered := (queued_start source).entered
  waiting := (queued_start source).waiting
  settled := nofun
  nodup := List.nodup_nil
  arrived v d hd hne := by
    obtain ⟨rfl, -⟩ := by simpa [distance?, start, Assoc.find?_cons] using hd
    exact absurd rfl hne
  relaxed := nofun

theorem Holds.queued (h : Holds g source bound pending s) : Queued s := ⟨h.entered, h.waiting⟩

/-! ### The way back -/

/-- Edges that lead back from a settled node: a chain from the source with the node's distance as
its sum, over nodes that were settled one after the other. -/
structure Traces (g : Graph W) (source : String) (s : Search W) (v : String)
    (es : List (Edge W)) : Prop where
  chain : g.IsChain source es.reverse v
  distance : s.distance? v = some (weightSum es.reverse)
  /-- The nodes on the way back, the node itself first. -/
  earlier : (es.map Edge.target ++ [source]).Pairwise
    fun x y ↦ s.settled.idxOf y < s.settled.idxOf x
  latest : ∀ x ∈ es.map Edge.target ++ [source], s.settled.idxOf x ≤ s.settled.idxOf v

theorem Holds.exists_trace (h : Holds g source bound pending s) (hv : v ∈ s.settled) {fuel : Nat}
    (hfuel : s.settled.idxOf v ≤ fuel) :
    ∃ es, trace? s.arrivals source fuel v = some es ∧ Traces g source s v es := by
  induction fuel generalizing v with
  | zero =>
    rcases Classical.em (v = source) with rfl | hne
    · exact ⟨[], by simp [trace?], rfl, h.start, by simp, by simp⟩
    · obtain ⟨d, hd, -⟩ := h.settled v hv
      obtain ⟨e, -, ha⟩ := h.arrived v d hd hne
      exact absurd (ha.earlier hv) (by omega)
  | succ fuel ih =>
    rcases Classical.em (v = source) with rfl | hne
    · exact ⟨[], by simp [trace?], rfl, h.start, by simp, by simp⟩
    · obtain ⟨d, hd, -⟩ := h.settled v hv
      obtain ⟨e, he, ha⟩ := h.arrived v d hd hne
      obtain ⟨c, hc, rfl⟩ := ha.distance
      have hearlier := ha.earlier hv
      obtain ⟨es, hes, htraces⟩ := ih ha.source (by omega)
      have hsum : c = weightSum es.reverse := Option.some.inj (hc.symm.trans htraces.distance)
      refine ⟨e :: es, by simp [trace?, hne, he, hes], ?_⟩
      exact {
        chain := by
          rw [List.reverse_cons, Graph.isChain_append]
          exact ⟨e.source, htraces.chain, ha.mem, rfl, ha.target⟩
        distance := by rw [List.reverse_cons, weightSum_concat, hd, hsum]
        earlier := by
          rw [List.map_cons, List.cons_append, List.pairwise_cons, ha.target]
          exact ⟨fun x hx ↦ Nat.lt_of_le_of_lt (htraces.latest x hx) hearlier, htraces.earlier⟩
        latest := by
          rw [List.map_cons, List.cons_append, List.forall_mem_cons, ha.target]
          exact ⟨Nat.le_refl _, fun x hx ↦ (htraces.latest x hx).trans (Nat.le_of_lt hearlier)⟩ }

/-- Every settled node but the source was reached over an edge, so there are enough of them. -/
theorem Holds.length_settled_le (h : Holds g source bound pending s) :
    s.settled.length ≤ s.arrivals.length + 1 := by
  have hsub : s.settled ⊆ source :: s.arrivals.map Prod.fst := by
    intro v hv
    rcases Classical.em (v = source) with rfl | hne
    · exact List.mem_cons_self
    · obtain ⟨d, hd, -⟩ := h.settled v hv
      obtain ⟨e, he, -⟩ := h.arrived v d hd hne
      refine List.mem_cons_of_mem _ ?_
      by_contra hmiss
      rw [Assoc.find?_eq_none_iff.2 hmiss] at he
      cases he
  have hlength := (List.subperm_of_subset h.nodup hsub).length_le
  rwa [List.length_cons, List.length_map] at hlength

end Holds

/-! ### The first entry of the queue -/

section Pop

variable [LinearOrder W] [BEq W] {s : Search W} {entry q : Entry W} {queue : Array (Entry W)}

theorem mem_queue_of_pop? (hpop : Heap.pop? Entry.before s.queue = some (entry, queue)) :
    q ∈ s.queue ↔ q ∈ queue ∨ q = entry := by
  rw [← (Heap.perm_of_pop? hpop).mem_iff, Array.mem_push]

/-- An entry of a settled node is passed over. -/
theorem Queued.skip (h : Queued s)
    (hpop : Heap.pop? Entry.before s.queue = some (entry, queue)) (hold : entry.id ∈ s.settled) :
    Queued { s with queue } where
  entered q hq := h.entered q ((mem_queue_of_pop? hpop).2 (.inl hq))
  waiting v d hd hv := by
    obtain ⟨q, hq, rfl, hdist⟩ := h.waiting v d hd hv
    rcases (mem_queue_of_pop? hpop).1 hq with hq | rfl
    · exact ⟨q, hq, rfl, hdist⟩
    · exact absurd hold hv

/-- A node whose turn has come waits no longer. -/
theorem Queued.settle (h : Queued s)
    (hpop : Heap.pop? Entry.before s.queue = some (entry, queue)) :
    Queued { s with queue, settled := s.settled ++ [entry.id] } where
  entered q hq := h.entered q ((mem_queue_of_pop? hpop).2 (.inl hq))
  waiting v d hd hv := by
    rw [List.mem_append, List.mem_singleton, not_or] at hv
    obtain ⟨q, hq, rfl, hdist⟩ := h.waiting v d hd hv.1
    rcases (mem_queue_of_pop? hpop).1 hq with hq | rfl
    · exact ⟨q, hq, rfl, hdist⟩
    · exact absurd rfl hv.2

end Pop

section Turn

variable [LinearOrder W] [Zero W] [Add W] [BEq W] [LawfulBEq W] {g : Graph W} {source : String}
  {bound : W} {pending : List (Edge W)} {s : Search W} {entry : Entry W} {queue : Array (Entry W)}

/-- The first entry of the queue is not farther than the others. -/
theorem Holds.distance_le_of_pop? (h : Holds g source bound pending s) {entry q : Entry W}
    {queue : Array (Entry W)} (hpop : Heap.pop? Entry.before s.queue = some (entry, queue))
    (hq : q ∈ s.queue) : entry.distance ≤ q.distance :=
  Entry.distance_le ((h.ordered.of_pop? ranks_before hpop).2.2 q hq)

/-- An entry of a settled node is passed over. -/
theorem Holds.skip (h : Holds g source bound pending s) {entry : Entry W}
    {queue : Array (Entry W)} (hpop : Heap.pop? Entry.before s.queue = some (entry, queue))
    (hold : entry.id ∈ s.settled) : Holds g source bound pending { s with queue } where
  ordered := (h.ordered.of_pop? ranks_before hpop).1
  nonneg := h.nonneg
  least q hq := h.least q ((mem_queue_of_pop? hpop).2 (.inl hq))
  start := h.start
  entered := (h.queued.skip hpop hold).entered
  waiting := (h.queued.skip hpop hold).waiting
  settled := h.settled
  nodup := h.nodup
  arrived v d hd hne := by
    obtain ⟨e, he, ha⟩ := h.arrived v d hd hne
    exact ⟨e, he, ha.mem, ha.target, ha.source, ha.earlier, ha.distance⟩
  relaxed := h.relaxed

/-- The first entry of a node has the distance that is known. -/
theorem Holds.distance?_of_pop? (h : Holds g source bound pending s) {entry : Entry W}
    {queue : Array (Entry W)} (hpop : Heap.pop? Entry.before s.queue = some (entry, queue))
    (hnew : entry.id ∉ s.settled) : s.distance? entry.id = some entry.distance := by
  obtain ⟨d, hd, hle⟩ := h.entered entry ((mem_queue_of_pop? hpop).2 (.inr rfl))
  obtain ⟨q, hq, -, hdist⟩ := h.waiting _ d hd hnew
  have hge : entry.distance ≤ d := hdist ▸ h.distance_le_of_pop? hpop hq
  rw [hd, le_antisymm hle hge]

/-- A node whose turn has come is settled, and the edges that leave it are pending. -/
theorem Holds.settle (h : Holds g source bound [] s) {entry : Entry W}
    {queue : Array (Entry W)} (hpop : Heap.pop? Entry.before s.queue = some (entry, queue))
    (hnew : entry.id ∉ s.settled) :
    Holds g source entry.distance (g.outgoing entry.id)
      { s with queue, settled := s.settled ++ [entry.id] } where
  ordered := (h.ordered.of_pop? ranks_before hpop).1
  nonneg := h.nonneg.trans (h.least entry ((mem_queue_of_pop? hpop).2 (.inr rfl)))
  least q hq := h.distance_le_of_pop? hpop ((mem_queue_of_pop? hpop).2 (.inl hq))
  start := h.start
  entered := (h.queued.settle hpop).entered
  waiting := (h.queued.settle hpop).waiting
  settled v hv := by
    rcases List.mem_append.1 hv with hv | hv
    · obtain ⟨d, hd, hle⟩ := h.settled v hv
      exact ⟨d, hd, hle.trans (h.least entry ((mem_queue_of_pop? hpop).2 (.inr rfl)))⟩
    · rw [List.mem_singleton.1 hv]
      exact ⟨_, h.distance?_of_pop? hpop hnew, le_refl _⟩
  nodup := by
    rw [← List.concat_eq_append]
    exact h.nodup.concat hnew
  arrived v d hd hne := by
    obtain ⟨e, he, ha⟩ := h.arrived v d hd hne
    refine ⟨e, he, ha.mem, ha.target, List.mem_append_left _ ha.source, fun hv ↦ ?_, ha.distance⟩
    show (s.settled ++ [entry.id]).idxOf e.source < (s.settled ++ [entry.id]).idxOf v
    rw [List.idxOf_append_of_mem ha.source]
    rcases Classical.em (v ∈ s.settled) with hold | hlast
    · rw [List.idxOf_append_of_mem hold]
      exact ha.earlier hold
    · rw [List.idxOf_append_of_notMem hlast]
      exact Nat.lt_add_right _ (List.idxOf_lt_length_iff.2 ha.source)
  relaxed e he hes := by
    rcases List.mem_append.1 hes with hold | hlast
    · exact .inr ((h.relaxed e he hold).resolve_left List.not_mem_nil)
    · exact .inl (List.mem_filter.2 ⟨he, by simpa using hlast⟩)

end Turn

/-! ### One edge -/

section Improving

variable [LinearOrder W] [Add W] [BEq W] {s : Search W} {v : String} {bound : W} {e : Edge W}

theorem improves_iff {W : Type} [LinearOrder W] {s : Search W} {v : String} {candidate : W} :
    s.improves v candidate = true ↔ ∀ d, s.distance? v = some d → candidate < d := by
  rw [improves, distance?]
  cases Assoc.find? v s.distances <;> simp

/-- What is known after an edge that leads to a shorter way. -/
theorem distance?_relax {e : Edge W} (h : s.improves e.target (bound + e.weight) = true) :
    (s.relax bound e).distance? v =
      if e.target = v then some (bound + e.weight) else s.distance? v := by
  rw [relax, if_pos h, distance?, Assoc.find?_put, distance?]
  simp only [beq_iff_eq]

theorem relax_of_not_improves {e : Edge W} (h : ¬ s.improves e.target (bound + e.weight) = true) :
    s.relax bound e = s := by
  rw [relax, if_neg h]

theorem mem_queue_relax {e : Edge W} (h : s.improves e.target (bound + e.weight) = true)
    {q : Entry W} : q ∈ (s.relax bound e).queue ↔
      q ∈ s.queue ∨ q = ⟨bound + e.weight, s.entered, e.target⟩ := by
  rw [relax, if_pos h, (Heap.push_perm ..).mem_iff, Array.mem_push]

/-- Distances only get less. -/
theorem exists_distance?_relax_le (bound : W) (e : Edge W) {d : W}
    (hd : s.distance? v = some d) :
    ∃ c, (s.relax bound e).distance? v = some c ∧ c ≤ d := by
  rcases Classical.em (s.improves e.target (bound + e.weight) = true) with hi | hi
  · rw [distance?_relax hi]
    rcases Classical.em (e.target = v) with rfl | hne
    · exact ⟨_, if_pos rfl, (improves_iff.1 hi d hd).le⟩
    · exact ⟨d, by rw [if_neg hne, hd], le_refl d⟩
  · exact ⟨d, by rw [relax_of_not_improves hi, hd], le_refl d⟩

/-- A shorter way puts a new entry into the queue. -/
theorem Queued.relax (h : Queued s) (bound : W) (e : Edge W) : Queued (s.relax bound e) := by
  rcases Classical.em (s.improves e.target (bound + e.weight) = true) with hi | hi
  · constructor
    · intro q hq
      rcases (mem_queue_relax hi).1 hq with hq | rfl
      · obtain ⟨d, hd, hle⟩ := h.entered q hq
        obtain ⟨c, hc, hcd⟩ := exists_distance?_relax_le bound e hd
        exact ⟨c, hc, hcd.trans hle⟩
      · exact ⟨_, by rw [distance?_relax hi, if_pos rfl], le_refl _⟩
    · intro v d hd hv
      rw [settled_relax] at hv
      rw [distance?_relax hi] at hd
      split at hd
      · rename_i heq
        cases hd
        exact ⟨_, (mem_queue_relax hi).2 (.inr rfl), heq, rfl⟩
      · obtain ⟨q, hq, hid, hdist⟩ := h.waiting v d hd hv
        exact ⟨q, (mem_queue_relax hi).2 (.inl hq), hid, hdist⟩
  · rwa [relax_of_not_improves hi]

end Improving

section Relaxing

variable [LinearOrder W] [Zero W] [Add W] [BEq W] [Costs W] {g : Graph W} {source v : String}
  {bound : W} {pending : List (Edge W)} {s : Search W} {e : Edge W}

/-- No shorter way leads to a settled node. -/
theorem Holds.target_not_mem_settled (h : Holds g source bound pending s) (hw : 0 ≤ e.weight)
    (hi : s.improves e.target (bound + e.weight) = true) : e.target ∉ s.settled := by
  intro hmem
  obtain ⟨d, hd, hle⟩ := h.settled _ hmem
  have hlt := improves_iff.1 hi d hd
  exact absurd (hle.trans (Costs.le_add bound e.weight hw)) (not_le_of_gt hlt)

theorem Holds.target_ne_source (h : Holds g source bound pending s) (hw : 0 ≤ e.weight)
    (hi : s.improves e.target (bound + e.weight) = true) : e.target ≠ source := by
  intro heq
  have hlt := improves_iff.1 hi 0 (heq ▸ h.start)
  exact absurd (h.nonneg.trans (Costs.le_add bound e.weight hw)) (not_le_of_gt hlt)

/-- Settled nodes keep their distance. -/
theorem Holds.distance?_relax_of_settled (h : Holds g source bound pending s) (hw : 0 ≤ e.weight)
    (hv : v ∈ s.settled) : (s.relax bound e).distance? v = s.distance? v := by
  rcases Classical.em (s.improves e.target (bound + e.weight) = true) with hi | hi
  · have hne : e.target ≠ v := fun heq ↦ h.target_not_mem_settled hw hi (heq ▸ hv)
    rw [distance?_relax hi, if_neg hne]
  · rw [relax_of_not_improves hi]

/-- What a node was reached over stays as it is, for it comes from a settled node. -/
theorem Holds.arrival_relax (h : Holds g source bound pending s) (hw : 0 ≤ e.weight) {f : Edge W}
    {d : W} (ha : s.Arrival g f v d) : (s.relax bound e).Arrival g f v d where
  mem := ha.mem
  target := ha.target
  source := by rw [settled_relax]; exact ha.source
  earlier := by rw [settled_relax]; exact ha.earlier
  distance := by rw [h.distance?_relax_of_settled hw ha.source]; exact ha.distance

/-- After its turn an edge leads no farther than is known. -/
theorem Holds.reaches_relax (h : Holds g source bound (e :: pending) s) (hw : 0 ≤ e.weight)
    (hs : e.source ∈ s.settled) (hd : s.distance? e.source = some bound) :
    (s.relax bound e).Reaches e := by
  have hsource : (s.relax bound e).distance? e.source = some bound := by
    rw [h.distance?_relax_of_settled hw hs, hd]
  rcases Classical.em (s.improves e.target (bound + e.weight) = true) with hi | hi
  · exact ⟨bound, _, hsource, by rw [distance?_relax hi, if_pos rfl], le_refl _⟩
  · have hknown := mt improves_iff.2 hi
    push Not at hknown
    obtain ⟨d, hd', hle⟩ := hknown
    refine ⟨bound, d, hsource, ?_, hle⟩
    rw [relax_of_not_improves hi, hd']

variable [LawfulBEq W]

/-- A search goes on over an edge that leads to a shorter way. -/
theorem Holds.relax_of_improves (h : Holds g source bound (e :: pending) s) (he : e ∈ g.edges)
    (hw : 0 ≤ e.weight) (hs : e.source ∈ s.settled) (hd : s.distance? e.source = some bound)
    (hi : s.improves e.target (bound + e.weight) = true) :
    Holds g source bound pending (s.relax bound e) := by
  have htarget := h.target_not_mem_settled hw hi
  have harrivals : (s.relax bound e).arrivals = Assoc.put e.target e s.arrivals := by
    rw [Search.relax, if_pos hi]
  exact {
    ordered := by
      rw [Search.relax, if_pos hi]
      exact h.ordered.push ranks_before _
    nonneg := h.nonneg
    least := fun q hq ↦ by
      rcases (mem_queue_relax hi).1 hq with hq | rfl
      · exact h.least q hq
      · exact Costs.le_add bound e.weight hw
    start := by
      rw [distance?_relax hi, if_neg (h.target_ne_source hw hi), h.start]
    entered := (h.queued.relax bound e).entered
    waiting := (h.queued.relax bound e).waiting
    settled := fun v hv ↦ by
      rw [settled_relax] at hv
      rw [h.distance?_relax_of_settled hw hv]
      exact h.settled v hv
    nodup := by
      rw [settled_relax]
      exact h.nodup
    arrived := fun v d hv hne ↦ by
      rw [harrivals, Assoc.find?_put]
      rw [distance?_relax hi] at hv
      rcases Classical.em (e.target = v) with rfl | hother
      · rw [if_pos rfl] at hv
        cases hv
        have hnew : s.Arrival g e e.target (bound + e.weight) :=
          ⟨he, rfl, hs, fun hmem ↦ absurd hmem htarget, bound, hd, rfl⟩
        exact ⟨e, if_pos (beq_self_eq_true _), h.arrival_relax hw hnew⟩
      · rw [if_neg hother] at hv
        obtain ⟨f, hf, harrival⟩ := h.arrived v d hv hne
        rw [if_neg (mt eq_of_beq hother)]
        exact ⟨f, hf, h.arrival_relax hw harrival⟩
    relaxed := fun f hf hfs ↦ by
      rw [settled_relax] at hfs
      rcases h.relaxed f hf hfs with hpending | ⟨c, d, hc, hd', hle⟩
      · rcases List.mem_cons.1 hpending with rfl | hpending
        · exact .inr (h.reaches_relax hw hs hd)
        · exact .inl hpending
      · obtain ⟨d', hless, hdd⟩ := exists_distance?_relax_le bound e hd'
        have hkeep := h.distance?_relax_of_settled hw hfs
        exact .inr ⟨c, d', by rw [hkeep, hc], hless, hdd.trans hle⟩ }

theorem Holds.relax (h : Holds g source bound (e :: pending) s) (he : e ∈ g.edges)
    (hw : 0 ≤ e.weight) (hs : e.source ∈ s.settled) (hd : s.distance? e.source = some bound) :
    Holds g source bound pending (s.relax bound e) := by
  rcases Classical.em (s.improves e.target (bound + e.weight) = true) with hi | hi
  · exact h.relax_of_improves he hw hs hd hi
  · have hreaches := h.reaches_relax hw hs hd
    rw [relax_of_not_improves hi] at hreaches ⊢
    refine { h with relaxed := fun f hf hfs ↦ ?_ }
    rcases h.relaxed f hf hfs with hpending | hreached
    · rcases List.mem_cons.1 hpending with rfl | hpending
      · exact .inr hreaches
      · exact .inl hpending
    · exact .inr hreached

/-- All edges that leave a settled node are taken into account one after the other. -/
theorem Holds.foldl_relax {es : List (Edge W)} (h : Holds g source bound es s)
    (hes : ∀ e ∈ es, e ∈ g.edges ∧ 0 ≤ e.weight ∧ e.source = u) (hu : u ∈ s.settled)
    (hd : s.distance? u = some bound) :
    Holds g source bound [] (es.foldl (Search.relax bound) s) := by
  induction es generalizing s with
  | nil => exact h
  | cons e es ih =>
    obtain ⟨⟨he, hw, rfl⟩, hes⟩ := List.forall_mem_cons.1 hes
    rw [List.foldl_cons]
    refine ih (h.relax he hw hu hd) hes ?_ ?_
    · rwa [settled_relax]
    · rw [h.distance?_relax_of_settled hw hu, hd]

theorem Holds.settle_relax (h : Holds g source bound [] s) (hw : ∀ e ∈ g.edges, 0 ≤ e.weight)
    {entry : Entry W} {queue : Array (Entry W)}
    (hpop : Heap.pop? Entry.before s.queue = some (entry, queue)) (hnew : entry.id ∉ s.settled) :
    Holds g source entry.distance [] (Search.settle g entry { s with queue }) := by
  refine (h.settle hpop hnew).foldl_relax (u := entry.id) (fun e he ↦ ?_) ?_ ?_
  · obtain ⟨hmem, hs⟩ := List.mem_filter.1 he
    exact ⟨hmem, hw e hmem, eq_of_beq hs⟩
  · exact List.mem_append_right _ (List.mem_singleton_self _)
  · exact h.distance?_of_pop? hpop hnew

end Relaxing

/-! ### The whole run -/

section Run

variable [LinearOrder W] [Zero W] [Add W] [BEq W] [Costs W] {g : Graph W} {source u v : String}
  {bound : W} {s : Search W}

/-- **The way to a node that is not settled leads through the queue**, so the queue knows of a node
that is not farther. -/
theorem Holds.exists_entry_le (h : Holds g source bound [] s) (hw : ∀ e ∈ g.edges, 0 ≤ e.weight)
    {es : List (Edge W)} {c d : W} (hchain : g.IsChain u es v) (hd : s.distance? u = some d)
    (hdc : d ≤ c) (hv : v ∉ s.settled) :
    ∃ q ∈ s.queue, q.distance ≤ es.foldl (fun sum e ↦ sum + e.weight) c := by
  induction es generalizing u c d with
  | nil =>
    cases hchain
    obtain ⟨q, hq, -, rfl⟩ := h.waiting v d hd hv
    exact ⟨q, hq, hdc⟩
  | cons e es ih =>
    have hweights : ∀ f ∈ e :: es, 0 ≤ f.weight := fun f hf ↦ hw f (hchain.mem f hf)
    obtain ⟨he, rfl, hrest⟩ := hchain
    rcases Classical.em (e.source ∈ s.settled) with hs | hs
    · obtain ⟨b, t, hb, ht, hle⟩ := (h.relaxed e he hs).resolve_left List.not_mem_nil
      cases hb.symm.trans hd
      exact ih hrest ht (hle.trans (Costs.add_le_add e.weight hdc))
    · obtain ⟨q, hq, -, rfl⟩ := h.waiting _ d hd hs
      exact ⟨q, hq, hdc.trans (le_foldl_add hweights c)⟩

/-- How a search for a target ends: with the target settled at the least sum of weights of all
chains to it, or without it where there is no chain. -/
structure Ends (g : Graph W) (source target : String) (s : Search W) : Prop where
  holds : ∃ bound pending, Holds g source bound pending s
  least : target ∈ s.settled → ∃ d, s.distance? target = some d ∧
    ∀ es, g.IsChain source es target → d ≤ weightSum es
  missing : target ∉ s.settled → ∀ es, ¬ g.IsChain source es target

theorem Holds.ends_run [LawfulBEq W] {target : String} (h : Holds g source bound [] s)
    (hw : ∀ e ∈ g.edges, 0 ≤ e.weight) (htarget : target ∉ s.settled) :
    Ends g source target (run g target s) := by
  fun_induction run g target s generalizing bound with
  | case1 s hpop =>
    refine ⟨⟨bound, [], h⟩, fun hmem ↦ absurd hmem htarget, fun _ es hchain ↦ ?_⟩
    obtain ⟨q, hq, -⟩ := h.exists_entry_le hw hchain h.start (le_refl 0) htarget
    have hsize := Heap.pop?_eq_none_iff.1 hpop
    rw [Array.size_eq_zero_iff.1 hsize] at hq
    exact absurd hq (Array.not_mem_empty q)
  | case2 s entry queue hpop hold ih =>
    exact ih (h.skip hpop (List.contains_iff_mem.1 hold)) htarget
  | case3 s entry queue hpop hnew heq =>
    rw [List.contains_iff_mem] at hnew
    obtain rfl := eq_of_beq heq
    refine ⟨⟨_, _, h.settle hpop hnew⟩, fun _ ↦ ?_, fun hmiss ↦ ?_⟩
    · refine ⟨entry.distance, h.distance?_of_pop? hpop hnew, fun es hchain ↦ ?_⟩
      obtain ⟨q, hq, hle⟩ := h.exists_entry_le hw hchain h.start (le_refl 0) hnew
      exact (h.distance_le_of_pop? hpop hq).trans hle
    · exact absurd (List.mem_append_right _ (List.mem_singleton_self _)) hmiss
  | case4 s entry queue hpop hnew hne ih =>
    rw [List.contains_iff_mem] at hnew
    refine ih (h.settle_relax hw hpop hnew) ?_
    rw [Search.settle, settled_foldl_relax, List.mem_append, List.mem_singleton, not_or]
    exact ⟨htarget, fun heq ↦ hne (heq ▸ beq_self_eq_true _)⟩

end Run

end Search

/-! ### The answer -/

section Along

variable [Zero W] [Add W] {g : Graph W} {source target : String} {start : Node} {es : List (Edge W)}

/-- The nodes of a route along a chain are the source and the targets of its edges. -/
theorem map_id_nodes_along (hid : start.id = source) (h : g.IsChain source es target) :
    (along g start es).nodes.map Node.id = source :: es.map Edge.target := by
  have htargets : ∀ id ∈ es.map Edge.target, id ∈ g.ids := by
    intro id hmem
    obtain ⟨e, he, rfl⟩ := List.mem_map.1 hmem
    exact g.target_mem e (h.mem e he)
  have hmap := Graph.map_id_filterMap_node? htargets
  rw [List.filterMap_map] at hmap
  rw [along, List.map_cons, hid]
  exact congrArg (source :: ·) hmap

theorem node?_of_mem_nodes_along (hid : start.id = source)
    (hstart : g.node? source = some start) {n : Node} (hn : n ∈ (along g start es).nodes) :
    g.node? n.id = some n := by
  rcases List.mem_cons.1 hn with rfl | hn
  · rw [hid, hstart]
  · obtain ⟨e, -, he⟩ := List.mem_filterMap.1 hn
    exact Graph.node?_of_mem (List.mem_of_find?_eq_some he)

end Along

section Answer

variable [LinearOrder W] [Zero W] [Add W] {g : Graph W} {source target : String}

/-- An answer about the cheapest route: there is one exactly if there is a chain of stored edges,
and then it is such a chain, over nodes that do not repeat, and no other has a smaller sum. -/
structure Cheapest (g : Graph W) (source target : String) (r : Route W) : Prop where
  found_iff : r.found = true ↔ ∃ es, g.IsChain source es target
  chain : r.found = true → g.IsChain source r.edges target
  /-- The nodes are the source and the targets of the edges. -/
  nodes : r.found = true → r.nodes.map Node.id = source :: r.edges.map Edge.target
  stored : ∀ n ∈ r.nodes, g.node? n.id = some n
  nodup : (r.nodes.map Node.id).Nodup
  total : r.totalWeight = weightSum r.edges
  least : r.found = true → ∀ es, g.IsChain source es target → r.totalWeight ≤ weightSum es
  /-- Nowhere to go, nothing to pass. -/
  stays : source = target → r.nodes.map Node.id = [source] ∧ r.edges = []
  missing : r.found = false → r.nodes = [] ∧ r.edges = [] ∧ r.totalWeight = 0

theorem cheapest_here [Costs W] (hw : ∀ e ∈ g.edges, 0 ≤ e.weight) {start : Node}
    (hstart : g.node? source = some start) (hid : start.id = source) :
    Cheapest g source source ⟨[start], [], 0, true⟩ where
  found_iff := ⟨fun _ ↦ ⟨[], rfl⟩, fun _ ↦ rfl⟩
  chain _ := rfl
  nodes _ := by rw [List.map_singleton, hid, List.map_nil]
  stored n hn := by rw [List.mem_singleton.1 hn, hid, hstart]
  nodup := by simp
  total := rfl
  least _ es hes := le_foldl_add (fun e he ↦ hw e (hes.mem e he)) 0
  stays _ := ⟨by rw [List.map_singleton, hid], rfl⟩
  missing := nofun

theorem cheapest_none (hne : source ≠ target) (h : ∀ es, ¬ g.IsChain source es target) :
    Cheapest g source target (none (W := W)) where
  found_iff := ⟨nofun, fun ⟨es, hes⟩ ↦ absurd hes (h es)⟩
  chain := nofun
  nodes := nofun
  stored := nofun
  nodup := List.nodup_nil
  total := rfl
  least := nofun
  stays heq := absurd heq hne
  missing _ := ⟨rfl, rfl, rfl⟩

theorem cheapest_along {s : Search W} {d : W} {es : List (Edge W)} {start : Node}
    (hstart : g.node? source = some start) (hid : start.id = source) (hne : source ≠ target)
    (h : Search.Traces g source s target es) (hd : s.distance? target = some d)
    (hleast : ∀ fs, g.IsChain source fs target → d ≤ weightSum fs) :
    Cheapest g source target (along g start es.reverse) where
  found_iff := ⟨fun _ ↦ ⟨_, h.chain⟩, fun _ ↦ rfl⟩
  chain _ := h.chain
  nodes _ := map_id_nodes_along hid h.chain
  stored _ hn := node?_of_mem_nodes_along hid hstart hn
  nodup := by
    have hback : (es.map Edge.target ++ [source]).Nodup :=
      h.earlier.imp fun hlt heq ↦ absurd (heq ▸ hlt) (Nat.lt_irrefl _)
    rwa [map_id_nodes_along hid h.chain, List.map_reverse, ← List.reverse_concat,
      List.nodup_reverse]
  total := rfl
  least _ fs hfs := by
    have hsum : weightSum es.reverse = d := Option.some.inj (h.distance.symm.trans hd)
    exact (le_of_eq hsum).trans (hleast fs hfs)
  stays heq := absurd heq hne
  missing := nofun

end Answer

end Route

/-- **Every question for a route has its answer**: the cheapest chain of edges, or that there is
none. -/
theorem Graph.cheapest_route {W : Type} [LinearOrder W] [Zero W] [Add W] [BEq W] [LawfulBEq W]
    [Costs W] (g : Graph W) (hw : ∀ e ∈ g.edges, 0 ≤ e.weight) {source target : String}
    (hsource : source ∈ g.ids) (htarget : target ∈ g.ids) :
    ∃ r, g.route source target = .ok r ∧ Route.Cheapest g source target r := by
  obtain ⟨start, hstart, rfl⟩ := List.mem_map.1 hsource
  obtain ⟨goal, hgoal, rfl⟩ := List.mem_map.1 htarget
  have hends := (Route.Search.holds_start g start.id).ends_run hw
    (List.not_mem_nil (a := goal.id))
  generalize hrun : Route.Search.run g goal.id (.start start.id) = s at hends
  rw [route, node, node?_of_mem hstart, node, node?_of_mem hgoal]
  simp only [bind, Except.bind, pure, Except.pure, hrun]
  rcases Classical.em (start.id = goal.id) with heq | hne
  · rw [if_pos heq, ← heq]
    exact ⟨_, rfl, Route.cheapest_here hw (node?_of_mem hstart) rfl⟩
  rw [if_neg hne]
  rcases Classical.em (goal.id ∈ s.settled) with hsettled | hsettled
  · obtain ⟨bound, pending, hholds⟩ := hends.holds
    have hindex : s.settled.idxOf goal.id ≤ s.arrivals.length := by
      have hlt := List.idxOf_lt_length_iff.2 hsettled
      have hle := hholds.length_settled_le
      omega
    obtain ⟨es, htrace, htraces⟩ := hholds.exists_trace hsettled hindex
    obtain ⟨d, hd, hleast⟩ := hends.least hsettled
    rw [if_neg (by simpa using hsettled), htrace]
    exact ⟨_, rfl, Route.cheapest_along (node?_of_mem hstart) rfl hne htraces hd hleast⟩
  · rw [if_pos (by simpa using hsettled)]
    exact ⟨_, rfl, Route.cheapest_none hne (hends.missing hsettled)⟩

/-- Four stops. Two lines run from the harbour to the market, and one goes round in a circle. -/
def stops : Graph ℚ where
  nodes := [.plain "harbour" "Harbour", .plain "market" "Market", .plain "mill" "Mill",
    .plain "island" "Island"]
  edges := [⟨"harbour", "market", .leadsTo, 1 / 2, .manual⟩,
    ⟨"harbour", "market", .leadsTo, 1 / 3, .manual⟩, ⟨"market", "market", .leadsTo, 0, .manual⟩,
    ⟨"harbour", "mill", .leadsTo, 1, .manual⟩, ⟨"market", "mill", .leadsTo, 1 / 3, .manual⟩]
  nodup_ids := by decide
  source_mem := by decide
  target_mem := by decide

theorem cheapest_route_stops : (∀ e ∈ stops.edges, 0 ≤ e.weight) ∧ "harbour" ∈ stops.ids ∧
    "mill" ∈ stops.ids ∧ ∃ r, stops.route "harbour" "mill" = .ok r ∧ r.found = true ∧
      r.totalWeight ≤ 2 / 3 := by
  have hw : ∀ e ∈ stops.edges, 0 ≤ e.weight := by
    simp only [stops, List.forall_mem_cons]
    norm_num
  have hsource : "harbour" ∈ stops.ids := by decide
  have htarget : "mill" ∈ stops.ids := by decide
  have hchain : stops.IsChain "harbour" [⟨"harbour", "market", .leadsTo, 1 / 3, .manual⟩,
      ⟨"market", "mill", .leadsTo, 1 / 3, .manual⟩] "mill" := by
    simp [Graph.IsChain, stops]
  obtain ⟨r, hr, hcheapest⟩ := stops.cheapest_route hw hsource htarget
  have hfound := hcheapest.found_iff.2 ⟨_, hchain⟩
  have hsum := hcheapest.least hfound _ hchain
  refine ⟨hw, hsource, htarget, r, hr, hfound, hsum.trans ?_⟩
  simp only [Route.weightSum, List.foldl_cons, List.foldl_nil]
  norm_num

end ConceptAtlas
