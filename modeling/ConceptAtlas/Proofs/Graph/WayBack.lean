import ConceptAtlas.Proofs.Graph.Route

/-!
# The way back

A search notes for each node the edge over which it was reached. The way back from a node follows
these edges until it comes to the source. `Route.LeadsBack` says of some edges that they are the way
back: every lookup on it has succeeded, and it has come to its end.

From each node there is at most one way back (`LeadsBack.unique`). So it meets no node twice, for
from that node on it would be its own proper part (`LeadsBack.nodup`), and it takes no more steps
than there are notes (`LeadsBack.length_le`). That is why the number of steps that `trace?` is given
has no part in what it finds (`trace?_eq_some_iff`).

An answer about a route is then read off the search: whether it settled the target, and the way back
from there (`Graph.route_of_settled`, `Graph.route_of_not_settled`).
-/

namespace ConceptAtlas

namespace Route

variable {W : Type} {arrivals : List (String × Edge W)} {source v x : String}
  {e : Edge W} {es fs : List (Edge W)}

/-- The edges over which nodes were reached lead back from a node to the source. -/
def LeadsBack (arrivals : List (String × Edge W)) (source : String) :
    String → List (Edge W) → Prop
  | v, [] => v = source
  | v, e :: es =>
    v ≠ source ∧ Assoc.find? v arrivals = some e ∧ LeadsBack arrivals source e.source es

/-- The way back is found with any number of steps that it does not exceed. -/
theorem trace?_eq_some_iff {fuel : Nat} :
    trace? arrivals source fuel v = some es ↔
      LeadsBack arrivals source v es ∧ es.length ≤ fuel := by
  induction fuel generalizing v es with
  | zero =>
    by_cases hv : v = source <;> cases es <;> simp [trace?, LeadsBack, hv]
  | succ fuel ih =>
    by_cases hv : v = source
    · cases es <;> simp [trace?, LeadsBack, hv]
    · cases es with
      | nil => simp [trace?, LeadsBack, hv, Option.bind_eq_some_iff]
      | cons e es =>
        rw [trace?, if_neg hv]
        simp only [LeadsBack, List.length_cons, Nat.add_le_add_iff_right, Option.bind_eq_bind,
          Option.bind_eq_some_iff, ih]
        constructor
        · rintro ⟨f, hf, fs, ⟨hback, hlength⟩, heq⟩
          cases heq
          exact ⟨⟨hv, hf, hback⟩, hlength⟩
        · rintro ⟨⟨-, he, hback⟩, hlength⟩
          exact ⟨e, he, es, ⟨hback, hlength⟩, rfl⟩

namespace LeadsBack

theorem unique (h : LeadsBack arrivals source v es) (h' : LeadsBack arrivals source v fs) :
    es = fs := by
  induction es generalizing v fs with
  | nil =>
    cases fs with
    | nil => rfl
    | cons f fs => exact absurd h h'.1
  | cons e es ih =>
    cases fs with
    | nil => exact absurd h' h.1
    | cons f fs =>
      obtain rfl : e = f := Option.some.inj (h.2.1.symm.trans h'.2.1)
      rw [ih h.2.2 h'.2.2]

/-- From a node further back the way is shorter. -/
theorem exists_of_mem (h : LeadsBack arrivals source v es) (hx : x ∈ es.map Edge.source) :
    ∃ fs, LeadsBack arrivals source x fs ∧ fs.length < es.length := by
  induction es generalizing v with
  | nil => exact absurd hx List.not_mem_nil
  | cons e es ih =>
    rcases List.mem_cons.1 hx with rfl | hx
    · exact ⟨es, h.2.2, Nat.lt_succ_self _⟩
    · obtain ⟨fs, hfs, hlt⟩ := ih h.2.2 hx
      exact ⟨fs, hfs, Nat.lt_succ_of_lt hlt⟩

/-- **The way back meets no node twice.** -/
theorem nodup (h : LeadsBack arrivals source v es) : (v :: es.map Edge.source).Nodup := by
  induction es generalizing v with
  | nil => exact List.nodup_singleton v
  | cons e es ih =>
    refine List.nodup_cons.2 ⟨fun hv ↦ ?_, ih h.2.2⟩
    obtain ⟨fs, hfs, hlt⟩ := h.exists_of_mem hv
    rw [h.unique hfs] at hlt
    exact absurd hlt (Nat.lt_irrefl _)

theorem source_mem (h : LeadsBack arrivals source v es) : source ∈ v :: es.map Edge.source := by
  induction es generalizing v with
  | nil => exact List.mem_singleton.2 (Eq.symm h)
  | cons e es ih => exact List.mem_cons_of_mem _ (ih h.2.2)

/-- Every node on the way back but the source has a note. -/
theorem subset_keys (h : LeadsBack arrivals source v es) :
    v :: es.map Edge.source ⊆ source :: arrivals.map Prod.fst := by
  induction es generalizing v with
  | nil => exact List.cons_subset.2 ⟨List.mem_cons.2 (.inl h), List.nil_subset _⟩
  | cons e es ih =>
    refine List.cons_subset.2 ⟨List.mem_cons_of_mem _ ?_, ih h.2.2⟩
    by_contra hmiss
    cases (Assoc.find?_eq_none_iff.2 hmiss).symm.trans h.2.1

theorem length_le (h : LeadsBack arrivals source v es) : es.length ≤ arrivals.length := by
  have hle := (List.subperm_of_subset h.nodup h.subset_keys).length_le
  rw [List.length_cons, List.length_cons, List.length_map, List.length_map] at hle
  exact Nat.le_of_succ_le_succ hle

/-- Only the notes of nodes on the way back matter. -/
theorem congr {others : List (String × Edge W)} (h : LeadsBack arrivals source v es)
    (heq : ∀ x ∈ v :: es.map Edge.source, Assoc.find? x others = Assoc.find? x arrivals) :
    LeadsBack others source v es := by
  induction es generalizing v with
  | nil => exact h
  | cons e es ih =>
    obtain ⟨hv, hrest⟩ := List.forall_mem_cons.1 heq
    exact ⟨h.1, hv.trans h.2.1, ih h.2.2 hrest⟩

/-- Where a new note leads back, every node still does: a way that comes to the node of the note
goes on from there. -/
theorem exists_put (h : LeadsBack arrivals source v es) (hx : x ≠ source)
    (hnew : LeadsBack (Assoc.put x e arrivals) source e.source fs) :
    ∃ es, LeadsBack (Assoc.put x e arrivals) source v es := by
  induction es generalizing v with
  | nil => exact ⟨[], h⟩
  | cons f es ih =>
    rcases Classical.em (v = x) with rfl | hne
    · exact ⟨e :: fs, hx, Assoc.find?_put_self .., hnew⟩
    · obtain ⟨es, hes⟩ := ih h.2.2
      exact ⟨f :: es, h.1, (Assoc.find?_put_of_ne (Ne.symm hne) ..).trans h.2.1, hes⟩

variable {g : Graph W}

/-- Backwards the way is a chain, if each note is an edge into its node. -/
theorem isChain (h : LeadsBack arrivals source v es)
    (hnotes : ∀ v e, Assoc.find? v arrivals = some e → e ∈ g.edges ∧ e.target = v) :
    g.IsChain source es.reverse v := by
  induction es generalizing v with
  | nil => exact Eq.symm h
  | cons e es ih =>
    obtain ⟨he, rfl⟩ := hnotes _ _ h.2.1
    rw [List.reverse_cons, Graph.isChain_append]
    exact ⟨e.source, ih h.2.2, he, rfl, rfl⟩

/-- The targets of the edges on the way back and the source are the nodes on it. -/
theorem map_target (h : LeadsBack arrivals source v es)
    (hnotes : ∀ v e, Assoc.find? v arrivals = some e → e ∈ g.edges ∧ e.target = v) :
    es.map Edge.target ++ [source] = v :: es.map Edge.source := by
  induction es generalizing v with
  | nil => exact congrArg (· :: []) (Eq.symm h)
  | cons e es ih =>
    rw [List.map_cons, List.cons_append, ih h.2.2, (hnotes _ _ h.2.1).2, List.map_cons]

end LeadsBack

end Route

/-! ### Reading an answer off a search -/

namespace Graph

variable {W : Type} [Zero W] [Add W] [LT W] [DecidableLT W] [BEq W] {g : Graph W}
  {start goal : Node}

theorem route_self (hstart : start ∈ g.nodes) :
    g.route start.id start.id = .ok ⟨[start], [], 0, true⟩ := by
  rw [route, node, node?_of_mem hstart]
  simp only [bind, Except.bind, pure, Except.pure, if_true]

theorem route_of_not_settled (hstart : start ∈ g.nodes) (hgoal : goal ∈ g.nodes)
    (hne : start.id ≠ goal.id)
    (hs : goal.id ∉ (Route.Search.run g goal.id (.start start.id)).settled) :
    g.route start.id goal.id = .ok Route.none := by
  rw [route, node, node?_of_mem hstart, node, node?_of_mem hgoal]
  simp only [bind, Except.bind, pure, Except.pure]
  rw [if_neg hne, if_pos (by simpa using hs)]

theorem route_of_settled (hstart : start ∈ g.nodes) (hgoal : goal ∈ g.nodes)
    (hne : start.id ≠ goal.id)
    (hs : goal.id ∈ (Route.Search.run g goal.id (.start start.id)).settled) {es : List (Edge W)}
    (hback : Route.LeadsBack (Route.Search.run g goal.id (.start start.id)).arrivals start.id
      goal.id es) :
    g.route start.id goal.id = .ok (Route.along g start es.reverse) := by
  rw [route, node, node?_of_mem hstart, node, node?_of_mem hgoal]
  simp only [bind, Except.bind, pure, Except.pure]
  rw [if_neg hne, if_neg (by simpa using hs),
    Route.trace?_eq_some_iff.2 ⟨hback, hback.length_le⟩]

end Graph

end ConceptAtlas
