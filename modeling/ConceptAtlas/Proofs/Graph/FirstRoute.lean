import Mathlib
import ConceptAtlas.Proofs.Graph.WayBack

/-!
# The first of the shortest routes

Where every edge weighs the same, routes differ in cost only by their number of edges, and many have
the same number. Which one is the answer is then up to the order in which edges came: it is the
first of the shortest ways, where two ways are compared by the positions of their edges, from the
start on (`Graph.first_route`).

The search never looks at a way, it only counts entries. It still enters nodes in the order of their
ways, because going on over one more edge keeps that order (`rank_append_lt`): rows have their turn
in it, and the edges that leave a node are taken in the order of their positions
(`Graph.pairwise_leaving`). From this order of rows (`Search.Levels.ranked`) everything else
follows.

* **The queue gives back rows as they were entered** (`Levels.pop`): a row with a smaller number is
  never farther. So no entry is overtaken, and a second edge to a node never lowers its distance
  (`Levels.relax_known`).
* **No way is missed** (`Levels.exists_waiting`): a way to a node that is not settled leaves the
  settled nodes somewhere, and there a row waits whose own way does not come later.
* **The way back is the way of the row** (`Levels.leadsBack`), edge by edge.
-/

namespace ConceptAtlas

variable {W : Type}

/-! ### Ways by the positions of their edges -/

/-- The edges at these positions lead from one node to another, each from where the one before has
led. -/
def Graph.IsChainAt (g : Graph W) : String → List ℕ → String → Prop
  | u, [], v => u = v
  | u, i :: ps, v => ∃ e, g.edges[i]? = some e ∧ e.source = u ∧ g.IsChainAt e.target ps v

theorem Graph.isChainAt_append {g : Graph W} {u v : String} {p q : List ℕ} :
    g.IsChainAt u (p ++ q) v ↔ ∃ x, g.IsChainAt u p x ∧ g.IsChainAt x q v := by
  induction p generalizing u with
  | nil => simp [IsChainAt]
  | cons i p ih =>
    simp only [List.cons_append, IsChainAt, ih]
    constructor
    · rintro ⟨e, he, hs, x, hp, hq⟩
      exact ⟨x, ⟨e, he, hs, hp⟩, hq⟩
    · rintro ⟨x, ⟨e, he, hs, hp⟩, hq⟩
      exact ⟨e, he, hs, x, hp, hq⟩

/-- Every chain of stored edges has positions. -/
theorem Graph.IsChain.exists_isChainAt {g : Graph W} {u v : String} {es : List (Edge W)}
    (h : g.IsChain u es v) : ∃ ps, g.IsChainAt u ps v ∧ ps.length = es.length := by
  induction es generalizing u with
  | nil => exact ⟨[], h, rfl⟩
  | cons e es ih =>
    obtain ⟨he, hs, hrest⟩ := h
    obtain ⟨i, hi⟩ := List.mem_iff_getElem?.1 he
    obtain ⟨ps, hps, hlength⟩ := ih hrest
    exact ⟨i :: ps, ⟨e, hi, hs, hps⟩, congrArg (· + 1) hlength⟩

/-- The edges that leave a node, with their positions. -/
def Graph.leaving (g : Graph W) (u : String) : List (Edge W × ℕ) :=
  g.edges.zipIdx.filter fun x ↦ x.1.source == u

theorem Graph.map_fst_leaving (g : Graph W) (u : String) :
    (g.leaving u).map Prod.fst = g.outgoing u := by
  have hall : g.edges.zipIdx.map Prod.fst = g.edges := List.zipIdx_map_fst 0 g.edges
  conv_rhs => rw [outgoing, ← hall, List.filter_map]
  rfl

theorem Graph.mem_leaving_iff {g : Graph W} {u : String} {x : Edge W × ℕ} :
    x ∈ g.leaving u ↔ g.edges[x.2]? = some x.1 ∧ x.1.source = u := by
  rw [leaving, List.mem_filter, List.mem_zipIdx_iff_getElem?, beq_iff_eq]

theorem Graph.mem_map_snd_leaving {g : Graph W} {e : Edge W} {j : ℕ} (h : g.edges[j]? = some e) :
    j ∈ (g.leaving e.source).map Prod.snd :=
  List.mem_map_of_mem (f := Prod.snd) (mem_leaving_iff (x := (e, j)).2 ⟨h, rfl⟩)

theorem Graph.pairwise_leaving (g : Graph W) (u : String) :
    (g.leaving u).Pairwise fun x y ↦ x.2 < y.2 := by
  refine List.Pairwise.filter _ ?_
  have hpositions : (g.edges.zipIdx.map Prod.snd).Pairwise (· < ·) := by
    rw [List.zipIdx_map_snd]
    exact List.pairwise_lt_range'
  exact List.pairwise_map.1 hpositions

namespace Route

/-- The order of ways: shorter ones first, and those of one length like words. -/
def rank (ps : List ℕ) : ℕ ×ₗ List ℕ := toLex (ps.length, ps)

section Rank

variable {p q x y : List ℕ}

theorem rank_lt_iff :
    rank p < rank q ↔ p.length < q.length ∨ p.length = q.length ∧ p < q :=
  Prod.Lex.toLex_lt_toLex

theorem rank_le_iff :
    rank p ≤ rank q ↔ p.length < q.length ∨ p.length = q.length ∧ p ≤ q :=
  Prod.Lex.toLex_le_toLex

theorem length_le_of_rank_le (h : rank p ≤ rank q) : p.length ≤ q.length :=
  (rank_le_iff.1 h).elim Nat.le_of_lt fun h ↦ Nat.le_of_eq h.1

theorem rank_injective : Function.Injective rank := fun _ _ h ↦
  congrArg Prod.snd (toLex.injective h)

theorem append_lt_append (hlength : p.length = q.length) (h : p < q) (x y : List ℕ) :
    p ++ x < q ++ y := by
  induction p generalizing q with
  | nil =>
    obtain rfl := List.length_eq_zero_iff.1 hlength.symm
    exact absurd h (lt_irrefl _)
  | cons i p ih =>
    cases q with
    | nil => nomatch hlength
    | cons j q =>
      rw [List.cons_lt_cons_iff] at h
      rw [List.cons_append, List.cons_append, List.cons_lt_cons_iff]
      exact h.imp_right fun h ↦ ⟨h.1, ih (Nat.succ.inj hlength) h.2⟩

/-- What comes after ways in order does not change their order. -/
theorem rank_append_lt (h : rank p < rank q) (hlength : x.length = y.length) :
    rank (p ++ x) < rank (q ++ y) := by
  rw [rank_lt_iff] at h
  rw [rank_lt_iff, List.length_append, List.length_append, hlength]
  rcases h with h | ⟨heq, h⟩
  · exact .inl (Nat.add_lt_add_right h _)
  · exact .inr ⟨by rw [heq], append_lt_append heq h x y⟩

theorem rank_append_le (h : rank p ≤ rank q) (x : List ℕ) : rank (p ++ x) ≤ rank (q ++ x) := by
  rcases h.lt_or_eq with h | h
  · exact (rank_append_lt h rfl).le
  · rw [rank_injective h]

theorem rank_le_append (p x : List ℕ) : rank p ≤ rank (p ++ x) := by
  cases x with
  | nil => rw [List.append_nil]
  | cons i x => exact (rank_lt_iff.2 (.inl (by simp))).le

theorem rank_concat_lt (q : List ℕ) {i j : ℕ} (h : i < j) : rank (q ++ [i]) < rank (q ++ [j]) := by
  refine rank_lt_iff.2 (.inr ⟨by simp, ?_⟩)
  induction q with
  | nil => exact List.cons_lt_cons_iff.2 (.inl h)
  | cons k q ih => exact List.cons_lt_cons_iff.2 (.inr ⟨rfl, ih⟩)

end Rank

/-! ### What a search keeps -/

/-- A node that was entered, and the way over which it was. -/
abbrev Row := String × List ℕ

/-- The entry of a row in the queue, where every edge weighs `w`. -/
def Row.entry [AddMonoid W] (w : W) (r : Row) (number : ℕ) : Entry W :=
  ⟨r.2.length • w, number, r.1⟩

/-- No way over an edge from one of the rows `done` comes before the way to its target; edges at the
positions `pending` are left out. -/
def Closed (g : Graph W) (done rows : List Row) (pending : List ℕ) : Prop :=
  ∀ e q j, (e.source, q) ∈ done → g.edges[j]? = some e → j ∈ pending ∨
    ∃ p, (e.target, p) ∈ rows ∧ rank p ≤ rank (q ++ [j])

namespace Search

section Levels

variable [AddMonoid W] [LinearOrder W] [BEq W] {g : Graph W} {source : String} {w : W}
  {done waiting rest : List Row} {pending : List ℕ} {s : Search W} {queue : Array (Entry W)}
  {r : Row}

/-- What a search from a node keeps where every edge weighs `w`. It has entered rows in the order of
their ways: the nodes of the first ones are settled, and the others wait, each with one entry in the
queue. The edges at the positions `pending` leave settled nodes and were not taken into account. -/
structure Levels (g : Graph W) (source : String) (w : W) (done waiting : List Row)
    (pending : List ℕ) (s : Search W) : Prop where
  ordered : Heap.Ordered Entry.before s.queue
  queue : s.queue.toList.Perm ((waiting.zipIdx done.length).map fun r ↦ r.1.entry w r.2)
  settled : s.settled = done.map Prod.fst
  distances : s.distances = (done ++ waiting).map fun r ↦ (r.1, r.2.length • w)
  entered : s.entered = (done ++ waiting).length
  nodup : ((done ++ waiting).map Prod.fst).Nodup
  ranked : (done ++ waiting).Pairwise fun r t ↦ rank r.2 < rank t.2
  start : (source, []) ∈ done ++ waiting
  /-- A way goes over an edge from a settled node, and the edge is noted. -/
  grown : ∀ r ∈ done ++ waiting, r = (source, []) ∨ ∃ e q j, (e.source, q) ∈ done ∧
    g.edges[j]? = some e ∧ r = (e.target, q ++ [j]) ∧ Assoc.find? e.target s.arrivals = some e
  closed : Closed g done (done ++ waiting) pending

theorem levels_start (g : Graph W) (source : String) (w : W) :
    Levels g source w [] [(source, [])] [] (start source) where
  ordered j hj := Heap.after_of_size_le (show 1 ≤ j from hj)
  queue := by simp [start, Row.entry]
  settled := rfl
  distances := by simp [start]
  entered := rfl
  nodup := by simp
  ranked := by simp
  start := by simp
  grown r hr := .inl (by simpa using hr)
  closed := nofun

/-- The row that waits first has the first way. -/
theorem Levels.rank_le (h : Levels g source w done (r :: rest) pending s) {t : Row}
    (ht : t ∈ r :: rest) : rank r.2 ≤ rank t.2 := by
  rcases List.mem_cons.1 ht with rfl | ht
  · exact le_refl _
  · exact ((List.pairwise_cons.1 (List.pairwise_append.1 h.ranked).2.1).1 t ht).le

/-- A node has one row. -/
theorem Levels.way_unique (h : Levels g source w done waiting pending s) {v : String} {p q : List ℕ}
    (hp : (v, p) ∈ done ++ waiting) (hq : (v, q) ∈ done ++ waiting) : p = q :=
  congrArg Prod.snd (List.inj_on_of_nodup_map h.nodup hp hq rfl)

/-- The node of the row whose turn has come is settled, and the edges that leave it are pending. -/
theorem Levels.settle (h : Levels g source w done (r :: rest) [] s)
    (hordered : Heap.Ordered Entry.before queue)
    (hqueue : queue.toList.Perm ((rest.zipIdx (done.length + 1)).map fun r ↦ r.1.entry w r.2)) :
    Levels g source w (done ++ [r]) rest ((g.leaving r.1).map Prod.snd)
      { s with queue, settled := s.settled ++ [r.1] } := by
  have hrows : done ++ [r] ++ rest = done ++ r :: rest := (List.append_cons ..).symm
  exact {
    ordered := hordered
    queue := by rwa [List.length_append, List.length_singleton]
    settled := by rw [h.settled, List.map_append, List.map_singleton]
    distances := by rw [hrows, h.distances]
    entered := by rw [hrows, h.entered]
    nodup := by rw [hrows]; exact h.nodup
    ranked := by rw [hrows]; exact h.ranked
    start := by rw [hrows]; exact h.start
    grown := fun t ht ↦ by
      rw [hrows] at ht
      refine (h.grown t ht).imp_right ?_
      rintro ⟨e, q, j, hq, he⟩
      exact ⟨e, q, j, List.mem_append_left _ hq, he⟩
    closed := fun e q j hq he ↦ by
      rw [hrows]
      rcases List.mem_append.1 hq with hq | hq
      · exact .inr ((h.closed e q j hq he).resolve_left List.not_mem_nil)
      · rw [← List.mem_singleton.1 hq]
        exact .inl (Graph.mem_map_snd_leaving he) }

/-- What is known of a distance is the length of the way. -/
theorem Levels.find?_distances (h : Levels g source w done waiting pending s) {v : String}
    {p : List ℕ} (hp : (v, p) ∈ done ++ waiting) :
    Assoc.find? v s.distances = some (p.length • w) := by
  rw [h.distances]
  refine Assoc.find?_of_mem ?_ (List.mem_map_of_mem (f := fun r ↦ (r.1, r.2.length • w)) hp)
  rw [List.map_map]
  exact h.nodup

/-- An edge that is taken into account is pending no longer, if its target has a way that does not
come later. -/
theorem Levels.closed_cons {e : Edge W} {q : List ℕ} {j : ℕ} {rows : List Row}
    (h : Levels g source w done waiting (j :: pending) s) (he : g.edges[j]? = some e)
    (hq : (e.source, q) ∈ done) (hrows : done ++ waiting ⊆ rows)
    (hnew : ∃ p, (e.target, p) ∈ rows ∧ rank p ≤ rank (q ++ [j])) : Closed g done rows pending := by
  intro f p i hp hf
  rcases h.closed f p i hp hf with hi | ⟨p', hp', hle⟩
  · rcases List.mem_cons.1 hi with rfl | hi
    · obtain rfl : e = f := Option.some.inj (he.symm.trans hf)
      rw [h.way_unique (List.mem_append_left _ hp) (List.mem_append_left _ hq)]
      exact .inr hnew
    · exact .inl hi
  · exact .inr ⟨p', hrows hp', hle⟩

end Levels

section Steps

variable [AddCommGroup W] [LinearOrder W] [IsOrderedAddMonoid W] [BEq W] [LawfulBEq W] {g : Graph W}
  {source : String} {w : W} {done waiting rest : List Row} {pending : List ℕ} {s : Search W}
  {entry : Entry W} {queue : Array (Entry W)} {r t : Row}

/-- Of two rows that are not out of order the one entered first has its turn first. -/
theorem before_of_lt (hw : 0 < w) (hlength : r.2.length ≤ t.2.length) {m n : ℕ} (h : m < n) :
    Entry.before (r.entry w m) (t.entry w n) = true := by
  rw [Entry.before]
  split
  · exact decide_eq_true h
  · rename_i hne
    rcases hlength.lt_or_eq with hlt | heq
    · exact decide_eq_true (nsmul_lt_nsmul_left hw hlt)
    · exact absurd (beq_iff_eq.2 (congrArg (· • w) heq)) hne

/-- **The first row that waits has its turn next.** -/
theorem Levels.pop (h : Levels g source w done waiting pending s) (hw : 0 < w)
    (hpop : Heap.pop? Entry.before s.queue = some (entry, queue)) :
    ∃ r rest, waiting = r :: rest ∧ entry = r.entry w done.length ∧
      queue.toList.Perm ((rest.zipIdx (done.length + 1)).map fun r ↦ r.1.entry w r.2) := by
  obtain ⟨-, hperm, hleast⟩ := h.ordered.of_pop? ranks_before hpop
  have hrows : (queue.toList ++ [entry]).Perm
      ((waiting.zipIdx done.length).map fun r ↦ r.1.entry w r.2) := by
    have := Array.perm_iff_toList_perm.1 hperm
    rw [Array.toList_push] at this
    exact this.trans h.queue
  cases waiting with
  | nil => exact absurd hrows.length_eq (by simp)
  | cons r rest =>
    rw [List.zipIdx_cons, List.map_cons] at hrows
    have hfirst : r.entry w done.length ∈ s.queue := by
      rw [← Array.mem_toList_iff]
      exact h.queue.mem_iff.2 (by simp [List.zipIdx_cons])
    have hentry : entry = r.entry w done.length := by
      have hmem := hrows.mem_iff.1 (List.mem_append_right _ (List.mem_singleton_self entry))
      refine (List.mem_cons.1 hmem).resolve_right fun htail ↦ ?_
      obtain ⟨⟨t, n⟩, ht, rfl⟩ := List.mem_map.1 htail
      have hle := h.rank_le (List.mem_cons_of_mem _ (List.fst_mem_of_mem_zipIdx ht))
      have hbefore := before_of_lt hw (length_le_of_rank_le hle) (List.le_snd_of_mem_zipIdx ht)
      rw [hleast _ hfirst] at hbefore
      nomatch hbefore
    subst hentry
    exact ⟨r, rest, rfl, rfl, ((List.perm_append_comm.symm.trans hrows)).cons_inv⟩

section Relax

variable {e : Edge W} {q : List ℕ} {j : ℕ}

omit [LawfulBEq W] in
/-- An edge to a node that was entered changes nothing. -/
theorem Levels.relax_known (h : Levels g source w done waiting (j :: pending) s) (hw : 0 < w)
    (he : g.edges[j]? = some e) (hweight : e.weight = w) (hq : (e.source, q) ∈ done)
    {p : List ℕ} (hp : (e.target, p) ∈ done ++ waiting) (hle : rank p ≤ rank (q ++ [j])) :
    Levels g source w done waiting pending (s.relax (q.length • w) e) := by
  have hnot : ¬ s.improves e.target (q.length • w + e.weight) = true := by
    have hlength := length_le_of_rank_le hle
    rw [List.length_append, List.length_singleton] at hlength
    rw [improves, h.find?_distances hp, hweight, ← succ_nsmul, decide_eq_true_iff, not_lt]
    exact nsmul_le_nsmul_left hw.le hlength
  rw [relax_of_not_improves hnot]
  exact { h with closed := h.closed_cons he hq (List.Subset.refl _) ⟨p, hp, hle⟩ }

omit [IsOrderedAddMonoid W] in
/-- An edge to a new node adds a row. -/
theorem Levels.relax_new (h : Levels g source w done waiting (j :: pending) s)
    (he : g.edges[j]? = some e) (hweight : e.weight = w) (hq : (e.source, q) ∈ done)
    (hnew : e.target ∉ (done ++ waiting).map Prod.fst)
    (hlast : ∀ t ∈ done ++ waiting, rank t.2 < rank (q ++ [j])) :
    Levels g source w done (waiting ++ [(e.target, q ++ [j])]) pending
      (s.relax (q.length • w) e) := by
  have hkeys : s.distances.map Prod.fst = (done ++ waiting).map Prod.fst := by
    rw [h.distances, List.map_map]
    rfl
  have hmiss : e.target ∉ s.distances.map Prod.fst := by rwa [hkeys]
  have himproves : s.improves e.target (q.length • w + e.weight) = true := by
    rw [improves, Assoc.find?_eq_none_iff.2 hmiss]
  have hrows : done ++ (waiting ++ [(e.target, q ++ [j])]) =
      done ++ waiting ++ [(e.target, q ++ [j])] := (List.append_assoc ..).symm
  have hdistance : q.length • w + e.weight = (q ++ [j]).length • w := by
    rw [hweight, List.length_append, List.length_singleton, succ_nsmul]
  rw [relax, if_pos himproves]
  exact {
    ordered := h.ordered.push ranks_before _
    queue := by
      have hpush := Array.perm_iff_toList_perm.1 (Heap.push_perm Entry.before s.queue
        ⟨q.length • w + e.weight, s.entered, e.target⟩)
      have hentry : (⟨q.length • w + e.weight, s.entered, e.target⟩ : Entry W) =
          Row.entry w (e.target, q ++ [j]) (done.length + waiting.length) := by
        simp only [Row.entry, hdistance, h.entered, List.length_append]
      rw [Array.toList_push, hentry] at hpush
      rw [List.zipIdx_append, List.map_append, hentry]
      exact hpush.trans (h.queue.append_right _)
    settled := h.settled
    distances := by
      rw [hrows, List.map_append, ← h.distances, Assoc.put_of_not_mem hmiss, hdistance]
      rfl
    entered := by
      rw [hrows, List.length_append, ← h.entered]
      rfl
    nodup := by
      rw [hrows, List.map_append, List.map_singleton, ← List.concat_eq_append]
      exact h.nodup.concat hnew
    ranked := by
      rw [hrows]
      refine List.pairwise_append.2 ⟨h.ranked, List.pairwise_singleton _ _, fun t ht u hu ↦ ?_⟩
      rw [List.mem_singleton.1 hu]
      exact hlast t ht
    start := by
      rw [hrows]
      exact List.mem_append_left _ h.start
    grown := fun t ht ↦ by
      rw [hrows] at ht
      rcases List.mem_append.1 ht with ht | ht
      · refine (h.grown t ht).imp_right ?_
        rintro ⟨f, p, i, hp, hf, rfl, hfind⟩
        have hne : e.target ≠ f.target := fun heq ↦ hnew (heq ▸ List.mem_map_of_mem ht)
        exact ⟨f, p, i, hp, hf, rfl, (Assoc.find?_put_of_ne hne ..).trans hfind⟩
      · exact .inr ⟨e, q, j, hq, he, List.mem_singleton.1 ht, Assoc.find?_put_self ..⟩
    closed := by
      rw [hrows]
      exact h.closed_cons he hq (List.subset_append_left _ _)
        ⟨q ++ [j], List.mem_append_right _ (List.mem_singleton_self _), le_refl _⟩ }

/-- All edges that leave a node are taken into account in the order of their positions. -/
theorem Levels.foldl_relax {u : String} {es : List (Edge W × ℕ)}
    (h : Levels g source w done waiting (es.map Prod.snd) s) (hw : 0 < w)
    (hes : ∀ x ∈ es, g.edges[x.2]? = some x.1 ∧ x.1.source = u ∧ x.1.weight = w)
    (hsorted : es.Pairwise fun x y ↦ x.2 < y.2) (hq : (u, q) ∈ done)
    (hlast : ∀ t ∈ done ++ waiting, ∀ x ∈ es, rank t.2 < rank (q ++ [x.2])) :
    ∃ waiting', Levels g source w done waiting' []
      ((es.map Prod.fst).foldl (Search.relax (q.length • w)) s) := by
  induction es generalizing waiting s with
  | nil => exact ⟨waiting, h⟩
  | cons x es ih =>
    obtain ⟨⟨he, rfl, hweight⟩, hes⟩ := List.forall_mem_cons.1 hes
    obtain ⟨hfirst, hsorted⟩ := List.pairwise_cons.1 hsorted
    rw [List.map_cons, List.foldl_cons]
    by_cases hknown : x.1.target ∈ (done ++ waiting).map Prod.fst
    · obtain ⟨⟨v, p⟩, hp, rfl⟩ := List.mem_map.1 hknown
      exact ih (h.relax_known hw he hweight hq hp (hlast _ hp x List.mem_cons_self).le) hes hsorted
        fun t ht y hy ↦ hlast t ht y (List.mem_cons_of_mem _ hy)
    · refine ih (h.relax_new he hweight hq hknown fun t ht ↦ hlast t ht x List.mem_cons_self) hes
        hsorted ?_
      intro t ht y hy
      rw [← List.append_assoc] at ht
      rcases List.mem_append.1 ht with ht | ht
      · exact hlast t ht y (List.mem_cons_of_mem _ hy)
      · rw [List.mem_singleton.1 ht]
        exact rank_concat_lt q (hfirst y hy)

end Relax

/-- **The turn of a row**: its node is settled, and the rows of new nodes come last. -/
theorem Levels.turn (h : Levels g source w done (r :: rest) [] s) (hw : 0 < w)
    (hweight : ∀ e ∈ g.edges, e.weight = w)
    (hordered : Heap.Ordered Entry.before queue)
    (hqueue : queue.toList.Perm ((rest.zipIdx (done.length + 1)).map fun r ↦ r.1.entry w r.2)) :
    ∃ waiting, Levels g source w (done ++ [r]) waiting []
      (Search.settle g (r.entry w done.length) { s with queue }) := by
  have hrows : done ++ [r] ++ rest = done ++ r :: rest := (List.append_cons ..).symm
  rw [Search.settle, ← Graph.map_fst_leaving]
  refine (h.settle hordered hqueue).foldl_relax hw (fun x hx ↦ ?_)
    (g.pairwise_leaving r.1) (List.mem_append_right _ (List.mem_singleton_self _)) ?_
  · obtain ⟨he, hs⟩ := Graph.mem_leaving_iff.1 hx
    exact ⟨he, hs, hweight _ (List.mem_of_getElem? he)⟩
  · -- A way that was entered before goes over a row that had its turn before.
    intro t ht x hx
    rw [hrows] at ht
    rcases h.grown t ht with rfl | ⟨e, p, i, hp, -, rfl, -⟩
    · exact rank_lt_iff.2 (.inl (by simp))
    · have hbefore := (List.pairwise_append.1 h.ranked).2.2 _ hp r List.mem_cons_self
      exact rank_append_lt hbefore rfl

end Steps

/-! ### The whole run -/

section Run

variable [AddMonoid W] [LinearOrder W] [BEq W] {g : Graph W} {source u v : String} {w : W}
  {done waiting : List Row} {pending p q c : List ℕ} {s : Search W}

/-- **The way to a node that is not settled leads through a row that waits**, and the way of that
row does not come later. -/
theorem Levels.exists_waiting (h : Levels g source w done waiting [] s) (hchain : g.IsChainAt u p v)
    (hu : (u, q) ∈ done ++ waiting) (hle : rank q ≤ rank c) (hv : v ∉ done.map Prod.fst) :
    ∃ t ∈ waiting, rank t.2 ≤ rank (c ++ p) := by
  induction p generalizing u q c with
  | nil =>
    cases hchain
    rcases List.mem_append.1 hu with hu | hu
    · exact absurd (List.mem_map_of_mem hu) hv
    · exact ⟨_, hu, by rwa [List.append_nil]⟩
  | cons j p ih =>
    obtain ⟨e, he, rfl, hrest⟩ := hchain
    rcases List.mem_append.1 hu with hu | hu
    · obtain ⟨t, ht, htle⟩ := (h.closed e q j hu he).resolve_left List.not_mem_nil
      rw [List.append_cons]
      exact ih hrest ht (htle.trans (rank_append_le hle [j]))
    · exact ⟨_, hu, hle.trans (rank_le_append c _)⟩

/-- The edges that were noted lead back over the way of a row. -/
theorem Levels.leadsBack (h : Levels g source w done waiting pending s)
    (hp : (v, p) ∈ done ++ waiting) : ∃ es, LeadsBack s.arrivals source v es ∧
      g.IsChainAt source p v ∧ p.map (g.edges[·]?) = es.reverse.map some := by
  induction p using List.reverseRecOn generalizing v with
  | nil =>
    rcases h.grown _ hp with heq | ⟨e, q, j, -, -, heq, -⟩
    · obtain rfl : v = source := congrArg Prod.fst heq
      exact ⟨[], rfl, rfl, rfl⟩
    · exact absurd (congrArg Prod.snd heq) (by simp)
  | append_singleton p j ih =>
    rcases h.grown _ hp with heq | ⟨e, q, i, hq, he, heq, hfind⟩
    · exact absurd (congrArg Prod.snd heq) (by simp)
    · obtain ⟨rfl, hway⟩ := Prod.mk.inj heq
      obtain ⟨rfl, hlast⟩ := List.append_inj' hway rfl
      obtain rfl : j = i := List.singleton_injective hlast
      obtain ⟨es, hback, hchain, hpositions⟩ := ih (List.mem_append_left _ hq)
      have hne : e.target ≠ source := fun htarget ↦ by
        have hempty := h.way_unique hp (htarget ▸ h.start)
        exact absurd hempty (by simp)
      refine ⟨e :: es, ⟨hne, hfind, hback⟩, Graph.isChainAt_append.2 ⟨e.source, hchain, ?_⟩, ?_⟩
      · exact ⟨e, he, rfl, rfl⟩
      · rw [List.map_append, hpositions, List.map_singleton, he, List.reverse_cons, List.map_append,
          List.map_singleton]

end Run

section Ends

variable [AddCommGroup W] [LinearOrder W] [IsOrderedAddMonoid W] [BEq W] [LawfulBEq W] {g : Graph W}
  {source target : String} {w : W} {done waiting : List Row} {s : Search W}

/-- Where there is a way to the target, the search ends with the target settled, over the first of
all ways. -/
theorem Levels.ends_run (h : Levels g source w done waiting [] s) (hw : 0 < w)
    (hweight : ∀ e ∈ g.edges, e.weight = w) (hreach : ∃ ps, g.IsChainAt source ps target)
    (htarget : target ∉ done.map Prod.fst) :
    ∃ done waiting pending ps, Levels g source w done waiting pending (run g target s) ∧
      (target, ps) ∈ done ∧ ∀ qs, g.IsChainAt source qs target → rank ps ≤ rank qs := by
  fun_induction run g target s generalizing done waiting with
  | case1 s hpop =>
    obtain ⟨ps, hps⟩ := hreach
    obtain ⟨t, ht, -⟩ := h.exists_waiting hps h.start (le_refl (rank [])) htarget
    have hlength := h.queue.length_eq
    rw [Array.length_toList, Heap.pop?_eq_none_iff.1 hpop, List.length_map, List.length_zipIdx]
      at hlength
    exact absurd ht (by simp [List.length_eq_zero_iff.1 hlength.symm])
  | case2 s entry queue hpop hold ih =>
    obtain ⟨r, rest, rfl, rfl, -⟩ := h.pop hw hpop
    rw [List.contains_iff_mem, h.settled] at hold
    have hnodup := h.nodup
    rw [List.map_append] at hnodup
    exact absurd rfl ((List.nodup_append.1 hnodup).2.2 _ hold r.1 (by simp))
  | case3 s entry queue hpop hnew heq =>
    obtain ⟨r, rest, rfl, rfl, hqueue⟩ := h.pop hw hpop
    obtain rfl : r.1 = target := eq_of_beq heq
    refine ⟨_, _, _, r.2, h.settle (h.ordered.of_pop? ranks_before hpop).1 hqueue, by simp, ?_⟩
    intro qs hqs
    obtain ⟨t, ht, hle⟩ := h.exists_waiting hqs h.start (le_refl (rank [])) htarget
    exact (h.rank_le ht).trans hle
  | case4 s entry queue hpop hnew hne ih =>
    obtain ⟨r, rest, rfl, rfl, hqueue⟩ := h.pop hw hpop
    obtain ⟨waiting, hturn⟩ := h.turn hw hweight (h.ordered.of_pop? ranks_before hpop).1 hqueue
    refine ih hturn ?_
    rw [List.map_append, List.map_singleton, List.mem_append, List.mem_singleton, not_or]
    exact ⟨htarget, fun heq ↦ hne (heq ▸ beq_self_eq_true _)⟩

end Ends

end Search

/-! ### The answer -/

/-- An answer along the edges at positions: it has the fewest edges, and of the ways with as few
edges it is the first one, where the positions of edges are compared from the start. -/
structure First (g : Graph W) (source target : String) (r : Route W) (ps : List ℕ) : Prop where
  found : r.found = true
  edges : ps.map (g.edges[·]?) = r.edges.map some
  chain : g.IsChainAt source ps target
  fewest : ∀ es, g.IsChain source es target → r.edges.length ≤ es.length
  first : ∀ qs, g.IsChainAt source qs target → qs.length = ps.length →
    ps = qs ∨ List.Lex (· < ·) ps qs

theorem first_of_rank_le {g : Graph W} {source target : String} {r : Route W} {ps : List ℕ}
    (hfound : r.found = true) (hedges : ps.map (g.edges[·]?) = r.edges.map some)
    (hchain : g.IsChainAt source ps target)
    (hfirst : ∀ qs, g.IsChainAt source qs target → rank ps ≤ rank qs) :
    First g source target r ps where
  found := hfound
  edges := hedges
  chain := hchain
  fewest es hes := by
    obtain ⟨qs, hqs, hlength⟩ := hes.exists_isChainAt
    have hsame : ps.length = r.edges.length := by simpa using congrArg List.length hedges
    rw [← hsame, ← hlength]
    exact length_le_of_rank_le (hfirst qs hqs)
  first qs hqs hlength := by
    rcases rank_le_iff.1 (hfirst qs hqs) with hlt | ⟨-, hle⟩
    · omega
    · exact hle.eq_or_lt

end Route

/-- **Of equally cheap routes the one whose edges came first is the answer**, where every edge has
the same positive weight. -/
theorem Graph.first_route [AddCommGroup W] [LinearOrder W] [IsOrderedAddMonoid W] [BEq W]
    [LawfulBEq W] (g : Graph W) {w : W} (hw : 0 < w) (hweight : ∀ e ∈ g.edges, e.weight = w)
    {source target : String} (hsource : source ∈ g.ids) (htarget : target ∈ g.ids)
    (hreach : ∃ es, g.IsChain source es target) :
    ∃ r ps, g.route source target = .ok r ∧ Route.First g source target r ps := by
  obtain ⟨start, hstart, rfl⟩ := List.mem_map.1 hsource
  obtain ⟨goal, hgoal, rfl⟩ := List.mem_map.1 htarget
  by_cases hne : start.id = goal.id
  · rw [← hne]
    refine ⟨_, [], route_self hstart, Route.first_of_rank_le rfl rfl rfl fun qs _ ↦ ?_⟩
    exact Route.rank_le_append [] qs
  · obtain ⟨es, hes⟩ := hreach
    obtain ⟨qs, hqs, -⟩ := hes.exists_isChainAt
    obtain ⟨done, waiting, pending, ps, hlevels, hps, hfirst⟩ :=
      (Route.Search.levels_start g start.id w).ends_run hw hweight ⟨qs, hqs⟩
        (List.not_mem_nil (a := goal.id))
    have hsettled : goal.id ∈ (Route.Search.run g goal.id (.start start.id)).settled := by
      rw [hlevels.settled]
      exact List.mem_map_of_mem hps
    obtain ⟨back, hback, hchain, hedges⟩ := hlevels.leadsBack (List.mem_append_left _ hps)
    exact ⟨_, ps, route_of_settled hstart hgoal hne hsettled hback,
      Route.first_of_rank_le rfl hedges hchain hfirst⟩

/-- Two ways round a block, one of them with two lanes at its end, and a way that is longer. -/
def block : Graph ℚ where
  nodes := [.plain "corner" "Corner", .plain "park" "Park", .plain "school" "School",
    .plain "square" "Square"]
  edges := [⟨"corner", "park", .leadsTo, 1 / 2, .manual⟩,
    ⟨"corner", "school", .leadsTo, 1 / 2, .manual⟩, ⟨"park", "school", .leadsTo, 1 / 2, .manual⟩,
    ⟨"school", "square", .leadsTo, 1 / 2, .manual⟩, ⟨"park", "square", .leadsTo, 1 / 2, .manual⟩,
    ⟨"park", "square", .relatesTo, 1 / 2, .manual⟩]
  nodup_ids := by decide
  source_mem := by decide
  target_mem := by decide

theorem first_route_block : (0 : ℚ) < 1 / 2 ∧ (∀ e ∈ block.edges, e.weight = 1 / 2) ∧
    "corner" ∈ block.ids ∧ "square" ∈ block.ids ∧ ∃ r ps, block.route "corner" "square" = .ok r ∧
      Route.First block "corner" "square" r ps ∧ r.edges.length ≤ 2 := by
  have hw : (0 : ℚ) < 1 / 2 := by norm_num
  have hweight : ∀ e ∈ block.edges, e.weight = 1 / 2 := by simp [block]
  have hcorner : "corner" ∈ block.ids := by decide
  have hsquare : "square" ∈ block.ids := by decide
  have hchain : block.IsChain "corner" [⟨"corner", "school", .leadsTo, 1 / 2, .manual⟩,
      ⟨"school", "square", .leadsTo, 1 / 2, .manual⟩] "square" := by
    simp [Graph.IsChain, block]
  obtain ⟨r, ps, hr, hfirst⟩ := block.first_route hw hweight hcorner hsquare ⟨_, hchain⟩
  exact ⟨hw, hweight, hcorner, hsquare, r, ps, hr, hfirst, hfirst.fewest _ hchain⟩

end ConceptAtlas
