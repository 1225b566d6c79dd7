import Mathlib
import ConceptAtlas.Graph.Ranking

/-!
# The rankings agree

A list of nodes can be put in the order of some values, greater ones first, so that nodes with equal
values stay in the order that they had. There is one such order (`IsRanked.unique`), and a sort that
is stable finds it (`isRanked_mergeSort`).

The ranking by degrees is in this order, and the first of its entries are what is asked for, however
many. The ranking by centrality sorts by other values, degrees as shares of the greatest one. As
shares are in the order of the degrees, also where there are no edges and all of them are zero, it
puts the nodes in the same order (`Graph.exactCentrality_eq`).
-/

namespace ConceptAtlas

/-! ### The stable order -/

section Order

variable {value : String → Nat} {ids order : List String}

/-- An order of some ids by their values, greater ones first; ids with equal values are in the order
that they had. -/
structure IsRanked (value : String → Nat) (ids order : List String) : Prop where
  perm : order.Perm ids
  ordered : order.Pairwise fun u v ↦
    value v < value u ∨ value u = value v ∧ ids.idxOf u < ids.idxOf v

theorem IsRanked.le (h : IsRanked value ids order) :
    order.Pairwise fun u v ↦ value v ≤ value u :=
  h.ordered.imp fun huv ↦ huv.elim Nat.le_of_lt fun heq ↦ Nat.le_of_eq heq.1.symm

theorem IsRanked.unique {other : List String} (h : IsRanked value ids order)
    (h' : IsRanked value ids other) : other = order := by
  refine List.Perm.eq_of_pairwise (fun u v _ _ huv hvu ↦ ?_) h'.ordered h.ordered
    (h'.perm.trans h.perm.symm)
  rcases huv with huv | huv <;> rcases hvu with hvu | hvu <;> omega

/-- An id does not come behind another one by its value. -/
def notLess (value : String → Nat) (u v : String) : Bool := decide (value v ≤ value u)

theorem notLess_trans (value : String → Nat) (u v w : String) (huv : notLess value u v = true)
    (hvw : notLess value v w = true) : notLess value u w = true :=
  decide_eq_true ((of_decide_eq_true hvw).trans (of_decide_eq_true huv))

theorem notLess_total (value : String → Nat) (u v : String) :
    (notLess value u v || notLess value v u) = true := by
  rw [Bool.or_eq_true, notLess, notLess, decide_eq_true_iff, decide_eq_true_iff]
  exact Nat.le_total _ _

/-- With their places, ids are told apart where their values are equal. -/
theorem zipIdxLE_notLess_iff {p q : String × Nat} :
    List.zipIdxLE (notLess value) p q = true ↔
      value q.1 < value p.1 ∨ value p.1 = value q.1 ∧ p.2 ≤ q.2 := by
  simp only [List.zipIdxLE, notLess, decide_eq_true_iff]
  split
  · split
    · rw [decide_eq_true_iff]
      omega
    · rw [eq_self, true_iff]
      omega
  · simp only [Bool.false_eq_true, false_iff]
    omega

theorem idxOf_of_mem_zipIdx (hids : ids.Nodup) {p : String × Nat} (hp : p ∈ ids.zipIdx) :
    ids.idxOf p.1 = p.2 := by
  obtain ⟨hlt, heq⟩ := List.getElem?_eq_some_iff.1 (List.mem_zipIdx_iff_getElem?.1 hp)
  rw [← heq, hids.idxOf_getElem]

/-- Sorting by values finds the order, because it is stable. -/
theorem isRanked_mergeSort (value : String → Nat) (hids : ids.Nodup) :
    IsRanked value ids (ids.mergeSort (notLess value)) where
  perm := List.mergeSort_perm ids _
  ordered := by
    have hperm := List.mergeSort_perm ids.zipIdx (List.zipIdxLE (notLess value))
    have hsorted := List.pairwise_mergeSort (List.zipIdxLE_trans (notLess_trans value))
      (List.zipIdxLE_total (notLess_total value)) ids.zipIdx
    have hnodup := hperm.nodup_iff.2 (.of_map _ (List.nodup_zipIdx_map_snd ids))
    rw [← List.mergeSort_zipIdx, List.pairwise_map]
    refine (hsorted.and hnodup).imp_of_mem fun {p q} hp hq hpq ↦ ?_
    have hp := hperm.mem_iff.1 hp
    have hq := hperm.mem_iff.1 hq
    refine (zipIdxLE_notLess_iff.1 hpq.1).imp_right fun h ↦ ⟨h.1, ?_⟩
    rw [idxOf_of_mem_zipIdx hids hp, idxOf_of_mem_zipIdx hids hq]
    exact Nat.lt_of_le_of_ne h.2 fun hsame ↦
      hpq.2 (List.inj_on_of_nodup_map (List.nodup_zipIdx_map_snd ids) hp hq hsame)

end Order

namespace Graph

variable {W : Type} {g : Graph W} {direction : Direction} {k : Nat}

/-! ### Degrees -/

/-- The ids in the order of their degrees in a direction. -/
def ranked (g : Graph W) (direction : Direction) : List String :=
  g.ids.mergeSort (notLess (g.degreeIn direction))

theorem isRanked_ranked (g : Graph W) (direction : Direction) :
    IsRanked (g.degreeIn direction) g.ids (g.ranked direction) :=
  isRanked_mergeSort _ g.nodup_ids

theorem ranking_eq (g : Graph W) (direction : Direction) : g.ranking direction =
    (g.ranked direction).map fun id ↦ (id, g.degreeIn direction id) := by
  rw [ranked, List.map_mergeSort (s := fun a b : String × Nat ↦ decide (b.2 ≤ a.2))]
  · rfl
  · exact fun _ _ _ _ ↦ rfl

/-- The first entries of a ranking, as many as are asked for or as there are. -/
structure IsTop (g : Graph W) (direction : Direction) (k : Nat) (top : List (String × Nat)) :
    Prop where
  /-- They are those of the stable order, of which there is one. -/
  first : ∃ order, IsRanked (g.degreeIn direction) g.ids order ∧
    (∀ other, IsRanked (g.degreeIn direction) g.ids other → other = order) ∧
    top = (order.take k).map fun id ↦ (id, g.degreeIn direction id)
  length : top.length = min k g.nodes.length
  /-- No node that is left out has a larger degree than one that is listed. -/
  greatest : ∀ entry ∈ top, ∀ id ∈ g.ids, id ∉ top.map Prod.fst →
    g.degreeIn direction id ≤ entry.2
  /-- Nodes with equal degrees keep their order. -/
  stable : top.Pairwise fun a b ↦ b.2 < a.2 ∨ a.2 = b.2 ∧ g.ids.idxOf a.1 < g.ids.idxOf b.1

theorem isTop_firstItems (g : Graph W) (direction : Direction) (k : Nat) :
    g.IsTop direction k (firstItems k (g.ranking direction)) := by
  have h := g.isRanked_ranked direction
  have htop : firstItems k (g.ranking direction) =
      ((g.ranked direction).take k).map fun id ↦ (id, g.degreeIn direction id) := by
    rw [firstItems_of_nonneg (Int.natCast_nonneg k), ranking_eq, Int.toNat_natCast, List.map_take]
  rw [htop]
  exact {
    first := ⟨_, h, fun _ ↦ h.unique, rfl⟩
    length := by
      rw [List.length_map, List.length_take, h.perm.length_eq, ids, List.length_map]
    greatest := fun entry hentry id hid hleft ↦ by
      obtain ⟨u, hu, rfl⟩ := List.mem_map.1 hentry
      rw [List.map_map, Function.comp_def, List.map_id'] at hleft
      have hsplit := List.take_append_drop k (g.ranked direction)
      have hle := h.le
      rw [← hsplit, List.pairwise_append] at hle
      have hmem := h.perm.mem_iff.2 hid
      rw [← hsplit, List.mem_append, or_iff_right hleft] at hmem
      exact hle.2.2 u hu id hmem
    stable := List.pairwise_map.2 (h.ordered.sublist (List.take_sublist k _)) }

/-! ### The greatest degree -/

theorem isGreatest_foldl_max (ns : List Nat) :
    IsGreatest {n | n = 0 ∨ n ∈ ns} (ns.foldl max 0) := by
  induction ns using List.reverseRecOn with
  | nil => exact ⟨.inl rfl, fun n hn ↦ (hn.resolve_right List.not_mem_nil).le⟩
  | append_singleton ns n ih =>
    have hset : {m | m = 0 ∨ m ∈ ns ++ [n]} = insert n {m | m = 0 ∨ m ∈ ns} := by
      ext m
      simp only [List.mem_append, List.mem_singleton, Set.mem_ofPred_eq, Set.mem_insert_iff]
      tauto
    rw [List.foldl_concat, hset, max_comm]
    exact ih.insert n

theorem degree_le_maxDegree {id : String} (hid : id ∈ g.ids) : g.degree id ≤ g.maxDegree :=
  (isGreatest_foldl_max _).2
    (.inr (List.mem_map_of_mem (f := Prod.snd) (List.mem_map_of_mem hid)))

theorem exists_degree_eq_maxDegree (h : 0 < g.maxDegree) :
    ∃ id ∈ g.ids, g.degree id = g.maxDegree := by
  have hmem := ((isGreatest_foldl_max ((g.degrees .both).map Prod.snd)).1).resolve_left h.ne'
  obtain ⟨d, hd, heq⟩ := List.mem_map.1 hmem
  obtain ⟨id, hid, rfl⟩ := List.mem_map.1 hd
  exact ⟨id, hid, heq⟩

theorem maxDegree_eq_zero_iff : g.maxDegree = 0 ↔ g.edges = [] := by
  constructor
  · intro hzero
    refine List.eq_nil_iff_forall_not_mem.2 fun e he ↦ ?_
    have hmem : e ∈ g.outgoing e.source := List.mem_filter.2 ⟨he, beq_self_eq_true _⟩
    have hpos : 0 < g.outDegree e.source := List.length_pos_of_mem hmem
    have hle := degree_le_maxDegree (g.source_mem e he)
    rw [degree] at hle
    omega
  · intro hnone
    by_contra hpos
    obtain ⟨id, -, heq⟩ := exists_degree_eq_maxDegree (Nat.pos_of_ne_zero hpos)
    rw [degree, inDegree, incoming, outDegree, outgoing, hnone] at heq
    exact hpos heq.symm

/-! ### Shares -/

/-- The exact centrality: shares are quotients of rational numbers. -/
def exactCentrality (g : Graph W) : List (String × ℚ) := g.centrality fun a b ↦ (a / b : ℚ)

/-- The share of a node in the greatest degree, exactly. -/
def exactShare (g : Graph W) (id : String) : ℚ :=
  share (fun a b ↦ (a / b : ℚ)) (g.degree id) g.maxDegree

theorem exactShare_eq (g : Graph W) (id : String) :
    g.exactShare id = g.degree id / g.maxDegree := by
  rw [exactShare, share]
  split
  · rename_i hzero
    rw [hzero, Nat.cast_zero, div_zero]
  · rfl

theorem exactShare_mul {id : String} (hid : id ∈ g.ids) :
    g.exactShare id * g.maxDegree = g.degree id := by
  rw [exactShare_eq]
  rcases Nat.eq_zero_or_pos g.maxDegree with hzero | hpos
  · have hle := degree_le_maxDegree hid
    rw [hzero, Nat.le_zero] at hle
    rw [hle, hzero, Nat.cast_zero, mul_zero]
  · exact div_mul_cancel₀ _ (Nat.cast_ne_zero.2 hpos.ne')

/-- Shares are in the order of degrees, also where there are no edges. -/
theorem exactShare_le_iff {u v : String} (hu : u ∈ g.ids) (hv : v ∈ g.ids) :
    g.exactShare u ≤ g.exactShare v ↔ g.degree u ≤ g.degree v := by
  rw [exactShare_eq, exactShare_eq]
  rcases Nat.eq_zero_or_pos g.maxDegree with hzero | hpos
  · have hu' := degree_le_maxDegree hu
    have hv' := degree_le_maxDegree hv
    rw [hzero, Nat.le_zero] at hu' hv'
    rw [hu', hv', iff_true_intro le_rfl, iff_true_intro le_rfl]
  · rw [div_le_div_iff_of_pos_right (Nat.cast_pos.2 hpos), Nat.cast_le]

/-- Centrality puts the nodes in the order of their degrees. -/
theorem exactCentrality_eq (g : Graph W) :
    g.exactCentrality = (g.ranked .both).map fun id ↦ (id, g.exactShare id) := by
  rw [ranked, List.map_mergeSort (s := fun a b : String × ℚ ↦ decide (b.2 ≤ a.2))]
  · rw [exactCentrality, centrality, degrees, List.map_map]
    rfl
  · exact fun u hu v hv ↦ decide_eq_decide.2 (exactShare_le_iff hv hu).symm

/-- Scores of centrality, beside the ranking by degrees. -/
structure Agrees (g : Graph W) (scores : List (String × ℚ)) : Prop where
  /-- Every node has one score. -/
  perm : (scores.map Prod.fst).Perm g.ids
  /-- The nodes are in the order of the whole ranking by degrees in both directions. -/
  same : scores.map Prod.fst = (firstItems g.nodes.length (g.ranking .both)).map Prod.fst
  /-- The greatest degree is the degree of some node, if there is one, and none is greater. -/
  greatest : (∀ id ∈ g.ids, g.degree id ≤ g.maxDegree) ∧
    (g.ids ≠ [] → ∃ id ∈ g.ids, g.degree id = g.maxDegree)
  scaled : ∀ entry ∈ scores, entry.2 * g.maxDegree = g.degree entry.1
  bounds : ∀ entry ∈ scores, 0 ≤ entry.2 ∧ entry.2 ≤ 1
  first : g.edges ≠ [] → ∃ id, scores.head? = some (id, 1)
  zero : g.edges = [] → ∀ entry ∈ scores, entry.2 = 0

theorem exactShare_nonneg (g : Graph W) (id : String) : 0 ≤ g.exactShare id := by
  rw [exactShare_eq]
  exact div_nonneg (Nat.cast_nonneg _) (Nat.cast_nonneg _)

theorem exactShare_le_one {id : String} (hid : id ∈ g.ids) : g.exactShare id ≤ 1 := by
  rw [exactShare_eq]
  exact div_le_one_of_le₀ (Nat.cast_le.2 (degree_le_maxDegree hid)) (Nat.cast_nonneg _)

/-- The first node of the order has the greatest degree. -/
theorem exists_head?_ranked (h : g.edges ≠ []) :
    ∃ id, (g.ranked .both).head? = some id ∧ g.degree id = g.maxDegree := by
  have hranked := g.isRanked_ranked .both
  have hpos : 0 < g.maxDegree := Nat.pos_of_ne_zero fun hzero ↦ h (maxDegree_eq_zero_iff.1 hzero)
  obtain ⟨top, htop, heq⟩ := exists_degree_eq_maxDegree hpos
  have hmem := hranked.perm.mem_iff.2 htop
  have hle := hranked.le
  match horder : g.ranked .both with
  | [] => rw [horder] at hmem; cases hmem
  | id :: order =>
    rw [horder] at hmem hle
    have hid : id ∈ g.ids := hranked.perm.mem_iff.1 (horder ▸ List.mem_cons_self)
    refine ⟨id, rfl, Nat.le_antisymm (degree_le_maxDegree hid) ?_⟩
    rw [← heq]
    rcases List.mem_cons.1 hmem with rfl | hmem
    · exact Nat.le_refl _
    · exact List.rel_of_pairwise_cons hle hmem

theorem agrees_exactCentrality (g : Graph W) : g.Agrees g.exactCentrality := by
  have h := g.isRanked_ranked .both
  have hids : g.exactCentrality.map Prod.fst = g.ranked .both := by
    rw [exactCentrality_eq, List.map_map, Function.comp_def, List.map_id']
  have hentry : ∀ entry ∈ g.exactCentrality, entry.1 ∈ g.ids ∧ entry.2 = g.exactShare entry.1 := by
    intro entry hentry
    rw [exactCentrality_eq] at hentry
    obtain ⟨id, hid, rfl⟩ := List.mem_map.1 hentry
    exact ⟨h.perm.mem_iff.1 hid, rfl⟩
  exact {
    perm := hids ▸ h.perm
    same := by
      have hlength : (g.ranking .both).length = g.nodes.length := by
        rw [ranking_eq, List.length_map, h.perm.length_eq, ids, List.length_map]
      rw [hids, firstItems_of_nonneg (Int.natCast_nonneg _), Int.toNat_natCast, ← hlength,
        List.take_length, ranking_eq, List.map_map, Function.comp_def, List.map_id']
    greatest := by
      refine ⟨fun id ↦ degree_le_maxDegree, fun hsome ↦ ?_⟩
      rcases Nat.eq_zero_or_pos g.maxDegree with hzero | hpos
      · obtain ⟨id, hid⟩ := List.exists_mem_of_ne_nil _ hsome
        exact ⟨id, hid, Nat.le_antisymm (degree_le_maxDegree hid) (hzero ▸ Nat.zero_le _)⟩
      · exact exists_degree_eq_maxDegree hpos
    scaled := fun entry hmem ↦ by
      obtain ⟨hid, hscore⟩ := hentry entry hmem
      rw [hscore, exactShare_mul hid]
    bounds := fun entry hmem ↦ by
      obtain ⟨hid, hscore⟩ := hentry entry hmem
      rw [hscore]
      exact ⟨g.exactShare_nonneg entry.1, exactShare_le_one hid⟩
    first := fun hsome ↦ by
      obtain ⟨id, hhead, hdegree⟩ := exists_head?_ranked hsome
      have hne : g.maxDegree ≠ 0 := mt maxDegree_eq_zero_iff.1 hsome
      refine ⟨id, ?_⟩
      rw [exactCentrality_eq, List.head?_map, hhead, Option.map_some, exactShare_eq, hdegree,
        div_self (Nat.cast_ne_zero.2 hne)]
    zero := fun hnone entry hmem ↦ by
      rw [(hentry entry hmem).2, exactShare_eq, maxDegree_eq_zero_iff.2 hnone, Nat.cast_zero,
        div_zero] }

/-- **The rankings agree**: by centrality and by degree the nodes are in one order, which is the
stable one, and the first entries of a ranking are those of its order. -/
theorem rankings_agree (g : Graph W) : g.Agrees g.exactCentrality ∧
    ∀ (direction : Direction) (k : Nat),
      g.IsTop direction k (firstItems k (g.ranking direction)) :=
  ⟨g.agrees_exactCentrality, g.isTop_firstItems⟩

end Graph

end ConceptAtlas
