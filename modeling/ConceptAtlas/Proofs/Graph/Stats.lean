import Mathlib
import ConceptAtlas.Graph.Stats
import ConceptAtlas.Graph.View
import ConceptAtlas.Proofs.Graph.AddedLoop

/-!
# Statistics account for the whole graph

Every node is counted once as canonical or as a variant, and once in its category; every edge is
counted once under its label, once where it leads to and once where it comes from. So the counts add
up to the numbers of nodes and edges (`Graph.conserves_stats`), and the mean degree is twice the one
number over the other.

The pass over the nodes keeps counts and running maxima. What it keeps holds of the nodes so far
(`NodeTally.Holds`): counts of a list grow by one text at a time (`Counts.count`), and a peak is the
greatest value so far with the first id that has it (`Peak.Holds.add`).
-/

namespace ConceptAtlas

/-! ### Counts -/

section Counts

variable {labels : List String} {label : String} {cs : List (String × Nat)}

/-- How often each text is in a list: those that are there have one positive count each. -/
structure Counts (labels : List String) (cs : List (String × Nat)) : Prop where
  nodup : (cs.map Prod.fst).Nodup
  mem_iff : ∀ c n, (c, n) ∈ cs ↔ 0 < n ∧ labels.count c = n
  sum : (cs.map Prod.snd).sum = labels.length

theorem Counts.find?_eq_some_iff (h : Counts labels cs) {n : Nat} :
    Assoc.find? label cs = some n ↔ 0 < n ∧ labels.count label = n := by
  rw [Assoc.find?_eq_some_iff h.nodup, h.mem_iff]

theorem Counts.getD_find? (h : Counts labels cs) (label : String) :
    (Assoc.find? label cs).getD 0 = labels.count label := by
  rcases hfind : Assoc.find? label cs with - | n
  · by_contra hne
    have hpos : 0 < labels.count label := Nat.pos_of_ne_zero fun hzero ↦ hne hzero.symm
    rw [h.find?_eq_some_iff.2 ⟨hpos, rfl⟩] at hfind
    cases hfind
  · exact (h.find?_eq_some_iff.1 hfind).2.symm

theorem nodup_count (h : (cs.map Prod.fst).Nodup) (label : String) :
    ((Assoc.count label cs).map Prod.fst).Nodup := by
  by_cases hmem : label ∈ cs.map Prod.fst
  · rw [Assoc.count, Assoc.keys_put_of_mem hmem]
    exact h
  · rw [Assoc.count, Assoc.keys_put_of_not_mem hmem]
    exact h.append (List.nodup_singleton label) (List.disjoint_singleton.2 hmem)

theorem sum_count (label : String) (cs : List (String × Nat)) :
    ((Assoc.count label cs).map Prod.snd).sum = (cs.map Prod.snd).sum + 1 := by
  induction cs with
  | nil => rfl
  | cons c cs ih =>
    rw [Assoc.count] at ih
    rw [Assoc.count, Assoc.find?_cons, Assoc.put_cons]
    split
    · rw [Option.getD_some, List.map_cons, List.sum_cons, List.map_cons, List.sum_cons]
      omega
    · rw [List.map_cons, List.sum_cons, ih, List.map_cons, List.sum_cons, Nat.add_assoc]

/-- One more text has one more in its count. -/
theorem Counts.count (h : Counts labels cs) (label : String) :
    Counts (labels ++ [label]) (Assoc.count label cs) where
  nodup := nodup_count h.nodup label
  mem_iff c n := by
    rw [← Assoc.find?_eq_some_iff (nodup_count h.nodup label), Assoc.count, Assoc.find?_put,
      h.getD_find?, List.count_append, List.count_singleton]
    split
    · rename_i hc
      rw [eq_of_beq hc, Option.some.injEq]
      constructor
      · rintro rfl
        exact ⟨Nat.succ_pos _, rfl⟩
      · exact And.right
    · rw [h.find?_eq_some_iff, Nat.add_zero]
  sum := by rw [sum_count, h.sum, List.length_append, List.length_singleton]

theorem counts_nil : Counts [] [] where
  nodup := List.nodup_nil
  mem_iff _ _ := iff_of_false List.not_mem_nil fun h ↦ absurd h.2 (Nat.ne_of_lt h.1)
  sum := rfl

theorem counts_distribution (labels : List String) : Counts labels (Graph.distribution labels) := by
  induction labels using List.reverseRecOn with
  | nil => exact counts_nil
  | append_singleton labels label ih =>
    rw [Graph.distribution, List.foldl_concat]
    exact ih.count label

end Counts

/-! ### Peaks -/

namespace Peak

variable {value : String → Nat} {ids : List String} {p : Peak}

/-- The greatest of the values of some ids, with the first id that has it if it is positive. -/
structure Holds (value : String → Nat) (ids : List String) (p : Peak) : Prop where
  le : ∀ id ∈ ids, value id ≤ p.value
  attained : 0 < p.value → ∃ id ∈ ids, value id = p.value
  first : p.id = if p.value = 0 then none else ids.find? (value · = p.value)

theorem Holds.add (h : p.Holds value ids) (id : String) :
    (p.add id (value id)).Holds value (ids ++ [id]) := by
  rw [Peak.add]
  split
  · rename_i hlt
    have hnone : ids.find? (value · = value id) = none := by
      refine List.find?_eq_none.2 fun x hx heq ↦ ?_
      exact absurd (of_decide_eq_true heq) (Nat.ne_of_lt ((h.le x hx).trans_lt hlt))
    exact {
      le := List.forall_mem_append.2
        ⟨fun x hx ↦ ((h.le x hx).trans_lt hlt).le, List.forall_mem_singleton.2 le_rfl⟩
      attained := fun _ ↦ ⟨id, List.mem_append_right _ (List.mem_singleton_self id), rfl⟩
      first := by
        rw [if_neg (Nat.ne_of_gt (Nat.zero_lt_of_lt hlt)), List.find?_append, hnone]
        simp }
  · rename_i hle
    exact {
      le := List.forall_mem_append.2 ⟨h.le, List.forall_mem_singleton.2 (not_lt.1 hle)⟩
      attained := fun hpos ↦ by
        obtain ⟨x, hx, heq⟩ := h.attained hpos
        exact ⟨x, List.mem_append_left _ hx, heq⟩
      first := by
        rw [h.first]
        split
        · rfl
        · rename_i hzero
          obtain ⟨x, hx, heq⟩ := h.attained (Nat.pos_of_ne_zero hzero)
          have hsome : (ids.find? (value · = p.value)).isSome := by
            rw [List.find?_isSome]
            exact ⟨x, hx, decide_eq_true heq⟩
          rw [List.find?_append, Option.or_of_isSome hsome] }

theorem holds_nil (value : String → Nat) : Holds value [] ⟨none, 0⟩ :=
  ⟨List.forall_mem_nil _, fun h ↦ absurd h (Nat.lt_irrefl 0), rfl⟩

end Peak

/-! ### The pass over the nodes -/

section Tally

variable {W : Type} {g : Graph W} {t : NodeTally} {ns : List Node}

/-- What a pass over nodes has counted. -/
structure NodeTally.Holds (g : Graph W) (ns : List Node) (t : NodeTally) : Prop where
  canonical : t.canonical = ns.countP (·.isCanonical)
  variants : t.variants = ns.countP (¬ ·.isCanonical)
  categories : Counts (ns.map Graph.categoryOf) t.categories
  orphans : t.orphans = ((ns.map Node.id).filter g.isOrphan).length
  into : t.into.Holds g.inDegree (ns.map Node.id)
  out : t.out.Holds g.outDegree (ns.map Node.id)

theorem NodeTally.Holds.tallyNode (h : t.Holds g ns) (n : Node) :
    (g.tallyNode t n).Holds g (ns ++ [n]) where
  canonical := by
    rw [Graph.tallyNode, List.countP_append, List.countP_singleton, ← h.canonical]
    split <;> rfl
  variants := by
    rw [Graph.tallyNode, List.countP_append, List.countP_singleton, ← h.variants]
    cases n.isCanonical <;> rfl
  categories := by
    rw [List.map_append, List.map_singleton]
    exact h.categories.count (Graph.categoryOf n)
  orphans := by
    have horphan : g.isOrphan n.id = true ↔ g.inDegree n.id = 0 ∧ g.outDegree n.id = 0 := by
      rw [Graph.isOrphan, beq_iff_eq, Graph.degree, Nat.add_eq_zero_iff]
    rw [Graph.tallyNode, List.map_append, List.map_singleton, List.filter_append,
      List.length_append, ← h.orphans, List.filter_singleton, if_congr horphan.symm rfl rfl]
    cases g.isOrphan n.id <;> rfl
  into := by
    rw [List.map_append, List.map_singleton]
    exact h.into.add n.id
  out := by
    rw [List.map_append, List.map_singleton]
    exact h.out.add n.id

theorem NodeTally.holds_foldl (g : Graph W) (ns : List Node) :
    (ns.foldl g.tallyNode .start).Holds g ns := by
  induction ns using List.reverseRecOn with
  | nil => exact ⟨rfl, rfl, counts_nil, rfl, Peak.holds_nil _, Peak.holds_nil _⟩
  | append_singleton ns n ih =>
    rw [List.foldl_concat]
    exact ih.tallyNode n

end Tally

namespace Graph

variable {W : Type} {g : Graph W}

/-! ### Edges by their ends -/

/-- Sorted by an end that is always a node, all edges are counted at some node. -/
theorem sum_length_filter {ends : Edge W → String} (hends : ∀ e ∈ g.edges, ends e ∈ g.ids) :
    (g.ids.map fun id ↦ (g.edges.filter (ends · == id)).length).sum = g.edges.length := by
  have hcount : ∀ id, (g.edges.filter (ends · == id)).length =
      (g.edges.map ends : Multiset String).count id := fun id ↦ by
    rw [Multiset.coe_count, List.count_eq_countP, List.countP_map, List.countP_eq_length_filter]
    rfl
  have hmem : ∀ v ∈ (g.edges.map ends : Multiset String), v ∈ g.ids.toFinset := fun v hv ↦ by
    obtain ⟨e, he, rfl⟩ := List.mem_map.1 (Multiset.mem_coe.1 hv)
    exact List.mem_toFinset.2 (hends e he)
  have hnodup : g.ids.Nodup := g.nodup_ids
  simp only [hcount]
  rw [← List.sum_toFinset _ hnodup, Multiset.sum_count_eq_card hmem, Multiset.coe_card,
    List.length_map]

theorem sum_inDegree (g : Graph W) : (g.ids.map g.inDegree).sum = g.edges.length :=
  sum_length_filter g.target_mem

theorem sum_outDegree (g : Graph W) : (g.ids.map g.outDegree).sum = g.edges.length :=
  sum_length_filter g.source_mem

end Graph

/-! ### Sorted counts -/

section Sorted

variable {cs : List (String × Nat)} {a b : String × Nat}

/-- A count comes before another one: it is greater, or equal to it and its text is less. -/
def Precedes (a b : String × Nat) : Prop := b.2 < a.2 ∨ a.2 = b.2 ∧ a.1 < b.1

/-- The place of a count: the order of numbers is turned round, and texts decide between equals. -/
def countRank (c : String × Nat) : ℕᵒᵈ ×ₗ String := toLex (OrderDual.toDual c.2, c.1)

theorem precedes_iff : Precedes a b ↔ countRank a < countRank b := by
  rw [countRank, countRank, Prod.Lex.toLex_lt_toLex, OrderDual.toDual_lt_toDual,
    OrderDual.toDual_inj, Precedes]

theorem countRank_le_iff : countRank a ≤ countRank b ↔ b.2 < a.2 ∨ a.2 = b.2 ∧ a.1 ≤ b.1 := by
  rw [countRank, countRank, Prod.Lex.toLex_le_toLex, OrderDual.toDual_lt_toDual,
    OrderDual.toDual_inj]

theorem countRank_injective : Function.Injective countRank := fun _ _ h ↦ by
  obtain ⟨hcount, htext⟩ := Prod.ext_iff.1 (toLex_inj.1 h)
  exact Prod.ext htext hcount

theorem byCountAndName_eq (cs : List (String × Nat)) :
    byCountAndName cs = cs.mergeSort fun a b ↦ decide (countRank a ≤ countRank b) := by
  rw [byCountAndName]
  congr 1
  funext a b
  rw [Bool.eq_iff_iff, decide_eq_true_iff, countRank_le_iff]
  simp

/-- Sorted counts have an order that leaves no choice, if no text has two counts. -/
theorem pairwise_byCountAndName (h : (cs.map Prod.fst).Nodup) :
    (byCountAndName cs).Pairwise Precedes := by
  have hperm : (byCountAndName cs).Perm cs := List.mergeSort_perm cs _
  have hnodup : (byCountAndName cs).Nodup := hperm.nodup_iff.2 (.of_map _ h)
  have hsorted : (byCountAndName cs).Pairwise fun a b ↦ countRank a ≤ countRank b := by
    rw [byCountAndName_eq]
    refine (List.pairwise_mergeSort ?_ ?_ cs).imp of_decide_eq_true
    · intro a b c hab hbc
      exact decide_eq_true ((of_decide_eq_true hab).trans (of_decide_eq_true hbc))
    · intro a b
      rw [Bool.or_eq_true, decide_eq_true_iff, decide_eq_true_iff]
      exact le_total _ _
  refine (hsorted.and hnodup).imp fun hab ↦ precedes_iff.2 ?_
  exact lt_of_le_of_ne hab.1 (countRank_injective.ne hab.2)

end Sorted

namespace Graph

variable {W S : Type} {g : Graph W} {ends : Edge W → String}

/-! ### What statistics say -/

/-- The greatest number that some nodes have, and the first of the nodes that have it; nodes have
numbers by edges, so there is no such node without edges. -/
structure IsPeak (g : Graph W) (value : String → Nat) (greatest : Nat) (named : Option String) :
    Prop where
  bound : ∀ id ∈ g.ids, value id ≤ greatest
  attained : g.ids ≠ [] → ∃ id ∈ g.ids, value id = greatest
  positive : 0 < greatest ↔ g.edges ≠ []
  first : named = if g.edges = [] then none else g.ids.find? (value · = greatest)
  none_iff : named = none ↔ g.edges = []

/-- A list is shown of some counts: each of them once, sorted. -/
def Shows (key : String) (cs : List (String × Nat)) (j : Option Json) : Prop :=
  ∃ ds : List (String × Nat), ds.Perm cs ∧ ds.Pairwise Precedes ∧ j = some (View.counts key ds)

/-- Statistics account for every node and every edge of a graph. -/
structure Conserves (g : Graph W) (s : Stats S) : Prop where
  nodeCount : s.nodeCount = g.nodes.length
  edgeCount : s.edgeCount = g.edges.length
  canonicalCount : s.canonicalCount = g.nodes.countP (·.isCanonical)
  variantCount : s.canonicalCount + s.variantCount = s.nodeCount
  categories : Counts (g.nodes.map categoryOf) s.categories
  sumCategories : (s.categories.map Prod.snd).sum = s.nodeCount
  relationships : Counts (g.edges.map (·.relationship.label)) s.relationships
  sumRelationships : (s.relationships.map Prod.snd).sum = s.edgeCount
  /-- Every edge counts once where it leads to, and once where it comes from. -/
  sumInDegrees : (g.ids.map g.inDegree).sum = s.edgeCount
  sumOutDegrees : (g.ids.map g.outDegree).sum = s.edgeCount
  /-- The nodes without edges are those that a validation lists. -/
  orphans : {id | id ∈ g.ids ∧ g.Isolated id}.ncard = s.orphanCount
  reportedOrphans : ∀ withSummary, (Finding.nodesUnder .orphanNodes
    (g.validate withSummary).warnings).length = s.orphanCount
  dependedOn : g.IsPeak g.inDegree s.maxInDegree s.mostDependedOn
  dependencies : g.IsPeak g.outDegree s.maxOutDegree s.mostDependencies
  /-- What is shown of a graph has the same counts, in an order that leaves no choice. -/
  shownCategories : Shows "category" s.categories ((View.overview s).field? "categories")
  shownRelationships :
    Shows "relationship" s.relationships ((View.overview s).field? "relationships")

/-- An edge makes a peak at its end, and nothing else makes one. -/
theorem pos_iff_of_holds (hends : ∀ e ∈ g.edges, ends e ∈ g.ids) {p : Peak}
    (h : p.Holds (fun id ↦ (g.edges.filter (ends · == id)).length) g.ids) :
    0 < p.value ↔ g.edges ≠ [] := by
  constructor
  · intro hpos hnone
    obtain ⟨id, -, heq⟩ := h.attained hpos
    rw [← heq, hnone] at hpos
    exact absurd hpos (Nat.lt_irrefl 0)
  · intro hsome
    obtain ⟨e, he⟩ := List.exists_mem_of_ne_nil _ hsome
    have hmem : e ∈ g.edges.filter (ends · == ends e) :=
      List.mem_filter.2 ⟨he, beq_self_eq_true _⟩
    exact (List.length_pos_of_mem hmem).trans_le (h.le _ (hends e he))

theorem isPeak_of_holds (hends : ∀ e ∈ g.edges, ends e ∈ g.ids) {p : Peak}
    (h : p.Holds (fun id ↦ (g.edges.filter (ends · == id)).length) g.ids) :
    g.IsPeak (fun id ↦ (g.edges.filter (ends · == id)).length) p.value p.id := by
  have hpositive := pos_iff_of_holds hends h
  have hzero : p.value = 0 ↔ g.edges = [] := by
    rw [← not_iff_not, ← ne_eq, ← ne_eq, ← hpositive, Nat.pos_iff_ne_zero]
  have hfirst := h.first
  rw [if_congr hzero rfl rfl] at hfirst
  exact {
    bound := h.le
    attained := fun hids ↦ by
      obtain ⟨id, hid⟩ := List.exists_mem_of_ne_nil _ hids
      rcases Nat.eq_zero_or_pos p.value with hnone | hpos
      · exact ⟨id, hid, Nat.le_antisymm (h.le id hid) (hnone ▸ Nat.zero_le _)⟩
      · exact h.attained hpos
    positive := hpositive
    first := hfirst
    none_iff := by
      rw [hfirst]
      constructor
      · intro hnone
        by_contra hsome
        obtain ⟨id, hid, heq⟩ := h.attained (hpositive.2 hsome)
        rw [if_neg hsome] at hnone
        exact List.find?_eq_none.1 hnone id hid (decide_eq_true heq)
      · intro hnone
        rw [if_pos hnone] }

theorem ncard_isolated (g : Graph W) :
    {id | id ∈ g.ids ∧ g.Isolated id}.ncard = g.orphans.length := by
  have hset : {id | id ∈ g.ids ∧ g.Isolated id} = (g.orphans.toFinset : Set String) := by
    ext id
    rw [List.coe_toFinset, orphans_eq]
    simp
  have hnodup : g.orphans.Nodup := List.Nodup.filter _ g.nodup_ids
  rw [hset, Set.ncard_coe_finset, List.toFinset_card_of_nodup hnodup]

/-- Statistics account for the whole graph, however quotients are taken. -/
theorem conserves_stats [Zero S] (quotient : Nat → Nat → S) (g : Graph W) :
    g.Conserves (g.stats quotient) := by
  have h := NodeTally.holds_foldl g g.nodes
  have horphans : (g.nodes.foldl g.tallyNode .start).orphans = g.orphans.length := h.orphans
  have hrelationships := counts_distribution (g.edges.map (·.relationship.label))
  exact {
    nodeCount := rfl
    edgeCount := rfl
    canonicalCount := h.canonical
    variantCount := by
      have hsplit := List.length_eq_countP_add_countP (Node.isCanonical ·) (l := g.nodes)
      exact (congrArg₂ (· + ·) h.canonical h.variants).trans hsplit.symm
    categories := h.categories
    sumCategories := h.categories.sum.trans (List.length_map _)
    relationships := hrelationships
    sumRelationships := hrelationships.sum.trans (List.length_map _)
    sumInDegrees := g.sum_inDegree
    sumOutDegrees := g.sum_outDegree
    orphans := g.ncard_isolated.trans horphans.symm
    reportedOrphans := fun withSummary ↦ by rw [nodesUnder_orphanNodes]; exact horphans.symm
    dependedOn := isPeak_of_holds g.target_mem h.into
    dependencies := isPeak_of_holds g.source_mem h.out
    shownCategories :=
      ⟨_, List.mergeSort_perm _ _, pairwise_byCountAndName h.categories.nodup, rfl⟩
    shownRelationships :=
      ⟨_, List.mergeSort_perm _ _, pairwise_byCountAndName hrelationships.nodup, rfl⟩ }

/-- The mean degree as an exact quotient is the one of twice the edges by the nodes. -/
theorem averageDegree_mul (g : Graph W) :
    (g.stats fun a b ↦ (a / b : ℚ)).averageDegree * g.nodes.length = 2 * g.edges.length := by
  rw [stats]
  dsimp only
  split
  · rename_i hnone
    have hedges : g.edges = [] := by
      refine List.eq_nil_iff_forall_not_mem.2 fun e he ↦ ?_
      have hsource := g.source_mem e he
      rw [List.length_eq_zero_iff.1 hnone] at hsource
      exact List.not_mem_nil hsource
    simp [hedges]
  · rename_i hsome
    rw [div_mul_cancel₀ _ (Nat.cast_ne_zero.2 hsome), Nat.cast_mul, Nat.cast_ofNat]

/-- **Statistics account for the whole graph**, for any quotient that the mean degree is taken with;
it is exact if the quotient is. -/
theorem stats_account (g : Graph W) :
    (∀ (S : Type) [Zero S] (quotient : Nat → Nat → S), g.Conserves (g.stats quotient)) ∧
      (g.stats fun a b ↦ (a / b : ℚ)).averageDegree * g.nodes.length = 2 * g.edges.length ∧
      (g.nodes = [] → (g.stats fun a b ↦ (a / b : ℚ)).averageDegree = 0) := by
  refine ⟨fun S _ quotient ↦ g.conserves_stats quotient, g.averageDegree_mul, fun hnone ↦ ?_⟩
  rw [stats, hnone]
  rfl

end Graph

end ConceptAtlas
