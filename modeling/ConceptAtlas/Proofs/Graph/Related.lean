import Mathlib.Data.List.Nodup
import ConceptAtlas.Graph.Related
import ConceptAtlas.Graph.View
import ConceptAtlas.Proofs.Graph.Neighborhood

/-!
# Related concepts are grouped completely and once

A concept has a group for each label of an edge to another concept, and a group has each concept
that such an edge leads to or comes from (`Graph.groups_neighbors`). Groups, and the concepts in a
group, are in the order in which the edges have them first. All the groups together are the
neighborhood of radius one, which a search of its own finds.

What comes once and in the order of its first place is said of lists in general
(`InFirstOrder`): such a list grows at its end by what was not there, and stays if it was. In the
pass over the neighbors of a concept this happens to three lists at each edge: the labels, the
concepts of one label, and the pairs of both (`RelatedScan.Holds`).
-/

namespace ConceptAtlas

/-! ### In the order of first places -/

section FirstOrder

variable {α : Type} {seenAt seenAt' : α → Nat → Prop} {xs : List α} {x y z : α} {n : Nat}

/-- Something is seen before anything else of a kind is, where `seenAt x i` says that `x` is seen at
place `i`. -/
def SeenBefore (seenAt : α → Nat → Prop) (x y : α) : Prop :=
  ∃ i, seenAt x i ∧ ∀ j, seenAt y j → i < j

/-- A list of what is seen at some place: each thing once, and first what is seen first. -/
structure InFirstOrder (seenAt : α → Nat → Prop) (xs : List α) : Prop where
  nodup : xs.Nodup
  mem_iff : ∀ x, x ∈ xs ↔ ∃ i, seenAt x i
  ordered : xs.Pairwise (SeenBefore seenAt)

theorem inFirstOrder_nil (h : ∀ x i, ¬ seenAt x i) : InFirstOrder seenAt [] where
  nodup := List.nodup_nil
  mem_iff x := iff_of_false List.not_mem_nil (not_exists.2 (h x))
  ordered := List.Pairwise.nil

theorem InFirstOrder.congr (h : InFirstOrder seenAt xs) (hat : ∀ x i, seenAt' x i ↔ seenAt x i) :
    InFirstOrder seenAt' xs := by
  have heq : seenAt' = seenAt := funext fun x ↦ funext fun i ↦ propext (hat x i)
  exact heq ▸ h

section Next

variable (hlt : ∀ x i, seenAt x i → i < n)
  (hat : ∀ x i, seenAt' x i ↔ seenAt x i ∨ i = n ∧ x = y)

include hat in
theorem exists_seenAt_iff (x : α) : (∃ i, seenAt' x i) ↔ (∃ i, seenAt x i) ∨ x = y := by
  simp only [hat, exists_or, exists_eq_left]

include hlt hat

theorem SeenBefore.next (h : SeenBefore seenAt x z) : SeenBefore seenAt' x z := by
  obtain ⟨i, hi, hfirst⟩ := h
  refine ⟨i, (hat x i).2 (.inl hi), fun j hj ↦ ?_⟩
  rcases (hat z j).1 hj with hj | ⟨rfl, -⟩
  · exact hfirst j hj
  · exact hlt x i hi

/-- Something that is there and is seen once more changes nothing. -/
theorem InFirstOrder.keep (h : InFirstOrder seenAt xs) (hy : y ∈ xs) :
    InFirstOrder seenAt' xs where
  nodup := h.nodup
  mem_iff x := by
    rw [exists_seenAt_iff hat, ← h.mem_iff]
    exact (or_iff_left_of_imp fun hx ↦ hx ▸ hy).symm
  ordered := h.ordered.imp fun hxz ↦ hxz.next hlt hat

/-- Something new that is seen behind all places comes last. -/
theorem InFirstOrder.add (h : InFirstOrder seenAt xs) (hy : y ∉ xs) :
    InFirstOrder seenAt' (xs ++ [y]) where
  nodup := h.nodup.append (List.nodup_singleton y) (List.disjoint_singleton.2 hy)
  mem_iff x := by rw [List.mem_append, List.mem_singleton, exists_seenAt_iff hat, h.mem_iff]
  ordered := by
    refine List.pairwise_append.2 ⟨h.ordered.imp fun hxz ↦ hxz.next hlt hat,
      List.pairwise_singleton _ _, fun x hx z hz ↦ ?_⟩
    obtain ⟨i, hi⟩ := (h.mem_iff x).1 hx
    refine ⟨i, (hat x i).2 (.inl hi), fun j hj ↦ ?_⟩
    rcases (hat z j).1 hj with hj | ⟨rfl, -⟩
    · exact absurd (List.mem_singleton.1 hz ▸ (h.mem_iff z).2 ⟨j, hj⟩) hy
    · exact hlt x i hi

end Next

end FirstOrder

/-! ### One more member -/

/-- The members of a group, none if there is no group. -/
def membersOf (groups : List (String × List Node)) (label : String) : List Node :=
  (Assoc.find? label groups).getD []

section Groups

variable {groups : List (String × List Node)} {label l : String} {m : Node}

/-- The groups with one more member under a label. -/
def withMember (label : String) (m : Node) (groups : List (String × List Node)) :
    List (String × List Node) := Assoc.put label (membersOf groups label ++ [m]) groups

theorem membersOf_withMember : membersOf (withMember label m groups) l =
    if label == l then membersOf groups label ++ [m] else membersOf groups l := by
  rw [membersOf, withMember, Assoc.find?_put]
  split <;> rfl

theorem foldl_count_succ (n : Nat) (groups : List (String × List Node)) :
    groups.foldl (fun n g ↦ n + g.2.length) (n + 1) =
      groups.foldl (fun n g ↦ n + g.2.length) n + 1 := by
  induction groups generalizing n with
  | nil => rfl
  | cons g groups ih => rw [List.foldl_cons, Nat.succ_add, ih, List.foldl_cons]

theorem foldl_count_withMember (n : Nat) (groups : List (String × List Node)) :
    (withMember label m groups).foldl (fun n g ↦ n + g.2.length) n =
      groups.foldl (fun n g ↦ n + g.2.length) n + 1 := by
  induction groups generalizing n with
  | nil => rfl
  | cons g groups ih =>
    rw [withMember, membersOf, Assoc.find?_cons, Assoc.put_cons]
    split
    · rw [Option.getD_some, List.foldl_cons, List.foldl_cons, List.length_append,
        List.length_singleton, ← Nat.add_assoc, foldl_count_succ]
    · exact ih _

end Groups

namespace Graph

variable {W : Type} {g : Graph W} {id label v : String} {e : Edge W} {es : List (Edge W)} {i : Nat}

/-! ### What the edges say -/

/-- An edge with a label leads from a concept to another one, or back. -/
def JoinsTo (id label v : String) (e : Edge W) : Prop :=
  e.relationship.label = label ∧ v ≠ id ∧
    (e.source = id ∧ e.target = v ∨ e.source = v ∧ e.target = id)

/-- The edge at a position joins a concept to another one under a label. -/
def JoinedAt (es : List (Edge W)) (id label v : String) (i : Nat) : Prop :=
  ∃ e, es[i]? = some e ∧ JoinsTo id label v e

theorem joinsTo_iff : JoinsTo id label v e ↔
    e.relationship.label = label ∧ v ≠ id ∧ otherEnd? id e = some v := by
  rw [JoinsTo, otherEnd?_eq_some_iff]
  refine and_congr_right fun _ ↦ and_congr_right fun hv ↦ or_congr_right ?_
  constructor
  · rintro ⟨rfl, ht⟩
    exact ⟨hv, ht, rfl⟩
  · rintro ⟨-, ht, hs⟩
    exact ⟨hs, ht⟩

theorem JoinedAt.lt_length (h : JoinedAt es id label v i) : i < es.length := by
  obtain ⟨e, he, -⟩ := h
  exact (List.getElem?_eq_some_iff.1 he).1

theorem getElem?_concat_eq_some_iff {f : Edge W} :
    (es ++ [e])[i]? = some f ↔ es[i]? = some f ∨ i = es.length ∧ e = f := by
  rcases Nat.lt_trichotomy i es.length with hlt | rfl | hgt
  · rw [List.getElem?_append_left hlt, or_iff_left fun h ↦ absurd h.1 (Nat.ne_of_lt hlt)]
  · rw [List.getElem?_concat_length, Option.some.injEq, List.getElem?_eq_none (Nat.le_refl _)]
    simp
  · have hold : es[i]? = none := List.getElem?_eq_none (Nat.le_of_lt hgt)
    have hnew : (es ++ [e])[i]? = none := by
      rw [List.getElem?_eq_none_iff, List.length_append]
      exact hgt
    rw [hold, hnew, or_iff_left fun h ↦ absurd h.1 (Nat.ne_of_gt hgt)]

theorem joinedAt_concat_iff : JoinedAt (es ++ [e]) id label v i ↔
    JoinedAt es id label v i ∨ i = es.length ∧ JoinsTo id label v e := by
  simp only [JoinedAt, getElem?_concat_eq_some_iff, or_and_right, exists_or, and_assoc,
    exists_and_left, exists_eq_left']

end Graph

/-! ### The pass over the neighbors -/

namespace RelatedScan

variable {W : Type} {g : Graph W} {s : RelatedScan} {label v : String} {m : Node} {n : Nat}
  {joined joined' : String → String → Nat → Prop}

/-- What a pass has, where `joined` says by which edges a concept is joined to which others under
which labels: the pairs of labels and concepts, the labels alone, and the concepts by label. -/
structure Holds (g : Graph W) (joined : String → String → Nat → Prop) (s : RelatedScan) :
    Prop where
  pairs : InFirstOrder (fun p i ↦ joined p.1 p.2 i) s.seen
  labels : InFirstOrder (fun l i ↦ ∃ w, joined l w i) (s.groups.map Prod.fst)
  members : ∀ l, InFirstOrder (joined l) ((membersOf s.groups l).map Node.id)
  stored : ∀ l, ∀ m ∈ membersOf s.groups l, g.node? m.id = some m
  count : s.groups.foldl (fun n g ↦ n + g.2.length) 0 = s.seen.length

section Step

variable (h : s.Holds g joined) (hlt : ∀ l w i, joined l w i → i < n)
  (hat : ∀ l w i, joined' l w i ↔ joined l w i ∨ i = n ∧ l = label ∧ w = v)

include hat in
theorem exists_joined_iff (l : String) (i : Nat) :
    (∃ w, joined' l w i) ↔ (∃ w, joined l w i) ∨ i = n ∧ l = label := by
  simp only [hat, exists_or, exists_and_left, exists_eq, and_true]

include hat in
theorem joined_iff_of_ne {l : String} (hl : l ≠ label) (w : String) (i : Nat) :
    joined' l w i ↔ joined l w i := by
  rw [hat, or_iff_left fun h ↦ hl h.2.1]

include hat in
theorem joined_self_iff (w : String) (i : Nat) :
    joined' label w i ↔ joined label w i ∨ i = n ∧ w = v := by
  rw [hat, and_iff_right rfl]

include hat in
theorem joined_pair_iff (p : String × String) (i : Nat) :
    joined' p.1 p.2 i ↔ joined p.1 p.2 i ∨ i = n ∧ p = (label, v) := by
  rw [hat, Prod.ext_iff]

include h hlt hat

/-- One more edge to a concept that was seen under its label changes nothing. -/
theorem Holds.keep (hseen : (label, v) ∈ s.seen) : s.Holds g joined' where
  pairs := h.pairs.keep (fun p ↦ hlt p.1 p.2) (joined_pair_iff hat) hseen
  labels := by
    obtain ⟨i, hi⟩ := (h.pairs.mem_iff _).1 hseen
    exact h.labels.keep (fun l i hl ↦ hl.elim fun w ↦ hlt l w i) (exists_joined_iff hat)
      ((h.labels.mem_iff label).2 ⟨i, v, hi⟩)
  members l := by
    by_cases hl : l = label
    · subst hl
      exact (h.members l).keep (hlt l) (joined_self_iff hat)
        (((h.members l).mem_iff v).2 ((h.pairs.mem_iff _).1 hseen))
    · exact (h.members l).congr (joined_iff_of_ne hat hl)
  stored := h.stored
  count := h.count

/-- One more edge to a concept that is new under its label makes it the last of its group, and the
group the last one if that is new too. -/
theorem Holds.add (hm : g.node? m.id = some m) (hv : m.id = v) (hseen : (label, v) ∉ s.seen) :
    Holds g joined' ⟨s.seen ++ [(label, v)], withMember label m s.groups⟩ where
  pairs := h.pairs.add (fun p ↦ hlt p.1 p.2) (joined_pair_iff hat) hseen
  labels := by
    have hlt' : ∀ l i, (∃ w, joined l w i) → i < n := fun l i hl ↦ hl.elim fun w ↦ hlt l w i
    by_cases hl : label ∈ s.groups.map Prod.fst
    · exact (Assoc.keys_put_of_mem hl _).symm ▸ h.labels.keep hlt' (exists_joined_iff hat) hl
    · exact (Assoc.keys_put_of_not_mem hl _).symm ▸ h.labels.add hlt' (exists_joined_iff hat) hl
  members l := by
    rw [membersOf_withMember]
    split
    · rename_i hl
      obtain rfl := eq_of_beq hl
      have hnew : v ∉ (membersOf s.groups label).map Node.id := fun hmem ↦
        hseen ((h.pairs.mem_iff _).2 (((h.members label).mem_iff v).1 hmem))
      rw [List.map_append, List.map_singleton, hv]
      exact (h.members label).add (hlt label) (joined_self_iff hat) hnew
    · rename_i hl
      exact (h.members l).congr (joined_iff_of_ne hat fun heq ↦ hl (beq_iff_eq.2 heq.symm))
  stored l := by
    rw [membersOf_withMember]
    split
    · exact List.forall_mem_append.2 ⟨h.stored label, List.forall_mem_singleton.2 hm⟩
    · exact h.stored l
  count := by
    rw [foldl_count_withMember, h.count, List.length_append, List.length_singleton]

end Step

theorem Holds.membersOf_eq (h : s.Holds g joined) {l : String} {ms : List Node}
    (hms : (l, ms) ∈ s.groups) : membersOf s.groups l = ms := by
  rw [membersOf, Assoc.find?_of_mem h.labels.nodup hms, Option.getD_some]

end RelatedScan

namespace Graph

variable {W : Type} {g : Graph W} {id : String} {e : Edge W} {es : List (Edge W)}
  {s : RelatedScan}

/-- An edge joins a concept to another one at most, under one label. -/
theorem joinedAt_concat_of_otherEnd? (es : List (Edge W)) {v : String}
    (hend : otherEnd? id e = some v) (hv : v ≠ id) (l w : String) (i : Nat) :
    JoinedAt (es ++ [e]) id l w i ↔
      JoinedAt es id l w i ∨ i = es.length ∧ l = e.relationship.label ∧ w = v := by
  rw [joinedAt_concat_iff, joinsTo_iff, hend, Option.some.injEq]
  refine or_congr_right (and_congr_right fun _ ↦ ?_)
  constructor
  · rintro ⟨rfl, -, rfl⟩
    exact ⟨rfl, rfl⟩
  · rintro ⟨rfl, rfl⟩
    exact ⟨rfl, hv, rfl⟩

theorem joinedAt_concat_of_forall_ne (hend : ∀ v ≠ id, otherEnd? id e ≠ some v) :
    JoinedAt (es ++ [e]) id = JoinedAt es id := by
  funext l v i
  rw [joinedAt_concat_iff, joinsTo_iff]
  exact propext (or_iff_left fun h ↦ hend v h.2.2.1 h.2.2.2)

/-- The pass goes on with one more neighbor. -/
theorem holds_noteRelated (h : s.Holds g (JoinedAt es id)) {v : String}
    (hend : otherEnd? id e = some v) (hv : v ∈ g.ids) :
    (g.noteRelated id s (v, e)).Holds g (JoinedAt (es ++ [e]) id) := by
  have hlt : ∀ l w i, JoinedAt es id l w i → i < es.length := fun _ _ _ ↦ JoinedAt.lt_length
  by_cases hself : v = id
  · have hone : ∀ w ≠ id, otherEnd? id e ≠ some w := fun w hw heq ↦
      hw (Option.some.inj (heq.symm.trans hend) ▸ hself)
    rw [noteRelated, if_pos (by simp [hself]), joinedAt_concat_of_forall_ne hone]
    exact h
  · have hat := joinedAt_concat_of_otherEnd? es hend hself
    by_cases hseen : (e.relationship.label, v) ∈ s.seen
    · rw [noteRelated, if_pos (by simp [hseen])]
      exact h.keep hlt hat hseen
    · obtain ⟨m, hm, rfl⟩ := List.mem_map.1 hv
      rw [noteRelated, if_neg (by simp [hself, hseen]), node?_of_mem hm]
      exact h.add hlt hat (node?_of_mem hm) rfl hseen

/-- The pass over the neighbors has what the edges say. -/
theorem holds_foldl_noteRelated (g : Graph W) (id : String) (hes : es ⊆ g.edges) :
    ((es.filterMap fun e ↦ (otherEnd? id e).map (·, e)).foldl (g.noteRelated id) ⟨[], []⟩).Holds g
      (JoinedAt es id) := by
  induction es using List.reverseRecOn with
  | nil =>
    have hnone : ∀ l w i, ¬ JoinedAt ([] : List (Edge W)) id l w i := fun l w i h ↦
      absurd h.lt_length (Nat.not_lt_zero i)
    exact {
      pairs := inFirstOrder_nil fun p ↦ hnone p.1 p.2
      labels := inFirstOrder_nil fun l i hl ↦ hl.elim fun w ↦ hnone l w i
      members := fun l ↦ inFirstOrder_nil (hnone l)
      stored := fun _ ↦ List.forall_mem_nil _
      count := rfl }
  | append_singleton es e ih =>
    have h := ih fun x hx ↦ hes (List.mem_append_left _ hx)
    rw [List.filterMap_append, List.foldl_append]
    match hend : otherEnd? id e with
    | none =>
      rw [List.filterMap_cons_none (by rw [hend, Option.map_none]), List.filterMap_nil,
        List.foldl_nil, joinedAt_concat_of_forall_ne fun v _ heq ↦ by simp [hend] at heq]
      exact h
    | some v =>
      rw [List.filterMap_cons_some (by rw [hend, Option.map_some]), List.filterMap_nil,
        List.foldl_cons, List.foldl_nil]
      refine holds_noteRelated h hend ?_
      have he := hes (List.mem_append_right _ (List.mem_singleton_self e))
      rcases otherEnd?_eq_some_iff.1 hend with ⟨-, rfl⟩ | ⟨-, -, rfl⟩
      · exact g.target_mem e he
      · exact g.source_mem e he

/-! ### The neighborhood of radius one -/

theorem isHopDistance_one_iff {v : String} :
    g.IsHopDistance none id v 1 ↔ v ≠ id ∧ g.Hop none id v := by
  rw [IsHopDistance, Steps.isDistance_succ_iff]
  simp only [Nat.le_zero_eq, forall_eq, Steps.isDistance_zero_iff, exists_eq_left]
  exact and_comm

/-- What is one hop away is what some edge joins under some label. -/
theorem exists_joinedAt_iff {v : String} :
    (∃ l i, JoinedAt g.edges id l v i) ↔ v ≠ id ∧ g.Hop none id v := by
  constructor
  · rintro ⟨l, i, e, he, -, hv, hends⟩
    exact ⟨hv, e, List.mem_of_getElem? he, rfl, hends⟩
  · rintro ⟨hv, e, he, -, hends⟩
    obtain ⟨i, hi⟩ := List.mem_iff_getElem?.1 he
    exact ⟨e.relationship.label, i, e, hi, rfl, hv, hends⟩

theorem id_of_node? {v : String} {m : Node} (h : g.node? v = some m) : m.id = v := by
  simpa using List.find?_some h

theorem exists_neighborhood_one (hid : id ∈ g.ids) :
    ∃ n, g.neighborhood id 1 none = .ok n ∧ ∀ m, m ∈ n.nodes ↔
      g.node? m.id = some m ∧ ∃ l i, JoinedAt g.edges id l m.id i := by
  obtain ⟨n, s, hn, -, hnodes, -, -, hqueue, hholds⟩ := g.exists_neighborhood hid 1 none
  refine ⟨n, hn, fun m ↦ ?_⟩
  rw [hnodes, List.mem_filterMap, exists_joinedAt_iff, ← isHopDistance_one_iff]
  constructor
  · rintro ⟨⟨v, d⟩, hd, hm⟩
    rw [id_of_node? hm]
    obtain ⟨hpos, hle, hdist⟩ := (hholds.mem_depths_iff hqueue).1 hd
    obtain rfl : d = 1 := Nat.le_antisymm (Int.ofNat_le.1 hle) hpos
    exact ⟨hm, hdist⟩
  · rintro ⟨hm, hdist⟩
    exact ⟨(m.id, 1), (hholds.mem_depths_iff hqueue).2 ⟨Nat.le_refl 1, Int.le_refl 1, hdist⟩, hm⟩

/-! ### The answer -/

/-- An answer about the neighbors of a concept, by the labels of the edges to them. -/
structure GroupsNeighbors (g : Graph W) (id : String) (r : Related) : Prop where
  source : g.node? id = some r.source
  /-- There is a group for each label of an edge to another concept, in the order of the first such
  edges. -/
  labels : InFirstOrder (fun l i ↦ ∃ v, JoinedAt g.edges id l v i) (r.groups.map Prod.fst)
  /-- A group has the concepts that an edge with its label leads to or comes from, in the order of
  the first such edges. -/
  members : ∀ l ms, (l, ms) ∈ r.groups →
    InFirstOrder (JoinedAt g.edges id l) (ms.map Node.id)
  stored : ∀ l ms, (l, ms) ∈ r.groups → ∀ m ∈ ms, g.node? m.id = some m
  /-- The count that is shown is the number of pairs of a label and a concept that some edge
  joins. -/
  count : ∃ pairs : List (String × String),
    InFirstOrder (fun p i ↦ JoinedAt g.edges id p.1 p.2 i) pairs ∧
      (View.related r).field? "total_count" = some (.ofNat pairs.length)
  /-- All groups together are the neighborhood of radius one. -/
  near : ∃ n, g.neighborhood id 1 none = .ok n ∧
    ∀ m, (∃ group ∈ r.groups, m ∈ group.2) ↔ m ∈ n.nodes

/-- A concept is in some group if an edge joins it, and that is when it is near. -/
theorem exists_mem_groups_iff (h : s.Holds g (JoinedAt es id)) (m : Node) :
    (∃ group ∈ s.groups, m ∈ group.2) ↔
      g.node? m.id = some m ∧ ∃ l i, JoinedAt es id l m.id i := by
  constructor
  · rintro ⟨⟨l, ms⟩, hms, hm⟩
    have hmem : m ∈ membersOf s.groups l := (h.membersOf_eq hms).symm ▸ hm
    exact ⟨h.stored l m hmem, l, ((h.members l).mem_iff m.id).1 (List.mem_map_of_mem hmem)⟩
  · rintro ⟨hm, l, hjoined⟩
    obtain ⟨m', hm', hid⟩ := List.mem_map.1 (((h.members l).mem_iff m.id).2 hjoined)
    obtain ⟨ms, hms⟩ := Assoc.exists_find?_of_mem ((h.labels.mem_iff l).2
      (hjoined.imp fun _ hi ↦ ⟨m.id, hi⟩))
    have hmem := (Assoc.find?_eq_some_iff h.labels.nodup).1 hms
    refine ⟨(l, ms), hmem, ?_⟩
    have heq : some m' = some m := by rw [← h.stored l m' hm', hid, hm]
    rw [h.membersOf_eq hmem, Option.some.inj heq] at hm'
    exact hm'

/-- **Related concepts are grouped completely and once.** -/
theorem groups_neighbors (g : Graph W) {id : String} (hid : id ∈ g.ids) :
    ∃ r, g.related id = .ok r ∧ g.GroupsNeighbors id r := by
  obtain ⟨source, hsource, rfl⟩ := List.mem_map.1 hid
  have h := g.holds_foldl_noteRelated source.id (List.Subset.refl g.edges)
  obtain ⟨n, hn, hnodes⟩ := exists_neighborhood_one hid
  refine ⟨_, by rw [related, node, node?_of_mem hsource]; rfl, ?_⟩
  exact {
    source := node?_of_mem hsource
    labels := h.labels
    members := fun l ms hms ↦ h.membersOf_eq hms ▸ h.members l
    stored := fun l ms hms ↦ h.membersOf_eq hms ▸ h.stored l
    count := ⟨_, h.pairs, congrArg (fun n ↦ some (Json.ofNat n)) h.count⟩
    near := ⟨n, hn, fun m ↦ (exists_mem_groups_iff h m).trans (hnodes m).symm⟩ }

/-- A town with two roads to the mill that are equal and one back, a river between the two in either
direction, a road from the farm, a footpath in a circle, and a road that passes the town by. -/
def village : Graph Unit where
  nodes := [.plain "town" "Town", .plain "mill" "Mill", .plain "farm" "Farm"]
  edges := [⟨"town", "town", .custom "footpath", (), .manual⟩,
    ⟨"mill", "town", .custom "river", (), .manual⟩, ⟨"town", "mill", .custom "road", (), .manual⟩,
    ⟨"farm", "mill", .custom "road", (), .manual⟩, ⟨"farm", "town", .custom "road", (), .manual⟩,
    ⟨"town", "mill", .custom "road", (), .manual⟩, ⟨"mill", "town", .custom "road", (), .manual⟩,
    ⟨"town", "mill", .custom "river", (), .manual⟩]
  nodup_ids := by decide
  source_mem := by decide
  target_mem := by decide

theorem groups_neighbors_village : "town" ∈ village.ids ∧
    ∃ r, village.related "town" = .ok r ∧ village.GroupsNeighbors "town" r ∧
      r.groups.map (fun group ↦ (group.1, group.2.map Node.id)) =
        [("river", ["mill"]), ("road", ["mill", "farm"])] := by
  have htown : "town" ∈ village.ids := by decide
  obtain ⟨r, hr, hgroups⟩ := groups_neighbors village htown
  have hlists : (village.related "town").map (·.groups.map fun group ↦
      (group.1, group.2.map Node.id)) =
        .ok [("river", ["mill"]), ("road", ["mill", "farm"])] := by rfl
  rw [hr] at hlists
  exact ⟨htown, r, hr, hgroups, Except.ok.inj hlists⟩

end Graph

end ConceptAtlas
