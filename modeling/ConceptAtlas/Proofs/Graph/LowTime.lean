import Mathlib.Logic.Relation
import ConceptAtlas.Graph.Bridge
import ConceptAtlas.Proofs.Graph.Component

/-!
# Low times

What the search for bridges keeps, and why a low time tells a bridge.

The search has a path from the first node of a tree to the node it is at. Everything found since a
node on the path was found from it, so times alone tell what hangs below a node. Three things are
kept about each node of the path (`Frame.Holds`, `Frame.Low`), all of them about times before the
time of the node above it. So a step, which changes the end of the path, leaves them true of what is
below (`Chained.later`).

* **Nothing sticks out.** No edge leads from what was found from the node and left to anything found
  later, and it is settled which of its edges are bridges.
* **All of it hangs together**, by edges that stay within it.
* **The low time is the earliest way out** over an edge other than the one that led to the node.

The two halves of the result rest on different ones of these. That a low time later than the node
below makes a bridge (`isBridge_of_lt`) takes the first and the third: another way out would have to
end between the two nodes. That any other low time makes none (`Holds.not_isBridge_of_le`) takes the
second and the third. An edge that leads to a known node never is one (`Holds.decides_of_known`): if
the node is on the path, the way along the path is another way there. This is where it matters that
an edge is told by its position, for a second edge to the node below is such a way.
-/

namespace ConceptAtlas

variable {W : Type} {g : Graph W}

/-! ### Edge ends -/

namespace EdgeEnds

variable {ends : EdgeEnds}

/-- An edge end is listed at a node. -/
def Lists (ends : EdgeEnds) (id : String) (x : String × Nat) : Prop :=
  ∃ xs, Assoc.find? id ends = some xs ∧ x ∈ xs

theorem exists_hang {id : String} (h : id ∈ ends.map Prod.fst) (x : String × Nat) :
    ∃ after, hang id x ends = some after ∧ after.map Prod.fst = ends.map Prod.fst ∧
      ∀ j y, after.Lists j y ↔ ends.Lists j y ∨ j = id ∧ y = x := by
  obtain ⟨xs, hxs⟩ := Assoc.exists_find?_of_mem h
  refine ⟨Assoc.put id (xs ++ [x]) ends, by simp [hang, hxs], Assoc.keys_put_of_mem h _, ?_⟩
  intro j y
  rw [Lists, Lists, Assoc.find?_put]
  by_cases hj : id = j
  · subst hj
    simp [hxs]
  · simp [hj, Ne.symm hj]

/-- A loop is listed nowhere, any other edge at both its ends. -/
theorem exists_hangEdge {e : Edge W} (hs : e.source ∈ ends.map Prod.fst)
    (ht : e.target ∈ ends.map Prod.fst) (i : Nat) :
    ∃ after, hangEdge ends (e, i) = some after ∧ after.map Prod.fst = ends.map Prod.fst ∧
      ∀ u v j, after.Lists u (v, j) ↔ ends.Lists u (v, j) ∨
        j = i ∧ u ≠ v ∧ (e.source = u ∧ e.target = v ∨ e.source = v ∧ e.target = u) := by
  by_cases hloop : e.source = e.target
  · refine ⟨ends, by simp [hangEdge, Edge.isLoop, hloop], rfl, fun u v j ↦ ?_⟩
    rw [hloop]
    grind
  · obtain ⟨mid, hmid, hkeys, hlists⟩ := exists_hang hs (e.target, i)
    obtain ⟨after, hafter, hkeys', hlists'⟩ := exists_hang (hkeys ▸ ht) (e.source, i)
    refine ⟨after, by simp [hangEdge, Edge.isLoop, hloop, hmid, hafter], hkeys'.trans hkeys, ?_⟩
    intro u v j
    rw [hlists', hlists, Prod.mk.injEq, Prod.mk.injEq]
    grind

theorem exists_foldlM_hangEdge {es : List (Edge W × Nat)}
    (h : ∀ e ∈ es, e.1.source ∈ ends.map Prod.fst ∧ e.1.target ∈ ends.map Prod.fst) :
    ∃ after, es.foldlM hangEdge ends = some after ∧ after.map Prod.fst = ends.map Prod.fst ∧
      ∀ u v j, after.Lists u (v, j) ↔ ends.Lists u (v, j) ∨ ∃ e, (e, j) ∈ es ∧
        u ≠ v ∧ (e.source = u ∧ e.target = v ∨ e.source = v ∧ e.target = u) := by
  induction es generalizing ends with
  | nil => exact ⟨ends, rfl, rfl, by simp⟩
  | cons e es ih =>
    obtain ⟨he, hes⟩ := List.forall_mem_cons.1 h
    obtain ⟨mid, hmid, hkeys, hlists⟩ := exists_hangEdge he.1 he.2 e.2
    obtain ⟨after, hafter, hkeys', hlists'⟩ := ih (by rwa [hkeys])
    refine ⟨after, by simp [hmid, hafter], hkeys'.trans hkeys, fun u v j ↦ ?_⟩
    rw [hlists', hlists, or_assoc]
    refine or_congr_right ?_
    constructor
    · rintro (⟨rfl, hends⟩ | ⟨e', he', hends⟩)
      · exact ⟨e.1, List.mem_cons_self, hends⟩
      · exact ⟨e', List.mem_cons_of_mem _ he', hends⟩
    · rintro ⟨e', he', hends⟩
      rcases List.mem_cons.1 he' with rfl | he'
      · exact .inl ⟨rfl, hends⟩
      · exact .inr ⟨e', he', hends⟩

/-- The edge ends of a graph: every node has a list of them, in which the edges that join it to
another node are and nothing else. -/
structure Of (g : Graph W) (ends : EdgeEnds) : Prop where
  keys : ends.map Prod.fst = g.ids
  lists : ∀ {u v i}, ends.Lists u (v, i) ↔ g.Joins i u v ∧ u ≠ v

/-- Before the first edge nothing is listed. -/
theorem not_lists_of_map_nil (ids : List String) (u : String) (x : String × Nat) :
    ¬ Lists (ids.map (·, [])) u x := by
  rintro ⟨xs, hxs, hx⟩
  induction ids with
  | nil => nomatch hxs
  | cons id ids ih =>
    rw [List.map_cons, Assoc.find?_cons] at hxs
    split at hxs
    · cases hxs
      nomatch hx
    · exact ih hxs

theorem exists_ofGraph? (g : Graph W) : ∃ ends, ofGraph? g = some ends ∧ Of g ends := by
  have hkeys : (g.ids.map (·, ([] : List (String × Nat)))).map Prod.fst = g.ids := by
    rw [List.map_map]
    exact List.map_id g.ids
  have hmem : ∀ e ∈ g.edges.zipIdx,
      e.1.source ∈ (g.ids.map (·, ([] : List (String × Nat)))).map Prod.fst ∧
        e.1.target ∈ (g.ids.map (·, ([] : List (String × Nat)))).map Prod.fst := by
    intro e he
    have hedge := List.fst_mem_of_mem_zipIdx he
    rw [hkeys]
    exact ⟨g.source_mem _ hedge, g.target_mem _ hedge⟩
  obtain ⟨ends, hends, hkeys', hlists⟩ := exists_foldlM_hangEdge hmem
  refine ⟨ends, hends, hkeys'.trans hkeys, fun {u v i} ↦ ?_⟩
  rw [hlists, or_iff_right (not_lists_of_map_nil _ _ _)]
  constructor
  · rintro ⟨e, he, hne, hjoins⟩
    exact ⟨⟨e, List.mem_zipIdx_iff_getElem?.1 he, hjoins⟩, hne⟩
  · rintro ⟨⟨e, he, hjoins⟩, hne⟩
    exact ⟨e, List.mem_zipIdx_iff_getElem?.2 he, hne, hjoins⟩

end EdgeEnds

namespace BridgeSearch

variable {ends : EdgeEnds} {s t u : BridgeSearch} {base hi i : Nat} {x y : String}
  {above : Option Nat}

/-! ### Times -/

/-- The time at which a node was discovered; one that was not is given the next time. -/
def time (s : BridgeSearch) (x : String) : Nat := (Assoc.find? x s.discovery).getD s.timer

/-- Times are past and no two nodes have the same. -/
structure Dated (s : BridgeSearch) : Prop where
  lt : ∀ {x n}, Assoc.find? x s.discovery = some n → n < s.timer
  inj : ∀ {x y n}, Assoc.find? x s.discovery = some n → Assoc.find? y s.discovery = some n → x = y

theorem time_of_find? {n : Nat} (h : Assoc.find? x s.discovery = some n) : s.time x = n := by
  rw [time, h, Option.getD_some]

theorem time_of_find?_eq_none (h : Assoc.find? x s.discovery = none) : s.time x = s.timer := by
  rw [time, h, Option.getD_none]

theorem find?_of_time_lt (h : s.time x < s.timer) :
    Assoc.find? x s.discovery = some (s.time x) := by
  cases hx : Assoc.find? x s.discovery with
  | none => exact absurd h (by rw [time_of_find?_eq_none hx]; exact Nat.lt_irrefl _)
  | some n => rw [time_of_find? hx]

theorem Dated.time_inj (h : s.Dated) (hx : s.time x < s.timer) (hxy : s.time x = s.time y) :
    x = y :=
  h.inj (find?_of_time_lt hx) (hxy ▸ find?_of_time_lt (hxy ▸ hx))

/-- Later in a search what was discovered has kept its time, what was not has none before the next
time of then, and no bridge was lost. -/
structure Later (s t : BridgeSearch) : Prop where
  time : ∀ {x}, s.time x < s.timer → t.time x = s.time x
  new : ∀ {x}, s.timer ≤ s.time x → s.timer ≤ t.time x
  timer : s.timer ≤ t.timer
  bridges : s.bridges ⊆ t.bridges

namespace Later

/-- When nothing was discovered all times are what they were. -/
theorem of_discovery (hd : t.discovery = s.discovery) (ht : t.timer = s.timer)
    (hb : s.bridges ⊆ t.bridges) : Later s t where
  time _ := by rw [BridgeSearch.time, BridgeSearch.time, hd, ht]
  new hx := by rwa [BridgeSearch.time, hd, ht]
  timer := ht.ge
  bridges := hb

theorem refl (s : BridgeSearch) : Later s s := of_discovery rfl rfl (List.Subset.refl _)

theorem trans (h : Later s t) (h' : Later t u) : Later s u where
  time hx := by
    have hlt := (h.time hx).trans_lt (hx.trans_le h.timer)
    exact (h'.time hlt).trans (h.time hx)
  new {x} hx := by
    rcases Nat.lt_or_ge (t.time x) t.timer with hlt | hge
    · rw [h'.time hlt]
      exact h.new hx
    · exact h.timer.trans (h'.new hge)
  timer := h.timer.trans h'.timer
  bridges := List.Subset.trans h.bridges h'.bridges

/-- A time before the next time of then is what it was. -/
theorem time_of_lt (h : Later s t) (hhi : hi ≤ s.timer) (hx : t.time x < hi) :
    t.time x = s.time x := by
  refine h.time (Nat.lt_of_not_le fun hge ↦ ?_)
  exact absurd (h.new hge) (Nat.not_le_of_lt (hx.trans_le hhi))

theorem time_lt_iff (h : Later s t) (hhi : hi ≤ s.timer) : t.time x < hi ↔ s.time x < hi := by
  constructor
  · intro hx
    exact h.time_of_lt hhi hx ▸ hx
  · intro hx
    exact (h.time (hx.trans_le hhi)).symm ▸ hx

end Later

/-! ### What a search keeps -/

/-- It is settled whether an edge is a bridge. -/
def Decides (g : Graph W) (s : BridgeSearch) (i : Nat) : Prop := i ∈ s.bridges ∨ ¬ g.IsBridge i

theorem Decides.later (h : s.Decides g i) (hst : Later s t) : t.Decides g i :=
  h.imp_left fun hi ↦ hst.bridges hi

/-- The nodes discovered since a node, before a time. -/
def Since (s : BridgeSearch) (v : String) (hi : Nat) (x : String) : Prop :=
  s.time v ≤ s.time x ∧ s.time x < hi

namespace Frame

/-- A low time of a node: its own time or the time of a node that an edge, not the one that led to
the node, joins to one discovered since; and no such time is earlier, except over edge ends of the
node that were not looked at. -/
structure Low (g : Graph W) (s : BridgeSearch) (hi : Nat) (f : Frame) (low : Nat) : Prop where
  le : low ≤ s.time f.node
  attained : low = s.time f.node ∨ ∃ x y i, g.Joins i x y ∧ f.arrival ≠ some i ∧
    s.Since f.node hi x ∧ s.time y = low
  least : ∀ {x y i}, g.Joins i x y → s.Since f.node hi x → s.time y < s.time f.node →
    low ≤ s.time y ∨ f.arrival = some i ∨ x = f.node ∧ (y, i) ∈ f.rest

/-- What holds of a node on the path, where `hi` is the time of the node above it and `above` the
edge that led there. -/
structure Holds (g : Graph W) (s : BridgeSearch) (hi : Nat) (above : Option Nat) (f : Frame) :
    Prop where
  early : s.time f.node < hi
  rest : ∀ {y i}, (y, i) ∈ f.rest → g.Joins i f.node y ∧ f.node ≠ y
  /-- What was found from the node and left has all its edges settled, and none leads to anything
  found later. -/
  left : ∀ {x y i}, s.time f.node < s.time x → s.time x < hi → g.Joins i x y →
    s.time y < hi ∧ s.Decides g i
  looked : ∀ {y i}, g.Joins i f.node y → (y, i) ∈ f.rest ∨ f.arrival = some i ∨
    s.time y < s.timer ∧ (above = some i ∨ s.Decides g i)
  hangs : ∀ {x}, s.Since f.node hi x → g.JoinedWithin (s.Since f.node hi) f.node x

end Frame

/-- What holds of the frames of a path: of each what holds of a node on it, it has a low time, the
edge to it is one from the node below it, and the node below all others is the first of its tree. -/
def Chained (g : Graph W) (s : BridgeSearch) (base : Nat) :
    (hi : Nat) → (above : Option Nat) → List Frame → Prop
  | hi, above, [] => hi = base ∧ above = none
  | hi, above, f :: below => f.Holds g s hi above ∧
    (∃ low, Assoc.find? f.node s.low = some low ∧ f.Low g s hi low) ∧
    (∀ p ∈ below.head?, ∃ i, f.arrival = some i ∧ g.Joins i p.node f.node) ∧
    Chained g s base (s.time f.node) f.arrival below

/-- What holds of a search. Trees that were left before the present one have times before `base`,
no edge leads out of them, and all their edges are settled. -/
structure Holds (g : Graph W) (base : Nat) (s : BridgeSearch) : Prop where
  dated : s.Dated
  before : ∀ {x y i}, s.time x < base → g.Joins i x y → s.time y < base ∧ s.Decides g i
  path : s.Chained g base s.timer none s.path
  bridges : ∀ i ∈ s.bridges, g.IsBridge i
  nodup : s.bridges.Nodup

theorem Holds.chained (h : s.Holds g base) {fs : List Frame} (hpath : s.path = fs) :
    s.Chained g base s.timer none fs :=
  hpath ▸ h.path

/-! ### What stays true later -/

theorem since_later_iff {v : String} (hst : Later s t) (hhi : hi ≤ s.timer) (hv : s.time v < hi) :
    t.Since v hi x ↔ s.Since v hi x := by
  rw [Since, Since, hst.time (hv.trans_le hhi), hst.time_lt_iff hhi]
  refine and_congr_left fun hx ↦ ?_
  rw [hst.time (hx.trans_le hhi)]

namespace Frame

variable {f : Frame}

theorem Low.later {low : Nat} (h : f.Low g s hi low) (hst : Later s t) (hhi : hi ≤ s.timer)
    (hf : s.time f.node < hi) : f.Low g t hi low where
  le := by
    rw [hst.time (hf.trans_le hhi)]
    exact h.le
  attained := by
    rw [hst.time (hf.trans_le hhi)]
    refine h.attained.imp_right ?_
    rintro ⟨x, y, i, hjoins, harrival, hx, hy⟩
    have hlt : s.time y < s.timer := hy.trans_lt (h.le.trans_lt (hf.trans_le hhi))
    exact ⟨x, y, i, hjoins, harrival, (since_later_iff hst hhi hf).2 hx, (hst.time hlt).trans hy⟩
  least hjoins hx hy := by
    rw [hst.time (hf.trans_le hhi)] at hy
    have hlt := hst.time_of_lt (hf.trans_le hhi).le hy
    rw [hlt] at hy ⊢
    exact h.least hjoins ((since_later_iff hst hhi hf).1 hx) hy

theorem Holds.later (h : f.Holds g s hi above) (hst : Later s t) (hhi : hi ≤ s.timer) :
    f.Holds g t hi above where
  early := (hst.time_lt_iff hhi).2 h.early
  rest := h.rest
  left hfx hx hjoins := by
    rw [hst.time (h.early.trans_le hhi), hst.time_of_lt hhi hx] at hfx
    obtain ⟨hy, hdecides⟩ := h.left hfx ((hst.time_lt_iff hhi).1 hx) hjoins
    exact ⟨(hst.time_lt_iff hhi).2 hy, hdecides.later hst⟩
  looked hjoins := by
    refine (h.looked hjoins).imp_right (Or.imp_right ?_)
    rintro ⟨hy, hdecides⟩
    refine ⟨?_, hdecides.imp_right fun hd ↦ hd.later hst⟩
    rw [hst.time hy]
    exact hy.trans_le hst.timer
  hangs hx := by
    have hsince {z} := since_later_iff (x := z) hst hhi h.early
    exact (h.hangs (hsince.1 hx)).mono fun _ hz ↦ hsince.2 hz

end Frame

theorem Chained.later {fs : List Frame} (h : s.Chained g base hi above fs) (hst : Later s t)
    (hhi : hi ≤ s.timer)
    (hlow : ∀ x, s.time x < hi → Assoc.find? x t.low = Assoc.find? x s.low) :
    t.Chained g base hi above fs := by
  induction fs generalizing hi above with
  | nil => exact h
  | cons f below ih =>
    obtain ⟨hf, ⟨low, hfind, hmin⟩, hlink, hbelow⟩ := h
    have hlt := hf.early
    refine ⟨hf.later hst hhi, ⟨low, (hlow _ hlt).trans hfind, hmin.later hst hhi hlt⟩, hlink, ?_⟩
    rw [hst.time (hlt.trans_le hhi)]
    exact ih hbelow (hlt.le.trans hhi) fun x hx ↦ hlow x (hx.trans hlt)

/-! ### The tree of the present search -/

theorem Chained.base_le {fs : List Frame} (h : s.Chained g base hi above fs) : base ≤ hi := by
  induction fs generalizing hi above with
  | nil => exact h.1.ge
  | cons f below ih => exact (ih h.2.2.2).trans h.1.early.le

/-- All of the present tree that was found before a time hangs together with the last node of the
path before that time. -/
theorem Chained.joinedWithin {f : Frame} {below : List Frame}
    (h : s.Chained g base hi above (f :: below)) (hbase : base ≤ s.time x) (hx : s.time x < hi) :
    g.JoinedWithin (s.time · < hi) f.node x := by
  induction below generalizing f hi above with
  | nil =>
    have hf : s.time f.node ≤ s.time x := h.2.2.2.1.trans_le hbase
    exact (h.1.hangs ⟨hf, hx⟩).mono fun _ hz ↦ hz.2
  | cons p below ih =>
    obtain ⟨hf, -, hlink, hbelow⟩ := h
    rcases Nat.lt_or_ge (s.time x) (s.time f.node) with hlt | hge
    · obtain ⟨i, -, hjoins⟩ := hlink p rfl
      have hp : s.time p.node < s.time f.node := hbelow.1.early
      refine .head ⟨hf.early, hp.trans hf.early, i, hjoins.symm⟩ ?_
      exact (ih hbelow hlt).mono fun _ hz ↦ hz.trans hf.early
    · exact (hf.hangs ⟨hge, hx⟩).mono fun _ hz ↦ hz.2

/-! ### Settling edges -/

section Settling

variable {f p : Frame} {below : List Frame} {low : Nat}

/-- An edge from the last node of the path to a known node is no bridge, unless it is the one that
led here, or it was settled when the other node was left. -/
theorem Holds.decides_of_known (h : s.Holds g base) (hpath : s.path = f :: below)
    (hjoins : g.Joins i f.node y) (hne : f.node ≠ y) (harrival : f.arrival ≠ some i)
    (hy : s.time y < s.timer) : s.Decides g i := by
  obtain ⟨hf, -, hlink, hbelow⟩ := h.chained hpath
  rcases Nat.lt_trichotomy (s.time y) (s.time f.node) with hlt | heq | hgt
  · have hbase : base ≤ s.time y := by
      refine Nat.le_of_not_lt fun hlt' ↦ ?_
      exact Nat.not_lt_of_le hbelow.base_le (h.before hlt' hjoins.symm).1
    cases below with
    | nil => exact absurd (hbelow.1 ▸ hlt) (Nat.not_lt_of_le hbase)
    | cons p below =>
      -- The two nodes are joined by the edge that led here and by what was found before.
      obtain ⟨a, ha, hlink⟩ := hlink p rfl
      have hai : a ≠ i := fun e ↦ harrival (e ▸ ha)
      have hwithin := hbelow.joinedWithin hbase hlt
      refine .inr (Graph.not_isBridge hjoins ?_)
      exact .head ⟨a, hai, hlink.symm⟩ (hwithin.joinedWithout hjoins (Nat.lt_irrefl _))
  · exact absurd (h.dated.time_inj hy heq).symm hne
  · exact (hf.left hgt hy hjoins.symm).2

/-- When all edge ends of a node were looked at, the edges of what was found since lead nowhere
earlier than its low time. -/
theorem Frame.Holds.decides (hf : f.Holds g s s.timer none) (hdated : s.Dated) (hrest : f.rest = [])
    (hlow : f.Low g s s.timer low) (hjoins : g.Joins i x y) (hx : s.Since f.node s.timer x)
    (harrival : f.arrival ≠ some i) :
    s.time y < s.timer ∧ s.Decides g i ∧ (s.time y < s.time f.node → low ≤ s.time y) := by
  have hdecides : s.time y < s.timer ∧ s.Decides g i := by
    rcases hx.1.lt_or_eq with hlt | heq
    · exact hf.left hlt hx.2 hjoins
    · obtain rfl := hdated.time_inj hf.early heq
      rcases hf.looked hjoins with hmem | hi | ⟨hy, habove | hd⟩
      · nomatch hrest ▸ hmem
      · exact absurd hi harrival
      · nomatch habove
      · exact ⟨hy, hd⟩
  refine ⟨hdecides.1, hdecides.2, fun hy ↦ ?_⟩
  rcases hlow.least hjoins hx hy with hle | hi | ⟨-, hmem⟩
  · exact hle
  · exact absurd hi harrival
  · nomatch hrest ▸ hmem

/-- **A low time later than the node below makes a bridge**: no other edge leads out of what was
found since. -/
theorem isBridge_of_lt (hf : f.Holds g s s.timer none) (hdated : s.Dated) (hrest : f.rest = [])
    (hlow : f.Low g s s.timer low) (hp : p.Holds g s (s.time f.node) f.arrival)
    (hi : f.arrival = some i) (hlink : g.Joins i p.node f.node) (hlt : s.time p.node < low) :
    g.IsBridge i := by
  refine ⟨f.node, p.node, hlink.symm, fun hwithout ↦ ?_⟩
  have hsince : ∀ z, g.JoinedWithout i f.node z → s.Since f.node s.timer z := by
    intro z hz
    induction hz with
    | refl => exact ⟨Nat.le_refl _, hf.early⟩
    | @tail x y _ hxy ih =>
      obtain ⟨j, hj, hjoins⟩ := hxy
      have harrival : f.arrival ≠ some j := fun e ↦ hj (Option.some.inj (e.symm.trans hi))
      obtain ⟨hy, -, hleast⟩ := hf.decides hdated hrest hlow hjoins ih harrival
      refine ⟨Nat.le_of_not_lt fun hyf ↦ ?_, hy⟩
      -- Then the other end was found between the two nodes, and no edge leads from there to here.
      have hleft := (hp.left (hlt.trans_le (hleast hyf)) hyf hjoins.symm).1
      exact Nat.not_lt_of_le ih.1 hleft
  exact Nat.not_lt_of_le (hsince _ hwithout).1 hp.early

/-- **Any other low time does not**: what was found since is joined to something earlier, and that
to the node below. -/
theorem Holds.not_isBridge_of_le (h : s.Holds g base) (hpath : s.path = f :: p :: below)
    (hlow : f.Low g s s.timer low) (hi : f.arrival = some i) (hle : low ≤ s.time p.node) :
    ¬ g.IsBridge i := by
  obtain ⟨hf, -, hlink, hbelow⟩ := h.chained hpath
  obtain ⟨a, ha, hlink⟩ := hlink p rfl
  obtain rfl : a = i := Option.some.inj (ha.symm.trans hi)
  have hp : s.time p.node < s.time f.node := hbelow.1.early
  obtain ⟨x, y, j, hjoins, hj, hx, hy⟩ := hlow.attained.resolve_left (hle.trans_lt hp).ne
  have hyf : s.time y < s.time f.node := hy.trans_lt (hle.trans_lt hp)
  have hbase : base ≤ s.time y := by
    refine Nat.le_of_not_lt fun hlt ↦ ?_
    have hxbase := (h.before hlt hjoins.symm).1
    exact Nat.not_lt_of_le (hbelow.base_le.trans hx.1) hxbase
  have hfx : g.JoinedWithout a f.node x :=
    (hf.hangs hx).joinedWithout hlink fun hpf ↦ Nat.not_lt_of_le hpf.1 hp
  have hpy : g.JoinedWithout a p.node y :=
    (hbelow.joinedWithin hbase hyf).joinedWithout hlink.symm (Nat.lt_irrefl _)
  refine Graph.not_isBridge hlink.symm (.trans (hfx.tail ⟨j, ?_, hjoins⟩) hpy.symm)
  exact fun e ↦ hj (e ▸ hi)

end Settling

end BridgeSearch

end ConceptAtlas
