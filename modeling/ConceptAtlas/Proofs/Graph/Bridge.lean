import ConceptAtlas.Proofs.Graph.LowTime

/-!
# Bridges

The search for bridges finds the edges whose removal leaves more components, and no others
(`Graph.bridges_exact`).

A step skips the edge that led to a node, looks at an edge to a known node, enters a new one, leaves
a node or finishes a tree, and each keeps what `Holds` says (`exists_step`). It also finds all that
it looks up: a node on the path has a time and a low time, and the other end of an edge is a node of
the graph. What holds when the path is empty is the result for the trees that are done with: no edge
leads out of them, and of all their edges it is settled whether they are bridges.
-/

namespace ConceptAtlas

variable {W : Type} {g : Graph W}

namespace BridgeSearch

variable {ends : EdgeEnds} {s t : BridgeSearch} {base hi i : Nat} {x y : String}
  {above : Option Nat}

/-! ### Entering a node -/

section Enter

variable {f : Frame}

theorem Dated.enter (h : s.Dated) (f : Frame) : (s.enter f).Dated where
  lt {x n} hx := by
    rw [BridgeSearch.enter, Assoc.find?_put] at hx
    split at hx
    · cases hx
      exact Nat.lt_succ_self _
    · exact (h.lt hx).trans (Nat.lt_succ_self _)
  inj {x y n} hx hy := by
    rw [BridgeSearch.enter, Assoc.find?_put] at hx hy
    split at hx <;> split at hy <;> rename_i hfx hfy
    · rw [← eq_of_beq hfx, eq_of_beq hfy]
    · cases hx
      exact absurd (h.lt hy) (Nat.lt_irrefl _)
    · cases hy
      exact absurd (h.lt hx) (Nat.lt_irrefl _)
    · exact h.inj hx hy

theorem time_enter_self (s : BridgeSearch) (f : Frame) : (s.enter f).time f.node = s.timer :=
  time_of_find? (Assoc.find?_put_self ..)

theorem later_enter (hnew : Assoc.find? f.node s.discovery = none) : Later s (s.enter f) where
  time {x} hx := by
    have hfind := find?_of_time_lt hx
    have hne : f.node ≠ x := fun e ↦ by
      rw [← e, hnew] at hfind
      nomatch hfind
    exact time_of_find? ((Assoc.find?_put_of_ne hne ..).trans hfind)
  new {x} hx := by
    by_cases hne : f.node = x
    · rw [← hne, time_enter_self]
    · have hsame : Assoc.find? x (s.enter f).discovery = Assoc.find? x s.discovery :=
        Assoc.find?_put_of_ne hne ..
      cases hfind : Assoc.find? x s.discovery with
      | none =>
        rw [time_of_find?_eq_none (hsame.trans hfind)]
        exact Nat.le_succ _
      | some n =>
        rw [time_of_find? hfind] at hx
        rwa [time_of_find? (hsame.trans hfind)]
  timer := Nat.le_succ _
  bridges := List.Subset.refl _

/-- Nothing but a new node has been found since it was. -/
theorem eq_of_since_enter (h : s.Dated) (hx : (s.enter f).Since f.node (s.timer + 1) x) :
    x = f.node := by
  have htime := time_enter_self s f
  refine ((h.enter f).time_inj ?_ ?_).symm
  · rw [htime]
    exact Nat.lt_succ_self _
  · have hx := hx
    rw [Since, htime] at hx
    omega

/-- What holds of a new node: all its edge ends are to be looked at. -/
theorem Frame.Holds.enter (h : s.Dated) (hends : ends.Of g)
    (hf : Assoc.find? f.node ends = some f.rest) :
    f.Holds g (s.enter f) (s.timer + 1) none where
  early := by
    rw [time_enter_self]
    exact Nat.lt_succ_self _
  rest hy := hends.lists.1 ⟨_, hf, hy⟩
  left hfx hx := by
    rw [time_enter_self] at hfx
    omega
  looked {y i} hjoins := by
    by_cases hne : f.node = y
    · refine .inr (.inr ⟨?_, .inr (.inr (Graph.not_isBridge hjoins ?_))⟩)
      · rw [← hne, time_enter_self]
        exact Nat.lt_succ_self _
      · rw [hne]
        exact .refl
    · obtain ⟨rest, hrest, hmem⟩ := hends.lists.2 ⟨hjoins, hne⟩
      rw [hf] at hrest
      cases hrest
      exact .inl hmem
  hangs hx := by
    rw [eq_of_since_enter h hx]
    exact .refl

theorem Frame.Low.enter (h : s.Dated) (hends : ends.Of g)
    (hf : Assoc.find? f.node ends = some f.rest) :
    f.Low g (s.enter f) (s.timer + 1) s.timer where
  le := by rw [time_enter_self]
  attained := .inl (by rw [time_enter_self])
  least {x y i} hjoins hx hy := by
    obtain rfl := eq_of_since_enter h hx
    refine .inr (.inr ⟨rfl, ?_⟩)
    obtain ⟨rest, hrest, hmem⟩ := hends.lists.2 ⟨hjoins, fun e ↦ by
      rw [e] at hy
      exact Nat.lt_irrefl _ hy⟩
    rw [hf] at hrest
    cases hrest
    exact hmem

end Enter

/-! ### Looking at an edge end -/

section Look

variable {f : Frame} {z : String × Nat} {rest : List (String × Nat)} {low : Nat}

/-- One edge end fewer is left when the edge is the one that led to the node or the one that leads
on, or was settled. -/
theorem Frame.Holds.look (hf : f.Holds g s hi none) (hrest : f.rest = z :: rest)
    (hz : f.arrival = some z.2 ∨ s.time z.1 < s.timer ∧ (above = some z.2 ∨ s.Decides g z.2)) :
    { f with rest }.Holds g s hi above where
  early := hf.early
  rest hy := hf.rest (hrest ▸ List.mem_cons_of_mem _ hy)
  left := hf.left
  looked {y i} hjoins := by
    rcases hf.looked hjoins with hmem | hi | ⟨hy, habove | hd⟩
    · rw [hrest] at hmem
      rcases List.mem_cons.1 hmem with rfl | hmem
      · exact .inr hz
      · exact .inl hmem
    · exact .inr (.inl hi)
    · nomatch habove
    · exact .inr (.inr ⟨hy, .inr hd⟩)
  hangs := hf.hangs

theorem Frame.Low.look (hf : f.Low g s hi low) (hrest : f.rest = z :: rest)
    (hz : f.arrival = some z.2 ∨ s.time f.node ≤ s.time z.1 ∨ low ≤ s.time z.1) :
    { f with rest }.Low g s hi low where
  le := hf.le
  attained := hf.attained
  least {x y i} hjoins hx hy := by
    rcases hf.least hjoins hx hy with hle | hi | ⟨rfl, hmem⟩
    · exact .inl hle
    · exact .inr (.inl hi)
    · rw [hrest] at hmem
      rcases List.mem_cons.1 hmem with rfl | hmem
      · rcases hz with hi | hge | hle
        · exact .inr (.inl hi)
        · exact absurd hy (Nat.not_lt_of_le hge)
        · exact .inl hle
      · exact .inr (.inr ⟨rfl, hmem⟩)

/-- A low time becomes the time of a node that an edge leads to, if that is earlier. -/
theorem Frame.Low.lower (hf : f.Low g s hi low) (hjoins : g.Joins i x y)
    (hx : s.Since f.node hi x) (harrival : f.arrival ≠ some i) :
    f.Low g s hi (min low (s.time y)) where
  le := (Nat.min_le_left _ _).trans hf.le
  attained := by
    rcases Nat.le_total low (s.time y) with hle | hge
    · rw [Nat.min_eq_left hle]
      exact hf.attained
    · exact .inr ⟨x, y, i, hjoins, harrival, hx, (Nat.min_eq_right hge).symm⟩
  least hjoins hx hy := (hf.least hjoins hx hy).imp_left (Nat.min_le_left _ _).trans

end Look

/-! ### Leaving a node -/

section Leave

variable {f p : Frame} {low lowF lowP : Nat}

/-- What was found since a node that is left counts as found since the node below. -/
theorem Frame.Holds.leave (hp : p.Holds g s (s.time f.node) f.arrival)
    (hf : f.Holds g s s.timer none) (hdated : s.Dated) (hrest : f.rest = [])
    (hlow : f.Low g s s.timer low) (hi : f.arrival = some i) (hlink : g.Joins i p.node f.node)
    (hd : s.Decides g i) : p.Holds g s s.timer none where
  early := hp.early.trans hf.early
  rest := hp.rest
  left {x y j} hpx hx hjoins := by
    rcases Nat.lt_or_ge (s.time x) (s.time f.node) with hlt | hge
    · obtain ⟨hy, hdecides⟩ := hp.left hpx hlt hjoins
      exact ⟨hy.trans hf.early, hdecides⟩
    · by_cases hj : j = i
      · subst hj
        refine ⟨?_, hd⟩
        rcases hlink.eq_or_eq hjoins with ⟨-, rfl⟩ | ⟨-, rfl⟩
        · exact hf.early
        · exact hp.early.trans hf.early
      · have harrival : f.arrival ≠ some j := fun e ↦ hj (Option.some.inj (e.symm.trans hi))
        obtain ⟨hy, hdecides, -⟩ := hf.decides hdated hrest hlow hjoins ⟨hge, hx⟩ harrival
        exact ⟨hy, hdecides⟩
  looked {y j} hjoins := by
    rcases hp.looked hjoins with hmem | hj | ⟨hy, hj | hdecides⟩
    · exact .inl hmem
    · exact .inr (.inl hj)
    · obtain rfl : j = i := Option.some.inj (hj.symm.trans hi)
      exact .inr (.inr ⟨hy, .inr hd⟩)
    · exact .inr (.inr ⟨hy, .inr hdecides⟩)
  hangs {x} hx := by
    have hf' : s.Since p.node s.timer f.node := ⟨hp.early.le, hf.early⟩
    rcases Nat.lt_or_ge (s.time x) (s.time f.node) with hlt | hge
    · exact (hp.hangs ⟨hx.1, hlt⟩).mono fun _ hz ↦ ⟨hz.1, hz.2.trans hf.early⟩
    · refine .head ⟨⟨Nat.le_refl _, hp.early.trans hf.early⟩, hf', i, hlink⟩ ?_
      exact (hf.hangs ⟨hge, hx.2⟩).mono fun _ hz ↦ ⟨hp.early.le.trans hz.1, hz.2⟩

/-- The low time of the node that is left is taken over by the node below. -/
theorem Frame.Low.leave (hp : p.Low g s (s.time f.node) lowP) (hf : f.Low g s s.timer lowF)
    (hrest : f.rest = []) (hpf : s.time p.node < s.time f.node) (hft : s.time f.node < s.timer)
    (hi : f.arrival = some i) (hlink : g.Joins i p.node f.node)
    (harrival : ∀ j, p.arrival = some j → ∃ q, g.Joins j q p.node ∧ s.time q < s.time p.node) :
    p.Low g s s.timer (min lowP lowF) where
  le := (Nat.min_le_left _ _).trans hp.le
  attained := by
    rcases Nat.lt_or_ge lowF lowP with hlt | hge
    · rw [Nat.min_eq_right hlt.le]
      have hlowF : lowF < s.time f.node := hlt.trans_le (hp.le.trans hpf.le)
      obtain ⟨x, y, j, hjoins, -, hx, hy⟩ := hf.attained.resolve_left hlowF.ne
      refine .inr ⟨x, y, j, hjoins, fun hj ↦ ?_, ⟨hpf.le.trans hx.1, hx.2⟩, hy⟩
      -- The edge that led to the node below has no end that was found since the node above it.
      obtain ⟨q, hq, hqp⟩ := harrival j hj
      rcases hq.eq_or_eq hjoins with ⟨rfl, -⟩ | ⟨rfl, -⟩
      · exact Nat.not_lt_of_le hx.1 (hqp.trans hpf)
      · exact Nat.not_lt_of_le hx.1 hpf
    · rw [Nat.min_eq_left hge]
      refine hp.attained.imp_right ?_
      rintro ⟨x, y, j, hjoins, hj, hx, hy⟩
      exact ⟨x, y, j, hjoins, hj, ⟨hx.1, hx.2.trans hft⟩, hy⟩
  least {x y j} hjoins hx hy := by
    rcases Nat.lt_or_ge (s.time x) (s.time f.node) with hlt | hge
    · exact (hp.least hjoins ⟨hx.1, hlt⟩ hy).imp_left (Nat.min_le_left _ _).trans
    · rcases hf.least hjoins ⟨hge, hx.2⟩ (hy.trans hpf) with hle | hj | ⟨-, hmem⟩
      · exact .inl ((Nat.min_le_right _ _).trans hle)
      · obtain rfl : i = j := Option.some.inj (hi.symm.trans hj)
        rcases hlink.eq_or_eq hjoins with ⟨-, rfl⟩ | ⟨-, rfl⟩
        · exact absurd (hy.trans hpf) (Nat.lt_irrefl _)
        · exact absurd hy (Nat.lt_irrefl _)
      · nomatch hrest ▸ hmem

/-- The edge that led to a node on the path is one from a node discovered before. -/
theorem Chained.arrival {below : List Frame} (h : s.Chained g base hi above (p :: below))
    (harrival : p.arrival = some i) : ∃ q, g.Joins i q p.node ∧ s.time q < s.time p.node := by
  obtain ⟨-, -, hlink, hbelow⟩ := h
  cases below with
  | nil => nomatch hbelow.2.symm.trans harrival
  | cons q below =>
    obtain ⟨j, hj, hjoins⟩ := hlink q rfl
    obtain rfl : j = i := Option.some.inj (hj.symm.trans harrival)
    exact ⟨q.node, hjoins, hbelow.1.early⟩

end Leave

/-! ### Steps -/

section Step

variable {f p : Frame} {below : List Frame} {z : String × Nat} {rest : List (String × Nat)}

/-- What a later state has to bring along to hold as well. -/
theorem Holds.of_later (h : s.Holds g base) (hst : Later s t) (hdated : t.Dated)
    (hpath : t.Chained g base t.timer none t.path) (hbridges : ∀ i ∈ t.bridges, g.IsBridge i)
    (hnodup : t.bridges.Nodup) : t.Holds g base where
  dated := hdated
  before hx hjoins := by
    have hbase := h.path.base_le
    obtain ⟨hy, hdecides⟩ := h.before ((hst.time_lt_iff hbase).1 hx) hjoins
    exact ⟨(hst.time_lt_iff hbase).2 hy, hdecides.later hst⟩
  path := hpath
  bridges := hbridges
  nodup := hnodup

/-- The edge that led to a node is not followed back. -/
theorem Holds.skip (h : s.Holds g base) (hpath : s.path = f :: below) (hrest : f.rest = z :: rest)
    (hz : f.arrival = some z.2) : Holds g base { s with path := { f with rest } :: below } := by
  have hst : Later s { s with path := { f with rest } :: below } :=
    .of_discovery rfl rfl (List.Subset.refl _)
  obtain ⟨hf, ⟨low, hfind, hlow⟩, hlink, hbelow⟩ := h.chained hpath
  refine h.of_later hst ⟨h.dated.lt, h.dated.inj⟩ ?_ h.bridges h.nodup
  refine ⟨(hf.look hrest (.inl hz)).later hst (Nat.le_refl _), ⟨low, hfind, ?_⟩, hlink, ?_⟩
  · exact (hlow.look hrest (.inl hz)).later hst (Nat.le_refl _) hf.early
  · exact hbelow.later hst hf.early.le fun _ _ ↦ rfl

/-- An edge to a known node may lower the low time. -/
theorem Holds.known (h : s.Holds g base) (hpath : s.path = f :: below) (hrest : f.rest = z :: rest)
    (hz : f.arrival ≠ some z.2) {low n : Nat} (hlow : Assoc.find? f.node s.low = some low)
    (hn : Assoc.find? z.1 s.discovery = some n) :
    Holds g base { s with
      path := { f with rest } :: below, low := Assoc.put f.node (min low n) s.low } := by
  have hst : Later s { s with
      path := { f with rest } :: below, low := Assoc.put f.node (min low n) s.low } :=
    .of_discovery rfl rfl (List.Subset.refl _)
  obtain ⟨hf, ⟨low', hfind, hmin⟩, hlink, hbelow⟩ := h.chained hpath
  obtain rfl : low' = low := Option.some.inj (hfind.symm.trans hlow)
  obtain ⟨hjoins, hne⟩ := hf.rest (hrest ▸ List.mem_cons_self)
  have htime : s.time z.1 = n := time_of_find? hn
  have hknown : s.time z.1 < s.timer := htime.trans_lt (h.dated.lt hn)
  have hdecides := h.decides_of_known hpath hjoins hne hz hknown
  have hlower := (hmin.lower hjoins ⟨Nat.le_refl _, hf.early⟩ hz).look hrest
    (.inr (.inr (Nat.min_le_right _ _)))
  rw [htime] at hlower
  refine h.of_later hst ⟨h.dated.lt, h.dated.inj⟩ ?_ h.bridges h.nodup
  refine ⟨(hf.look hrest (.inr ⟨hknown, .inr hdecides⟩)).later hst (Nat.le_refl _),
    ⟨min low' n, Assoc.find?_put_self .., hlower.later hst (Nat.le_refl _) hf.early⟩, hlink, ?_⟩
  exact hbelow.later hst hf.early.le fun x hx ↦ Assoc.find?_put_of_ne (fun e ↦ (e ▸ hx).ne rfl) ..

/-- An edge to a new node leads on. -/
theorem Holds.enter (h : s.Holds g base) (hends : ends.Of g) (hpath : s.path = f :: below)
    (hrest : f.rest = z :: rest) (hz : Assoc.find? z.1 s.discovery = none)
    {new : List (String × Nat)} (hnew : Assoc.find? z.1 ends = some new) :
    Holds g base (BridgeSearch.enter { s with path := { f with rest } :: below }
      ⟨z.1, some z.2, new⟩) := by
  have hdated : Dated { s with path := { f with rest } :: below } := ⟨h.dated.lt, h.dated.inj⟩
  have hsame : Later s { s with path := { f with rest } :: below } :=
    .of_discovery rfl rfl (List.Subset.refl _)
  have hst := hsame.trans (later_enter (f := ⟨z.1, some z.2, new⟩) hz)
  have htime := time_enter_self { s with path := { f with rest } :: below } ⟨z.1, some z.2, new⟩
  obtain ⟨hf, ⟨low, hfind, hlow⟩, hlink, hbelow⟩ := h.chained hpath
  obtain ⟨hjoins, -⟩ := hf.rest (hrest ▸ List.mem_cons_self)
  have hlowOf : ∀ x, s.time x < s.timer →
      Assoc.find? x (Assoc.put z.1 s.timer s.low) = Assoc.find? x s.low := by
    intro x hx
    refine Assoc.find?_put_of_ne (fun e ↦ ?_) ..
    rw [← e, time_of_find?_eq_none hz] at hx
    exact Nat.lt_irrefl _ hx
  have hf' := hf.later hst (Nat.le_refl _)
  have hlow' := hlow.later hst (Nat.le_refl _) hf.early
  refine h.of_later hst (hdated.enter _) ?_ h.bridges h.nodup
  refine ⟨.enter hdated hends hnew,
    ⟨s.timer, Assoc.find?_put_self .., .enter hdated hends hnew⟩, ?_, ?_⟩
  · rintro _ ⟨⟩
    exact ⟨z.2, rfl, hjoins⟩
  · rw [htime]
    refine ⟨hf'.look hrest (.inr ⟨?_, .inl rfl⟩), ⟨low, (hlowOf _ hf.early).trans hfind, ?_⟩,
      hlink, ?_⟩
    · rw [htime]
      exact Nat.lt_succ_self _
    · refine hlow'.look hrest (.inr (.inl ?_))
      rw [htime]
      exact hf'.early.le
    · have hbelow' := hbelow.later hst hf.early.le fun x hx ↦ hlowOf x (hx.trans hf.early)
      rwa [← hst.time hf.early] at hbelow'

/-- A node is left when it is settled whether the edge that led to it is a bridge. -/
theorem Holds.leave (h : s.Holds g base) (hpath : s.path = f :: p :: below) (hrest : f.rest = [])
    (hi : f.arrival = some i) {lowF lowP : Nat} (hlowF : Assoc.find? f.node s.low = some lowF)
    (hlowP : Assoc.find? p.node s.low = some lowP) {bridges : List Nat}
    (hsub : s.bridges ⊆ bridges) (hbridges : ∀ j ∈ bridges, g.IsBridge j)
    (hnodup : bridges.Nodup) (hd : i ∈ bridges ∨ ¬ g.IsBridge i) :
    Holds g base { s with
      path := p :: below, low := Assoc.put p.node (min lowP lowF) s.low, bridges } := by
  have hst : Later s { s with
      path := p :: below, low := Assoc.put p.node (min lowP lowF) s.low, bridges } :=
    .of_discovery rfl rfl hsub
  obtain ⟨hf, ⟨low, hfind, hminF⟩, hlink, hbelow⟩ := h.chained hpath
  obtain rfl : low = lowF := Option.some.inj (hfind.symm.trans hlowF)
  obtain ⟨a, ha, hjoins⟩ := hlink p rfl
  obtain rfl : a = i := Option.some.inj (ha.symm.trans hi)
  have harrival : ∀ j, p.arrival = some j → ∃ q, g.Joins j q p.node ∧ s.time q < s.time p.node :=
    fun _ ↦ hbelow.arrival
  obtain ⟨hp, ⟨low', hfind', hminP⟩, hlink', hbelow'⟩ := hbelow
  obtain rfl : low' = lowP := Option.some.inj (hfind'.symm.trans hlowP)
  refine h.of_later hst ⟨h.dated.lt, h.dated.inj⟩ ?_ hbridges hnodup
  refine ⟨?_, ⟨min low' low, Assoc.find?_put_self .., ?_⟩, hlink', ?_⟩
  · exact (hp.later hst hf.early.le).leave (hf.later hst (Nat.le_refl _))
      ⟨h.dated.lt, h.dated.inj⟩ hrest (hminF.later hst (Nat.le_refl _) hf.early) hi hjoins hd
  · exact (hminP.leave hminF hrest hp.early hf.early hi hjoins harrival).later hst
      (Nat.le_refl _) (hp.early.trans hf.early)
  · exact hbelow'.later hst (hp.early.trans hf.early).le fun x hx ↦
      Assoc.find?_put_of_ne (fun e ↦ (e ▸ hx).ne rfl) ..

/-- When the first node of a tree is left, the tree is done with. -/
theorem Holds.finish (h : s.Holds g base) (hpath : s.path = [f]) (hrest : f.rest = []) :
    Holds g s.timer { s with path := [] } where
  dated := ⟨h.dated.lt, h.dated.inj⟩
  before {x y i} hx hjoins := by
    obtain ⟨hf, ⟨low, -, hlow⟩, -, hbase, harrival⟩ := h.chained hpath
    rcases Nat.lt_or_ge (s.time x) base with hlt | hge
    · obtain ⟨hy, hdecides⟩ := h.before hlt hjoins
      exact ⟨hy.trans_le (hbase.symm.trans_le hf.early.le), hdecides⟩
    · have hne : f.arrival ≠ some i := fun e ↦ nomatch harrival.symm.trans e
      obtain ⟨hy, hdecides, -⟩ := hf.decides h.dated hrest hlow hjoins ⟨hbase.trans_le hge, hx⟩ hne
      exact ⟨hy, hdecides⟩
  path := ⟨rfl, rfl⟩
  bridges := h.bridges
  nodup := h.nodup

/-- **A step finds all that it looks up**, and what a search keeps holds after it. -/
theorem exists_step (h : s.Holds g base) (hends : ends.Of g) (hpath : s.path ≠ []) :
    ∃ t base', s.step ends = some t ∧ t.Holds g base' ∧ Later s t := by
  obtain ⟨f, below, hpath⟩ := List.exists_cons_of_ne_nil hpath
  obtain ⟨hf, ⟨low, hlow, hmin⟩, hlink, hbelow⟩ := h.chained hpath
  cases hrest : f.rest with
  | cons z rest =>
    obtain ⟨hjoins, -⟩ := hf.rest (hrest ▸ List.mem_cons_self)
    by_cases hz : f.arrival = some z.2
    · refine ⟨_, base, ?_, h.skip hpath hrest hz, .of_discovery rfl rfl (List.Subset.refl _)⟩
      simp only [step, hpath, hrest, look, if_pos hz]
    · cases hn : Assoc.find? z.1 s.discovery with
      | some n =>
        refine ⟨_, base, ?_, h.known hpath hrest hz hlow hn,
          .of_discovery rfl rfl (List.Subset.refl _)⟩
        simp [step, hpath, hrest, look, hz, hn, hlow]
      | none =>
        have hkey : z.1 ∈ ends.map Prod.fst := hends.keys ▸ hjoins.symm.left_mem
        obtain ⟨new, hnew⟩ := Assoc.exists_find?_of_mem hkey
        refine ⟨_, base, ?_, h.enter hends hpath hrest hn hnew, ?_⟩
        · simp [step, hpath, hrest, look, hz, hn, discover, hnew]
        · exact Later.trans (t := { s with path := { f with rest } :: below })
            (.of_discovery rfl rfl (List.Subset.refl _)) (later_enter (by exact hn))
  | nil =>
    cases below with
    | nil =>
      refine ⟨_, s.timer, ?_, h.finish hpath hrest, .of_discovery rfl rfl (List.Subset.refl _)⟩
      simp only [step, hpath, hrest]
    | cons p below =>
      obtain ⟨i, hi, hjoins⟩ := hlink p rfl
      obtain ⟨hp, ⟨lowP, hlowP, -⟩, -⟩ := hbelow
      have htime := find?_of_time_lt (hp.early.trans hf.early)
      by_cases hlt : s.time p.node < low
      · have hbridge := isBridge_of_lt hf h.dated hrest hmin hp hi hjoins hlt
        refine ⟨_, base, ?_, h.leave hpath hrest hi hlow hlowP (List.subset_insert i _) ?_
          h.nodup.insert (.inl List.mem_insert_self),
          .of_discovery rfl rfl (List.subset_insert _ _)⟩
        · simp [step, hpath, hrest, leave, hlow, hlowP, htime, hlt, hi]
        · intro j hj
          rcases List.mem_insert_iff.1 hj with rfl | hj
          · exact hbridge
          · exact h.bridges j hj
      · have hno := h.not_isBridge_of_le hpath hmin hi (Nat.le_of_not_lt hlt)
        refine ⟨_, base, ?_, h.leave hpath hrest hi hlow hlowP (List.Subset.refl _) h.bridges
          h.nodup (.inr hno), .of_discovery rfl rfl (List.Subset.refl _)⟩
        simp [step, hpath, hrest, leave, hlow, hlowP, htime, hlt]

end Step

/-! ### Runs -/

/-- A search runs until its path is empty. -/
theorem exists_run (h : s.Holds g base) (hends : ends.Of g) :
    ∃ t base', s.run ends = some t ∧ t.Holds g base' ∧ t.path = [] ∧ Later s t := by
  fun_induction run ends s generalizing base with
  | case1 s hpath => exact ⟨s, base, rfl, h, hpath, .refl s⟩
  | case2 s hpath hnone =>
    obtain ⟨t, base', ht, -⟩ := exists_step h hends hpath
    nomatch hnone.symm.trans ht
  | case3 s hpath t hsome ih =>
    obtain ⟨t', base', ht, hholds, hst⟩ := exists_step h hends hpath
    obtain rfl : t' = t := Option.some.inj (ht.symm.trans hsome)
    obtain ⟨u, base'', hu, hholds', hpath', hst'⟩ := ih hholds
    exact ⟨u, base'', hu, hholds', hpath', hst.trans hst'⟩

theorem holds_start (g : Graph W) : start.Holds g 0 where
  dated := ⟨nofun, nofun⟩
  before := nofun
  path := ⟨rfl, rfl⟩
  bridges := nofun
  nodup := List.nodup_nil

/-- A node that was not found before begins a tree of its own. -/
theorem Holds.enter_root (h : s.Holds g base) (hends : ends.Of g) (hpath : s.path = [])
    {id : String} (hid : Assoc.find? id s.discovery = none) {new : List (String × Nat)}
    (hnew : Assoc.find? id ends = some new) :
    (s.enter ⟨id, none, new⟩).Holds g base := by
  have hpath' : (s.enter ⟨id, none, new⟩).path = [⟨id, none, new⟩] := by
    rw [BridgeSearch.enter, hpath]
  refine h.of_later (later_enter hid) (h.dated.enter _) ?_ h.bridges h.nodup
  rw [hpath']
  refine ⟨.enter h.dated hends hnew,
    ⟨s.timer, Assoc.find?_put_self .., .enter h.dated hends hnew⟩, nofun, ?_, rfl⟩
  rw [time_enter_self]
  exact (h.chained hpath).1

/-- After its search a node has been found, and nothing is left to do. -/
theorem exists_explore (h : s.Holds g base) (hends : ends.Of g) (hpath : s.path = [])
    {id : String} (hid : id ∈ g.ids) :
    ∃ t base', s.explore ends id = some t ∧ t.Holds g base' ∧ t.path = [] ∧ Later s t ∧
      t.time id < t.timer := by
  cases hfind : Assoc.find? id s.discovery with
  | some n =>
    refine ⟨s, base, by simp [explore, hfind], h, hpath, .refl s, ?_⟩
    exact (time_of_find? hfind).trans_lt (h.dated.lt hfind)
  | none =>
    obtain ⟨new, hnew⟩ := Assoc.exists_find?_of_mem (hends.keys ▸ hid)
    obtain ⟨t, base', ht, hholds, hpath', hst⟩ :=
      exists_run (h.enter_root hends hpath hfind hnew) hends
    refine ⟨t, base', by simp [explore, hfind, discover, hnew, ht], hholds, hpath',
      (later_enter hfind).trans hst, ?_⟩
    have htime := time_enter_self s ⟨id, none, new⟩
    have hlt : s.timer < (s.enter ⟨id, none, new⟩).timer := Nat.lt_succ_self _
    rw [hst.time (htime.trans_lt hlt), htime]
    exact hlt.trans_le hst.timer

theorem exists_foldlM_explore {ids : List String} (h : s.Holds g base) (hends : ends.Of g)
    (hpath : s.path = []) (hids : ∀ id ∈ ids, id ∈ g.ids) :
    ∃ t base', ids.foldlM (explore ends) s = some t ∧ t.Holds g base' ∧ t.path = [] ∧ Later s t ∧
      ∀ id ∈ ids, t.time id < t.timer := by
  induction ids generalizing s base with
  | nil => exact ⟨s, base, rfl, h, hpath, .refl s, nofun⟩
  | cons id ids ih =>
    obtain ⟨hid, hids⟩ := List.forall_mem_cons.1 hids
    obtain ⟨t, base', ht, hholds, hpath', hst, htime⟩ := exists_explore h hends hpath hid
    obtain ⟨u, base'', hu, hholds', hpath'', hst', htimes⟩ := ih hholds hpath' hids
    refine ⟨u, base'', by simp [ht, hu], hholds', hpath'', hst.trans hst', ?_⟩
    refine List.forall_mem_cons.2 ⟨?_, htimes⟩
    rw [hst'.time htime]
    exact htime.trans_le hst'.timer

end BridgeSearch

namespace Graph

/-- The search ends with the bridges and nothing else. -/
theorem exists_search (g : Graph W) : ∃ ends s, EdgeEnds.ofGraph? g = some ends ∧
    g.ids.foldlM (BridgeSearch.explore ends) .start = some s ∧ s.bridges.Nodup ∧
      ∀ i, i ∈ s.bridges ↔ g.IsBridge i := by
  obtain ⟨ends, hends, hof⟩ := EdgeEnds.exists_ofGraph? g
  obtain ⟨s, base, hs, hholds, hpath, -, htimes⟩ := BridgeSearch.exists_foldlM_explore
    (BridgeSearch.holds_start g) hof rfl fun _ hid ↦ hid
  refine ⟨ends, s, hends, hs, hholds.nodup, fun i ↦ ⟨hholds.bridges i, fun hi ↦ ?_⟩⟩
  obtain ⟨u, v, hjoins, -⟩ := id hi
  have hu : s.time u < base := (hholds.chained hpath).1 ▸ htimes u hjoins.left_mem
  exact (hholds.before hu hjoins).2.resolve_right fun hno ↦ hno hi

/-- An edge of which there is another between the same nodes is no bridge, and neither is a loop. -/
theorem IsBridge.ne_of_joins {i j : Nat} {u v : String} (h : g.IsBridge i) (hi : g.Joins i u v) :
    u ≠ v ∧ (g.Joins j u v → j = i) := by
  refine ⟨fun e ↦ not_isBridge hi (e ▸ .refl) h, fun hj ↦ ?_⟩
  by_contra hne
  exact not_isBridge hi (.single ⟨j, hne, hj⟩) h

/-- Positions that are in range have their elements. -/
theorem exists_mapM_getElem? {α : Type} {xs : List α} {positions : List Nat}
    (h : ∀ i ∈ positions, i < xs.length) : ∃ ys, positions.mapM (xs[·]?) = some ys ∧
      ys.map some = positions.map (xs[·]?) := by
  induction positions with
  | nil => exact ⟨[], rfl, rfl⟩
  | cons i positions ih =>
    obtain ⟨hi, hpositions⟩ := List.forall_mem_cons.1 h
    obtain ⟨ys, hys, hmap⟩ := ih hpositions
    exact ⟨xs[i] :: ys, by simp [hi, hys], by simp [hi, hmap]⟩

/-- **Bridge detection is exact.** The search finds all that it looks up, and its answer has, in the
order of the edges and each once, the edges at the positions where taking the edge away leaves more
components. No loop is at such a position, and no edge that another one goes beside. -/
theorem bridges_exact (g : Graph W) : ∃ positions : List Nat,
    positions.Pairwise (· < ·) ∧
    (∀ i, i ∈ positions ↔
      g.componentCount g.edges < g.componentCount (g.edges.eraseIdx i)) ∧
    g.bridges? = some g.bridges ∧
    g.bridges.map some = positions.map (g.edges[·]?) ∧
    ∀ i ∈ positions, ∀ e, g.edges[i]? = some e → e.source ≠ e.target ∧
      ∀ j e', g.edges[j]? = some e' →
        (e'.source = e.source ∧ e'.target = e.target ∨
          e'.source = e.target ∧ e'.target = e.source) → j = i := by
  obtain ⟨ends, s, hends, hs, hnodup, hmem⟩ := exists_search g
  have hmem' : ∀ i, i ∈ s.bridges.mergeSort ↔ g.IsBridge i := fun i ↦
    List.mem_mergeSort.trans (hmem i)
  have hrange : ∀ i ∈ s.bridges.mergeSort, i < g.edges.length := by
    intro i hi
    obtain ⟨_, _, ⟨e, he, -⟩, -⟩ := (hmem' i).1 hi
    exact (List.getElem?_eq_some_iff.1 he).1
  obtain ⟨found, hfound, hmap⟩ := exists_mapM_getElem? hrange
  have hbridges? : g.bridges? = some found := by simp [bridges?, hends, hs, hfound]
  have hbridges : g.bridges = found := by rw [bridges, hbridges?, Option.getD_some]
  refine ⟨s.bridges.mergeSort, ?_, ?_, hbridges ▸ hbridges?, hbridges ▸ hmap, ?_⟩
  · have hle : s.bridges.mergeSort.Pairwise (· ≤ ·) := by
      simpa using List.pairwise_mergeSort' (· ≤ ·) s.bridges
    have hne : s.bridges.mergeSort.Nodup := (List.mergeSort_perm _ _).nodup_iff.2 hnodup
    exact (hle.and hne).imp fun h ↦ Nat.lt_of_le_of_ne h.1 h.2
  · exact fun i ↦ (hmem' i).trans (g.isBridge_iff_componentCount_lt i)
  · intro i hi e he
    have hjoins : g.Joins i e.source e.target := ⟨e, he, .inl ⟨rfl, rfl⟩⟩
    refine ⟨(((hmem' i).1 hi).ne_of_joins (j := i) hjoins).1, fun j e' hj hends ↦ ?_⟩
    exact (((hmem' i).1 hi).ne_of_joins hjoins).2 ⟨e', hj, hends⟩

end Graph

end ConceptAtlas
