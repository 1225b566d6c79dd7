import Mathlib.Data.Fintype.Card
import Mathlib.Data.Set.Finite.List
import Mathlib.Logic.Relation
import ConceptAtlas.Fault
import ConceptAtlas.Graph.Cycle

/-!
# Stripping and walking both find the cycles

A relation is cyclic if something leads back to itself (`Cyclic`). Two searches are held against
that here, and neither looks for a cycle as such.

* **Stripping** (`exists?_iff`). What is left at the end is the largest part in which everything is
  led to by something of the part (`Fed`). Such a part of finitely many things is empty, or it has a
  cycle: otherwise it would have a first thing, which nothing leads to.
* **Walking** (`exists_find?_eq_some`). What a walk leaves behind for good is closed under arcs and
  on no cycle (`Cleared`). So a walk that gets through all things without meeting its own path has
  shown that there is no cycle, and where there is one it comes back with it.

The fuel of a walk counts the things that were not seen yet (`unseen`). A call takes one unit of
fuel and sees one more thing, so fuel for all of them is never used up.
-/

namespace ConceptAtlas.Cycle

open Relation (TransGen)

variable {α : Type}

/-- Something leads back to itself, in one step or in many. -/
def Cyclic (r : α → α → Prop) : Prop := ∃ v, TransGen r v v

/-- One thing leads to another by an arc. -/
def Link (arcs : List (α × α)) (things : List α) (u v : α) : Prop :=
  (u, v) ∈ arcs ∧ u ∈ things ∧ v ∈ things

/-! ### What stripping leaves -/

/-- Everything in a set is led to by something in it. -/
def Fed (arcs : List (α × α)) (s : Set α) : Prop := ∀ v ∈ s, ∃ u ∈ s, (u, v) ∈ arcs

/-- The things on cycles lead to each other. -/
theorem fed_cyclic (arcs : List (α × α)) (things : List α) :
    Fed arcs {v | TransGen (Link arcs things) v v} := by
  intro v hv
  rcases TransGen.tail'_iff.1 hv with ⟨u, hvu, huv⟩
  refine ⟨u, ?_, huv.1⟩
  show TransGen (Link arcs things) u u
  exact TransGen.head' huv hvu

/-- A finite set in which everything is led to has a cycle, unless it is empty. -/
theorem Fed.cyclic {arcs : List (α × α)} {things : List α} {s : Set α} (h : Fed arcs s)
    (hs : ∀ v ∈ s, v ∈ things) (hne : s.Nonempty) : Cyclic (Link arcs things) := by
  by_contra hno
  have hfinite : Finite s := (things.finite_toSet.subset hs).to_subtype
  let leads : s → s → Prop := fun u v ↦ TransGen (Link arcs things) u v
  have htrans : IsTrans s leads := ⟨fun _ _ _ huv hvw ↦ TransGen.trans huv hvw⟩
  have hirrefl : Std.Irrefl leads := ⟨fun v hv ↦ hno ⟨v, hv⟩⟩
  -- What nothing of the set leads to would be first, and everything is led to.
  obtain ⟨first, -, hfirst⟩ := (Finite.wellFounded_of_trans_of_irrefl leads).has_min
    Set.univ (@Set.univ_nonempty _ hne.to_subtype)
  obtain ⟨u, hu, hlink⟩ := h first first.2
  refine hfirst ⟨u, hu⟩ trivial ?_
  exact TransGen.single ⟨hlink, hs u hu, hs first first.2⟩

section Strip

variable [BEq α] [LawfulBEq α] {arcs : List (α × α)}

theorem Fed.subset_strip {s : Set α} (h : Fed arcs s) {remaining : List α}
    (hs : ∀ v ∈ s, v ∈ remaining) : ∀ v ∈ s, v ∈ strip arcs remaining := by
  intro v hv
  obtain ⟨u, hu, huv⟩ := h v hv
  exact mem_strip.2 ⟨hs v hv, u, hs u hu, huv⟩

theorem Fed.subset_stripTimes {s : Set α} (h : Fed arcs s) (rounds : Nat) {remaining : List α}
    (hs : ∀ v ∈ s, v ∈ remaining) : ∀ v ∈ s, v ∈ stripTimes arcs rounds remaining := by
  induction rounds generalizing remaining with
  | zero => exact hs
  | succ rounds ih =>
    have hrest := h.subset_strip hs
    simp only [stripTimes]
    split
    · exact hrest
    · exact ih hrest

theorem mem_of_mem_stripTimes {rounds : Nat} {remaining : List α} {v : α}
    (hv : v ∈ stripTimes arcs rounds remaining) : v ∈ remaining := by
  induction rounds generalizing remaining with
  | zero => exact hv
  | succ rounds ih =>
    simp only [stripTimes] at hv
    split at hv
    · exact (mem_strip.1 hv).1
    · exact (mem_strip.1 (ih hv)).1

/-- A round that strips nothing has found a part in which everything is led to. -/
theorem fed_of_length_strip {remaining : List α}
    (h : (strip arcs remaining).length = remaining.length) : Fed arcs {v | v ∈ remaining} := by
  have hsame : strip arcs remaining = remaining := List.filter_sublist.eq_of_length h
  intro v hv
  obtain ⟨-, u, hu, huv⟩ := mem_strip.1 (hsame.symm ▸ hv : v ∈ strip arcs remaining)
  exact ⟨u, hu, huv⟩

/-- As many rounds as there are things are enough: each but the last strips one. -/
theorem fed_stripTimes {rounds : Nat} {remaining : List α} (h : remaining.length ≤ rounds) :
    Fed arcs {v | v ∈ stripTimes arcs rounds remaining} := by
  induction rounds generalizing remaining with
  | zero =>
    intro v hv
    rw [List.length_eq_zero_iff.1 (Nat.le_zero.1 h)] at hv
    nomatch hv
  | succ rounds ih =>
    have hle : (strip arcs remaining).length ≤ remaining.length := List.length_filter_le ..
    simp only [stripTimes]
    split
    · rename_i hlength
      have hsame : strip arcs remaining = remaining := List.filter_sublist.eq_of_length hlength
      rw [hsame]
      exact fed_of_length_strip hlength
    · exact ih (by omega)

/-- **Stripping tells whether there is a cycle.** -/
theorem exists?_iff {things : List α} : exists? arcs things = true ↔ Cyclic (Link arcs things) := by
  rw [exists?, Bool.not_eq_true', List.isEmpty_eq_false_iff_exists_mem]
  constructor
  · rintro ⟨v, hv⟩
    exact (fed_stripTimes (Nat.le_refl _)).cyclic (fun _ ↦ mem_of_mem_stripTimes) ⟨v, hv⟩
  · rintro ⟨v, hv⟩
    refine ⟨v, (fed_cyclic arcs things).subset_stripTimes _ (fun u hu ↦ ?_) v hv⟩
    obtain ⟨w, -, hwu⟩ := TransGen.tail'_iff.1 hu
    exact hwu.2.2

end Strip

/-! ### What a walk leaves behind -/

section Unseen

variable [BEq α]

/-- The things that were not seen yet. -/
def unseen (things seen : List α) : List α := things.filter fun x ↦ !seen.contains x

variable [LawfulBEq α] {things seen later : List α}

theorem mem_unseen {x : α} : x ∈ unseen things seen ↔ x ∈ things ∧ x ∉ seen := by
  simp [unseen]

theorem unseen_sublist (things : List α) (h : seen ⊆ later) :
    (unseen things later).Sublist (unseen things seen) := by
  refine List.monotone_filter_right _ fun x hx ↦ ?_
  rw [Bool.not_eq_true', Bool.eq_false_iff] at hx ⊢
  exact fun hm ↦ hx (List.contains_iff_mem.2 (h (List.contains_iff_mem.1 hm)))

/-- Seeing one more thing leaves fewer. -/
theorem length_unseen_concat_lt {w : α} (hw : w ∈ things) (hseen : w ∉ seen) :
    (unseen things (seen ++ [w])).length < (unseen things seen).length := by
  have hsub := unseen_sublist things (List.subset_append_left seen [w])
  refine Nat.lt_of_le_of_ne hsub.length_le fun hlength ↦ ?_
  have hmem : w ∈ unseen things (seen ++ [w]) := by
    rw [hsub.eq_of_length hlength]
    exact mem_unseen.2 ⟨hw, hseen⟩
  exact (mem_unseen.1 hmem).2 (List.mem_append_right _ (List.mem_singleton_self w))

end Unseen

/-- A set that no arc leaves and that is on no cycle. -/
structure Cleared (arcs : List (α × α)) (s : Set α) : Prop where
  closed : ∀ u ∈ s, ∀ v, (u, v) ∈ arcs → v ∈ s
  acyclic : ∀ u ∈ s, ¬ TransGen (fun u v ↦ (u, v) ∈ arcs) u u

namespace Cleared

variable {arcs : List (α × α)} {s : Set α}

theorem mem_of_transGen (h : Cleared arcs s) {u v : α} (hu : u ∈ s)
    (huv : TransGen (fun u v ↦ (u, v) ∈ arcs) u v) : v ∈ s := by
  induction huv with
  | single ha => exact h.closed u hu _ ha
  | tail _ ha ih => exact h.closed _ ih _ ha

/-- Something that leads to cleared things alone is cleared itself. -/
theorem insert (h : Cleared arcs s) {v : α} (hv : v ∉ s) (hnext : ∀ w, (v, w) ∈ arcs → w ∈ s) :
    Cleared arcs (Insert.insert v s) where
  closed u hu w hw := by
    rcases hu with rfl | hu
    · exact .inr (hnext w hw)
    · exact .inr (h.closed u hu w hw)
  acyclic u hu huu := by
    rcases hu with rfl | hu
    · -- The way back starts with a cleared thing, and those lead to cleared things only.
      obtain ⟨w, hw, hwu⟩ := TransGen.head'_iff.1 huu
      rcases Relation.reflTransGen_iff_eq_or_transGen.1 hwu with rfl | hwu
      · exact hv (hnext _ hw)
      · exact hv (h.mem_of_transGen (hnext w hw) hwu)
    · exact h.acyclic u hu huu

end Cleared

section Walk

variable [BEq α] [LawfulBEq α] {arcs : List (α × α)} {things : List α}

/-- What a walk does about one successor of the last thing of its path: it is on the path, it was
seen before, or the walk goes on from it. -/
def explore (arcs : List (α × α)) (fuel : Nat) (path seen : List α) (w : α) :
    Except (List α) (List α) :=
  if path.contains w then .error (path.dropWhile fun x ↦ !(x == w))
  else if seen.contains w then .ok seen
  else walk arcs fuel path (seen ++ [w]) w

omit [LawfulBEq α] in
theorem walk_succ (fuel : Nat) (path seen : List α) (v : α) :
    walk arcs (fuel + 1) path seen v =
      (successors arcs v).foldlM (explore arcs fuel (path ++ [v])) seen := rfl

omit [LawfulBEq α] in
/-- The search is a walk with an empty path to all things. -/
theorem find?_eq (things : List α) : find? arcs things =
    match things.foldlM (explore arcs things.length []) [] with
    | .ok _ => none
    | .error cycle => some cycle := rfl

/-- What was seen and is not on the path. -/
def behind (seen path : List α) : Set α := {x | x ∈ seen ∧ x ∉ path}

omit [BEq α] [LawfulBEq α] in
theorem mem_behind {seen path : List α} {x : α} : x ∈ behind seen path ↔ x ∈ seen ∧ x ∉ path :=
  Iff.rfl

/-- The successors of the last thing of a path that were explored without closing a cycle: all of
them were seen, none is on the path, and all that was left behind is cleared. -/
structure Explored (arcs : List (α × α)) (path seen after ws : List α) : Prop where
  grows : seen ⊆ after
  seen : ∀ w ∈ ws, w ∈ after
  off : ∀ w ∈ ws, w ∉ path
  cleared : Cleared arcs (behind after path)

namespace Explored

variable {path seen mid after ws : List α} {w : α}

omit [BEq α] [LawfulBEq α] in
theorem nil (h : Cleared arcs (behind seen path)) : Explored arcs path seen seen [] where
  grows := List.Subset.refl seen
  seen := nofun
  off := nofun
  cleared := h

omit [BEq α] [LawfulBEq α] in
/-- A thing that was seen before and is not on the path is cleared already. -/
theorem old (h : Cleared arcs (behind seen path)) (hpath : w ∉ path) (hseen : w ∈ seen) :
    Explored arcs path seen seen [w] where
  grows := List.Subset.refl seen
  seen := by simpa using hseen
  off := by simpa using hpath
  cleared := h

omit [BEq α] [LawfulBEq α] in
theorem cons (h : Explored arcs path seen mid [w]) (hws : Explored arcs path mid after ws) :
    Explored arcs path seen after (w :: ws) where
  grows := List.Subset.trans h.grows hws.grows
  seen := List.forall_mem_cons.2 ⟨hws.grows (h.seen w (List.mem_singleton_self w)), hws.seen⟩
  off := List.forall_mem_cons.2 ⟨h.off w (List.mem_singleton_self w), hws.off⟩
  cleared := hws.cleared

/-- When all successors of a thing are explored, it is left behind. -/
theorem leave (h : Explored arcs (path ++ [w]) (seen ++ [w]) after (successors arcs w))
    (hpath : w ∉ path) : Explored arcs path seen after [w] where
  grows := List.Subset.trans (List.subset_append_left seen [w]) h.grows
  seen := by simpa using h.grows (List.mem_append_right seen (List.mem_singleton_self w))
  off := by simpa using hpath
  cleared := by
    have hw : w ∈ after := h.grows (List.mem_append_right seen (List.mem_singleton_self w))
    have hbehind : behind after path = Insert.insert w (behind after (path ++ [w])) := by
      ext x
      rw [Set.mem_insert_iff, mem_behind, mem_behind, List.mem_append, List.mem_singleton, not_or]
      constructor
      · rintro ⟨hx, hxp⟩
        exact (Classical.em (x = w)).imp id fun hne ↦ ⟨hx, hxp, hne⟩
      · rintro (rfl | ⟨hx, hxp, -⟩)
        · exact ⟨hw, hpath⟩
        · exact ⟨hx, hxp⟩
    rw [hbehind]
    refine h.cleared.insert (fun hm ↦ hm.2 (by simp)) fun v hv ↦ ?_
    exact ⟨h.seen v (mem_successors.2 hv), h.off v (mem_successors.2 hv)⟩

end Explored

/-- With some fuel a walk that goes on from a new thing and comes back has explored it. -/
def Returns (arcs : List (α × α)) (things : List α) (fuel : Nat) : Prop :=
  ∀ {path seen after : List α} {w : α}, (unseen things seen).length ≤ fuel → w ∈ things →
    w ∉ seen → w ∉ path → path ⊆ seen → Cleared arcs (behind seen path) →
    walk arcs fuel path (seen ++ [w]) w = .ok after → Explored arcs path seen after [w]

theorem Returns.explored_of_foldlM {fuel : Nat} (hreturns : Returns arcs things fuel)
    {path seen after ws : List α} (hfuel : (unseen things seen).length ≤ fuel)
    (hws : ∀ w ∈ ws, w ∈ things) (hpath : path ⊆ seen) (h : Cleared arcs (behind seen path))
    (hok : ws.foldlM (explore arcs fuel path) seen = .ok after) :
    Explored arcs path seen after ws := by
  induction ws generalizing seen with
  | nil =>
    cases hok
    exact .nil h
  | cons w ws ih =>
    rw [List.forall_mem_cons] at hws
    obtain ⟨mid, hmid, hrest⟩ := bind_eq_ok.1 hok
    have hw : Explored arcs path seen mid [w] := by
      simp only [explore] at hmid
      split at hmid
      · nomatch hmid
      · rename_i hoff
        rw [List.contains_iff_mem] at hoff
        split at hmid
        · rename_i hseen
          cases hmid
          exact .old h hoff (List.contains_iff_mem.1 hseen)
        · rename_i hseen
          rw [List.contains_iff_mem] at hseen
          exact hreturns hfuel hws.1 hseen hoff hpath h hmid
    have hless := (unseen_sublist things hw.grows).length_le
    exact hw.cons (ih (by omega) hws.2 (List.Subset.trans hpath hw.grows) hw.cleared hrest)

/-- **Fuel for all unseen things is enough**: each call sees one more. -/
theorem returns (htargets : ∀ a ∈ arcs, a.2 ∈ things) (fuel : Nat) : Returns arcs things fuel := by
  induction fuel with
  | zero =>
    intro path seen after w hfuel hw hseen
    have hnil := List.length_eq_zero_iff.1 (Nat.le_zero.1 hfuel)
    nomatch hnil ▸ mem_unseen.2 ⟨hw, hseen⟩
  | succ fuel ih =>
    intro path seen after w hfuel hw hseen hoff hpath h hok
    have hless := length_unseen_concat_lt hw hseen
    have hbehind : behind (seen ++ [w]) (path ++ [w]) = behind seen path := by
      ext x
      rw [mem_behind, mem_behind, List.mem_append, List.mem_append, List.mem_singleton, not_or]
      constructor
      · rintro ⟨hx, hxp, hne⟩
        exact ⟨hx.resolve_right hne, hxp⟩
      · rintro ⟨hx, hxp⟩
        exact ⟨.inl hx, hxp, fun e ↦ hseen (e ▸ hx)⟩
    have hnext : ∀ v ∈ successors arcs w, v ∈ things := fun v hv ↦
      htargets (w, v) (mem_successors.1 hv)
    have hpath' : path ++ [w] ⊆ seen ++ [w] :=
      List.append_subset.2 ⟨List.subset_append_of_subset_left _ hpath, List.subset_append_right ..⟩
    rw [walk_succ] at hok
    exact (ih.explored_of_foldlM (by omega) hnext hpath' (hbehind ▸ h) hok).leave hoff

/-- **Where there is a cycle the walk comes back with one.** -/
theorem exists_find?_eq_some (htargets : ∀ a ∈ arcs, a.2 ∈ things)
    (h : Cyclic (Link arcs things)) : ∃ cycle, find? arcs things = some cycle := by
  rw [find?_eq]
  rcases hsearch : things.foldlM (explore arcs things.length []) [] with cycle | after
  · exact ⟨cycle, rfl⟩
  · have hnone : Cleared arcs (behind ([] : List α) []) := ⟨nofun, nofun⟩
    have hreturns : Returns arcs things things.length := returns htargets _
    have hall := hreturns.explored_of_foldlM (List.length_filter_le ..)
      (fun _ hw ↦ hw) (List.Subset.refl []) hnone hsearch
    obtain ⟨v, hv⟩ := h
    obtain ⟨u, hvu, -⟩ := TransGen.head'_iff.1 hv
    have hclear := hall.cleared.acyclic v ⟨hall.seen v hvu.2.1, List.not_mem_nil⟩
    exact absurd (TransGen.mono (fun _ _ hlink ↦ hlink.1) v v hv) hclear

end Walk

end ConceptAtlas.Cycle
