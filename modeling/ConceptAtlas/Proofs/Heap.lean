import Mathlib.Logic.Equiv.Basic
import ConceptAtlas.Heap

/-!
# The order of a heap

A queue gives away an entry that no other comes before (`Ordered.of_pop?`). It does so because no
entry comes before the one above it (`Ordered`), which is a fact about neighbours, and every entry
is below the first one.

Both movements of an entry start from an array in which that entry alone may be out of place. One
that rises may be out of order with the entry above it (`Rising`), one that sinks with all its
neighbours (`Sinking`). In either case what is below the entry does not come before what is above
it, so the entry can leave its position to any of its neighbours. Sinking takes no notice of where
the entry belongs: it ends at a leaf, where all that is left to do is to rise.

What is said is said about positions (`After`). A swap of two entries is then a swap of two
positions (`after_swap`), whatever the entries are.
-/

namespace ConceptAtlas.Heap

variable {α : Type} {before : α → α → Bool} {a : Array α} {i j k : Nat}

/-! ### Positions -/

/-- An order that a heap can be kept in: of two entries at most one comes before the other, and what
does not come before an entry does not come before an earlier one. -/
structure Ranks (before : α → α → Bool) : Prop where
  asymm : ∀ {x y : α}, before x y = true → before y x = false
  trans : ∀ {x y z : α}, before y x = false → before z y = false → before z x = false

/-- The entry at one position does not come before the entry at another. -/
def After (before : α → α → Bool) (a : Array α) (j k : Nat) : Prop :=
  ∀ x y, a[j]? = some x → a[k]? = some y → before x y = false

theorem After.trans (hb : Ranks before) (hk : k < a.size) (hjk : After before a j k)
    (hki : After before a k i) : After before a j i := by
  intro x y hx hy
  have hmid : a[k]? = some a[k] := Array.getElem?_eq_getElem hk
  exact hb.trans (hki _ _ hmid hy) (hjk _ _ hx hmid)

theorem After.refl (hb : Ranks before) : After before a i i := by
  intro x y hx hy
  cases hx.symm.trans hy
  refine Bool.eq_false_iff.2 fun h ↦ ?_
  rw [hb.asymm h] at h
  cases h

theorem after_of_size_le (h : a.size ≤ j) : After before a j k := by
  intro x y hx
  rw [Array.getElem?_eq_none h] at hx
  cases hx

theorem after_of_before (hb : Ranks before) (hi : i < a.size) (hk : k < a.size)
    (h : before a[i] a[k] = true) : After before a k i := by
  intro x y hx hy
  cases (Array.getElem?_eq_getElem hi).symm.trans hy
  cases (Array.getElem?_eq_getElem hk).symm.trans hx
  exact hb.asymm h

theorem after_of_not_before (hi : i < a.size) (hk : k < a.size)
    (h : ¬ before a[i] a[k] = true) : After before a i k := by
  intro x y hx hy
  cases (Array.getElem?_eq_getElem hi).symm.trans hx
  cases (Array.getElem?_eq_getElem hk).symm.trans hy
  exact Bool.not_eq_true _ ▸ h

/-- Swapping two entries swaps what is said about their positions. -/
theorem after_swap (hi : i < a.size) (hk : k < a.size) {l m : Nat} :
    After before (a.swap i k) l m ↔
      After before a (Equiv.swap i k l) (Equiv.swap i k m) := by
  have hget : ∀ n, (a.swap i k)[n]? = a[Equiv.swap i k n]? := by
    intro n
    rw [Array.getElem?_swap]
    by_cases hnk : k = n
    · rw [if_pos hnk, ← hnk, Equiv.swap_apply_right, Array.getElem?_eq_getElem hi]
    · by_cases hni : i = n
      · rw [if_neg hnk, if_pos hni, ← hni, Equiv.swap_apply_left, Array.getElem?_eq_getElem hk]
      · rw [if_neg hnk, if_neg hni, Equiv.swap_apply_of_ne_of_ne (Ne.symm hni) (Ne.symm hnk)]
  rw [After, After, hget, hget]

/-! ### Rising and sinking -/

/-- No entry comes before the one above it. -/
def Ordered (before : α → α → Bool) (a : Array α) : Prop :=
  ∀ j, 0 < j → After before a j ((j - 1) / 2)

/-- A heap but for the entry at a position, which may come before the one above it. -/
structure Rising (before : α → α → Bool) (a : Array α) (i : Nat) : Prop where
  off : ∀ j, 0 < j → j ≠ i → After before a j ((j - 1) / 2)
  /-- What is under the position does not come before what is above it. -/
  under : 0 < i → ∀ j, 0 < j → (j - 1) / 2 = i → After before a j ((i - 1) / 2)

/-- A heap but for the entry at a position, which may stand in any order to those around it. -/
structure Sinking (before : α → α → Bool) (a : Array α) (i : Nat) : Prop where
  off : ∀ j, 0 < j → j ≠ i → (j - 1) / 2 ≠ i → After before a j ((j - 1) / 2)
  under : 0 < i → ∀ j, 0 < j → (j - 1) / 2 = i → After before a j ((i - 1) / 2)

/-- An entry that comes before the one above it changes places with it and goes on rising. -/
theorem Rising.swap (hb : Ranks before) (h : i < a.size) (hr : Rising before a i) (hi : 0 < i)
    (hup : before a[i] a[(i - 1) / 2] = true) :
    Rising before (a.swap i ((i - 1) / 2)) ((i - 1) / 2) := by
  have hp : (i - 1) / 2 < a.size := by omega
  have hdown : After before a ((i - 1) / 2) i := after_of_before hb h hp hup
  constructor
  · intro j hj hne
    rw [after_swap h hp]
    rcases Decidable.em (j = i) with rfl | hji
    · rwa [Equiv.swap_apply_left, Equiv.swap_apply_right]
    rw [Equiv.swap_apply_of_ne_of_ne hji hne]
    rcases Decidable.em ((j - 1) / 2 = i) with hpar | hpar
    · rw [hpar, Equiv.swap_apply_left]
      exact hr.under hi j hj hpar
    rcases Decidable.em ((j - 1) / 2 = (i - 1) / 2) with hsib | hsib
    · rw [hsib, Equiv.swap_apply_right]
      exact (hsib ▸ hr.off j hj hji).trans hb hp hdown
    · rw [Equiv.swap_apply_of_ne_of_ne hpar hsib]
      exact hr.off j hj hji
  · intro hpos j hj hpar
    have habove := hr.off ((i - 1) / 2) hpos (by omega)
    have hstay : Equiv.swap i ((i - 1) / 2) (((i - 1) / 2 - 1) / 2) = ((i - 1) / 2 - 1) / 2 :=
      Equiv.swap_apply_of_ne_of_ne (by omega) (by omega)
    rw [after_swap h hp, hstay]
    rcases Decidable.em (j = i) with rfl | hji
    · rwa [Equiv.swap_apply_left]
    · rw [Equiv.swap_apply_of_ne_of_ne hji (by omega)]
      exact (hpar ▸ hr.off j hj hji).trans hb hp habove

theorem Rising.ordered_rise (hb : Ranks before) (h : i < a.size) (hr : Rising before a i) :
    Ordered before (rise before a i h) := by
  fun_induction rise before a i h with
  | case1 a h => exact fun j hj ↦ hr.off j hj (Nat.ne_of_gt hj)
  | case2 a i h hi hup ih => exact ih (hr.swap hb h (Nat.pos_of_ne_zero hi) hup)
  | case3 a i h hi hup =>
    intro j hj
    rcases Decidable.em (j = i) with rfl | hji
    · exact after_of_not_before h (by omega) hup
    · exact hr.off j hj hji

/-- An entry that changes places with the child that comes first goes on sinking. -/
theorem Sinking.swap (h : i < a.size) (hs : Sinking before a i) {c : Nat} (hc : c < a.size)
    (hpos : 0 < c) (hparent : (c - 1) / 2 = i)
    (hfirst : ∀ j, 0 < j → (j - 1) / 2 = i → After before a j c) :
    Sinking before (a.swap i c) c where
  off j hj hne hpar := by
    rw [after_swap h hc]
    rcases Decidable.em (j = i) with rfl | hji
    · rw [Equiv.swap_apply_left, Equiv.swap_apply_of_ne_of_ne (by omega) hpar]
      exact hs.under hj c hpos hparent
    rw [Equiv.swap_apply_of_ne_of_ne hji hne]
    rcases Decidable.em ((j - 1) / 2 = i) with hsib | hsib
    · rw [hsib, Equiv.swap_apply_left]
      exact hfirst j hj hsib
    · rw [Equiv.swap_apply_of_ne_of_ne hsib hpar]
      exact hs.off j hj hji hsib
  under _ j hj hpar := by
    have hoff := hs.off j hj (by omega) (by omega)
    rw [after_swap h hc, hparent, Equiv.swap_apply_left,
      Equiv.swap_apply_of_ne_of_ne (by omega) (by omega)]
    exact hpar ▸ hoff

theorem Sinking.ordered_sink (hb : Ranks before) (h : i < a.size) (hs : Sinking before a i) :
    Ordered before (sink before a i h) := by
  fun_induction sink before a i h with
  | case1 a i h hl hr hleft ih =>
    refine ih (hs.swap h hl (by omega) (by omega) fun j hj hpar ↦ ?_)
    obtain rfl | rfl : j = 2 * i + 1 ∨ j = 2 * i + 2 := by omega
    · exact .refl hb
    · exact after_of_before hb hl hr hleft
  | case2 a i h hl hr hleft ih =>
    refine ih (hs.swap h hr (by omega) (by omega) fun j hj hpar ↦ ?_)
    obtain rfl | rfl : j = 2 * i + 1 ∨ j = 2 * i + 2 := by omega
    · exact after_of_not_before hl hr hleft
    · exact .refl hb
  | case3 a i h hl hr ih =>
    refine ih (hs.swap h hl (by omega) (by omega) fun j hj hpar ↦ ?_)
    obtain rfl | rfl : j = 2 * i + 1 ∨ j = 2 * i + 2 := by omega
    · exact .refl hb
    · exact after_of_size_le (by omega)
  | case4 a i h hl =>
    -- At a leaf nothing is below, so only the entry above can be out of order.
    refine Rising.ordered_rise hb h ⟨fun j hj hji ↦ ?_, hs.under⟩
    rcases Decidable.em ((j - 1) / 2 = i) with hpar | hpar
    · exact after_of_size_le (by omega)
    · exact hs.off j hj hji hpar

/-! ### Queues -/

theorem Ordered.push (hb : Ranks before) (ho : Ordered before a) (x : α) :
    Ordered before (push before a x) := by
  refine Rising.ordered_rise hb _ ⟨fun j hj hne y z hy hz ↦ ?_, fun _ j hj hpar ↦ ?_⟩
  · have hlt : j < (a.push x).size := (Array.getElem?_eq_some_iff.1 hy).1
    rw [Array.size_push] at hlt
    rw [Array.getElem?_push, if_neg (by omega)] at hy hz
    exact ho j hj y z hy hz
  · exact after_of_size_le (by rw [Array.size_push]; omega)

/-- No entry comes before the first one. -/
theorem Ordered.after_zero (hb : Ranks before) (ho : Ordered before a) (j : Nat) :
    After before a j 0 := by
  induction j using Nat.strongRecOn with
  | ind j ih =>
    rcases Nat.eq_zero_or_pos j with rfl | hj
    · exact .refl hb
    · rcases Nat.lt_or_ge j a.size with hlt | hge
      · exact (ho j hj).trans hb (by omega) (ih _ (by omega))
      · exact after_of_size_le hge

/-- What is left when the first entry has changed places with the last one and is taken away. -/
theorem Ordered.sinking_pop (ho : Ordered before a) (hpos : 0 < a.size) :
    Sinking before (a.swap 0 (a.size - 1) hpos (last_lt hpos)).pop 0 where
  off j hj hne hpar := by
    have hsame : ∀ {k x}, 0 < k →
        (a.swap 0 (a.size - 1) hpos (last_lt hpos)).pop[k]? = some x → a[k]? = some x := by
      intro k x hk hx
      have hlt : k < a.size - 1 := by
        have h := (Array.getElem?_eq_some_iff.1 hx).1
        rwa [Array.size_pop, Array.size_swap] at h
      rwa [Array.getElem?_pop, Array.size_swap, if_pos hlt, Array.getElem?_swap,
        if_neg (by omega), if_neg (by omega)] at hx
    intro x y hx hy
    exact ho j hj x y (hsame hj hx) (hsame (Nat.pos_of_ne_zero hpar) hy)
  under h := absurd h (Nat.lt_irrefl 0)

theorem push_pop_swap (hpos : 0 < a.size) :
    (a.swap 0 (a.size - 1) hpos (last_lt hpos)).pop.push a[0] =
      a.swap 0 (a.size - 1) hpos (last_lt hpos) := by
  ext i h₁ h₂
  · rw [Array.size_push, Array.size_pop, Array.size_swap]
    omega
  · rw [Array.getElem_push]
    split
    · rw [Array.getElem_pop]
    · next hlast =>
      rw [Array.size_pop, Array.size_swap] at hlast
      rw [Array.size_swap] at h₂
      have hi : i = a.size - 1 := by omega
      subst hi
      rw [Array.getElem_swap_right]

/-- A queue gives away one entry and keeps the others. -/
theorem perm_of_pop? {x : α} {rest : Array α} (h : pop? before a = some (x, rest)) :
    (rest.push x).Perm a := by
  rw [pop?] at h
  split at h
  · rename_i hpos
    have hback : ((a.swap 0 (a.size - 1) hpos (last_lt hpos)).pop.push a[0]).Perm a := by
      rw [push_pop_swap hpos]
      exact Array.swap_perm ..
    simp only at h
    split at h
    · cases h
      exact ((sink_perm before _ 0 _).push a[0]).trans hback
    · cases h
      exact hback
  · cases h

/-- **A queue gives away an entry that no other comes before**, keeps the others and stays in
order. -/
theorem Ordered.of_pop? (hb : Ranks before) (ho : Ordered before a) {x : α} {rest : Array α}
    (h : pop? before a = some (x, rest)) :
    Ordered before rest ∧ (rest.push x).Perm a ∧ ∀ y ∈ a, before y x = false := by
  have hperm := perm_of_pop? h
  rw [pop?] at h
  split at h
  · rename_i hpos
    have hleast : ∀ y ∈ a, before y a[0] = false := by
      intro y hy
      obtain ⟨j, hj, rfl⟩ := Array.mem_iff_getElem.1 hy
      exact ho.after_zero hb j _ _ (Array.getElem?_eq_getElem hj) (Array.getElem?_eq_getElem hpos)
    simp only at h
    split at h
    · rename_i hr
      cases h
      exact ⟨(ho.sinking_pop hpos).ordered_sink hb hr, hperm, hleast⟩
    · rename_i hr
      cases h
      exact ⟨fun j hj ↦ after_of_size_le (by omega), hperm, hleast⟩
  · cases h

/-- A queue that gives nothing away is empty. -/
theorem pop?_eq_none_iff : pop? before a = none ↔ a.size = 0 := by
  rw [pop?]
  split
  · rename_i hpos
    simp only
    split <;> simp [Nat.ne_of_gt hpos]
  · rename_i hpos
    simp [Nat.le_zero.1 (Nat.not_lt.1 hpos)]

end ConceptAtlas.Heap
