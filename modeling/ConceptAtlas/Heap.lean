/-!
# Binary heaps

A heap is an array in which the entry at position `i` does not come after those at `2i + 1` and `2i
+ 2`. `push` lets a new entry rise from the end. `pop?` takes the first entry away, puts the last
one in its place, lets it sink to a leaf along the smaller children and rise from there. Both only
swap entries.
-/

namespace ConceptAtlas.Heap

variable {α : Type} (before : α → α → Bool)

/-- Lets the entry at a position rise while it comes before the one above it. -/
def rise (a : Array α) (i : Nat) (h : i < a.size) : Array α :=
  if i = 0 then a
  else
    if before a[i] a[(i - 1) / 2] then
      rise (a.swap i ((i - 1) / 2)) ((i - 1) / 2) (by rw [Array.size_swap]; omega)
    else a
termination_by i
decreasing_by omega

/-- Lets the entry at a position sink to a leaf, at each step under the child that comes first, and
then rise. Of two children neither of which comes first the right one is taken. -/
def sink (a : Array α) (i : Nat) (h : i < a.size) : Array α :=
  if hl : 2 * i + 1 < a.size then
    if hr : 2 * i + 2 < a.size then
      if before a[2 * i + 1] a[2 * i + 2] then
        sink (a.swap i (2 * i + 1)) (2 * i + 1) (by rw [Array.size_swap]; exact hl)
      else sink (a.swap i (2 * i + 2)) (2 * i + 2) (by rw [Array.size_swap]; exact hr)
    else sink (a.swap i (2 * i + 1)) (2 * i + 1) (by rw [Array.size_swap]; exact hl)
  else rise before a i h
termination_by a.size - i
decreasing_by all_goals rw [Array.size_swap]; omega

/-- The heap with one more entry. -/
def push (a : Array α) (x : α) : Array α :=
  rise before (a.push x) a.size (by rw [Array.size_push]; omega)

/-- Where there is a first position there is a last one. -/
theorem last_lt {a : Array α} (h : 0 < a.size) : a.size - 1 < a.size := Nat.sub_one_lt_of_lt h

/-- The first entry and the heap without it. -/
def pop? (a : Array α) : Option (α × Array α) :=
  if h : 0 < a.size then
    let rest := (a.swap 0 (a.size - 1) h (last_lt h)).pop
    if hr : 0 < rest.size then some (a[0], sink before rest 0 hr) else some (a[0], rest)
  else none

theorem rise_perm (a : Array α) (i : Nat) (h : i < a.size) : (rise before a i h).Perm a := by
  fun_induction rise before a i h with
  | case1 => exact .refl _
  | case2 a i h _ _ ih => exact ih.trans (Array.swap_perm _ _)
  | case3 => exact .refl _

theorem sink_perm (a : Array α) (i : Nat) (h : i < a.size) : (sink before a i h).Perm a := by
  fun_induction sink before a i h with
  | case1 a i h hl hr hb ih => exact ih.trans (Array.swap_perm _ _)
  | case2 a i h hl hr hb ih => exact ih.trans (Array.swap_perm _ _)
  | case3 a i h hl hr ih => exact ih.trans (Array.swap_perm _ _)
  | case4 a i h hl => exact rise_perm before a i h

/-- Pushing adds one entry and loses none. -/
theorem push_perm (a : Array α) (x : α) : (push before a x).Perm (a.push x) :=
  rise_perm before _ _ _

@[simp]
theorem size_push (a : Array α) (x : α) : (push before a x).size = a.size + 1 := by
  rw [(push_perm before a x).size_eq, Array.size_push]

/-- Taking the first entry away leaves one entry less. -/
theorem size_of_pop? {a rest : Array α} {x : α} (h : pop? before a = some (x, rest)) :
    rest.size + 1 = a.size := by
  rw [pop?] at h
  split at h
  · rename_i hpos
    have hsize : (a.swap 0 (a.size - 1) hpos (last_lt hpos)).pop.size + 1 = a.size := by
      rw [Array.size_pop, Array.size_swap]
      omega
    simp only at h
    split at h
    · cases h
      rw [(sink_perm before _ 0 _).size_eq, hsize]
    · cases h
      exact hsize
  · cases h

end ConceptAtlas.Heap
