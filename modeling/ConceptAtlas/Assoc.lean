/-!
# Ordered associations

Lists of pairs that keep the order in which their keys first came. `put` replaces the value of a key
in place or appends a new pair, so a repeated key keeps its first position and takes its last value
(`keys_put_of_mem`, `keys_put_of_not_mem`, `find?_put`).
-/

namespace ConceptAtlas.Assoc

variable {κ : Type _} {β : Type _}

/-- Puts a value under a key, where `same` decides which keys are one. -/
def putBy (same : κ → κ → Bool) (k : κ) (v : β) : List (κ × β) → List (κ × β)
  | [] => [(k, v)]
  | p :: ps => if same p.1 k then (p.1, v) :: ps else p :: putBy same k v ps

/-- The value under the first key that is the same as `k`. -/
def findBy? (same : κ → κ → Bool) (k : κ) (ps : List (κ × β)) : Option β :=
  (ps.find? fun p ↦ same p.1 k).map Prod.snd

/-- The association that results from putting pairs one after the other. -/
def ofPairsBy (same : κ → κ → Bool) (ps : List (κ × β)) : List (κ × β) :=
  ps.foldl (fun acc p ↦ putBy same p.1 p.2 acc) []

theorem findBy?_cons (same : κ → κ → Bool) (k : κ) (p : κ × β) (ps : List (κ × β)) :
    findBy? same k (p :: ps) = if same p.1 k then some p.2 else findBy? same k ps := by
  by_cases h : same p.1 k <;> simp [findBy?, h]

theorem putBy_cons (same : κ → κ → Bool) (k : κ) (v : β) (p : κ × β) (ps : List (κ × β)) :
    putBy same k v (p :: ps) =
      if same p.1 k then (p.1, v) :: ps else p :: putBy same k v ps := rfl

/-- Putting under a key what is there changes nothing. -/
theorem putBy_of_findBy? {same : κ → κ → Bool} {k : κ} {v : β} {ps : List (κ × β)}
    (h : findBy? same k ps = some v) : putBy same k v ps = ps := by
  induction ps with
  | nil => nomatch h
  | cons p ps ih =>
    rw [findBy?_cons] at h
    rw [putBy_cons]
    split at h
    · rename_i hp
      cases h
      rw [if_pos hp]
    · rename_i hp
      rw [if_neg hp, ih h]

section BEq

variable [BEq κ]

/-- Puts a value under a key. -/
def put (k : κ) (v : β) (ps : List (κ × β)) : List (κ × β) := putBy (· == ·) k v ps

/-- The value under a key. -/
def find? (k : κ) (ps : List (κ × β)) : Option β := findBy? (· == ·) k ps

/-- Puts a value under a key that has none yet; a key that is there keeps its value. -/
def putNew (k : κ) (v : β) (ps : List (κ × β)) : List (κ × β) :=
  if (find? k ps).isSome then ps else put k v ps

/-- The association that results from putting pairs one after the other. -/
def ofPairs (ps : List (κ × β)) : List (κ × β) := ofPairsBy (· == ·) ps

/-- Counts one more occurrence of a key. -/
def count (k : κ) (ps : List (κ × Nat)) : List (κ × Nat) :=
  put k ((find? k ps).getD 0 + 1) ps

end BEq

section Lemmas

variable [BEq κ]

@[simp]
theorem find?_nil (k : κ) : find? k ([] : List (κ × β)) = none := rfl

theorem find?_cons (k : κ) (p : κ × β) (ps : List (κ × β)) :
    find? k (p :: ps) = if p.1 == k then some p.2 else find? k ps :=
  findBy?_cons (· == ·) k p ps

theorem put_cons (k : κ) (v : β) (p : κ × β) (ps : List (κ × β)) :
    put k v (p :: ps) = if p.1 == k then (p.1, v) :: ps else p :: put k v ps := rfl

variable [LawfulBEq κ]

/-- A key has the value that was put under it last. -/
theorem find?_put (k j : κ) (v : β) (ps : List (κ × β)) :
    find? j (put k v ps) = if k == j then some v else find? j ps := by
  induction ps with
  | nil => simp [put, putBy, find?_cons]
  | cons p ps ih =>
    rw [put_cons]
    by_cases hp : p.1 == k
    · obtain rfl : p.1 = k := eq_of_beq hp
      rw [if_pos hp, find?_cons, find?_cons]
      by_cases hj : p.1 == j <;> simp [hj]
    · rw [if_neg hp, find?_cons, find?_cons, ih]
      by_cases hj : p.1 == j
      · have hkj : ¬ k == j := fun h ↦
          hp (by rw [eq_of_beq hj, eq_of_beq h]; exact beq_self_eq_true j)
        simp [hj, hkj]
      · simp [hj]

@[simp]
theorem find?_put_self (k : κ) (v : β) (ps : List (κ × β)) : find? k (put k v ps) = some v := by
  rw [find?_put, if_pos (beq_self_eq_true k)]

theorem find?_put_of_ne {k j : κ} (h : k ≠ j) (v : β) (ps : List (κ × β)) :
    find? j (put k v ps) = find? j ps := by
  rw [find?_put, if_neg (mt eq_of_beq h)]

/-- Putting under a key that is there changes no key. -/
theorem keys_put_of_mem {k : κ} {ps : List (κ × β)} (h : k ∈ ps.map Prod.fst) (v : β) :
    (put k v ps).map Prod.fst = ps.map Prod.fst := by
  induction ps with
  | nil => simp at h
  | cons p ps ih =>
    rw [put_cons]
    by_cases hp : p.1 == k
    · rw [if_pos hp, List.map_cons, List.map_cons]
    · have hm : k ∈ ps.map Prod.fst := by
        rw [List.map_cons, List.mem_cons] at h
        exact h.resolve_left fun e ↦ hp (by rw [e]; exact beq_self_eq_true p.1)
      rw [if_neg hp, List.map_cons, List.map_cons, ih hm]

/-- Putting under a new key appends it. -/
theorem keys_put_of_not_mem {k : κ} {ps : List (κ × β)} (h : k ∉ ps.map Prod.fst) (v : β) :
    (put k v ps).map Prod.fst = ps.map Prod.fst ++ [k] := by
  induction ps with
  | nil => rfl
  | cons p ps ih =>
    rw [List.map_cons, List.mem_cons, not_or] at h
    have hp : ¬ p.1 == k := fun e ↦ h.1 (eq_of_beq e).symm
    rw [put_cons, if_neg hp, List.map_cons, ih h.2, List.map_cons, List.cons_append]

theorem find?_eq_none_iff {k : κ} {ps : List (κ × β)} :
    find? k ps = none ↔ k ∉ ps.map Prod.fst := by
  induction ps with
  | nil => simp
  | cons p ps ih =>
    rw [find?_cons, List.map_cons, List.mem_cons, not_or, ← ih]
    by_cases hp : p.1 == k
    · simp [eq_of_beq hp]
    · have hk : k ≠ p.1 := fun e ↦ hp (by rw [e]; exact beq_self_eq_true p.1)
      simp [hp, hk]

theorem exists_find?_of_mem {k : κ} {ps : List (κ × β)} (h : k ∈ ps.map Prod.fst) :
    ∃ v, find? k ps = some v :=
  Option.isSome_iff_exists.1 (Option.isSome_iff_ne_none.2 fun hno ↦ find?_eq_none_iff.1 hno h)

/-- Where keys do not repeat, every pair is found by its key. -/
theorem find?_of_mem {ps : List (κ × β)} (h : (ps.map Prod.fst).Nodup) {p : κ × β} (hp : p ∈ ps) :
    find? p.1 ps = some p.2 := by
  induction ps with
  | nil => nomatch hp
  | cons q qs ih =>
    rw [List.map_cons, List.nodup_cons] at h
    rw [find?_cons]
    rcases List.mem_cons.1 hp with rfl | hm
    · rw [if_pos (beq_self_eq_true _)]
    · have hne : ¬ q.1 == p.1 := fun e ↦ h.1 (eq_of_beq e ▸ List.mem_map_of_mem hm)
      rw [if_neg hne, ih h.2 hm]

/-- Where keys do not repeat, what is found under a key is paired with it. -/
theorem find?_eq_some_iff {ps : List (κ × β)} (h : (ps.map Prod.fst).Nodup) {k : κ} {v : β} :
    find? k ps = some v ↔ (k, v) ∈ ps := by
  constructor
  · intro hfind
    induction ps with
    | nil => cases hfind
    | cons p ps ih =>
      rw [find?_cons] at hfind
      split at hfind
      · rename_i hkey
        cases hfind
        exact eq_of_beq hkey ▸ List.mem_cons_self
      · rw [List.map_cons, List.nodup_cons] at h
        exact List.mem_cons_of_mem _ (ih h.2 hfind)
  · exact fun hp ↦ find?_of_mem h hp

/-- Putting under a new key appends the pair. -/
theorem put_of_not_mem {k : κ} {ps : List (κ × β)} (h : k ∉ ps.map Prod.fst) (v : β) :
    put k v ps = ps ++ [(k, v)] := by
  induction ps with
  | nil => rfl
  | cons p ps ih =>
    rw [List.map_cons, List.mem_cons, not_or] at h
    have hp : ¬ p.1 == k := fun e ↦ h.1 (eq_of_beq e).symm
    rw [put_cons, if_neg hp, ih h.2, List.cons_append]

theorem putNew_of_mem {k : κ} {ps : List (κ × β)} (h : k ∈ ps.map Prod.fst) (v : β) :
    putNew k v ps = ps := by
  rw [putNew, if_pos (Option.isSome_iff_exists.2 (exists_find?_of_mem h))]

theorem putNew_of_not_mem {k : κ} {ps : List (κ × β)} (h : k ∉ ps.map Prod.fst) (v : β) :
    putNew k v ps = ps ++ [(k, v)] := by
  rw [putNew, find?_eq_none_iff.2 h, Option.isSome_none, if_neg Bool.false_ne_true,
    put_of_not_mem h]

/-- Pairs under keys of their own are appended one after the other. -/
theorem foldl_put_of_nodup {ps qs : List (κ × β)} (h : ((ps ++ qs).map Prod.fst).Nodup) :
    qs.foldl (fun acc q ↦ put q.1 q.2 acc) ps = ps ++ qs := by
  induction qs generalizing ps with
  | nil => simp
  | cons q qs ih =>
    have hq : q.1 ∉ ps.map Prod.fst := by
      rw [List.map_append, List.map_cons] at h
      exact fun hm ↦ (List.nodup_append.1 h).2.2 _ hm _ List.mem_cons_self rfl
    have happ : ps ++ [q] ++ qs = ps ++ q :: qs := (List.append_cons ..).symm
    rw [List.foldl_cons, put_of_not_mem hq, ih (happ ▸ h), happ]

/-- Pairs whose keys do not repeat are an association as they stand. -/
theorem ofPairs_of_nodup {ps : List (κ × β)} (h : (ps.map Prod.fst).Nodup) : ofPairs ps = ps :=
  @foldl_put_of_nodup _ _ _ _ [] ps h

/-- Of pairs whose keys do not repeat, those under new keys are appended. -/
theorem foldl_putNew_of_nodup {qs : List (κ × β)} (h : (qs.map Prod.fst).Nodup)
    (ps : List (κ × β)) :
    qs.foldl (fun acc q ↦ putNew q.1 q.2 acc) ps =
      ps ++ qs.filter fun q ↦ !(ps.map Prod.fst).contains q.1 := by
  induction qs generalizing ps with
  | nil => simp
  | cons q qs ih =>
    rw [List.map_cons, List.nodup_cons] at h
    rw [List.foldl_cons]
    by_cases hq : q.1 ∈ ps.map Prod.fst
    · have hc : (ps.map Prod.fst).contains q.1 = true := List.contains_iff_mem.2 hq
      rw [putNew_of_mem hq, ih h.2, List.filter_cons_of_neg (by rw [hc]; decide)]
    · have hc : (ps.map Prod.fst).contains q.1 = false :=
        Bool.eq_false_iff.2 fun ht ↦ hq (List.contains_iff_mem.1 ht)
      rw [putNew_of_not_mem hq, ih h.2, List.filter_cons_of_pos (by rw [hc]; decide),
        ← List.append_cons]
      refine congrArg (ps ++ q :: ·) (List.filter_congr fun r hr ↦ ?_)
      have hne : r.1 ≠ q.1 := fun e ↦ h.1 (e ▸ List.mem_map_of_mem hr)
      simp [hne]

end Lemmas

end ConceptAtlas.Assoc
