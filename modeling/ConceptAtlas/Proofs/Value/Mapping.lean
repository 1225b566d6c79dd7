import Mathlib
import ConceptAtlas.Proofs.Value.Key

/-!
# Nested mappings

The entries of a mapping are looked up and replaced by keys that are the same, not only equal
(`findBy?_congr`, `findBy?_putBy`). Where no two keys are the same, each entry is found under its
own key (`DistinctKeys.findBy?_of_mem`). `WellKeyed` says so of every mapping that keys lead to, and
holds of each mapping that is made of entries (`wellKeyed_ofEntries`).

A path is a list of keys of any kind, and `at?` is what it leads to. A path that leads to nothing
does so for one of two reasons: it comes upon a value that is no mapping (`Blocks`), or upon a
mapping without the next key.
-/

namespace ConceptAtlas.Value

open Assoc (findBy? putBy findBy?_cons putBy_cons)

variable {j k v w : Value} {e : Value × Value} {entries : List (Value × Value)}
  {path : List Value}

/-! ### Entries -/

/-- Keys that are the same have the same value. -/
theorem findBy?_congr (h : sameKey j k = true) (entries : List (Value × Value)) :
    findBy? sameKey j entries = findBy? sameKey k entries := by
  induction entries with
  | nil => rfl
  | cons e entries ih => rw [findBy?_cons, findBy?_cons, ih, sameKey_congr_right h]

theorem findBy?_putBy (k j v : Value) (entries : List (Value × Value)) :
    findBy? sameKey j (putBy sameKey k v entries) =
      if sameKey k j then some v else findBy? sameKey j entries := by
  induction entries with
  | nil => rw [putBy, findBy?_cons]
  | cons e entries ih =>
    rw [putBy_cons]
    split
    · rename_i he
      rw [findBy?_cons, findBy?_cons, sameKey_congr_left he]
      split <;> rfl
    · rename_i he
      rw [findBy?_cons, findBy?_cons, ih]
      split
      · rename_i hj
        rw [if_neg fun hk ↦ he (sameKey_trans hj (sameKey_symm hk))]
      · rfl

/-- The keys after a value is put under a key: a new one comes last. -/
theorem keys_putBy (k v : Value) (entries : List (Value × Value)) :
    (putBy sameKey k v entries).map Prod.fst =
      entries.map Prod.fst ++ if (findBy? sameKey k entries).isSome then [] else [k] := by
  induction entries with
  | nil => rfl
  | cons e entries ih =>
    rw [putBy_cons, findBy?_cons]
    split
    · simp
    · rw [List.map_cons, ih, List.map_cons, List.cons_append]

theorem mem_putBy (h : e ∈ putBy sameKey k v entries) :
    e ∈ entries ∨ e.2 = v ∧ (e.1 = k ∨ e.1 ∈ entries.map Prod.fst) := by
  induction entries with
  | nil =>
    obtain rfl := List.mem_singleton.1 h
    exact .inr ⟨rfl, .inl rfl⟩
  | cons f entries ih =>
    rw [putBy_cons] at h
    rw [List.mem_cons, List.map_cons, List.mem_cons]
    split at h
    · rcases List.mem_cons.1 h with rfl | h
      · exact .inr ⟨rfl, .inr (.inl rfl)⟩
      · exact .inl (.inr h)
    · rcases List.mem_cons.1 h with rfl | h
      · exact .inl (.inl rfl)
      · exact (ih h).imp .inr (And.imp_right (Or.imp_right .inr))

theorem findBy?_eq_none_iff :
    findBy? sameKey k entries = none ↔ ∀ e ∈ entries, sameKey e.1 k = false := by
  simp [findBy?]

theorem exists_mem_of_findBy? (h : findBy? sameKey k entries = some v) :
    ∃ e ∈ entries, e.2 = v := by
  obtain ⟨e, he, rfl⟩ := Option.map_eq_some_iff.1 h
  exact ⟨e, List.mem_of_find?_eq_some he, rfl⟩

/-- No two entries have the same key. -/
def DistinctKeys (entries : List (Value × Value)) : Prop :=
  entries.Pairwise fun e f ↦ sameKey e.1 f.1 = false

theorem distinctKeys_cons_iff : DistinctKeys (e :: entries) ↔
    (∀ f ∈ entries, sameKey e.1 f.1 = false) ∧ DistinctKeys entries := List.pairwise_cons

/-- Behind an entry nothing is found under a key that is the same as its. -/
theorem DistinctKeys.findBy?_tail (h : DistinctKeys (e :: entries)) (hk : sameKey e.1 k = true) :
    findBy? sameKey k entries = none := by
  refine findBy?_eq_none_iff.2 fun f hf ↦ Bool.eq_false_iff.2 fun hsame ↦ ?_
  have hdifferent := (distinctKeys_cons_iff.1 h).1 f hf
  rw [sameKey_trans hk (sameKey_symm hsame)] at hdifferent
  nomatch hdifferent

/-- An entry is found under every key that is the same as its. -/
theorem DistinctKeys.findBy?_of_mem (h : DistinctKeys entries) (he : e ∈ entries)
    (hk : sameKey e.1 k = true) : findBy? sameKey k entries = some e.2 := by
  induction entries with
  | nil => nomatch he
  | cons f entries ih =>
    rw [findBy?_cons]
    rcases List.mem_cons.1 he with rfl | he
    · rw [if_pos hk]
    · have hf : ¬ sameKey f.1 k = true := fun hf ↦ by
        have hnone := findBy?_eq_none_iff.1 (h.findBy?_tail hf) e he
        rw [hk] at hnone
        nomatch hnone
      rw [if_neg hf, ih (distinctKeys_cons_iff.1 h).2 he]

/-- Putting a value under a key makes no two keys the same. -/
theorem DistinctKeys.putBy (h : DistinctKeys entries) (k v : Value) :
    DistinctKeys (putBy sameKey k v entries) := by
  induction entries with
  | nil => exact List.pairwise_singleton _ _
  | cons e entries ih =>
    obtain ⟨hdifferent, hrest⟩ := distinctKeys_cons_iff.1 h
    rw [putBy_cons]
    split
    · exact distinctKeys_cons_iff.2 ⟨hdifferent, hrest⟩
    · rename_i hk
      refine distinctKeys_cons_iff.2 ⟨fun f hf ↦ ?_, ih hrest⟩
      rcases mem_putBy hf with hf | ⟨-, hf | hf⟩
      · exact hdifferent f hf
      · exact hf ▸ Bool.eq_false_iff.2 hk
      · obtain ⟨f', hf', heq⟩ := List.mem_map.1 hf
        exact heq ▸ hdifferent f' hf'

/-! ### Nested mappings -/

/-- Whether a value is a mapping. -/
def IsMapping (v : Value) : Prop := ∃ entries, v = .map entries

theorem isMapping_map (entries : List (Value × Value)) : (Value.map entries).IsMapping :=
  ⟨entries, rfl⟩

/-- Every mapping that keys lead to has keys that can be keys, and no two that are the same. -/
inductive WellKeyed : Value → Prop
  | leaf {v : Value} : ¬ v.IsMapping → WellKeyed v
  | mapping {entries : List (Value × Value)} : (∀ e ∈ entries, e.1.IsKey) → DistinctKeys entries →
    (∀ e ∈ entries, e.2.WellKeyed) → WellKeyed (.map entries)

theorem WellKeyed.distinctKeys (h : (Value.map entries).WellKeyed) : DistinctKeys entries := by
  cases h with
  | leaf h => exact absurd (isMapping_map entries) h
  | mapping _ hdistinct _ => exact hdistinct

theorem WellKeyed.isKey (h : (Value.map entries).WellKeyed) : ∀ e ∈ entries, e.1.IsKey := by
  cases h with
  | leaf h => exact absurd (isMapping_map entries) h
  | mapping hkeys _ _ => exact hkeys

theorem WellKeyed.of_mem (h : (Value.map entries).WellKeyed) : ∀ e ∈ entries, e.2.WellKeyed := by
  cases h with
  | leaf h => exact absurd (isMapping_map entries) h
  | mapping _ _ hvalues => exact hvalues

theorem WellKeyed.of_findBy? (h : (Value.map entries).WellKeyed)
    (hv : findBy? sameKey k entries = some v) : v.WellKeyed := by
  obtain ⟨e, he, rfl⟩ := exists_mem_of_findBy? hv
  exact h.of_mem e he

theorem WellKeyed.putBy (h : (Value.map entries).WellKeyed) (hk : k.IsKey) (hv : v.WellKeyed) :
    (Value.map (putBy sameKey k v entries)).WellKeyed := by
  refine .mapping (fun e he ↦ ?_) (h.distinctKeys.putBy k v) fun e he ↦ ?_
  · rcases mem_putBy he with he | ⟨-, he | he⟩
    · exact h.isKey e he
    · exact he ▸ hk
    · obtain ⟨f, hf, heq⟩ := List.mem_map.1 he
      exact heq ▸ h.isKey f hf
  · rcases mem_putBy he with he | ⟨he, -⟩
    · exact h.of_mem e he
    · exact he ▸ hv

/-- **A mapping made of entries has no two keys that are the same**, whatever the entries are. -/
theorem wellKeyed_ofEntries (hkeys : ∀ e ∈ entries, e.1.IsKey)
    (hvalues : ∀ e ∈ entries, e.2.WellKeyed) : (ofEntries entries).WellKeyed := by
  have hfold : ∀ acc, (Value.map acc).WellKeyed →
      (Value.map (entries.foldl (fun acc p ↦ putBy sameKey p.1 p.2 acc) acc)).WellKeyed := by
    induction entries with
    | nil => exact fun _ hacc ↦ hacc
    | cons e entries ih =>
      obtain ⟨hk, hkeys⟩ := List.forall_mem_cons.1 hkeys
      obtain ⟨hv, hvalues⟩ := List.forall_mem_cons.1 hvalues
      exact fun acc hacc ↦ ih hkeys hvalues _ (hacc.putBy hk hv)
  exact hfold [] (.mapping nofun List.Pairwise.nil nofun)

/-! ### Paths -/

/-- The value under a list of keys, each in the mapping that the one before leads to. -/
def at? (v : Value) : List Value → Option Value
  | [] => some v
  | k :: path =>
    match v with
    | .map entries => (findBy? sameKey k entries).bind (at? · path)
    | _ => none

@[simp]
theorem at?_nil (v : Value) : v.at? [] = some v := rfl

theorem at?_map_cons (entries : List (Value × Value)) (k : Value) (path : List Value) :
    (Value.map entries).at? (k :: path) = (findBy? sameKey k entries).bind (·.at? path) := rfl

theorem at?_of_not_isMapping (h : ¬ v.IsMapping) (hpath : path ≠ []) : v.at? path = none := by
  cases path with
  | nil => exact absurd rfl hpath
  | cons k path =>
    cases v with
    | map entries => exact absurd (isMapping_map entries) h
    | _ => rfl

theorem at?_append (v : Value) (front back : List Value) :
    v.at? (front ++ back) = (v.at? front).bind (·.at? back) := by
  induction front generalizing v with
  | nil => rfl
  | cons k front ih =>
    by_cases h : v.IsMapping
    · obtain ⟨entries, rfl⟩ := h
      rw [List.cons_append, at?_map_cons, at?_map_cons, Option.bind_assoc]
      exact congrArg _ (funext fun w ↦ ih w)
    · rw [at?_of_not_isMapping h (by simp), at?_of_not_isMapping h (by simp), Option.bind_none]

/-- A path that starts with a key goes through a mapping. -/
theorem exists_of_at?_cons (h : v.at? (k :: path) = some w) : ∃ entries u, v = .map entries ∧
    findBy? sameKey k entries = some u ∧ u.at? path = some w := by
  by_cases hv : v.IsMapping
  · obtain ⟨entries, rfl⟩ := hv
    obtain ⟨u, hu, hw⟩ := Option.bind_eq_some_iff.1 h
    exact ⟨entries, u, rfl, hu, hw⟩
  · rw [at?_of_not_isMapping hv (by simp)] at h
    nomatch h

theorem WellKeyed.at? (h : v.WellKeyed) (hw : v.at? path = some w) : w.WellKeyed := by
  induction path generalizing v with
  | nil =>
    cases hw
    exact h
  | cons k path ih =>
    obtain ⟨entries, u, rfl, hu, hw⟩ := exists_of_at?_cons hw
    exact ih (h.of_findBy? hu) hw

/-- Before a path ends it comes upon a value that is no mapping. -/
def Blocks (v : Value) (path : List Value) : Prop :=
  ∃ front back w, path = front ++ back ∧ back ≠ [] ∧ v.at? front = some w ∧ ¬ w.IsMapping

theorem Blocks.of_not_isMapping (h : ¬ v.IsMapping) (hpath : path ≠ []) : v.Blocks path :=
  ⟨[], path, v, rfl, hpath, rfl, h⟩

theorem Blocks.cons (hv : findBy? sameKey k entries = some v) (h : v.Blocks path) :
    (Value.map entries).Blocks (k :: path) := by
  obtain ⟨front, back, w, rfl, hback, hw, hleaf⟩ := h
  refine ⟨k :: front, back, w, rfl, hback, ?_, hleaf⟩
  rw [at?_map_cons, hv, Option.bind_some, hw]

end ConceptAtlas.Value
