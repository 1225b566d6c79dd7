import Mathlib
import ConceptAtlas.Config.Basic
import ConceptAtlas.Proofs.Text.Parts
import ConceptAtlas.Proofs.Value.Mapping

/-!
# What merging configurations comes to

Merging goes through two trees at once, while a dotted key is followed through one. The two meet in
one step (`at?_mergeValue_cons`): under a key of the overriding entries stands what they have there,
merged over what the base has there; under any other key stands what the base has. So a path that
leads somewhere in the overriding entries leads to a merged value (`at?_merge_of_at?`), one that
comes upon a value that is no mapping leads nowhere (`at?_merge_of_blocks`), and one that ends at a
mapping without the next key goes on in the base (`at?_merge_of_missing`).

**Merging is not associative, but settles at once**: a second merging of the same entries meets what
the first one left, value by value (`mergeValue_mergeValue`). This needs keys of which no two are
the same, since otherwise a later entry could undo an earlier one.

The keys of the base may repeat or not; nothing here depends on it.
-/

namespace ConceptAtlas.Config

open Assoc (findBy? putBy findBy?_cons)
open Value (sameKey DistinctKeys distinctKeys_cons_iff findBy?_congr findBy?_putBy keys_putBy)

variable {base overrides : Config} {k v w : Value} {path : List Value}

/-! ### One level -/

@[simp]
theorem mergeValue_none (v : Value) : mergeValue none v = v := by
  cases v <;> rfl

theorem mergeValue_of_not_isMapping (h : ¬ v.IsMapping) (old : Option Value) :
    mergeValue old v = v := by
  cases v with
  | map entries => exact absurd (Value.isMapping_map entries) h
  | _ => rfl

/-- What is no mapping is replaced. -/
theorem mergeValue_over {old : Option Value} (h : ∀ b, old ≠ some (.map b)) (v : Value) :
    mergeValue old v = v := by
  cases v with
  | map entries =>
    rcases old with - | w
    · rfl
    · cases w with
      | map base => exact absurd rfl (h base)
      | _ => rfl
  | _ => rfl

theorem merge_cons (base : Config) (e : Value × Value) (rest : Config) :
    merge base (e :: rest) =
      merge (putBy sameKey e.1 (mergeValue (findBy? sameKey e.1 base) e.2) base) rest := rfl

/-- **What stands under a key after merging.** -/
theorem findBy?_merge (h : DistinctKeys overrides) (base : Config) (k : Value) :
    findBy? sameKey k (merge base overrides) =
      match findBy? sameKey k overrides with
      | some v => some (mergeValue (findBy? sameKey k base) v)
      | none => findBy? sameKey k base := by
  induction overrides generalizing base with
  | nil => rfl
  | cons e rest ih =>
    rw [merge_cons, ih (distinctKeys_cons_iff.1 h).2, findBy?_cons, findBy?_putBy]
    by_cases hk : sameKey e.1 k = true
    · rw [if_pos hk, if_pos hk, h.findBy?_tail hk, findBy?_congr hk]
    · rw [if_neg hk, if_neg hk]

/-- **The keys after merging**: those of the base, then the new ones. -/
theorem keys_merge (h : DistinctKeys overrides) (base : Config) :
    (merge base overrides).map Prod.fst = base.map Prod.fst ++
      (overrides.map Prod.fst).filter fun k ↦ (findBy? sameKey k base).isNone := by
  induction overrides generalizing base with
  | nil => simp [merge]
  | cons e rest ih =>
    obtain ⟨hdifferent, hrest⟩ := distinctKeys_cons_iff.1 h
    -- What is put under one key does not make another one new or old.
    have hkept : ∀ k ∈ rest.map Prod.fst, (findBy? sameKey k
        (putBy sameKey e.1 (mergeValue (findBy? sameKey e.1 base) e.2) base)).isNone =
          (findBy? sameKey k base).isNone := by
      intro k hk
      obtain ⟨f, hf, rfl⟩ := List.mem_map.1 hk
      rw [findBy?_putBy, if_neg (Bool.eq_false_iff.1 (hdifferent f hf))]
    rw [merge_cons, ih hrest, List.filter_congr hkept, keys_putBy, List.map_cons, List.filter_cons,
      List.append_assoc]
    cases findBy? sameKey e.1 base <;> rfl

/-- Merging what is there already changes nothing. -/
theorem merge_eq_self (h : ∀ e ∈ overrides, ∃ w, findBy? sameKey e.1 base = some w ∧
    mergeValue (some w) e.2 = w) : merge base overrides = base := by
  induction overrides with
  | nil => rfl
  | cons e rest ih =>
    obtain ⟨⟨w, hw, hsame⟩, hrest⟩ := List.forall_mem_cons.1 h
    rw [merge_cons, hw, hsame, Assoc.putBy_of_findBy? hw, ih hrest]

/-- **Merging the same value a second time changes nothing.** -/
theorem mergeValue_mergeValue (h : v.WellKeyed) (old : Option Value) :
    mergeValue (some (mergeValue old v)) v = mergeValue old v := by
  induction h generalizing old with
  | leaf hv => rw [mergeValue_of_not_isMapping hv, mergeValue_of_not_isMapping hv]
  | @mapping entries hkeys hdistinct _ ih =>
    have hfind : ∀ e ∈ entries, findBy? sameKey e.1 entries = some e.2 := fun e he ↦
      hdistinct.findBy?_of_mem he (Value.sameKey_self (hkeys e he))
    by_cases hold : ∃ b, old = some (.map b)
    · obtain ⟨b, rfl⟩ := hold
      refine congrArg Value.map (merge_eq_self fun e he ↦
        ⟨mergeValue (findBy? sameKey e.1 b) e.2, ?_, ih e he _⟩)
      rw [findBy?_merge hdistinct, hfind e he]
    · rw [not_exists] at hold
      rw [mergeValue_over hold]
      refine congrArg Value.map (merge_eq_self fun e he ↦ ⟨_, hfind e he, ?_⟩)
      have := ih e he none
      rwa [mergeValue_none] at this

theorem wellKeyed_merge_of (hbase : (Value.map base).WellKeyed)
    (hkeys : ∀ e ∈ overrides, e.1.IsKey)
    (hvalues : ∀ e ∈ overrides, ∀ old, (∀ w, old = some w → w.WellKeyed) →
      (mergeValue old e.2).WellKeyed) : (Value.map (merge base overrides)).WellKeyed := by
  induction overrides generalizing base with
  | nil => exact hbase
  | cons e rest ih =>
    obtain ⟨hk, hkeys⟩ := List.forall_mem_cons.1 hkeys
    obtain ⟨hv, hvalues⟩ := List.forall_mem_cons.1 hvalues
    rw [merge_cons]
    exact ih (hbase.putBy hk (hv _ fun w hw ↦ hbase.of_findBy? hw)) hkeys hvalues

theorem wellKeyed_mergeValue {old : Option Value} (hold : ∀ w, old = some w → w.WellKeyed)
    (h : v.WellKeyed) : (mergeValue old v).WellKeyed := by
  induction h generalizing old with
  | leaf hv =>
    rw [mergeValue_of_not_isMapping hv]
    exact .leaf hv
  | @mapping entries hkeys hdistinct hvalues ih =>
    by_cases hmapping : ∃ b, old = some (.map b)
    · obtain ⟨b, rfl⟩ := hmapping
      exact wellKeyed_merge_of (hold _ rfl) hkeys fun e he _ hold ↦ ih e he hold
    · rw [not_exists] at hmapping
      rw [mergeValue_over hmapping]
      exact .mapping hkeys hdistinct hvalues

/-- **Merged entries can override in turn**: at no level are two of their keys the same. -/
theorem wellKeyed_merge (hbase : (Value.map base).WellKeyed)
    (h : (Value.map overrides).WellKeyed) : (Value.map (merge base overrides)).WellKeyed :=
  wellKeyed_merge_of hbase h.isKey fun e he _ hold ↦ wellKeyed_mergeValue hold (h.of_mem e he)

/-! ### Paths -/

/-- One step of a path after merging. -/
theorem at?_mergeValue_cons (h : (Value.map overrides).WellKeyed) (old : Option Value) (k : Value)
    (path : List Value) : (mergeValue old (.map overrides)).at? (k :: path) =
      match findBy? sameKey k overrides with
      | some v => (mergeValue (old.bind (·.at? [k])) v).at? path
      | none => old.bind (·.at? (k :: path)) := by
  by_cases hold : ∃ b, old = some (.map b)
  · obtain ⟨b, rfl⟩ := hold
    have hmerge : mergeValue (some (.map b)) (.map overrides) = .map (merge b overrides) := rfl
    rw [hmerge, Value.at?_map_cons, findBy?_merge h.distinctKeys, Option.bind_some,
      Option.bind_some, Value.at?_map_cons, Value.at?_map_cons]
    simp only [Value.at?_nil, Option.bind_fun_some]
    cases findBy? sameKey k overrides <;> rfl
  · rw [not_exists] at hold
    have hbelow : ∀ path, old.bind (·.at? (k :: path)) = none := fun path ↦ by
      rcases old with - | w
      · rfl
      · exact Value.at?_of_not_isMapping (fun ⟨b, hb⟩ ↦ hold b (congrArg some hb)) (by simp)
    rw [mergeValue_over hold, Value.at?_map_cons, hbelow, hbelow]
    cases findBy? sameKey k overrides <;> simp

section

variable (h : v.WellKeyed) (old : Option Value)
include h

/-- Where overriding leads to a value, that is merged over what the base has there. -/
theorem at?_mergeValue_of_at? (hw : v.at? path = some w) :
    (mergeValue old v).at? path = some (mergeValue (old.bind (·.at? path)) w) := by
  induction path generalizing v old with
  | nil =>
    cases hw
    simp
  | cons k path ih =>
    obtain ⟨entries, u, rfl, hu, hw⟩ := Value.exists_of_at?_cons hw
    rw [at?_mergeValue_cons h, hu]
    refine (ih (h.of_findBy? hu) _ hw).trans ?_
    simp only [Option.bind_assoc, ← Value.at?_append, List.singleton_append]

/-- Below a value that is no mapping there is nothing, whatever the base has there. -/
theorem at?_mergeValue_of_blocks (hblocks : v.Blocks path) :
    (mergeValue old v).at? path = none := by
  obtain ⟨front, back, w, rfl, hback, hw, hleaf⟩ := hblocks
  rw [Value.at?_append, at?_mergeValue_of_at? h old hw, mergeValue_of_not_isMapping hleaf,
    Option.bind_some, Value.at?_of_not_isMapping hleaf hback]

/-- Where overriding ends at a mapping that lacks the next key, the base is as before. -/
theorem at?_mergeValue_of_missing (hnone : v.at? path = none) (hblocks : ¬ v.Blocks path) :
    (mergeValue old v).at? path = old.bind (·.at? path) := by
  induction path generalizing v old with
  | nil => nomatch hnone
  | cons k path ih =>
    by_cases hv : v.IsMapping
    · obtain ⟨entries, rfl⟩ := hv
      rw [at?_mergeValue_cons h]
      cases hu : findBy? sameKey k entries with
      | none => rfl
      | some u =>
        rw [Value.at?_map_cons, hu] at hnone
        refine (ih (h.of_findBy? hu) _ hnone fun hblocked ↦ hblocks (hblocked.cons hu)).trans ?_
        simp only [Option.bind_assoc, ← Value.at?_append, List.singleton_append]
    · exact absurd (.of_not_isMapping hv (by simp)) hblocks

end

/-! ### Dotted keys -/

/-- The keys that a dotted key names one after the other. -/
def keyPath (key : String) : List Value := (Text.splitOn '.' key).map .str

theorem lookup?_eq_at? (v : Value) (keys : List String) :
    lookup? v keys = v.at? (keys.map .str) := by
  induction keys generalizing v with
  | nil => rfl
  | cons key keys ih =>
    cases v with
    | map entries => simp only [lookup?, Value.value?, List.map_cons, Value.at?_map_cons, ih]
    | _ => rfl

theorem value_eq (c : Config) (key : String) : c.value key =
    match (Value.map c).at? (keyPath key) with
    | some v => .ok v
    | none => .error (.config (.unknownKey key)) := by
  rw [value, lookup?_eq_at?]
  rfl

theorem value_eq_ok_iff {c : Config} {key : String} :
    c.value key = .ok v ↔ (Value.map c).at? (keyPath key) = some v := by
  rw [value_eq]
  split <;> simp_all

theorem value_of_at?_eq_none {c : Config} {key : String}
    (h : (Value.map c).at? (keyPath key) = none) :
    c.value key = .error (.config (.unknownKey key)) := by
  rw [value_eq, h]

theorem keyPath_append (head tail : String) :
    keyPath (head ++ "." ++ tail) = keyPath head ++ keyPath tail := by
  have htext : (head ++ "." ++ tail).toList = head.toList ++ '.' :: tail.toList := by simp
  rw [keyPath, Text.splitOn, htext, Text.parts_append, List.map_append, List.map_append]
  rfl

theorem keyPath_ne_nil (key : String) : keyPath key ≠ [] := by
  simp [keyPath, Text.splitOn, Text.parts_ne_nil]

/-- A path that a dotted key names is cut where the key has a dot. -/
theorem exists_of_keyPath_eq_append {key : String} {front back : List Value} (hfront : front ≠ [])
    (hback : back ≠ []) (h : keyPath key = front ++ back) :
    ∃ head tail, key = head ++ "." ++ tail ∧ keyPath head = front := by
  obtain ⟨names, rest, hnames, rfl, rfl⟩ := List.map_eq_append_iff.1 h
  obtain ⟨ps, qs, hparts, rfl, rfl⟩ := List.map_eq_append_iff.1 hnames
  obtain ⟨head, tail, hkey, hhead, -⟩ := Text.exists_of_parts_eq_append
    (by simpa using hfront) (by simpa using hback) hparts
  refine ⟨.ofList head, .ofList tail, ?_, ?_⟩
  · rw [← String.toList_inj]
    simp [hkey]
  · rw [keyPath, Text.splitOn, String.toList_ofList, hhead]

/-- What stands in the way of a dotted key is found under a shorter one. -/
theorem blocks_keyPath_iff {c : Config} {key : String} : (Value.map c).Blocks (keyPath key) ↔
    ∃ head tail v, key = head ++ "." ++ tail ∧ c.value head = .ok v ∧ ¬ v.IsMapping := by
  constructor
  · rintro ⟨front, back, w, hpath, hback, hw, hleaf⟩
    have hfront : front ≠ [] := by
      rintro rfl
      cases hw
      exact hleaf (Value.isMapping_map c)
    obtain ⟨head, tail, hkey, rfl⟩ := exists_of_keyPath_eq_append hfront hback hpath
    exact ⟨head, tail, w, hkey, value_eq_ok_iff.2 hw, hleaf⟩
  · rintro ⟨head, tail, v, rfl, hv, hleaf⟩
    exact ⟨keyPath head, keyPath tail, v, keyPath_append head tail, keyPath_ne_nil tail,
      value_eq_ok_iff.1 hv, hleaf⟩

/-! ### The law -/

/-- The entries of the mapping that a path leads to; none if it leads to no mapping. -/
def level (c : Config) (path : List Value) : Config :=
  match (Value.map c).at? path with
  | some (.map entries) => entries
  | _ => []

/-- What merging overriding entries over a base promises about the merged ones. -/
structure Layered (base overrides merged : Config) : Prop where
  /-- A value that overrides stands, unless both sides have a mapping there. -/
  overridden : ∀ key v, overrides.value key = .ok v →
    ¬ (v.IsMapping ∧ ∃ b, base.value key = .ok (.map b)) → merged.value key = .ok v
  /-- Two mappings are merged in turn. -/
  deep : ∀ key b o, base.value key = .ok (.map b) → overrides.value key = .ok (.map o) →
    merged.value key = .ok (.map (merge b o))
  /-- Below a value that overrides and is no mapping nothing is found. -/
  blocked : ∀ head tail v, overrides.value head = .ok v → ¬ v.IsMapping →
    merged.value (head ++ "." ++ tail) = .error (.config (.unknownKey (head ++ "." ++ tail)))
  /-- What is not overridden comes to what the base has there, a missing key included. -/
  inherited : ∀ key, (∀ v, overrides.value key ≠ .ok v) →
    (∀ head tail v, key = head ++ "." ++ tail → overrides.value head = .ok v → v.IsMapping) →
    merged.value key = base.value key
  /-- Every mapping has the keys of the base in their order, then the new ones in theirs. -/
  ordered : ∀ path m, (Value.map merged).at? path = some (.map m) →
    m.map Prod.fst = (base.level path).map Prod.fst ++
      ((overrides.level path).map Prod.fst).filter fun k ↦
        (findBy? sameKey k (base.level path)).isNone
  /-- Merging the same entries a second time changes nothing. -/
  settled : merge merged overrides = merged

theorem level_eq {c entries : Config} (h : (Value.map c).at? path = some (.map entries)) :
    c.level path = entries := by
  rw [level, h]

theorem level_eq_nil {c : Config} (h : ∀ entries, (Value.map c).at? path ≠ some (.map entries)) :
    c.level path = [] := by
  rw [level]
  split
  · rename_i hentries
    exact absurd hentries (h _)
  · rfl

section

variable (h : (Value.map overrides).WellKeyed) (base : Config)
include h

theorem at?_merge_of_at? (hw : (Value.map overrides).at? path = some w) :
    (Value.map (merge base overrides)).at? path =
      some (mergeValue ((Value.map base).at? path) w) :=
  at?_mergeValue_of_at? h (some (.map base)) hw

theorem at?_merge_of_blocks (hblocks : (Value.map overrides).Blocks path) :
    (Value.map (merge base overrides)).at? path = none :=
  at?_mergeValue_of_blocks h (some (.map base)) hblocks

theorem at?_merge_of_missing (hnone : (Value.map overrides).at? path = none)
    (hblocks : ¬ (Value.map overrides).Blocks path) :
    (Value.map (merge base overrides)).at? path = (Value.map base).at? path :=
  at?_mergeValue_of_missing h (some (.map base)) hnone hblocks

/-- The keys at every level of merged configurations. -/
theorem keys_level_merge {m : Config}
    (hm : (Value.map (merge base overrides)).at? path = some (.map m)) :
    m.map Prod.fst = (base.level path).map Prod.fst ++
      ((overrides.level path).map Prod.fst).filter fun k ↦
        (findBy? sameKey k (base.level path)).isNone := by
  cases hw : (Value.map overrides).at? path with
  | some w =>
    rw [at?_merge_of_at? h base hw, Option.some.injEq] at hm
    by_cases hmapping : w.IsMapping
    · obtain ⟨o, rfl⟩ := hmapping
      by_cases hb : ∃ b, (Value.map base).at? path = some (.map b)
      · obtain ⟨b, hb⟩ := hb
        rw [hb] at hm
        obtain rfl : merge b o = m := Value.map.inj hm
        rw [level_eq hb, level_eq hw, keys_merge (h.at? hw).distinctKeys]
      · rw [not_exists] at hb
        rw [mergeValue_over hb, Value.map.injEq] at hm
        subst hm
        simp [level_eq_nil hb, level_eq hw, findBy?]
    · rw [mergeValue_of_not_isMapping hmapping] at hm
      exact absurd ⟨m, hm⟩ hmapping
  | none =>
    by_cases hblocks : (Value.map overrides).Blocks path
    · rw [at?_merge_of_blocks h base hblocks] at hm
      cases hm
    · rw [at?_merge_of_missing h base hw hblocks] at hm
      have hnew : overrides.level path = [] := level_eq_nil (by simp [hw])
      simp [level_eq hm, hnew]

/-- **What merging comes to under every key.** -/
theorem layered_merge : Layered base overrides (merge base overrides) where
  overridden key v hv hmappings := by
    rw [value_eq_ok_iff] at hv
    rw [value_eq_ok_iff, at?_merge_of_at? h base hv]
    by_cases hmapping : v.IsMapping
    · rw [mergeValue_over fun b hb ↦ hmappings ⟨hmapping, b, value_eq_ok_iff.2 hb⟩]
    · rw [mergeValue_of_not_isMapping hmapping]
  deep key b o hb ho := by
    rw [value_eq_ok_iff] at hb ho
    rw [value_eq_ok_iff, at?_merge_of_at? h base ho, hb]
    rfl
  blocked head tail v hv hleaf :=
    value_of_at?_eq_none
      (at?_merge_of_blocks h base (blocks_keyPath_iff.2 ⟨head, tail, v, rfl, hv, hleaf⟩))
  inherited key hnone hmappings := by
    have hmissing : (Value.map overrides).at? (keyPath key) = none :=
      Option.eq_none_iff_forall_ne_some.2 fun v hv ↦ hnone v (value_eq_ok_iff.2 hv)
    have hfree : ¬ (Value.map overrides).Blocks (keyPath key) := fun hblocks ↦ by
      obtain ⟨head, tail, v, hkey, hv, hleaf⟩ := blocks_keyPath_iff.1 hblocks
      exact hleaf (hmappings head tail v hkey hv)
    rw [value_eq, value_eq, at?_merge_of_missing h base hmissing hfree]
  ordered _ _ hm := keys_level_merge h base hm
  settled := Value.map.inj (mergeValue_mergeValue h (some (.map base)))

end

/-- Entries that go into one section of the built-in configuration and replace another one by a
text. -/
def sampleOverrides : Config :=
  [entry "content" (.str "notes"), entry "graph" (.map [entry "use_cache" (.bool false)])]

/-- A text over a section hides what the section had. -/
theorem layered_merge_builtIn : (Value.map sampleOverrides).WellKeyed ∧
    Layered builtIn sampleOverrides (merge builtIn sampleOverrides) ∧
    (merge builtIn sampleOverrides).value "content.glob" =
      .error (.config (.unknownKey "content.glob")) := by
  have htext : ¬ (Value.str "notes").IsMapping := by simp [Value.IsMapping]
  have hgraph : (Value.map [entry "use_cache" (.bool false)]).WellKeyed :=
    .mapping (by simp [entry, Value.IsKey, Value.identity?]) (by simp [DistinctKeys])
      (by simpa [entry] using Value.WellKeyed.leaf (by simp [Value.IsMapping]))
  have hkeyed : (Value.map sampleOverrides).WellKeyed :=
    .mapping (by simp [sampleOverrides, entry, Value.IsKey, Value.identity?])
      (by simp [sampleOverrides, entry, DistinctKeys, sameKey])
      (by simpa [sampleOverrides, entry] using ⟨Value.WellKeyed.leaf htext, hgraph⟩)
  have hlayered := layered_merge hkeyed builtIn
  exact ⟨hkeyed, hlayered, hlayered.blocked "content" "glob" (.str "notes") rfl htext⟩

end ConceptAtlas.Config
