import ConceptAtlas.Yaml.Resolution

/-!
# Nodes

A document as a tree of tagged nodes; where a collection stands inside itself, a loop stands for it.
`joined` gives the entries of a mapping with those that its
merge keys name put in front of its own; that adds nothing to the size of the tree
(`entriesSize_joined_le`), so functions on the joined entries can recurse.
-/

namespace ConceptAtlas.Yaml

/-- A node of a document. -/
inductive Node
  | scalar (tag : Tag) (text : String)
  | sequence (tag : Tag) (items : List Node)
  | mapping (tag : Tag) (entries : List (Node × Node))
  | loop (tag : Tag)

namespace Node

/-- The tag of a node. -/
def tag : Node → Tag
  | .scalar t _ => t
  | .sequence t _ => t
  | .mapping t _ => t
  | .loop t => t

mutual

/-- The number of nodes of a tree, lists counted by their items. -/
def size : Node → Nat
  | .scalar _ _ => 1
  | .sequence _ items => 1 + itemsSize items
  | .mapping _ entries => 1 + entriesSize entries
  | .loop _ => 1

/-- The size of the items of a sequence. -/
def itemsSize : List Node → Nat
  | [] => 0
  | n :: ns => 1 + n.size + itemsSize ns

/-- The size of the entries of a mapping. -/
def entriesSize : List (Node × Node) → Nat
  | [] => 0
  | (k, v) :: es => 1 + k.size + v.size + entriesSize es

end

theorem entriesSize_append (as bs : List (Node × Node)) :
    entriesSize (as ++ bs) = entriesSize as + entriesSize bs := by
  induction as with
  | nil => simp [entriesSize]
  | cons e as ih =>
    obtain ⟨k, v⟩ := e
    simp only [List.cons_append, entriesSize, ih]
    omega

/-- Entries in two parts put together. -/
def whole (parts : List (Node × Node) × List (Node × Node)) : List (Node × Node) :=
  parts.1 ++ parts.2

mutual

/-- The entries that the merge keys of a mapping name, and its other ones; nothing if a merge key
names something else than mappings. -/
def split : List (Node × Node) → Option (List (Node × Node) × List (Node × Node))
  | [] => some ([], [])
  | (k, v) :: es =>
    match split es with
    | none => none
    | some (merged, own) =>
      if k.tag = .merge then
        match named v with
        | some ns => some (ns ++ merged, own)
        | none => none
      else some (merged, (k, v) :: own)

/-- The entries that a node under a merge key names: those of a mapping, or of the mappings of a
sequence, the last one first. -/
def named : Node → Option (List (Node × Node))
  | .scalar _ _ | .loop _ => none
  | .mapping _ es => (split es).map whole
  | .sequence _ ns => namedByItems ns

/-- The entries that the items of a sequence under a merge key name. -/
def namedByItems : List Node → Option (List (Node × Node))
  | [] => some []
  | n :: ns =>
    match n with
    | .mapping _ es =>
      match namedByItems ns, split es with
      | some later, some own => some (later ++ whole own)
      | _, _ => none
    | _ => none

end

/-- The entries of a mapping with those that its merge keys name, which come first. -/
def joined (entries : List (Node × Node)) : Option (List (Node × Node)) :=
  (split entries).map whole

mutual

private theorem entriesSize_split_le : ∀ (es : List (Node × Node)) {p},
    split es = some p → entriesSize (whole p) ≤ entriesSize es
  | [], p, h => by
    simp only [split, Option.some.injEq] at h
    subst h
    simp [whole, entriesSize]
  | (k, v) :: es, p, h => by
    rw [split] at h
    rcases hs : split es with - | ⟨merged, own⟩
    · simp [hs] at h
    · have ih := entriesSize_split_le es hs
      simp only [hs] at h
      simp only [whole, entriesSize_append, entriesSize] at ih ⊢
      split at h
      · rcases hn : named v with - | ns
        · simp [hn] at h
        · have := entriesSize_named_le v hn
          simp only [hn, Option.some.injEq] at h
          subst h
          simp only [entriesSize_append]
          omega
      · simp only [Option.some.injEq] at h
        subst h
        simp only [entriesSize]
        omega

private theorem entriesSize_named_le : ∀ (n : Node) {es},
    named n = some es → entriesSize es ≤ n.size
  | .scalar _ _, es, h => by simp [named] at h
  | .loop _, es, h => by simp [named] at h
  | .mapping _ ms, es, h => by
    rw [named, Option.map_eq_some_iff] at h
    obtain ⟨p, hp, rfl⟩ := h
    have := entriesSize_split_le ms hp
    simp only [size]
    omega
  | .sequence _ ns, es, h => by
    rw [named] at h
    have := entriesSize_namedByItems_le ns h
    simp only [size]
    omega

private theorem entriesSize_namedByItems_le : ∀ (ns : List Node) {es},
    namedByItems ns = some es → entriesSize es ≤ itemsSize ns
  | [], es, h => by
    simp only [namedByItems, Option.some.injEq] at h
    subst h
    simp [entriesSize]
  | .scalar _ _ :: ns, es, h => by simp [namedByItems] at h
  | .sequence _ _ :: ns, es, h => by simp [namedByItems] at h
  | .loop _ :: ns, es, h => by simp [namedByItems] at h
  | .mapping _ ms :: ns, es, h => by
    simp only [namedByItems] at h
    split at h
    · rename_i later own hl hs
      have h₁ := entriesSize_namedByItems_le ns hl
      have h₂ := entriesSize_split_le ms hs
      simp only [Option.some.injEq] at h
      subst h
      simp only [entriesSize_append, itemsSize, size]
      omega
    · simp at h

end

/-- Putting the merged entries in front makes nothing larger. -/
theorem entriesSize_joined_le {entries es : List (Node × Node)} (h : joined entries = some es) :
    entriesSize es ≤ entriesSize entries := by
  rw [joined, Option.map_eq_some_iff] at h
  obtain ⟨p, hp, rfl⟩ := h
  exact entriesSize_split_le entries hp

end Node

end ConceptAtlas.Yaml
