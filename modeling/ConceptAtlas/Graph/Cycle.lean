/-!
# Cycles

Two answers about a finite relation given by its arcs. `core` strips away, round by round, what no
remaining thing leads to; what is left after as many rounds as there are things is empty exactly
when there is no cycle. `find?` walks the things in order, depth first, and gives the cycle that the
first arc into the current path closes.
-/

namespace ConceptAtlas.Cycle

variable {α : Type} [BEq α]

/-- Those of the remaining things that some remaining thing leads to. -/
def strip (arcs : List (α × α)) (remaining : List α) : List α :=
  remaining.filter fun v ↦ arcs.any fun a ↦ a.2 == v && remaining.contains a.1

theorem mem_strip [LawfulBEq α] {arcs : List (α × α)} {remaining : List α} {v : α} :
    v ∈ strip arcs remaining ↔ v ∈ remaining ∧ ∃ u ∈ remaining, (u, v) ∈ arcs := by
  simp only [strip, List.mem_filter, List.any_eq_true, Bool.and_eq_true, beq_iff_eq,
    List.contains_iff_mem, Prod.exists]
  constructor
  · rintro ⟨hv, u, w, ha, rfl, hu⟩
    exact ⟨hv, u, hu, ha⟩
  · rintro ⟨hv, u, hu, ha⟩
    exact ⟨hv, u, v, ha, rfl, hu⟩

/-- What is left after a number of rounds; a round that strips nothing ends it. -/
def stripTimes (arcs : List (α × α)) : (rounds : Nat) → List α → List α
  | 0, remaining => remaining
  | rounds + 1, remaining =>
    let rest := strip arcs remaining
    if rest.length = remaining.length then rest else stripTimes arcs rounds rest

/-- The things that are left when all rounds are done. -/
def core (arcs : List (α × α)) (things : List α) : List α := stripTimes arcs things.length things

/-- Whether the arcs between things hold a cycle. -/
def exists? (arcs : List (α × α)) (things : List α) : Bool := !(core arcs things).isEmpty

/-- The things that arcs lead to from one, in the order of the first arc to each. -/
def successors (arcs : List (α × α)) (v : α) : List α :=
  ((arcs.filter fun a ↦ a.1 == v).map Prod.snd).eraseDups

theorem mem_successors [LawfulBEq α] {arcs : List (α × α)} {v w : α} :
    w ∈ successors arcs v ↔ (v, w) ∈ arcs := by
  simp [successors]

/-- Goes on with a walk from the last thing of a path. The answer is what was visited, or the cycle
that was closed. -/
def walk (arcs : List (α × α)) : (fuel : Nat) → (path : List α) → (visited : List α) → α →
    Except (List α) (List α)
  | 0, _, visited, _ => .ok visited
  | fuel + 1, path, visited, v =>
    (successors arcs v).foldlM (fun seen w ↦
      let here := path ++ [v]
      if here.contains w then .error (here.dropWhile fun x ↦ !(x == w))
      else if seen.contains w then .ok seen
      else walk arcs fuel here (seen ++ [w]) w) visited

/-- The cycle that the first arc into the current path closes, the things being taken in order. -/
def find? (arcs : List (α × α)) (things : List α) : Option (List α) :=
  let search := things.foldlM (fun seen v ↦
    if seen.contains v then .ok seen else walk arcs things.length [] (seen ++ [v]) v) []
  match search with
  | .ok _ => none
  | .error cycle => some cycle

end ConceptAtlas.Cycle
