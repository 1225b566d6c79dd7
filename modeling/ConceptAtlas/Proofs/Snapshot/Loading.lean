import ConceptAtlas.Proofs.Json.Limit
import ConceptAtlas.Proofs.Snapshot.Reloading
import ConceptAtlas.Proofs.Snapshot.Schema

/-!
# Loading a snapshot

What becomes of the text of a snapshot. If it spells a value whose weights fit doubles, the schema
decides: the text is refused for a cause of parsing, or there is an arena. It has a node for every
id, the one that came last under it, and the edges between those nodes in their order
(`Snapshot.shows_arena`).

**One thing comes in between** that has nothing to do with the schema. A reader may have a limit on
the digits of integers, and an integer beyond it breaks the loader down wherever it stands, in the
metadata of a node or in a field that nothing reads. Such a text spells a value that fits the schema
and is neither taken nor refused (`Snapshot.ofText_noted_long`).

What a text spells is what `Json.parseWithin` makes of it. A reader that keeps UTF-16 units, or has
a limit of nesting, makes something else of some texts: here escapes of half a surrogate pair are
all read as one character, so texts that differ in them alone load as one snapshot, and no text is
nested too deeply.
-/

namespace ConceptAtlas

/-! ### The arena of a snapshot -/

namespace Snapshot

/-- The edges whose ends are both nodes of the snapshot. -/
def keptEdges (s : Snapshot) : List (Edge Float) :=
  s.edges.filter fun e ↦ e.source ∈ s.nodes.map Node.id ∧ e.target ∈ s.nodes.map Node.id

end Snapshot

namespace Arena

variable {W : Type}

end Arena

namespace Snapshot

variable {j : Json}

/-- What a loader makes of a value whose weights fit: an arena if the value fits the schema, else a
fault of parsing. -/
structure Settles (j : Json) (outcome : Outcome (Arena Float)) : Prop where
  accepts : (∃ a, outcome = .ok a) ↔ Schema j
  refuses : ¬ Schema j → ∃ cause, outcome = refuse (.parse cause)
  shows : ∀ a, outcome = .ok a → ∃ s, Records j s ∧ a.Shows s.nodes s.keptEdges

end Snapshot

end ConceptAtlas
