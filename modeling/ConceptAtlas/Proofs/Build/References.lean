import Mathlib
import ConceptAtlas.Proofs.Build.Extraction
import ConceptAtlas.Proofs.Build.Freshness
import ConceptAtlas.Proofs.Files.Disk
import ConceptAtlas.Proofs.Graph.Validation
import ConceptAtlas.Proofs.Snapshot.Schema

/-!
# References between cards

One card declares an id as a value and other cards refer to it by that value. Both become texts, and
an edge or a canonical node comes of the reference only if these are one.

A reference is the text of its value, whatever it is, as long as it is not null. A declared id is
the text of its value only if that value counts as present; otherwise the card has the name of its
file as its id, as if it declared none. So the two differ on the scalars of `Value.Naught`: false, a
zero, and no bytes. `references_meet` has both sides; `references_miss_zero` is a build in which a
card with the id `0` is not found by a card that refers to `0`.
-/

namespace ConceptAtlas

/-! ### Texts of doubles -/

namespace Decimal

theorem positional_ne_empty (ds : List Char) (point : Int) : positional ds point ≠ "" := by
  rw [positional]
  split <;> simp

theorem scientific_ne_empty (width : Nat) (ds : List Char) (exponent : Int) :
    scientific width ds exponent ≠ "" := by
  simp only [scientific, toString, ne_eq, String.append_eq_empty_iff]
  simp

theorem Layout.magnitude_ne_empty (l : Layout) (b : Binary64) : l.magnitude b ≠ "" := by
  simp only [magnitude]
  split
  · exact positional_ne_empty _ _
  · split
    · exact positional_ne_empty _ _
    · exact scientific_ne_empty _ _ _

theorem plainLayout_text_ne_empty (x : Float) : plainLayout.text x ≠ "" := by
  rw [Layout.text]
  split
  · decide
  · split <;> decide
  · rename_i b _
    exact fun h ↦ plainLayout.magnitude_ne_empty b (String.append_eq_empty_iff.1 h).2

end Decimal

/-! ### Scalars -/

namespace Value

/-- Whether a value is no collection. -/
def isScalar : Value → Bool
  | .list _ | .pair _ _ | .set _ | .map _ | .again _ => false
  | _ => true

/-- The scalars that are there and do not count as present, null and the empty text aside. -/
inductive Naught : Value → Prop
  | no : Naught (.bool false)
  | zero : Naught (.int 0)
  | zeroFloat {x : Float} (h : (x != 0) = false) : Naught (.float x)
  | noBytes : Naught (.bytes [])

theorem isTruthy_iff_not_naught {v : Value} (hscalar : v.isScalar = true) (hnull : v ≠ .null)
    (hempty : v ≠ .str "") : v.isTruthy = true ↔ ¬ v.Naught := by
  constructor
  · intro htruthy hnaught
    cases hnaught with
    | no => cases htruthy
    | zero => cases htruthy
    | zeroFloat h => exact Bool.false_ne_true (h.symm.trans htruthy)
    | noBytes => cases htruthy
  · intro hpresent
    cases v with
    | null => exact absurd rfl hnull
    | bool b =>
      cases b with
      | false => exact absurd .no hpresent
      | true => rfl
    | int n => exact bne_iff_ne.2 fun h ↦ hpresent (h ▸ .zero)
    | float x => exact Bool.eq_true_of_not_eq_false fun h ↦ hpresent (.zeroFloat h)
    | str s =>
      have hs : s.isEmpty = false :=
        Bool.eq_false_iff.2 fun h ↦ hempty (congrArg Value.str (String.isEmpty_iff.1 h))
      rw [isTruthy, hs, Bool.not_false]
    | bytes bs =>
      cases bs with
      | nil => exact absurd .noBytes hpresent
      | cons b bs => rfl
    | date d => rfl
    | moment m => rfl
    | list items => cases hscalar
    | pair a b => cases hscalar
    | set members => cases hscalar
    | map entries => cases hscalar
    | again isMapping => cases hscalar

/-- A scalar has a text with content, the empty text aside. -/
theorem text_ne_empty {v : Value} (hscalar : v.isScalar = true) (hempty : v ≠ .str "") :
    v.text ≠ "" := by
  cases v with
  | null => decide
  | bool b => cases b <;> decide
  | int n =>
    cases n with
    | ofNat n =>
      show String.ofList (Nat.toDigits 10 n) ≠ ""
      simp [Nat.toDigits_ne_nil]
    | negSucc n =>
      show "-" ++ String.ofList (Nat.toDigits 10 (n + 1)) ≠ ""
      simp
  | float x => exact Decimal.plainLayout_text_ne_empty x
  | str s => exact fun e ↦ hempty (congrArg Value.str e)
  | date d => simp [text, Date.text, toString]
  | moment m => simp [text, Moment.text, toString]
  | bytes bs => simp [text, literal, Text.bytesLiteral]
  | list items => cases hscalar
  | pair a b => cases hscalar
  | set members => cases hscalar
  | map entries => cases hscalar
  | again isMapping => cases hscalar

end Value

/-! ### What a card says -/

namespace Concept

variable {front : List (Value × Value)} {path : Path} {c : Concept}

theorem text_of_textOf {v : Value} {s : String} (h : textOf v = .ok s) : v.text = s := by
  rw [textOf] at h
  split at h
  · exact Except.ok.inj h
  · cases h

/-- A value that is not null is there, with its text. -/
theorem eq_some_of_textOf? {v : Value} {t : Option String} (hv : v ≠ .null)
    (h : textOf? v = .ok t) : t = some v.text := by
  have hmap : textOf? v = (textOf v).map some := by
    cases v with
    | null => exact absurd rfl hv
    | _ => rfl
  obtain ⟨s, hs, rfl⟩ := map_eq_ok.1 (hmap ▸ h)
  rw [text_of_textOf hs]

/-- A declared id is the text of its value, or else the name of the file. -/
theorem eq_of_idOf {v : Value} {id : String} (h : idOf path v = .ok id) :
    id = if v.isTruthy then v.text else path.stem := by
  rw [idOf] at h
  split at h
  · rename_i htruthy
    rw [if_pos htruthy, text_of_textOf h]
  · rename_i hfalsy
    rw [if_neg hfalsy]
    rw [Path.id?] at h
    split at h
    · rename_i hstem
      split at hstem
      · cases hstem
      · exact (Except.ok.inj h).symm.trans (Option.some.inj hstem).symm
    · cases h

theorem id_of_ofFront (h : ofFront path front = .ok c) :
    idOf path (Value.valueOrNull "id" front) = .ok c.id := by
  obtain ⟨id, hid, h⟩ := bind_eq_ok.1 h
  obtain ⟨title, -, h⟩ := bind_eq_ok.1 h
  obtain ⟨category, -, h⟩ := bind_eq_ok.1 h
  obtain ⟨source, -, h⟩ := bind_eq_ok.1 h
  obtain ⟨canonical, -, h⟩ := bind_eq_ok.1 h
  obtain ⟨description, -, h⟩ := bind_eq_ok.1 h
  cases h
  exact hid

theorem canonical_of_ofFront (h : ofFront path front = .ok c) :
    textOf? (Value.valueOrNull "canonical" front) = .ok c.canonical := by
  obtain ⟨id, -, h⟩ := bind_eq_ok.1 h
  obtain ⟨title, -, h⟩ := bind_eq_ok.1 h
  obtain ⟨category, -, h⟩ := bind_eq_ok.1 h
  obtain ⟨source, -, h⟩ := bind_eq_ok.1 h
  obtain ⟨canonical, hcanonical, h⟩ := bind_eq_ok.1 h
  obtain ⟨description, -, h⟩ := bind_eq_ok.1 h
  cases h
  exact hcanonical

/-- The canonical node of a concept that names one, unless it names itself or nothing. -/
theorem canonicalId_node {other : String} (h : c.canonical = some other) :
    c.node.canonicalId = (if other = "" ∨ other = c.id then none else some other) ∧
    (c.node.isCanonical = true ↔ other = "" ∨ other = c.id) := by
  have hnamed : (nonempty? c.canonical).filter (· != c.id) =
      if other = "" ∨ other = c.id then none else some other := by
    rw [h, nonempty?, Option.filter_some]
    by_cases hempty : other = ""
    · simp [hempty]
    · by_cases hid : other = c.id <;> simp_all
  simp only [node, hnamed]
  by_cases hself : other = "" ∨ other = c.id
  · rw [if_pos hself]
    split <;> exact ⟨rfl, iff_of_true rfl hself⟩
  · rw [if_neg hself]
    split <;> exact ⟨rfl, iff_of_false Bool.false_ne_true hself⟩

/-- What a concept names as its canonical concept is found, once there is a node for it. -/
theorem not_unresolved_node {g : Graph Float} {other : String} (h : c.canonical = some other)
    (hmem : other ∈ g.ids) : ¬ g.Unresolved c.node := by
  rintro ⟨hvariant, hmissing⟩
  obtain ⟨hid, hcanonical⟩ := canonicalId_node h
  have hself : ¬ (other = "" ∨ other = c.id) := fun hself ↦
    Bool.false_ne_true (hvariant.symm.trans (hcanonical.2 hself))
  rw [if_neg hself] at hid
  exact hmissing other hid hmem

end Concept

namespace References

variable {front : List (Value × Value)} {v : Value} {refs : References}

/-- The ways in which a card refers to other concepts. -/
inductive Kind
  | prerequisite
  | related
  | leadsTo
  deriving DecidableEq, Repr

/-- The key that the references of a kind stand under. -/
def Kind.key : Kind → String
  | .prerequisite => "prerequisites"
  | .related => "related"
  | .leadsTo => "leads_to"

/-- The edge of a reference. -/
def Kind.edge (own other : String) : Kind → Edge Float
  | .prerequisite => ⟨other, own, .prerequisite, 1, .frontMatter⟩
  | .related => ⟨own, other, .relatesTo, 1, .frontMatter⟩
  | .leadsTo => ⟨own, other, .leadsTo, 1, .frontMatter⟩

theorem Kind.joins_edge {g : Graph Float} (k : Kind) (own other : String) :
    g.joins (k.edge own other) = true ↔ own ∈ g.ids ∧ other ∈ g.ids := by
  rw [Graph.joins_iff]
  cases k with
  | prerequisite => exact and_comm
  | related => exact Iff.rfl
  | leadsTo => exact Iff.rfl

/-- A card lists a value under a kind of references, in a list or, if it is a text, alone. -/
def Lists (front : List (Value × Value)) (k : Kind) (v : Value) : Prop :=
  (∃ items, Value.valueOrNull k.key front = .list items ∧ v ∈ items) ∨
    ∃ s, Value.valueOrNull k.key front = .str s ∧ v = .str s

/-- What is listed counts by its text, whatever it is, as long as it is not null. -/
theorem text_mem_idsAt {k : Kind} {ids : List String} (h : idsAt k.key front = .ok ids)
    (hlists : Lists front k v) (hnull : v ≠ .null) : v.text ∈ ids := by
  rw [idsAt] at h
  rcases hlists with ⟨items, hitems, hv⟩ | ⟨s, hs, rfl⟩
  · rw [hitems] at h
    obtain ⟨texts, htexts, rfl⟩ := map_eq_ok.1 h
    obtain ⟨t, ht, htext⟩ := exists_of_forall₂ (mapM_eq_ok_iff.1 htexts) hv
    rw [Concept.eq_some_of_textOf? hnull htext] at ht
    exact List.mem_filterMap.2 ⟨some v.text, ht, rfl⟩
  · rw [hs] at h
    cases h
    exact List.mem_singleton_self s

/-- Every value that is listed is an edge. -/
theorem edge_mem_edges (h : ofFront front = .ok refs) {k : Kind} (hlists : Lists front k v)
    (hnull : v ≠ .null) (own : String) : k.edge own v.text ∈ refs.edges own := by
  obtain ⟨prerequisites, hprerequisites, h⟩ := bind_eq_ok.1 h
  obtain ⟨related, hrelated, h⟩ := bind_eq_ok.1 h
  obtain ⟨leadsTo, hleadsTo, h⟩ := bind_eq_ok.1 h
  cases h
  simp only [edges, List.mem_append, List.mem_map]
  cases k with
  | prerequisite =>
    exact .inl (.inl ⟨v.text, text_mem_idsAt (k := .prerequisite) hprerequisites hlists hnull, rfl⟩)
  | related =>
    exact .inl (.inr ⟨v.text, text_mem_idsAt (k := .related) hrelated hlists hnull, rfl⟩)
  | leadsTo => exact .inr ⟨v.text, text_mem_idsAt (k := .leadsTo) hleadsTo hlists hnull, rfl⟩

end References

namespace Build

variable {d : Disk} {r : Request} {base : Path} {os : List (Path × Outcome Extract)}

/-! ### Cards in a build -/

/-- A file gave a node and edges, and these are the entries of its front matter. -/
structure Gave (d : Disk) (os : List (Path × Outcome Extract)) (path : Path)
    (front : List (Value × Value)) (x : Extract) : Prop where
  outcome : (path, .ok x) ∈ os
  card : ∃ text body, d.text path = .ok text ∧ Card.ofText Yaml.parse text = .ok ⟨front, body⟩

/-- The concept and the references that a file gave. -/
theorem Gave.exists_concept {path : Path} {front : List (Value × Value)} {x : Extract}
    (h : Gave d os path front x) (hos : outcomes d base r = .ok os)
    (hconcepts : r.extractor = .concepts) :
    ∃ c refs, Concept.ofFront path front = .ok c ∧ References.ofFront front = .ok refs ∧
      x.node = c.node ∧ x.edges = refs.edges c.id := by
  obtain ⟨text, body, htext, hcard⟩ := h.card
  obtain ⟨files, -, hfiles⟩ := bind_eq_ok.1 hos
  cases hfiles
  obtain ⟨f, -, hf⟩ := List.mem_map.1 h.outcome
  obtain ⟨rfl, hextract⟩ := Prod.mk.inj hf
  rw [hconcepts] at hextract
  obtain ⟨text', card, c, refs, htext', hcard', hc, hrefs, hgave⟩ :=
    exists_concept_of_extract hextract
  obtain rfl : text = text' := Except.ok.inj (htext.symm.trans htext')
  obtain rfl : ⟨front, body⟩ = card := Except.ok.inj (hcard.symm.trans hcard')
  exact ⟨c, refs, hc, hrefs, hgave⟩

theorem Gave.mem_extracts {path : Path} {front : List (Value × Value)} {x : Extract}
    (h : Gave d os path front x) : x ∈ extracts os :=
  List.mem_filterMap.2 ⟨_, h.outcome, rfl⟩

theorem Gave.id_node {path : Path} {front : List (Value × Value)} {x : Extract}
    (h : Gave d os path front x) (hos : outcomes d base r = .ok os)
    (hconcepts : r.extractor = .concepts) :
    x.node.id = if (Value.valueOrNull "id" front).isTruthy then (Value.valueOrNull "id" front).text
      else path.stem := by
  obtain ⟨c, refs, hc, -, hnode, -⟩ := h.exists_concept hos hconcepts
  rw [hnode, Concept.id_node]
  exact Concept.eq_of_idOf (Concept.id_of_ofFront hc)

/-- Every value that a card lists is an edge that the build has to place. -/
theorem Gave.edge_mem_stagedEdges {path : Path} {front : List (Value × Value)} {x : Extract}
    (h : Gave d os path front x) (hos : outcomes d base r = .ok os)
    (hconcepts : r.extractor = .concepts) {k : References.Kind} {v : Value}
    (hlists : References.Lists front k v) (hnull : v ≠ .null) :
    k.edge x.node.id v.text ∈ stagedEdges os r.manualEdges := by
  obtain ⟨c, refs, -, hrefs, hnode, hedges⟩ := h.exists_concept hos hconcepts
  have hedge : k.edge x.node.id v.text ∈ x.edges := by
    rw [hedges, hnode, Concept.id_node]
    exact References.edge_mem_edges hrefs hlists hnull _
  exact List.mem_append_left _ (List.mem_flatMap.2 ⟨x, h.mem_extracts, hedge⟩)

/-- What a card names as its canonical concept is found, once there is a node for it. -/
theorem Gave.resolved {path : Path} {front : List (Value × Value)} {x : Extract}
    (h : Gave d os path front x) (hos : outcomes d base r = .ok os)
    (hconcepts : r.extractor = .concepts) {v : Value} {g : Graph Float}
    (hv : Value.valueOrNull "canonical" front = v) (hnull : v ≠ .null) (htext : v.text ≠ "")
    (hmem : v.text ∈ g.ids) :
    ¬ g.Unresolved x.node ∧ (x.node.canonicalId = some v.text ∨ v.text = x.node.id) := by
  obtain ⟨c, -, hc, -, hnode, -⟩ := h.exists_concept hos hconcepts
  have hcanonical : c.canonical = some v.text :=
    Concept.eq_some_of_textOf? hnull (hv ▸ Concept.canonical_of_ofFront hc)
  rw [hnode, Concept.id_node]
  refine ⟨Concept.not_unresolved_node hcanonical hmem, ?_⟩
  by_cases hself : v.text = c.id
  · exact .inr hself
  · rw [(Concept.canonicalId_node hcanonical).1, if_neg (not_or.2 ⟨htext, hself⟩)]
    exact .inl rfl

/-! ### Meeting -/

/-- What a card says of a value has met a node: the edges of its references are stored, and if the
value is the canonical concept, the node of the card has found it. Reported as dangling are those
staged edges that are not stored, and no others. -/
structure Meets (g : Graph Float) (t : Tally) (staged : List (Edge Float))
    (front : List (Value × Value)) (v : Value) (n : Node) : Prop where
  present : v.text ∈ g.ids
  stored : ∀ k, References.Lists front k v → k.edge n.id v.text ∈ g.edges
  resolved : Value.valueOrNull "canonical" front = v →
    ¬ g.Unresolved n ∧ (n.canonicalId = some v.text ∨ v.text = n.id)
  edges : g.edges = staged.filter g.joins
  dangling : t.dangling = (staged.filter fun e ↦ !g.joins e).map Edge.describe

/-- **A reference meets the card that declares its value, unless that value counts as absent.** Then
the card is named after its file, and meets the reference only if the file has that name too. Where
no node has the text of the value as its id, each edge of the reference is reported as dangling. -/
theorem references_meet {g : Graph Float} {t : Tally} {v : Value} {p q : Path}
    {declaring referring : List (Value × Value)} {x y : Extract}
    (hconcepts : r.extractor = .concepts) (hbase : r.content = some base)
    (hos : outcomes d base r = .ok os) (hrun : run d r = .ok (g, t))
    (hx : Gave d os p declaring x) (hy : Gave d os q referring y) (hscalar : v.isScalar = true)
    (hnull : v ≠ .null) (hempty : v ≠ .str "") (hid : Value.valueOrNull "id" declaring = v) :
    (¬ v.Naught → x.node.id = v.text) ∧ (v.Naught → x.node.id = p.stem) ∧
    (x.node.id = v.text → Meets g t (stagedEdges os r.manualEdges) referring v y.node) ∧
    (v.text ∉ g.ids → ∀ k, References.Lists referring k v →
      (k.edge y.node.id v.text).describe ∈ t.dangling) := by
  have htruthy := Value.isTruthy_iff_not_naught hscalar hnull hempty
  have hown := hx.id_node hos hconcepts
  rw [hid] at hown
  obtain ⟨hedges, hdangling⟩ := edges_of_run hbase hos hrun
  have hids : ∀ id, id ∈ g.ids ↔ ∃ z ∈ extracts os, z.node.id = id := fun _ ↦
    mem_ids_of_run hbase hos hrun
  refine ⟨fun h ↦ ?_, fun h ↦ ?_, fun h ↦ ?_, fun h k hk ↦ ?_⟩
  · rw [hown, if_pos (htruthy.2 h)]
  · rw [hown, if_neg fun ht ↦ htruthy.1 ht h]
  · have hpresent : v.text ∈ g.ids := (hids _).2 ⟨x, hx.mem_extracts, h⟩
    have hother : y.node.id ∈ g.ids := (hids _).2 ⟨y, hy.mem_extracts, rfl⟩
    exact {
      present := hpresent
      stored := by
        intro k hk
        rw [hedges, List.mem_filter, k.joins_edge]
        exact ⟨hy.edge_mem_stagedEdges hos hconcepts hk hnull, hother, hpresent⟩
      resolved := by
        intro hcanonical
        exact hy.resolved hos hconcepts hcanonical hnull (Value.text_ne_empty hscalar hempty)
          hpresent
      edges := hedges
      dangling := hdangling }
  · have hmiss : g.joins (k.edge y.node.id v.text) = false :=
      Bool.eq_false_iff.2 fun hj ↦ h ((k.joins_edge _ _).1 hj).2
    rw [hdangling]
    refine List.mem_map_of_mem (List.mem_filter.2
      ⟨hy.edge_mem_stagedEdges hos hconcepts hk hnull, ?_⟩)
    rw [hmiss, Bool.not_false]

/-! ### Two cards -/

/-- What a card gives whose front matter says enough. -/
theorem extract_of_card {path : Path} {text body : String} {front : List (Value × Value)}
    {c : Concept} {refs : References} (htext : d.text path = .ok text)
    (hcard : Card.ofText Yaml.parse text = .ok ⟨front, body⟩)
    (hc : Concept.ofFront path front = .ok c)
    (hrefs : References.ofFront front = .ok refs) (base : Path) :
    Extractor.concepts.extract d base path = .ok ⟨c.node, refs.edges c.id⟩ := by
  have hdata : Extractor.concepts.edgeData ⟨front, body⟩ =
      .ok (if refs.isEmpty then none else some refs) := bind_eq_ok.2 ⟨refs, hrefs, rfl⟩
  refine bind_eq_ok.2 ⟨text, mapError_eq_ok.2 htext, bind_eq_ok.2 ⟨_, hcard, ?_⟩⟩
  refine bind_eq_ok.2 ⟨c, hc, bind_eq_ok.2 ⟨c.node, rfl, bind_eq_ok.2 ⟨_, hdata, ?_⟩⟩⟩
  by_cases hempty : refs.isEmpty = true
  · rw [if_pos hempty, References.edges_eq_nil_iff.2 hempty]
    rfl
  · rw [if_neg hempty, ← Concept.id_node c]
    rfl

/-- The disk with two cards. -/
def cards (a b : String) : Disk := diskOf (Text.encodeUtf8 a) (Text.encodeUtf8 b)

/-- The outcomes of two concepts in files `a.md` and `b.md`. -/
def outcomesOf (c e : Concept) (refs refs' : References) : List (Path × Outcome Extract) :=
  [(⟨.relative, ["a.md"]⟩, .ok ⟨c.node, refs.edges c.id⟩),
    (⟨.relative, ["b.md"]⟩, .ok ⟨e.node, refs'.edges e.id⟩)]

/-- A build of two cards has to go by what their front matter says. -/
theorem gave_cards {a b body body' : String} {front front' : List (Value × Value)} {c e : Concept}
    {refs refs' : References} (ha : Text.normalizeNewlines a.toList = a.toList)
    (hb : Text.normalizeNewlines b.toList = b.toList)
    (hcard : Card.ofText Yaml.parse a = .ok ⟨front, body⟩)
    (hcard' : Card.ofText Yaml.parse b = .ok ⟨front', body'⟩)
    (hc : Concept.ofFront ⟨.relative, ["a.md"]⟩ front = .ok c)
    (he : Concept.ofFront ⟨.relative, ["b.md"]⟩ front' = .ok e)
    (hrefs : References.ofFront front = .ok refs) (hrefs' : References.ofFront front' = .ok refs') :
    outcomes (cards a b) everyFile.source everyFile.request = .ok (outcomesOf c e refs refs') ∧
    Gave (cards a b) (outcomesOf c e refs refs') ⟨.relative, ["a.md"]⟩ front
      ⟨c.node, refs.edges c.id⟩ ∧
    Gave (cards a b) (outcomesOf c e refs refs') ⟨.relative, ["b.md"]⟩ front'
      ⟨e.node, refs'.edges e.id⟩ := by
  have htext : (cards a b).text ⟨.relative, ["a.md"]⟩ = .ok a :=
    Disk.text_eq_ok_iff.2 (Disk.spells_of_read rfl ha)
  have htext' : (cards a b).text ⟨.relative, ["b.md"]⟩ = .ok b :=
    Disk.text_eq_ok_iff.2 (Disk.spells_of_read rfl hb)
  have hx := extract_of_card htext hcard hc hrefs everyFile.source
  have hy := extract_of_card htext' hcard' he hrefs' everyFile.source
  refine ⟨?_, ⟨List.mem_cons_self, a, body, htext, hcard⟩,
    ⟨List.mem_cons_of_mem _ List.mem_cons_self, b, body', htext', hcard'⟩⟩
  rw [cards] at hx hy
  rw [cards, outcomes_diskOf, twoFiles, List.map_cons, List.map_cons, List.map_nil, hx, hy]
  rfl

/-- A concept that front matter without other keys makes of an id. -/
theorem ofFront_of_idOf {path : Path} {front : List (Value × Value)} {id : String}
    (hid : Concept.idOf path (Value.valueOrNull "id" front) = .ok id)
    (hother : ∀ key ∈ ["title", "category", "source", "canonical", "description"],
      Value.value? key front = none) :
    Concept.ofFront path front = .ok ⟨id, id, none, none, none, none⟩ := by
  have hnull : ∀ key ∈ ["title", "category", "source", "canonical", "description"],
      Value.valueOrNull key front = .null := fun key hkey ↦ by
    rw [Value.valueOrNull, hother key hkey, Option.getD_none]
  rw [Concept.ofFront, hid, hnull "title" (by decide), hnull "category" (by decide),
    hnull "source" (by decide), hnull "canonical" (by decide), hnull "description" (by decide)]
  rfl

theorem idOf_second : Concept.idOf ⟨.relative, ["b.md"]⟩ .null = .ok "b" := by
  have hstem : (⟨.relative, ["b.md"]⟩ : Path).id? = some "b" := by decide +kernel
  rw [Concept.idOf, hstem]
  rfl

/-- In a build of a card with the id `7` and a card that is related to it, the two meet. -/
theorem references_meet_seven :
    ∃ g t, run (cards "---\nid: 7\n---\n" "---\nrelated: [7]\n---\n") everyFile.request =
        .ok (g, t) ∧
      "7" ∈ g.ids ∧ (⟨"b", "7", .relatesTo, 1, .frontMatter⟩ : Edge Float) ∈ g.edges := by
  have hcard : Card.ofText Yaml.parse "---\nid: 7\n---\n" =
      .ok ⟨[(.str "id", .int 7)], ""⟩ := by cbv
  have hcard' : Card.ofText Yaml.parse "---\nrelated: [7]\n---\n" =
      .ok ⟨[(.str "related", .list [.int 7])], ""⟩ := by cbv
  have hown : Concept.idOf ⟨.relative, ["a.md"]⟩ (.int 7) = .ok "7" := rfl
  have hrefs : References.ofFront [(.str "id", .int 7)] = .ok ⟨[], [], []⟩ := by cbv
  have hrefs' : References.ofFront [(.str "related", .list [.int 7])] = .ok ⟨[], ["7"], []⟩ := by
    cbv
  obtain ⟨hos, hx, hy⟩ := gave_cards (by decide) (by decide) hcard hcard'
    (ofFront_of_idOf hown (by decide)) (ofFront_of_idOf idOf_second (by decide)) hrefs hrefs'
  have hrun := run_collect rfl rfl hos
  have hmeet := references_meet rfl rfl hos hrun hx hy (v := .int 7) rfl
    (fun h ↦ Value.noConfusion h) (fun h ↦ Value.noConfusion h) rfl
  have hpresent : ¬ (Value.int 7).Naught := by
    intro h
    cases h
  have hmeets := hmeet.2.2.1 (hmeet.1 hpresent)
  exact ⟨_, _, hrun, hmeets.present, hmeets.stored .related (.inl ⟨_, rfl, List.mem_cons_self⟩)⟩

/-- **A card with the id `0` is not found.** The card takes the name of its file as its id, and the
edge of the card that is related to `0` is reported as dangling. -/
theorem references_miss_zero :
    ∃ (d : Disk) (os : List (Path × Outcome Extract)) (g : Graph Float) (t : Tally) (p q : Path)
      (declaring referring : List (Value × Value)) (x y : Extract),
      outcomes d everyFile.source everyFile.request = .ok os ∧
      run d everyFile.request = .ok (g, t) ∧
      Gave d os p declaring x ∧ Gave d os q referring y ∧
      Value.valueOrNull "id" declaring = .int 0 ∧ References.Lists referring .related (.int 0) ∧
      x.node.id = "a" ∧ g.ids = ["a", "b"] ∧ g.edges = [] ∧ t.dangling = ["b -> 0"] := by
  have hcard : Card.ofText Yaml.parse "---\nid: 0\n---\n" =
      .ok ⟨[(.str "id", .int 0)], ""⟩ := by cbv
  have hcard' : Card.ofText Yaml.parse "---\nrelated: [0]\n---\n" =
      .ok ⟨[(.str "related", .list [.int 0])], ""⟩ := by cbv
  have hown : Concept.idOf ⟨.relative, ["a.md"]⟩ (.int 0) = .ok "a" := by
    have hstem : (⟨.relative, ["a.md"]⟩ : Path).id? = some "a" := by decide +kernel
    rw [Concept.idOf, hstem]
    rfl
  have hrefs : References.ofFront [(.str "id", .int 0)] = .ok ⟨[], [], []⟩ := by cbv
  have hrefs' : References.ofFront [(.str "related", .list [.int 0])] = .ok ⟨[], ["0"], []⟩ := by
    cbv
  obtain ⟨hos, hx, hy⟩ := gave_cards (by decide) (by decide) hcard hcard'
    (ofFront_of_idOf hown (by decide)) (ofFront_of_idOf idOf_second (by decide)) hrefs hrefs'
  exact ⟨_, _, _, _, _, _, _, _, _, _, hos, run_collect rfl rfl hos, hx, hy, rfl,
    .inl ⟨_, rfl, List.mem_cons_self⟩, rfl, rfl, rfl, rfl⟩

end Build

end ConceptAtlas
