import ConceptAtlas.Proofs.Files.Disk
import ConceptAtlas.Proofs.Json.Written
import ConceptAtlas.Proofs.Snapshot.Reloading
import ConceptAtlas.Proofs.Snapshot.Schema
import ConceptAtlas.Snapshot.Store

/-!
# What fresh means

A snapshot on a disk is fresh for a fingerprint if there is a file whose bytes spell a value that
fits the schema and has that fingerprint in its stamp. Where that is not so the answer is that it is
stale, whatever is wrong: nothing is there, a directory is, the bytes spell no text, the text is no
JSON, the value is no snapshot, the stamp is missing or another one.

**There are two exceptions.** A value whose reading breaks down breaks down the question as well,
and so does a text that breaks down the reader of JSON (`Snapshot.Impassable`). The weight of one
edge is enough, even in a snapshot without a stamp (`Snapshot.isFresh_heavy`). A reader with a limit
of nesting has one exception more; the reader of this library has none, and it reads every half of a
surrogate pair as the same character.
-/

namespace ConceptAtlas

/-- The bytes of a JSON value that was written spell it as it was written. -/
theorem Disk.spells_pretty {d : Disk} {p : Path} {charset : Json.Charset} {j : Json}
    (h : d.read p = .ok (Text.encodeUtf8 (j.pretty charset))) : d.Spells p (j.pretty charset) :=
  spells_of_read h (Json.normalizeNewlines_pretty ..)

namespace Snapshot

variable {d : Disk} {p : Path} {text fingerprint : String} {j : Json} {s : Snapshot}

/-! ### What a text records -/

/-- A text records a snapshot if it spells a value that does. -/
theorem ofText_eq_ok_iff : ofText text = .ok s ↔ ∃ j, Json.parse text = .ok j ∧ Records j s := by
  rw [ofText, ofTextWithin, Json.parse]
  rcases Json.parseWithin (some Json.maxIntegerDigits) text with (- | digits) | j
  · simp [refuse]
  · simp [breakDown]
  · simp [ofJson_eq_ok_iff]

/-- A text breaks its reader down by an integer that is too long, or by the weight of an edge. -/
theorem ofText_eq_breakDown_iff {b : Breakdown} : ofText text = breakDown b ↔
    (∃ digits, Json.parse text = .error (.integerTooLong digits) ∧ b = .integerTooLong digits) ∨
      ∃ j, Json.parse text = .ok j ∧ Overweight j ∧ b = .weightTooLarge := by
  rw [ofText, ofTextWithin, Json.parse]
  rcases Json.parseWithin (some Json.maxIntegerDigits) text with (- | digits) | j
  · simp [refuse, breakDown]
  · simp [breakDown, eq_comm]
  · simp only [ofJson_eq_breakDown_iff]
    simp [and_comm]

theorem contentHash_eq_iff {m : Stamp} (h : Stamp.Records j m) :
    m.contentHash = some fingerprint ↔ j.field? "content_hash" = some (.str fingerprint) := by
  rw [← Json.fieldOrNull_eq_str_iff, h.contentHash, Json.ofText?_eq_str_iff]

/-- The fingerprint of a snapshot stands in the stamp of its record. -/
theorem Records.fingerprint_iff (h : Records j s) :
    s.stamp.bind Stamp.contentHash = some fingerprint ↔
      ∃ m, j.field? "metadata" = some m ∧ m.field? "content_hash" = some (.str fingerprint) := by
  have hstamp := h.stamp
  rw [Json.exists_field?_field?_iff]
  generalize s.stamp = recorded, j.fieldOrNull "metadata" = metadata at hstamp
  cases hstamp with
  | none => simp [Json.field?]
  | some hm => exact contentHash_eq_iff hm

/-! ### The question on a disk -/

theorem load_eq_ok_iff : load d p = .ok s ↔ ∃ text, d.Spells p text ∧ ofText text = .ok s := by
  rw [load, bind_eq_ok]
  simp only [mapError_eq_ok, Disk.text_eq_ok_iff]

theorem load_eq_breakDown_iff {b : Breakdown} :
    load d p = breakDown b ↔ ∃ text, d.Spells p text ∧ ofText text = breakDown b := by
  rw [load, breakDown, bind_eq_error]
  simp only [mapError_eq_ok, Disk.text_eq_ok_iff]
  refine or_iff_right fun h ↦ ?_
  rcases htext : d.text p with fault | text
  · rw [htext] at h
    cases h
  · rw [htext] at h
    cases h

/-- What there has to be at a path for a snapshot that is fresh: a file that spells a value that
fits the schema, its weights included, and whose stamp has the fingerprint. -/
def Fresh (d : Disk) (p : Path) (fingerprint : String) : Prop :=
  ∃ text j, d.Spells p text ∧ Json.parse text = .ok j ∧ Schema j ∧ WeightsFit j ∧
    ∃ m, j.field? "metadata" = some m ∧ m.field? "content_hash" = some (.str fingerprint)

/-- What there is at a path that no reader gets through: a file with an integer that is too long, or
with a value that fits up to the weight of an edge, which is an integer that is too large. -/
inductive Impassable (d : Disk) (p : Path) : Breakdown → Prop
  | integer {text : String} {digits : Nat} : d.Spells p text →
    Json.parse text = .error (.integerTooLong digits) → Impassable d p (.integerTooLong digits)
  | weight {text : String} {j : Json} : d.Spells p text →
    Json.parse text = .ok j → Overweight j → Impassable d p .weightTooLarge

theorem load_eq_breakDown_iff_impassable {b : Breakdown} :
    load d p = breakDown b ↔ Impassable d p b := by
  simp only [load_eq_breakDown_iff, ofText_eq_breakDown_iff]
  constructor
  · rintro ⟨text, htext, ⟨digits, hparse, rfl⟩ | ⟨j, hparse, hover, rfl⟩⟩
    · exact .integer htext hparse
    · exact .weight htext hparse hover
  · rintro (⟨htext, hparse⟩ | ⟨htext, hparse, hover⟩)
    · exact ⟨_, htext, .inl ⟨_, hparse, rfl⟩⟩
    · exact ⟨_, htext, .inr ⟨_, hparse, hover, rfl⟩⟩

theorem fresh_iff : Fresh d p fingerprint ↔
    ∃ s, load d p = .ok s ∧ s.stamp.bind Stamp.contentHash = some fingerprint := by
  simp only [load_eq_ok_iff, ofText_eq_ok_iff]
  constructor
  · rintro ⟨text, j, htext, hparse, hschema, hfit, hstamp⟩
    obtain ⟨s, hs⟩ := exists_records_iff.2 ⟨hschema, hfit⟩
    exact ⟨s, ⟨text, htext, j, hparse, hs⟩, hs.fingerprint_iff.2 hstamp⟩
  · rintro ⟨s, ⟨text, htext, j, hparse, hs⟩, hk⟩
    obtain ⟨hschema, hfit⟩ := exists_records_iff.1 ⟨s, hs⟩
    exact ⟨text, j, htext, hparse, hschema, hfit, hs.fingerprint_iff.1 hk⟩

/-- Nothing is loaded from where nothing is, and loading does not break down there. -/
theorem load_of_not_contains (h : d.contains p = false) : ∃ f, load d p = .error (.fault f) := by
  rcases hload : load d p with (f | b) | s
  · exact ⟨f, rfl⟩
  · obtain ⟨text, htext, -⟩ := load_eq_breakDown_iff.1 hload
    nomatch h.symm.trans htext.contains
  · obtain ⟨text, htext, -⟩ := load_eq_ok_iff.1 hload
    nomatch h.symm.trans htext.contains

/-- The answer is about what is loaded, whether or not something is there. -/
theorem isFresh_eq : isFresh d p fingerprint =
    match load d p with
    | .error (.fault _) => .ok false
    | .error (.breakdown b) => breakDown b
    | .ok s => .ok ((s.stamp.bind Stamp.contentHash) == some fingerprint) := by
  rw [isFresh]
  split
  · rename_i habsent
    obtain ⟨f, hf⟩ := load_of_not_contains (Bool.not_eq_true' _ |>.mp habsent)
    rw [hf]
  · rfl

theorem isFresh_eq_breakDown_iff {b : Breakdown} :
    isFresh d p fingerprint = breakDown b ↔ Impassable d p b := by
  rw [← load_eq_breakDown_iff_impassable, isFresh_eq]
  rcases load d p with (f | b') | s
  · simp [breakDown]
  · simp [breakDown]
  · simp [breakDown]

/-- **A snapshot is fresh or stale, unless nobody can tell.** The answer is yes exactly if the file
has all that it takes, and there is no answer exactly if the file cannot be got through, by the
reader of JSON that this library has; a fault never comes out, whatever the path leads to. -/
theorem isFresh_settles (d : Disk) (p : Path) (fingerprint : String) :
    (isFresh d p fingerprint = .ok true ↔ Fresh d p fingerprint) ∧
    (∀ b, isFresh d p fingerprint = breakDown b ↔ Impassable d p b) ∧
    ((∃ fresh, isFresh d p fingerprint = .ok fresh) ∨
      ∃ b, isFresh d p fingerprint = breakDown b) := by
  refine ⟨?_, fun b ↦ isFresh_eq_breakDown_iff, ?_⟩
  · rw [fresh_iff, isFresh_eq]
    rcases load d p with (f | b) | s
    · simp
    · simp [breakDown]
    · simp
  · rw [isFresh_eq]
    rcases load d p with (f | b) | s
    · exact .inl ⟨false, rfl⟩
    · exact .inr ⟨b, rfl⟩
    · exact .inl ⟨_, rfl⟩

/-- A snapshot without nodes and without a stamp, of one edge that has an integer for its weight. -/
def heavy (n : Int) : Json :=
  .obj [("nodes", .arr []), ("edges", .arr [.obj [("from", .str "a"), ("to", .str "b"),
    ("relationship", .str "Prerequisite"), ("weight", .int n)]])]

theorem overweight_heavy {n : Int} (h : Decimal.overflowBound ≤ n.natAbs) : Overweight (heavy n) :=
  ⟨[], [], _, [], rfl, List.forall_mem_nil _, rfl, List.forall_mem_nil _,
    { object := rfl
      source := ⟨_, rfl, rfl⟩
      target := ⟨_, rfl, rfl⟩
      relationship := ⟨_, rfl, .inl rfl⟩
      weight := ⟨n, rfl, h⟩ }⟩

theorem parse_heavy {n : Int} (h : n.natAbs < 10 ^ Json.maxIntegerDigits) :
    Json.parse ((heavy n).pretty .unicode) = .ok (heavy n) := by
  have hdigits : Json.fits (some Json.maxIntegerDigits) (Nat.toDigits 10 n.natAbs).length = true :=
    decide_eq_true ((Nat.length_toDigits_le_iff (by decide) (by decide)).2 h)
  refine Json.parseWithin_pretty ?_
  simp [heavy, Json.Legible, Json.LegibleItems, Json.LegibleFields, hdigits]

theorem impassable_heavy {k : Nat} (hlarge : 1024 ≤ k) (hshort : k < Json.maxIntegerDigits)
    (hread : d.read p = .ok (Text.encodeUtf8 ((heavy (2 ^ k)).pretty .unicode))) :
    Impassable d p .weightTooLarge := by
  have habs : (2 ^ k : Int).natAbs = 2 ^ k := Int.natAbs_pow 2 k
  have hlt : 2 ^ k < 10 ^ Json.maxIntegerDigits :=
    calc 2 ^ k ≤ 10 ^ k := Nat.pow_le_pow_left (by decide) k
      _ < 10 ^ Json.maxIntegerDigits := Nat.pow_lt_pow_right (by decide) hshort
  rw [← habs] at hlt
  refine .weight (Disk.spells_pretty hread) (parse_heavy hlt) (overweight_heavy ?_)
  rw [habs]
  exact Decimal.overflowBound_le_pow hlarge

/-- **The weight of an edge breaks down the question**: nothing else is wrong with the file, and it
has no stamp. The weight is what would be the next double after the largest one. -/
theorem isFresh_heavy :
    isFresh ⟨[], [(["graph.json"], .file (Text.encodeUtf8 ((heavy (2 ^ 1024)).pretty .unicode)))]⟩
      ⟨.relative, ["graph.json"]⟩ "0" = breakDown .weightTooLarge :=
  isFresh_eq_breakDown_iff.2 (impassable_heavy (Nat.le_refl 1024) (by decide) rfl)

end Snapshot

end ConceptAtlas
