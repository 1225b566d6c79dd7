import ConceptAtlas.Proofs.Graph.History
import ConceptAtlas.Proofs.Json.Writable
import ConceptAtlas.Snapshot.Basic

/-!
# Reloading a snapshot

The text of a snapshot records its nodes, its edges and its stamp, and reads back as all three. Each
record reads back as itself without any condition (`Node.ofJson_toJson`, `Edge.ofJson_toJson`,
`Stamp.ofJson_toJson`); what may go wrong lies in the values of the metadata and in the weights, of
which a reader has to be able to take each (`Json.Legible`).

**Not every snapshot has a text.** An integer with too many digits cannot be written, so a snapshot
has a text exactly if it is modest (`Snapshot.Modest`), and then the text reads back. A snapshot
that is not modest breaks its writer down, and the text that it would have breaks the reader down
(`Arena.reload_settles`); one node with such an integer is enough (`Arena.serialize_noted_long`).

An arena that is made from the records of another one is no copy of it: its arcs are hung up again,
one after the other, and the cache is lost. But it holds the same graph, and so it gives the same
answers and has the same text (`Arena.Holds.reload`).
-/

namespace ConceptAtlas

/-! ### Records -/

/-- A relationship reads back, whatever a custom one is called. -/
theorem Relationship.ofJson_toJson (r : Relationship) : ofJson r.toJson = .ok r := by
  cases r with
  | custom label =>
    have hkind : Text.toLower "Custom" = "custom" := by decide +kernel
    exact if_pos hkind
  | _ => rfl

theorem Node.ofJson_toJson (n : Node) : ofJson n.toJson = .ok n := by
  obtain ⟨id, title, category, source, isCanonical, canonicalId, metadata⟩ := n
  cases category <;> cases source <;> cases canonicalId <;> rfl

theorem Edge.ofJson_toJson (e : Edge Float) : ofJson e.toJson = .ok e := by
  have hrelationship := Relationship.ofJson_toJson e.relationship
  have horigin := Origin.ofJson_name e.origin
  -- The ids stand in the record as they are; relationship and origin have readers of their own.
  refine bind_eq_ok.2 ⟨_, rfl, bind_eq_ok.2 ⟨_, rfl, bind_eq_ok.2 ⟨_, rfl, bind_eq_ok.2 ⟨_, rfl,
    bind_eq_ok.2 ⟨_, rfl, bind_eq_ok.2 ⟨_, rfl, ?_⟩⟩⟩⟩⟩⟩
  refine bind_eq_ok.2 ⟨_, mapError_eq_ok.2 hrelationship, bind_eq_ok.2 ⟨_, rfl, ?_⟩⟩
  exact bind_eq_ok.2 ⟨_, mapError_eq_ok.2 horigin, rfl⟩

theorem Stamp.ofJson_toJson (s : Stamp) : ofJson s.toJson = .ok s := by
  obtain ⟨builtAt, builderVersion, contentHash, sourceFileCount⟩ := s
  cases contentHash <;> cases sourceFileCount <;> rfl

/-- Records read back one by one. -/
theorem mapM_map_eq_ok {α β : Type} {write : α → β} {read : β → Outcome α}
    (h : ∀ a, read (write a) = .ok a) (as : List α) : (as.map write).mapM read = .ok as := by
  have hid : read ∘ write = fun a ↦ pure (id a) := funext h
  rw [List.mapM_map, hid, List.mapM_pure, List.map_id]
  rfl

namespace Snapshot

theorem ofJson_toJson (s : Snapshot) : ofJson s.toJson = .ok s := by
  obtain ⟨nodes, edges, stamp⟩ := s
  refine bind_eq_ok.2 ⟨_, rfl, bind_eq_ok.2 ⟨_, mapM_map_eq_ok Node.ofJson_toJson nodes, ?_⟩⟩
  refine bind_eq_ok.2 ⟨_, rfl, bind_eq_ok.2 ⟨_, mapM_map_eq_ok Edge.ofJson_toJson edges, ?_⟩⟩
  cases stamp with
  | none => rfl
  | some m =>
    have hm := Stamp.ofJson_toJson m
    refine bind_eq_ok.2 ⟨some m, ?_, rfl⟩
    exact congrArg (Except.map some) hm

end Snapshot

/-! ### Values that a reader can take -/

section Legible

open Json (Legible legible_obj_iff legible_ofText?)

variable {limit : Option Nat}

theorem Relationship.legible_toJson (r : Relationship) : Legible limit r.toJson := by
  cases r with
  | custom label =>
    refine legible_obj_iff.2 ⟨by simp, ?_⟩
    simp [Legible]
  | _ => exact trivial

theorem Node.legible_toJson {n : Node} (h : Legible limit (.obj n.metadata)) :
    Legible limit n.toJson := by
  refine legible_obj_iff.2 ⟨by simp, ?_⟩
  simp only [List.forall_mem_cons]
  exact ⟨trivial, trivial, legible_ofText? _, legible_ofText? _, trivial, legible_ofText? _, h,
    nofun⟩

theorem Edge.legible_toJson {e : Edge Float} (h : Legible limit (.float e.weight)) :
    Legible limit e.toJson := by
  refine legible_obj_iff.2 ⟨by simp, ?_⟩
  simp only [List.forall_mem_cons]
  exact ⟨trivial, trivial, e.relationship.legible_toJson, h, trivial, nofun⟩

theorem Stamp.legible_toJson {s : Stamp} (h : ∀ n ∈ s.sourceFileCount, Legible limit (.int n)) :
    Legible limit s.toJson := by
  have hcount : Legible limit ((s.sourceFileCount.map Json.int).getD .null) := by
    cases hs : s.sourceFileCount with
    | none => exact trivial
    | some n => exact h n hs
  refine legible_obj_iff.2 ⟨by simp, ?_⟩
  simp only [List.forall_mem_cons]
  exact ⟨trivial, trivial, legible_ofText? _, hcount, nofun⟩

theorem Snapshot.legible_toJson {s : Snapshot}
    (hnodes : ∀ n ∈ s.nodes, Legible limit (.obj n.metadata))
    (hedges : ∀ e ∈ s.edges, Legible limit (.float e.weight))
    (hstamp : ∀ m ∈ s.stamp, ∀ n ∈ m.sourceFileCount, Legible limit (.int n)) :
    Legible limit s.toJson := by
  have hns : Legible limit (.arr (s.nodes.map Node.toJson)) :=
    Json.legibleItems_iff.2 (List.forall_mem_map.2 fun n hn ↦ (Node.legible_toJson (hnodes n hn)))
  have hes : Legible limit (.arr (s.edges.map Edge.toJson)) :=
    Json.legibleItems_iff.2 (List.forall_mem_map.2 fun e he ↦ (Edge.legible_toJson (hedges e he)))
  have hm : Legible limit ((s.stamp.map Stamp.toJson).getD .null) := by
    cases hs : s.stamp with
    | none => exact trivial
    | some m => exact Stamp.legible_toJson (hstamp m hs)
  refine legible_obj_iff.2 ⟨by simp, ?_⟩
  simp only [List.forall_mem_cons]
  exact ⟨hns, hes, hm, nofun⟩

/-- **A snapshot reads back** from what it is written as, if its reader can take what it records. -/
theorem Snapshot.ofTextWithin_pretty {s : Snapshot} (h : Legible limit s.toJson) :
    ofTextWithin limit (s.toJson.pretty .unicode) = .ok s := by
  rw [ofTextWithin, Json.parseWithin_pretty h]
  exact ofJson_toJson s

end Legible

/-! ### Snapshots that have a text -/

section Modest

open Json (Within digitCount maxIntegerDigits)

variable {most : Nat}

theorem Relationship.within_toJson (r : Relationship) : r.toJson.Within most := by
  cases r with
  | custom label => exact Json.within_obj_iff.2 (List.forall_mem_singleton.2 (Json.within_str _))
  | _ => exact Json.within_str _

theorem Node.within_toJson_iff {n : Node} :
    n.toJson.Within most ↔ (Json.obj n.metadata).Within most := by
  simp [toJson]

theorem Edge.within_toJson (e : Edge Float) : e.toJson.Within most := by
  simp [toJson, e.relationship.within_toJson]

theorem Stamp.within_toJson_iff {s : Stamp} :
    s.toJson.Within most ↔ ∀ n ∈ s.sourceFileCount, digitCount n ≤ most := by
  have hcount : ((s.sourceFileCount.map Json.int).getD .null).Within most ↔
      ∀ n ∈ s.sourceFileCount, digitCount n ≤ most := by
    cases s.sourceFileCount with
    | none => simp
    | some n => simp
  rw [← hcount]
  simp [toJson]

namespace Snapshot

/-- No integer that a snapshot records has too many digits: those in the metadata of its nodes, and
the count of its stamp. -/
structure Modest (s : Snapshot) : Prop where
  metadata : ∀ n ∈ s.nodes, (Json.obj n.metadata).Within maxIntegerDigits
  count : ∀ m ∈ s.stamp, ∀ n ∈ m.sourceFileCount, digitCount n ≤ maxIntegerDigits

theorem within_toJson_iff {s : Snapshot} :
    s.toJson.Within maxIntegerDigits ↔ s.Modest := by
  have hstamp : ((s.stamp.map Stamp.toJson).getD .null).Within maxIntegerDigits ↔
      ∀ m ∈ s.stamp, ∀ n ∈ m.sourceFileCount, digitCount n ≤ maxIntegerDigits := by
    cases s.stamp with
    | none => simp
    | some m => simp [Stamp.within_toJson_iff]
  have hnodes : (Json.arr (s.nodes.map Node.toJson)).Within maxIntegerDigits ↔
      ∀ n ∈ s.nodes, (Json.obj n.metadata).Within maxIntegerDigits := by
    rw [Json.within_arr_iff, List.forall_mem_map]
    simp only [Node.within_toJson_iff]
  have hedges : (Json.arr (s.edges.map Edge.toJson)).Within maxIntegerDigits :=
    Json.within_arr_iff.2 (List.forall_mem_map.2 fun e _ ↦ e.within_toJson)
  rw [toJson, Json.within_obj_iff]
  simp only [List.forall_mem_cons, hnodes, hedges, hstamp, List.not_mem_nil, false_imp_iff,
    implies_true, and_true, true_and]
  exact ⟨fun h ↦ ⟨h.1, h.2⟩, fun h ↦ ⟨h.metadata, h.count⟩⟩

/-- **A snapshot has a text exactly if it is modest.** -/
theorem text_eq_ok_iff {s : Snapshot} {text : String} :
    s.text = .ok text ↔ s.Modest ∧ text = s.toJson.pretty .unicode := by
  rw [Snapshot.text, ← within_toJson_iff, ← Json.isWritable_iff]
  cases s.toJson.isWritable with
  | false => simp [breakDown]
  | true => simp [eq_comm]

theorem text_of_not_modest {s : Snapshot} (h : ¬ s.Modest) :
    s.text = breakDown .integerUnwritable := by
  rw [← within_toJson_iff, ← Json.isWritable_iff] at h
  rw [Snapshot.text, if_neg h]

/-- **A modest snapshot reads back**, if a reader without a limit can take what it records. -/
theorem ofText_pretty {s : Snapshot} (hlegible : Json.Legible none s.toJson) (h : s.Modest) :
    ofText (s.toJson.pretty .unicode) = .ok s :=
  ofTextWithin_pretty (hlegible.of_within _ (within_toJson_iff.2 h))

/-- What is written as the text of a snapshot that is not modest breaks the reader down. -/
theorem exists_tooLong {s : Snapshot} (hlegible : Json.Legible none s.toJson) (h : ¬ s.Modest) :
    ∃ digits, maxIntegerDigits < digits ∧
      ofText (s.toJson.pretty .unicode) = breakDown (.integerTooLong digits) := by
  obtain ⟨digits, hlt, hlong⟩ := Json.exists_tooLong (Json.parseWithin_pretty hlegible)
    (mt within_toJson_iff.1 h)
  exact ⟨digits, hlt, by rw [ofText, ofTextWithin, hlong]⟩

end Snapshot

end Modest

/-! ### Arenas -/

namespace Arena

/-- An arena and the arena that its records make hold the same graph. -/
theorem Holds.reload {a : Arena Float} {g : Graph Float} (h : Holds a g) (m : Option Stamp) :
    Holds (Snapshot.ofArena a m).arena g := by
  have hself := Holds.ofRecords a.nodes a.edges
  rw [h.nodes, h.edges, Graph.ofRecords_self] at hself
  rw [Snapshot.arena, Snapshot.ofArena, h.nodes, h.edges]
  exact hself

theorem legible_toJson {a : Arena Float} {m : Option Stamp}
    (hnodes : ∀ n ∈ a.nodes, Json.Legible none (.obj n.metadata))
    (hedges : ∀ e ∈ a.edges, Json.Legible none (.float e.weight)) :
    Json.Legible none (Snapshot.ofArena a m).toJson :=
  Snapshot.legible_toJson hnodes hedges fun _ _ _ _ ↦ rfl

/-- **What becomes of the text of an arena**, whatever was done to it, if a reader without a limit
can take the values of its metadata and its weights. If the snapshot is modest there is a text, and
it reads back. What was read has the stamp of the text, and its arena has the same ids in the same
order under the same indices, the same nodes and the same edges; it holds the same graph, and it is
written as the same text. If the snapshot is not modest there is no text: the writer breaks down,
and so would the reader. -/
theorem reload_settles (acts : List (Act Float)) (m : Option Stamp)
    (hnodes : ∀ n ∈ (run acts).nodes, Json.Legible none (.obj n.metadata))
    (hedges : ∀ e ∈ (run acts).edges, Json.Legible none (.float e.weight)) :
    ((Snapshot.ofArena (run acts) m).Modest →
      ∃ text s, (run acts).serialize m = .ok text ∧ Snapshot.ofText text = .ok s ∧ s.stamp = m ∧
        ofText text = .ok s.arena ∧ s.arena.ids = (run acts).ids ∧
        s.arena.nodes = (run acts).nodes ∧ (∀ id, s.arena.index? id = (run acts).index? id) ∧
        s.arena.edges = (run acts).edges ∧ Holds s.arena (Graph.run acts) ∧
        s.arena.serialize s.stamp = .ok text) ∧
    (¬ (Snapshot.ofArena (run acts) m).Modest →
      (run acts).serialize m = breakDown .integerUnwritable ∧
      ∃ digits, Json.maxIntegerDigits < digits ∧
        ofText ((Snapshot.ofArena (run acts) m).toJson.pretty .unicode) =
          breakDown (.integerTooLong digits)) := by
  have hlegible : Json.Legible none (Snapshot.ofArena (run acts) m).toJson :=
    legible_toJson hnodes hedges
  constructor
  · intro hmodest
    have h := run_holds acts
    have hreload := h.reload m
    have hns := hreload.nodes.trans h.nodes.symm
    have hes := hreload.edges.trans h.edges.symm
    have htext : (run acts).serialize m =
        .ok ((Snapshot.ofArena (run acts) m).toJson.pretty .unicode) :=
      Snapshot.text_eq_ok_iff.2 ⟨hmodest, rfl⟩
    have hread := Snapshot.ofText_pretty hlegible hmodest
    refine ⟨_, .ofArena (run acts) m, htext, hread, rfl, map_eq_ok.2 ⟨_, hread, rfl⟩,
      hreload.ids.trans h.ids.symm, hns, fun id ↦ ?_, hes, hreload, ?_⟩
    · rw [hreload.index?, h.index?]
    · rw [serialize, Snapshot.ofArena, hns, hes]
      exact htext
  · intro hmodest
    obtain ⟨digits, hlt, hlong⟩ := Snapshot.exists_tooLong hlegible hmodest
    exact ⟨Snapshot.text_of_not_modest hmodest, digits, hlt, by rw [ofText, hlong]; rfl⟩

/-- A concept with nested metadata. -/
def limes : Node :=
  { Node.plain "limit" "Limes" with
    metadata := [("größe", .arr [.float 0.5, .int (-12), .obj []]), ("", .null)] }

/-- An edge whose custom label is the name of another kind. -/
def needed : Edge Float := ⟨"sequence", "limit", .custom "Prerequisite", 0.5, .manual⟩

theorem readsBack_half (limit : Option Nat) : Json.ReadsBack limit 0.5 := by
  have htext : Json.floatText 0.5 = "0.5".toList := by decide +kernel
  have hvalue : Decimal.ofDecimal false 5 (-1) = 0.5 := by decide +kernel
  rw [Json.ReadsBack, Json.pretty, Json.render, htext, String.ofList_toList]
  exact congrArg (fun x ↦ Except.ok (Json.float x)) hvalue

/-- A history that ends with both concepts and the edge between them. -/
def limesActs : List (Act Float) :=
  [.addNode limes, .readEdges, .addNode (.plain "sequence" "Folge"), .addEdge needed]

theorem reload_settles_limes :
    (∀ n ∈ (run limesActs).nodes, Json.Legible none (.obj n.metadata)) ∧
    (∀ e ∈ (run limesActs).edges, Json.Legible none (.float e.weight)) ∧
    (Snapshot.ofArena (run limesActs) (some ⟨"1700000000", "0.1.0", none, some 48⟩)).Modest ∧
    ∃ text b, (run limesActs).serialize (some ⟨"1700000000", "0.1.0", none, some 48⟩) = .ok text ∧
      ofText text = .ok b ∧ b.ids = ["limit", "sequence"] ∧ b.edges = [needed] := by
  have hns : (run limesActs).nodes = [limes, .plain "sequence" "Folge"] := rfl
  have hes : (run limesActs).edges = [needed] := (run_holds limesActs).edges
  have hlimes : Json.Legible none (.obj limes.metadata) :=
    ⟨by decide, ⟨fun _ ↦ readsBack_half _, rfl, ⟨List.nodup_nil, trivial⟩, trivial⟩, trivial,
      trivial⟩
  have hnodes : ∀ n ∈ (run limesActs).nodes, Json.Legible none (.obj n.metadata) := by
    rw [hns, List.forall_mem_cons, List.forall_mem_singleton]
    exact ⟨hlimes, List.nodup_nil, trivial⟩
  have hedges : ∀ e ∈ (run limesActs).edges, Json.Legible none (.float e.weight) := by
    rw [hes, List.forall_mem_singleton]
    exact fun _ ↦ readsBack_half _
  have hmodest : (Snapshot.ofArena (run limesActs)
      (some ⟨"1700000000", "0.1.0", none, some 48⟩)).Modest := by
    rw [← Snapshot.within_toJson_iff, ← Json.isWritable_iff, Snapshot.ofArena, hes]
    rfl
  refine ⟨hnodes, hedges, hmodest, ?_⟩
  obtain ⟨text, s, htext, -, -, hread, hids, -, -, hsame, -, -⟩ :=
    (reload_settles limesActs _ hnodes hedges).1 hmodest
  exact ⟨text, s.arena, htext, hread, hids, hsame.trans hes⟩

end Arena

/-! ### An integer that is too long -/

/-- A node with an integer in its metadata. -/
def Node.noted (n : Int) : Node := (Node.plain "a" "A").withMetadata "n" (.int n)

/-- A snapshot of that node alone. -/
def Snapshot.noted (n : Int) : Snapshot := ⟨[.noted n], [], none⟩

theorem Node.legible_noted (n : Int) : Json.Legible none (.obj (noted n).metadata) :=
  ⟨List.nodup_singleton _, rfl, trivial⟩

theorem Snapshot.legible_noted (n : Int) : Json.Legible none (noted n).toJson := by
  refine legible_toJson ?_ (List.forall_mem_nil _) nofun
  exact List.forall_mem_singleton.2 (Node.legible_noted n)

theorem Snapshot.not_modest_noted {n : Int} (h : Json.maxIntegerDigits < Json.digitCount n) :
    ¬ (noted n).Modest := by
  intro hmodest
  have hmetadata := hmodest.metadata _ (List.mem_singleton_self _)
  have hcount := Json.within_obj_iff.1 hmetadata ("n", .int n) (List.mem_singleton_self _)
  exact absurd (Json.within_int_iff.1 hcount) (Nat.not_le.2 h)

namespace Arena

theorem ofArena_run_noted (n : Int) :
    Snapshot.ofArena (run [.addNode (.noted n)]) none = .noted n := by
  have hes : (run [.addNode (.noted n)] : Arena Float).edges = [] := (run_holds _).edges
  rw [Snapshot.ofArena, hes]
  rfl

/-- **A long integer in the metadata of a node leaves an arena without a text**: a reader without a
limit could take all that there is, and still the writer breaks down, and nothing is read back. -/
theorem serialize_noted_long :
    (∀ n ∈ (run [.addNode (.noted (10 ^ 4300))] : Arena Float).nodes,
      Json.Legible none (.obj n.metadata)) ∧
    (run [.addNode (.noted (10 ^ 4300))] : Arena Float).edges = [] ∧
    (run [.addNode (.noted (10 ^ 4300))]).serialize none = breakDown .integerUnwritable ∧
    ¬ ∃ text b, (run [.addNode (.noted (10 ^ 4300))]).serialize none = .ok text ∧
      ofText text = .ok b := by
  have hmodest : ¬ (Snapshot.ofArena (run [.addNode (.noted (10 ^ 4300))]) none).Modest := by
    rw [ofArena_run_noted]
    exact Snapshot.not_modest_noted (Json.lt_digitCount_pow 4300)
  have hserialize := Snapshot.text_of_not_modest hmodest
  refine ⟨List.forall_mem_singleton.2 (Node.legible_noted _), (run_holds _).edges, hserialize, ?_⟩
  rintro ⟨text, b, htext, -⟩
  rw [serialize, hserialize] at htext
  cases htext

end Arena

end ConceptAtlas
