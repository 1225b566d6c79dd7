import ConceptAtlas.Json.Printer
import ConceptAtlas.Proofs.Json.Word
import ConceptAtlas.Text.Lines

/-!
# What a written value looks like

The text of a JSON value has no control characters but its line feeds: those of its texts are
escaped, and numbers have none (`Json.written_render`). So a reader that takes every line end for a
line feed gets it as it was written (`Json.normalizeNewlines_pretty`).
-/

namespace ConceptAtlas

/-! ### Written text -/

namespace Text

/-- Text with line feeds for its only control characters. -/
def Written (cs : List Char) : Prop := ∀ c ∈ cs, c = '\n' ∨ 0x20 ≤ c.toNat

variable {c : Char} {cs ds : List Char}

instance (cs : List Char) : Decidable (Written cs) :=
  List.decidableBAll (fun c ↦ c = '\n' ∨ 0x20 ≤ c.toNat) cs

@[simp] theorem written_nil : Written [] := List.forall_mem_nil _

@[simp] theorem written_cons : Written (c :: cs) ↔ (c = '\n' ∨ 0x20 ≤ c.toNat) ∧ Written cs :=
  List.forall_mem_cons

@[simp] theorem written_append : Written (cs ++ ds) ↔ Written cs ∧ Written ds :=
  List.forall_mem_append

theorem written_flatMap {α : Type} {f : α → List Char} {as : List α} (h : ∀ a ∈ as, Written (f a)) :
    Written (as.flatMap f) := by
  intro c hc
  obtain ⟨a, ha, hmem⟩ := List.mem_flatMap.1 hc
  exact h a ha c hmem

theorem Written.ite {p : Prop} [Decidable p] (hcs : Written cs) (hds : Written ds) :
    Written (if p then cs else ds) := by
  split
  · exact hcs
  · exact hds

theorem Written.of_subset (h : Written ds) (hsub : ∀ c ∈ cs, c ∈ ds) : Written cs := fun c hc ↦
  h c (hsub c hc)

theorem written_replicate (n : Nat) (h : Written [c]) : Written (List.replicate n c) :=
  h.of_subset fun _ hd ↦ List.mem_singleton.2 (List.eq_of_mem_replicate hd)

/-- Where every line end is a line feed there is none to replace. -/
theorem Written.normalizeNewlines_eq (h : Written cs) : normalizeNewlines cs = cs := by
  have hreturn : ¬ Written ['\r'] := by decide
  fun_induction normalizeNewlines cs with
  | case1 => rfl
  | case2 => exact absurd (h.of_subset (by simp)) hreturn
  | case3 => exact absurd (h.of_subset (by simp)) hreturn
  | case4 c cs _ _ ih => rw [ih (written_cons.1 h).2]

end Text

open Text (Written)

/-! ### Numbers -/

namespace Decimal

theorem written_toDigits (n : Nat) : Written (Nat.toDigits 10 n) := by
  intro c hc
  have hdigit := Nat.isDigit_of_mem_toDigits (by decide) (by decide) hc
  rw [Char.isDigit, Bool.and_eq_true, decide_eq_true_iff, decide_eq_true_iff] at hdigit
  exact .inr (Nat.le_trans (by decide) (UInt32.le_iff_toNat_le.1 hdigit.1))

theorem written_zeros (n : Nat) : Written (List.replicate n '0') :=
  Text.written_replicate n (by decide)

theorem written_padded (width n : Nat) : Written (padded width n).toList := by
  rw [padded, String.toList_ofList]
  exact Text.written_append.2 ⟨written_zeros _, written_toDigits n⟩

theorem written_positional {ds : List Char} (h : Written ds) (point : Int) :
    Written (positional ds point).toList := by
  have htake : Written (ds.take point.toNat) := h.of_subset fun c hc ↦ List.mem_of_mem_take hc
  have hdrop : Written (ds.drop point.toNat) := h.of_subset fun c hc ↦ List.mem_of_mem_drop hc
  rw [positional]
  split
  · simp [h, written_zeros]
  · dsimp only
    split
    · simp [htake, written_zeros]
    · simp [htake, hdrop, written_zeros]

theorem written_scientific {ds : List Char} (h : Written ds) (width : Nat) (exponent : Int) :
    Written (scientific width ds exponent).toList := by
  have htake : Written (ds.take 1) := h.of_subset fun c hc ↦ List.mem_of_mem_take hc
  have hdrop : Written (ds.drop 1) := h.of_subset fun c hc ↦ List.mem_of_mem_drop hc
  have hpadded := written_padded width exponent.natAbs
  have hfraction : Written (if (ds.drop 1).isEmpty then [] else '.' :: ds.drop 1) :=
    .ite Text.written_nil (Text.written_cons.2 ⟨.inr (by decide), hdrop⟩)
  have hsign : Written (if exponent < 0 then "-" else "+").toList := by
    split <;> decide
  have hletter : Written "e".toList := by decide
  simp only [scientific, toString, String.toList_append, String.toList_ofList,
    Text.written_append]
  exact ⟨⟨⟨⟨htake, hfraction⟩, hletter⟩, hsign⟩, hpadded⟩

theorem written_magnitude (l : Layout) (b : Binary64) : Written (l.magnitude b).toList := by
  rw [Layout.magnitude]
  split
  · exact written_positional (by decide) 1
  · have hds : Written
        ((Nat.toDigits 10 (shortest b).digits).reverse.dropWhile (· == '0')).reverse := by
      refine (written_toDigits (shortest b).digits).of_subset fun c hc ↦ ?_
      exact List.mem_reverse.1 (List.dropWhile_subset _ (List.mem_reverse.1 hc))
    dsimp only
    split
    · exact written_positional hds _
    · exact written_scientific hds _ _

end Decimal

/-! ### Values -/

namespace Json

variable (charset : Charset)

theorem written_hexDigits (width n : Nat) : Written (Text.hexDigits width n) := by
  induction width generalizing n with
  | zero => exact Text.written_nil
  | succ width ih =>
    have hdigit : ∀ d < 16, Written [Nat.digitChar d] := by decide
    rw [Text.hexDigits]
    exact Text.written_append.2 ⟨ih _, hdigit _ (Nat.mod_lt _ (by decide))⟩

theorem written_unitEscape (n : Nat) : Written (unitEscape n) :=
  Text.written_append.2 ⟨by decide, written_hexDigits 4 n⟩

theorem written_escapeChar (c : Char) : Written (escapeChar charset c) := by
  have hunits : Written ((units c.toNat).flatMap unitEscape) :=
    Text.written_flatMap fun n _ ↦ written_unitEscape n
  rw [escapeChar]
  -- Seven characters have an escape of two signs.
  iterate 7 refine .ite (by decide) ?_
  split
  · exact written_unitEscape _
  · rename_i hlow
    exact .ite hunits (Text.written_cons.2 ⟨.inr (Nat.not_lt.1 hlow), Text.written_nil⟩)

theorem written_quote (s : String) : Written (quote charset s) := by
  have hbody := Text.written_flatMap fun c (_ : c ∈ s.toList) ↦ written_escapeChar charset c
  have hmark : Written ['"'] := by decide
  rw [quote, List.cons_append, ← List.singleton_append]
  exact Text.written_append.2 ⟨hmark, Text.written_append.2 ⟨hbody, hmark⟩⟩

theorem written_floatText (x : Float) : Written (floatText x) := by
  rw [floatText, Decimal.Layout.text]
  split
  · decide
  · split <;> decide
  · rw [String.toList_append]
    refine Text.written_append.2 ⟨?_, Decimal.written_magnitude _ _⟩
    split <;> decide

theorem written_newline (level : Nat) : Written (newline level) :=
  Text.written_cons.2 ⟨.inl rfl, Text.written_replicate _ (by decide)⟩

theorem written_toString (n : Int) : Written (toString n).toList := by
  rw [toList_toString]
  split
  · exact Text.written_cons.2 ⟨.inr (by decide), Decimal.written_toDigits _⟩
  · exact Decimal.written_toDigits _

mutual

theorem written_render (level : Nat) : (j : Json) → Written (render charset level j)
  | .null => show Written "null".toList by decide
  | .bool true => show Written "true".toList by decide
  | .bool false => show Written "false".toList by decide
  | .int n => written_toString n
  | .float x => written_floatText x
  | .str s => written_quote charset s
  | .arr [] => show Written ['[', ']'] by decide
  | .arr (j :: js) => by
    have hj := written_render (level + 1) j
    have hjs := written_renderItems (level + 1) js
    simp [render, hj, hjs, written_newline]
  | .obj [] => show Written ['{', '}'] by decide
  | .obj ((k, j) :: fs) => by
    have hk := written_quote charset k
    have hj := written_render (level + 1) j
    have hfs := written_renderFields (level + 1) fs
    simp [render, hk, hj, hfs, written_newline]

theorem written_renderItems (level : Nat) : (js : List Json) →
    Written (renderItems charset level js)
  | [] => Text.written_nil
  | j :: js => by
    have hj := written_render level j
    have hjs := written_renderItems level js
    simp [renderItems, hj, hjs, written_newline]

theorem written_renderFields (level : Nat) : (fs : List (String × Json)) →
    Written (renderFields charset level fs)
  | [] => Text.written_nil
  | (k, j) :: fs => by
    have hk := written_quote charset k
    have hj := written_render level j
    have hfs := written_renderFields level fs
    simp [renderFields, hk, hj, hfs, written_newline]

end

/-- A written value has no line end to replace. -/
theorem normalizeNewlines_pretty (j : Json) :
    Text.normalizeNewlines (j.pretty charset).toList = (j.pretty charset).toList := by
  rw [pretty, String.toList_ofList, (written_render charset 0 j).normalizeNewlines_eq]

end Json

end ConceptAtlas
