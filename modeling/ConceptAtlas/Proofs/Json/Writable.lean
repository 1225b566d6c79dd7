import Mathlib.Algebra.Ring.Int.Defs
import ConceptAtlas.Proofs.Json.Limit
import ConceptAtlas.Proofs.Json.RoundTrip

/-!
# What can be written

A value can be written exactly if none of its integers has more digits than the limit
(`isWritable_iff`). That limit is also the one of the reader: a value that a reader without a limit
can take, and that can be written, is one that the reader with the limit can take
(`Legible.of_within`). And a text that spells a value beyond the limit breaks that reader down
(`exists_tooLong`), so what cannot be written could not be read either.

Doubles do not come into this. A number with a point or an exponent is read in the same way whatever
the limit is (`parseWithin_float`), although it may have as many digits as it likes.
-/

namespace ConceptAtlas.Json

variable {limit : Option Nat} {most : Nat} {j : Json} {x : Float}

/-! ### Integers of a value -/

@[simp] theorem within_null : Json.null.Within most := nofun

@[simp] theorem within_bool (b : Bool) : (Json.bool b).Within most := nofun

@[simp] theorem within_float (x : Float) : (Json.float x).Within most := nofun

@[simp] theorem within_str (s : String) : (Json.str s).Within most := nofun

@[simp] theorem within_ofText? (s : Option String) : (ofText? s).Within most := by
  cases s with
  | none => exact within_null
  | some s => exact within_str s

@[simp] theorem within_int_iff {n : Int} : (Json.int n).Within most ↔ digitCount n ≤ most :=
  ⟨fun h ↦ h n .int, fun h _ hn ↦ by cases hn; exact h⟩

@[simp] theorem within_arr_iff {items : List Json} :
    (Json.arr items).Within most ↔ ∀ j ∈ items, j.Within most :=
  ⟨fun h _ hj _ hn ↦ h _ (.arr hj hn), .arr⟩

@[simp] theorem within_obj_iff {fields : List (String × Json)} :
    (Json.obj fields).Within most ↔ ∀ f ∈ fields, f.2.Within most := by
  constructor
  · exact fun h f hf n hn ↦ h n (.obj hf hn)
  · rintro h n (- | - | ⟨hf, hn⟩)
    exact h _ hf n hn

theorem lt_digitCount_pow (k : Nat) : k < digitCount (10 ^ k) := by
  rw [digitCount, Int.natAbs_pow]
  rcases Nat.eq_zero_or_pos k with rfl | hk
  · exact Nat.length_toDigits_pos
  · rw [← Nat.not_le, Nat.length_toDigits_le_iff (by decide) hk]
    exact Nat.lt_irrefl _

/-! ### Writing -/

mutual

/-- **What can be written** has no integer beyond the limit. -/
theorem isWritable_iff : (j : Json) → (j.isWritable = true ↔ j.Within maxIntegerDigits)
  | .null | .bool _ | .float _ | .str _ => iff_of_true rfl (by simp)
  | .int n => by
    rw [within_int_iff]
    exact decide_eq_true_iff
  | .arr items => (areWritable_iff items).trans within_arr_iff.symm
  | .obj fields => (areEntriesWritable_iff fields).trans within_obj_iff.symm

theorem areWritable_iff : (items : List Json) →
    (Value.areWritable (Value.ofItems items) = true ↔ ∀ j ∈ items, j.Within maxIntegerDigits)
  | [] => iff_of_true rfl (List.forall_mem_nil _)
  | j :: items => by
    rw [Value.ofItems, Value.areWritable, Bool.and_eq_true, ← isWritable, isWritable_iff j,
      areWritable_iff items, List.forall_mem_cons]

theorem areEntriesWritable_iff : (fields : List (String × Json)) →
    (Value.areEntriesWritable (Value.ofFields fields) = true ↔
      ∀ f ∈ fields, f.2.Within maxIntegerDigits)
  | [] => iff_of_true rfl (List.forall_mem_nil _)
  | (k, j) :: fields => by
    have hkey : (Value.str k).isWritable = true := rfl
    rw [Value.ofFields, Value.areEntriesWritable, hkey, Bool.true_and, Bool.and_eq_true,
      ← isWritable, isWritable_iff j, areEntriesWritable_iff fields, List.forall_mem_cons]

end

/-! ### Reading doubles -/

theorem unsignedNumber_float {negative : Bool} {cs rest : List Char}
    (h : unsignedNumber none negative cs = .ok (.float x, rest)) :
    unsignedNumber limit negative cs = .ok (.float x, rest) := by
  simp only [unsignedNumber] at h ⊢
  split at h
  · cases h
  · rename_i hwhole
    rw [if_neg hwhole]
    split at h
    · exact h
    · split at h
      · cases h
      · rename_i hplaces
        rw [if_neg hplaces]
        exact h

theorem word_float {cs rest : List Char} (h : word none cs = .ok (.float x, rest)) :
    word limit cs = .ok (.float x, rest) := by
  simp only [word] at h ⊢
  split at h
  · exact h
  · simp only [number] at h ⊢
    split at h
    · split at h
      · exact h
      · exact unsignedNumber_float h
    · exact unsignedNumber_float h

theorem readValue_float {fuel : Nat} {cs rest : List Char}
    (h : readValue none fuel cs = .ok (.float x, rest)) :
    readValue limit fuel cs = .ok (.float x, rest) := by
  cases fuel with
  | zero => cases h
  | succ fuel =>
    simp only [readValue] at h ⊢
    split at h
    · split at h <;> cases h
    · split at h
      · cases h
      · obtain ⟨_, -, h⟩ := bind_eq_ok.1 h
        cases h
    · split at h
      · cases h
      · obtain ⟨_, -, h⟩ := bind_eq_ok.1 h
        cases h
    · exact word_float h

/-- **A text that spells a double spells it for every reader.** -/
theorem parseWithin_float {s : String} (h : parseWithin none s = .ok (.float x)) :
    parseWithin limit s = .ok (.float x) := by
  obtain ⟨⟨value, rest⟩, hread, h⟩ := bind_eq_ok.1 h
  simp only at h
  split at h
  · rename_i hrest
    cases h
    refine bind_eq_ok.2 ⟨_, readValue_float hread, ?_⟩
    simp only [hrest]
    rfl
  · cases h

/-! ### Reading what was written -/

mutual

/-- A reader with a limit can take what a reader without one can take, within the limit. -/
theorem Legible.of_within : (j : Json) → Legible none j → j.Within most → Legible (some most) j
  | .null, _, _ | .bool _, _, _ | .str _, _, _ => trivial
  | .int n, _, hwithin => by
    rw [Legible, fits, Option.all_some, decide_eq_true_iff]
    exact within_int_iff.1 hwithin
  | .float _, h, _ => fun hfinite ↦ parseWithin_float (h hfinite)
  | .arr items, h, hwithin => Legible.items_of_within items h (within_arr_iff.1 hwithin)
  | .obj fields, h, hwithin =>
    ⟨h.1, Legible.fields_of_within fields h.2 (within_obj_iff.1 hwithin)⟩

theorem Legible.items_of_within : (items : List Json) → LegibleItems none items →
    (∀ j ∈ items, j.Within most) → LegibleItems (some most) items
  | [], _, _ => trivial
  | j :: items, h, hwithin =>
    ⟨Legible.of_within j h.1 (List.forall_mem_cons.1 hwithin).1,
      Legible.items_of_within items h.2 (List.forall_mem_cons.1 hwithin).2⟩

theorem Legible.fields_of_within : (fields : List (String × Json)) → LegibleFields none fields →
    (∀ f ∈ fields, f.2.Within most) → LegibleFields (some most) fields
  | [], _, _ => trivial
  | (_, j) :: fields, h, hwithin =>
    ⟨Legible.of_within j h.1 (List.forall_mem_cons.1 hwithin).1,
      Legible.fields_of_within fields h.2 (List.forall_mem_cons.1 hwithin).2⟩

end

/-- **A text of a value beyond the limit breaks the reader down**, whatever its layout. -/
theorem exists_tooLong {s : String} (h : parseWithin none s = .ok j) (hbeyond : ¬ j.Within most) :
    ∃ digits, most < digits ∧ parseWithin (some most) s = .error (.integerTooLong digits) := by
  rcases parseWithin_limited (some most) s with hsame | ⟨most', digits, hlimit, hlt, hlong⟩
  · exact absurd (within_of_parseWithin (hsame.trans h)) hbeyond
  · cases hlimit
    exact ⟨digits, hlt, hlong⟩

end ConceptAtlas.Json
