import Mathlib
import ConceptAtlas.Proofs.Decimal.Comparison
import ConceptAtlas.Value.Basic

/-!
# What a key stands for

The keys of a mapping are compared by what they stand for: a truth value and an integer stand for a
number, and so does a double; a moment stands for a point in time, or for the time on a clock if it
has no offset. Two keys are the same exactly if they stand for the same thing (`sameKey_iff`), so to
be the same is an equivalence among the values that can be keys.
-/

namespace ConceptAtlas.Value

/-- What a key can stand for. -/
inductive Identity
  | null
  | number (n : Decimal.Number)
  | text (s : String)
  | day (d : Date)
  | moment (hasOffset : Bool) (microseconds : Int)
  | bytes (bs : List UInt8)

/-- What a value stands for as a key; a collection is no key. -/
def identity? : Value → Option Identity
  | .null => some .null
  | .bool b => some (.number (.rational ((if b then 1 else 0 : Int) : ℚ)))
  | .int n => some (.number (.rational (n : ℚ)))
  | .float x => some (.number (Decimal.number x))
  | .str s => some (.text s)
  | .date d => some (.day d)
  | .moment m =>
    some (.moment m.offset.isSome (m.localMicroseconds - m.offset.getD 0 * 60000000))
  | .bytes bs => some (.bytes bs)
  | .list _ | .pair _ _ | .set _ | .map _ | .again _ => none

/-- A double is compared with an integer by the number that it stands for. -/
theorem floatIsInt_iff {x : Float} {n : Int} :
    floatIsInt x n = true ↔ Decimal.number x = .rational n := by
  rw [floatIsInt, Decimal.number]
  cases Decimal.Binary64.classify x with
  | infinite negative => simp
  | notANumber => simp
  | finite negative b =>
    have hden : (b.ratio.2 : ℚ) ≠ 0 := Nat.cast_ne_zero.2 b.ratio_snd_ne_zero
    have hmagnitude : b.ratio.1 = n.natAbs * b.ratio.2 ↔ b.toRat = |(n : ℚ)| := by
      rw [← Nat.cast_inj (R := ℚ), b.ratio_fst_eq, Nat.cast_mul, mul_left_inj' hden,
        Nat.cast_natAbs, Int.cast_abs]
    have hsign : (n : ℚ) = if decide (n < 0) then -|(n : ℚ)| else |(n : ℚ)| := by
      by_cases h : n < 0
      · simp [h, abs_of_neg (Int.cast_lt_zero.2 h)]
      · simp [h, abs_of_nonneg (Int.cast_nonneg (not_lt.1 h))]
    simp only [Bool.and_eq_true, beq_iff_eq, hmagnitude, Bool.or_eq_true,
      Decimal.Number.rational.injEq]
    constructor
    · rintro ⟨h, rfl | rfl⟩
      · simp [h]
      · rw [h, ← hsign]
    · intro h
      rw [hsign] at h
      obtain ⟨habs, hneg⟩ := Decimal.signed_injective b.toRat_nonneg (abs_nonneg _) h
      refine ⟨habs, or_iff_not_imp_left.2 fun hne ↦ (hneg ?_).symm⟩
      rw [habs, abs_ne_zero]
      exact Int.cast_ne_zero.2 hne

theorem same_iff {m n : Moment} : m.same n = true ↔ m.offset.isSome = n.offset.isSome ∧
    m.localMicroseconds - m.offset.getD 0 * 60000000 =
      n.localMicroseconds - n.offset.getD 0 * 60000000 := by
  rw [Moment.same]
  cases m.offset <;> cases n.offset <;> simp

variable {u v w : Value}

/-- **Two keys are the same exactly if they stand for the same thing.** -/
theorem sameKey_iff :
    sameKey v w = true ↔ v.identity?.isSome = true ∧ v.identity? = w.identity? := by
  cases v <;> cases w
  case float.float x y => simpa [sameKey, identity?] using Decimal.number_eq_iff.symm
  case float.bool | float.int => simp [sameKey, identity?, integerKey?, floatIsInt_iff]
  case bool.float _ x | int.float _ x =>
    simp [sameKey, identity?, integerKey?, floatIsInt_iff, eq_comm (a := Decimal.number x)]
  all_goals simp [sameKey, identity?, integerKey?, same_iff, -Int.cast_ite]

/-- Whether a value can be a key: it stands for something as one. -/
def IsKey (v : Value) : Prop := v.identity?.isSome = true

theorem sameKey_self (h : v.IsKey) : sameKey v v = true := sameKey_iff.2 ⟨h, rfl⟩

theorem sameKey_symm (h : sameKey v w = true) : sameKey w v = true := by
  rw [sameKey_iff] at h ⊢
  exact ⟨h.2 ▸ h.1, h.2.symm⟩

theorem sameKey_trans (hu : sameKey u v = true) (hv : sameKey v w = true) :
    sameKey u w = true := by
  rw [sameKey_iff] at hu hv ⊢
  exact ⟨hu.1, hu.2.trans hv.2⟩

theorem sameKey_congr_left (h : sameKey u v = true) (w : Value) : sameKey u w = sameKey v w :=
  Bool.eq_iff_iff.2 ⟨sameKey_trans (sameKey_symm h), sameKey_trans h⟩

theorem sameKey_congr_right (h : sameKey v w = true) (u : Value) : sameKey u v = sameKey u w :=
  Bool.eq_iff_iff.2 ⟨fun hu ↦ sameKey_trans hu h, fun hu ↦ sameKey_trans hu (sameKey_symm h)⟩

end ConceptAtlas.Value
